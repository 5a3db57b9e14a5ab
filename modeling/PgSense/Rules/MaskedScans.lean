import PgSense.Rules.CardMatches
import PgSense.Rules.EmailAddresses
import PgSense.Rules.EngineScan
import PgSense.Rules.IbanMatches
import PgSense.Rules.MaskedSamples
import PgSense.Rules.PhoneMatches
import PgSense.Rules.SsnMatches

/-! What the detectors find in a masked sample. Every match has a longer stretch of ASCII text
without an asterisk than a mask shows. -/

namespace PgSense
open Library
set_option autoImplicit false

/-- Three ASCII bytes or more in a row, none of them an asterisk. -/
def HasStretch (bytes : List UInt8) : Prop :=
  ∃ r, r <:+: bytes ∧ 3 ≤ r.length ∧ ∀ b ∈ r, isAsciiByte b = true ∧ b ≠ 42

theorem HasStretch.slice {value m : String} {i j : Nat} (h : HasStretch (utf8 m))
    (hslice : slice? value i j = some m) : HasStretch (utf8 value) := by
  obtain ⟨r, hr, hplain⟩ := h
  obtain ⟨pre, post, hvalue, _⟩ := bytes_of_slice? hslice
  refine ⟨r, hr.trans ?_, hplain⟩
  rw [hvalue, ← List.append_assoc]
  exact ⟨pre, post, rfl⟩

section Masks

/-- At most one byte of a character is an ASCII byte. -/
theorem countP_encode_le (cs : List Char) : (encode cs).countP isAsciiByte ≤ cs.length := by
  induction cs with
  | nil => exact Nat.le_refl 0
  | cons c cs ih =>
    have hchar : (String.utf8EncodeChar c).countP isAsciiByte ≤ 1 := by
      by_cases hsome : ∃ b ∈ String.utf8EncodeChar c, isAsciiByte b = true
      · obtain ⟨b, hb, hascii⟩ := hsome
        rw [encodeChar_ascii hb hascii]
        exact List.countP_le_length
      · have hnone : (String.utf8EncodeChar c).countP isAsciiByte = 0 :=
          List.countP_eq_zero.mpr fun b hb hascii => hsome ⟨b, hb, hascii⟩
        omega
    rw [encode_cons, List.countP_append, List.length_cons]
    omega

theorem encode_stars (n : Nat) : encode (List.replicate n '*') = List.replicate n 42 := by
  induction n with
  | zero => rfl
  | succ n ih =>
    rw [List.replicate_succ, encode_cons, ih]
    rfl

theorem utf8_mask (s : String) : ∃ front back n,
    utf8 (mask s) = encode front ++ (List.replicate n 42 ++ encode back) ∧
      front.length ≤ 2 ∧ back.length ≤ 2 ∧ (0 < n ∨ encode front = []) := by
  rw [utf8_eq_encode]
  rcases Nat.lt_or_ge s.toList.length 8 with hshort | hlong
  · refine ⟨[], [], s.toList.length, ?_, Nat.zero_le _, Nat.zero_le _, .inr rfl⟩
    rw [toList_mask_short hshort, encode_stars]
    exact (List.append_nil _).symm
  · refine ⟨s.toList.take 2, s.toList.drop (s.toList.length - 2), s.toList.length - 2 * 2, ?_, ?_,
      ?_, .inl (by omega)⟩
    · rw [toList_mask hlong, redact, encode_append, encode_append, encode_stars, List.append_assoc]
    · exact List.length_take_le 2 _
    · rw [List.length_drop]
      omega

/-- A mask shows no more than two characters in a row. -/
theorem no_stretch_of_mask (s : String) : ¬ HasStretch (utf8 (mask s)) := by
  rintro ⟨r, hinfix, hlong, hplain⟩
  obtain ⟨front, back, n, hmask, hfront, hback, hn⟩ := utf8_mask s
  have hstar : (42 : UInt8) ∉ r := fun hmem => (hplain 42 hmem).2 rfl
  have hall : r.countP isAsciiByte = r.length :=
    List.countP_eq_length.mpr fun b hb => (hplain b hb).1
  rw [hmask] at hinfix
  have hshown : ∀ cs : List Char, cs.length ≤ 2 → ¬ r <:+: encode cs := by
    intro cs hcs hinfix
    have hle := hinfix.sublist.countP_le (p := isAsciiByte)
    have hcount := countP_encode_le cs
    omega
  rcases infix_of_avoids_fillers hinfix hstar hn with hinfix | hinfix
  · exact hshown front hfront hinfix
  · exact hshown back hback hinfix

end Masks

section Matches
variable {value m : String} {i j : Nat}

theorem ne_star_of_digit {b : UInt8} (h : isAsciiDigit b = true) : b ≠ 42 := by
  rintro rfl
  cases h

theorem ne_star_of_groupSeparator {b : UInt8} (h : isGroupSeparator b = true) : b ≠ 42 := by
  rintro rfl
  cases h

theorem CreditCard.CardAt.stretch (h : CardAt value i j m) : HasStretch (utf8 m) := by
  have hlow := h.digits.1
  have hle : (utf8 m).countP isAsciiDigit ≤ (utf8 m).length := List.countP_le_length
  refine ⟨utf8 m, List.infix_refl _, by omega, ?_⟩
  intro b hb
  cases hdigit : isAsciiDigit b with
  | true => exact ⟨isAsciiByte_of_digit b hdigit, ne_star_of_digit hdigit⟩
  | false =>
    obtain ⟨front, back, hsplit⟩ := List.append_of_mem hb
    have hsep := (h.inner front b back hsplit hdigit).1
    exact ⟨isAsciiByte_of_groupSeparator hsep, ne_star_of_groupSeparator hsep⟩

theorem Iban.IbanAt.stretch (h : IbanAt value i j m) : HasStretch (utf8 m) := by
  obtain ⟨c0, c1, d0, d1, rest, hbytes, hc0, hc1, hd0, _, _⟩ := h.opening
  have hupper : ∀ {c : UInt8}, isAsciiUppercase c = true → isAsciiByte c = true ∧ c ≠ 42 := by
    intro c hc
    refine ⟨isAsciiByte_of_alphanumeric (isAlphanumeric_of_uppercase hc), ?_⟩
    rintro rfl
    cases hc
  refine ⟨[c0, c1, d0], ⟨[], d1 :: rest, hbytes.symm⟩, Nat.le_refl 3, ?_⟩
  rw [List.forall_mem_cons, List.forall_mem_cons, List.forall_mem_singleton]
  exact ⟨hupper hc0, hupper hc1, isAsciiByte_of_digit d0 hd0, ne_star_of_digit hd0⟩

theorem Phone.Number.stretch {sep : UInt8 → Bool} {ys : List UInt8} (h : Number sep ys)
    (hsep : ∀ b, sep b = true → isAsciiByte b = true) (hstar : sep 42 = false)
    (hlow : 3 ≤ ys.countP isAsciiDigit) (pre : List UInt8) : HasStretch (pre ++ ys) := by
  have hle : ys.countP isAsciiDigit ≤ ys.length := List.countP_le_length
  refine ⟨ys, (List.suffix_append pre ys).isInfix, by omega, ?_⟩
  intro b hb
  refine ⟨h.ascii hsep b hb, ?_⟩
  rintro rfl
  rcases h.inner 42 hb with hdigit | hs
  · cases hdigit
  · rw [hstar] at hs
    cases hs

theorem Phone.Shape.stretch {bytes : List UInt8} (h : Shape bytes) : HasStretch bytes := by
  cases h with
  | plus hys hlow _ =>
    exact hys.stretch isAsciiByte_of_internationalSeparator rfl (by omega) [43]
  | zeros hys hlow _ =>
    exact hys.stretch isAsciiByte_of_internationalSeparator rfl (by omega) [48, 48]
  | national _ hys hcount _ _ _ =>
    exact hys.stretch isAsciiByte_of_nanpSeparator rfl (by omega) _

theorem Ssn.IsSsn.stretch (h : IsSsn m) : HasStretch (utf8 m) := by
  obtain ⟨area, group, serial, sep, hparts, hdigits, _⟩ := h
  refine ⟨area, ⟨[], sep :: (group ++ sep :: serial), hparts.bytes_eq.symm⟩,
    Nat.le_of_eq hparts.area.symm, ?_⟩
  intro b hb
  have hdigit := hdigits b (List.mem_append_left _ hb)
  exact ⟨isAsciiByte_of_digit b hdigit, ne_star_of_digit hdigit⟩

/-- The `@` of an address and its domain, which has no asterisk. -/
theorem Validators.stretch_of_email (h : email m = true) : HasStretch (utf8 m) := by
  obtain ⟨localPart, domain, hbytes, _, hdomain⟩ := (email_eq_true m).mp h
  have hchars := mem_emailDomain hdomain
  have hlong : 2 ≤ domain.length := by
    simp only [emailDomainOk, Bool.and_eq_true, decide_eq_true_eq] at hdomain
    obtain ⟨front, hfront, _⟩ := exists_last_piece 46 domain
    have hlen := congrArg List.length hfront
    rw [List.length_append] at hlen
    omega
  refine ⟨64 :: domain, ⟨localPart, [], ?_⟩, Nat.succ_le_succ hlong, ?_⟩
  · rw [List.append_nil, hbytes]
  · refine List.forall_mem_cons.mpr ⟨⟨rfl, by decide⟩, ?_⟩
    intro b hb
    rcases (Email.isDomainChar_iff b).mp (hchars b hb) with halnum | hmark
    · refine ⟨isAsciiByte_of_alphanumeric halnum, ?_⟩
      rintro rfl
      cases halnum
    · rcases Email.eq_of_trimmed hmark with rfl | rfl
      · exact ⟨rfl, by decide⟩
      · exact ⟨rfl, by decide⟩

theorem stretch_of_scan (cr : Crates) (d : Detector) (h : m ∈ d.scan cr value) :
    HasStretch (utf8 value) := by
  have hstep := h
  rw [Detector.scan_eq] at hstep
  obtain ⟨p, _, _, hp⟩ := exists_of_mem_scanLoop hstep
  cases d with
  | creditCard =>
    have hcard := CreditCard.cardAt_of_step (Prod.ext hp rfl)
    exact hcard.stretch.slice hcard.slice
  | email =>
    have hfound := (Email.step_eq_some.mp hp).2
    have hvalid := (Option.filter_eq_some_iff.mp hfound).2
    exact (Validators.stretch_of_email hvalid).slice (Email.slice_of_found hfound)
  | iban =>
    obtain ⟨stop, hiban⟩ := Iban.ibanAt_of_step hp
    exact hiban.stretch.slice hiban.slice
  | phone =>
    have hphone : m ∈ Phone.scan cr value := h
    rw [Phone.scan_eq_scanWith] at hphone
    obtain ⟨p, _, _, hp⟩ := exists_of_mem_scanLoop hphone
    have hnumber := Phone.numberAt_of_step (Prod.ext hp rfl)
    exact hnumber.shape.stretch.slice hnumber.slice
  | ssn =>
    obtain ⟨haccepted, hlayout⟩ := Ssn.step_eq_some.mp hp
    obtain ⟨_, _, hslice, hvalid⟩ := Ssn.acceptedAt_eq_some.mp haccepted
    rcases Ssn.isSsn_or_signed hvalid with hssn | hsigned
    · exact hssn.stretch.slice hslice
    · rw [Ssn.layoutAt_of_signed hsigned] at hlayout
      cases hlayout

end Matches

/-- No detector finds anything in a masked sample, so a builtin rule has nothing to say about
samples that are stored where they are scanned. -/
theorem masked_samples_unfound (cr : Crates) (s : String) :
    (∀ d : Detector, d.scan cr (mask s) = []) ∧
      ∀ e : RuleEngine, e.scanBuiltinPhase cr (mask s) = [] := by
  have hnone : ∀ d : Detector, d.scan cr (mask s) = [] := by
    intro d
    apply List.eq_nil_iff_forall_not_mem.mpr
    intro m hm
    exact no_stretch_of_mask s (stretch_of_scan cr d hm)
  refine ⟨hnone, ?_⟩
  intro e
  rw [scanBuiltinPhase_eq, List.flatMap_eq_nil_iff]
  intro i _
  cases hrule : e.rules[i]? with
  | none => rfl
  | some rule =>
    rw [builtin_visit]
    cases rule.kind with
    | regex regex validator => rfl
    | builtin d => simp [hnone d]
    | script ast => rfl

end PgSense
