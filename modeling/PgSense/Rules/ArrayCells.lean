import PgSense.Events
import PgSense.Rules.Delimiters

/-! What the detectors find in the text scanned for an array column, against what they find
in its elements. -/

namespace PgSense
open Library
set_option autoImplicit false

namespace Email

/-- The `@` at byte `p` of `t` is that of a valid address. -/
def FindsAt (t : String) (p : Nat) (m : String) : Prop :=
  byteAt (· == 64) (utf8 t) p = true ∧ found t p = some m

/-- The address begins the text, and its local part is shorter than 64 bytes. -/
def OpensAt (t : String) (p : Nat) (m : String) : Prop :=
  p < 64 ∧ localStart (utf8 t) 0 p = 0 ∧ FindsAt t p m

theorem step_eq_some {t m : String} {p : Nat} : (step t p).1 = some m ↔ FindsAt t p m := by
  simp only [step, FindsAt]
  cases byteAt (· == 64) (utf8 t) p with
  | true => simp
  | false => simp

theorem mem_scan {t m : String} : m ∈ scan t ↔ ∃ p, FindsAt t p m := by
  rw [scan_eq_filterMap, List.mem_filterMap]
  constructor
  · intro h
    obtain ⟨p, _, hp⟩ := h
    exact ⟨p, step_eq_some.mp hp⟩
  · intro h
    obtain ⟨p, hp⟩ := h
    exact ⟨p, List.mem_range.mpr (lt_of_byteAt hp.1), step_eq_some.mpr hp⟩

theorem not_findsAt_null (p : Nat) (m : String) : ¬ FindsAt "NULL" p m := by
  intro h
  obtain ⟨b, hb, hat⟩ := byteAt_iff.mp h.1
  have hall : (utf8 "NULL").all (fun b => !(b == 64)) = true := by decide
  have hother := List.all_eq_true.mp hall b (List.mem_of_getElem? hb)
  rw [hat] at hother
  cases hother

theorem localStart_eq_zero {bytes : List UInt8} {n : Nat} : localStart bytes 0 n = 0 ↔
    ∀ i, i < n → byteAt Validators.isEmailLocalChar bytes i = true := by
  induction n with
  | zero => exact ⟨fun _ i hi => absurd hi (Nat.not_lt_zero i), fun _ => rfl⟩
  | succ n ih =>
    rw [localStart]
    constructor
    · intro h i hi
      split at h
      · rename_i hbyte
        rw [Bool.and_eq_true] at hbyte
        by_cases hlast : i = n
        · rw [hlast]
          exact hbyte.2
        · exact ih.mp h i (by omega)
      · omega
    · intro h
      rw [if_pos (by simp [h n (by omega)])]
      exact ih.mpr (fun i hi => h i (by omega))

/-- No `@` stands in a local part, so only the first one has a local part from the start. -/
theorem opening_unique {bytes : List UInt8} {p q : Nat}
    (hp : byteAt (· == 64) bytes p = true) (hpstart : localStart bytes 0 p = 0)
    (hq : byteAt (· == 64) bytes q = true) (hqstart : localStart bytes 0 q = 0) : p = q := by
  have hno : ∀ i, byteAt (· == 64) bytes i = true →
      byteAt Validators.isEmailLocalChar bytes i = true → False := by
    intro i hat hlocal
    obtain ⟨b, hb, hbat⟩ := byteAt_iff.mp hat
    obtain ⟨b', hb', hblocal⟩ := byteAt_iff.mp hlocal
    rw [hb] at hb'
    cases hb'
    rw [eq_of_beq hbat] at hblocal
    cases hblocal
  rcases Nat.lt_trichotomy p q with hlt | heq | hlt
  · exact (hno p hp (localStart_eq_zero.mp hqstart p hlt)).elim
  · exact heq
  · exact (hno q hq (localStart_eq_zero.mp hpstart q hlt)).elim

theorem slice_of_found {t m : String} {p : Nat} (h : found t p = some m) :
    slice? t (localStart (utf8 t) (p - 64) p) (candidateEnd (utf8 t) p) = some m := by
  obtain ⟨hextract, hvalid⟩ := Option.filter_eq_some_iff.mp h
  have hslice : slice t (localStart (utf8 t) (p - 64) p) (candidateEnd (utf8 t) p) = m :=
    (slice_of_extractCandidate hextract).symm
  rw [slice] at hslice
  cases hs : slice? t (localStart (utf8 t) (p - 64) p) (candidateEnd (utf8 t) p) with
  | none =>
    rw [hs] at hslice
    rw [← hslice] at hvalid
    exact absurd hvalid (by decide)
  | some s =>
    rw [hs] at hslice
    rw [← hslice]
    rfl

theorem candidateEnd_framed {pre post : List Char} {inner value : String}
    (hf : Framed pre post inner value) {p : Nat} (hp : p < (utf8 inner).length) :
    candidateEnd (utf8 value) ((encode pre).length + p) =
      (encode pre).length + candidateEnd (utf8 inner) p := by
  obtain ⟨hdomain, hle⟩ := domainEnd_framed hf 253 (Nat.succ_le_of_lt hp)
  obtain ⟨htrim, _⟩ := trimEnd_framed hf (le_domainEnd (utf8 inner) 253 (p + 1)) hle
  rw [candidateEnd, Nat.add_assoc, hdomain, htrim, candidateEnd]

section Brace
variable {t m : String} {p : Nat}

theorem framed_brace (t : String) : Framed ['{'] [] t ("\x7b" ++ t) := by
  refine ⟨by simp, ?_⟩
  intro b hb
  cases hb

theorem step_brace (hp : p < (utf8 t).length) (h : 64 ≤ p ∨ 0 < localStart (utf8 t) (p - 64) p) :
    (step ("\x7b" ++ t) (1 + p)).1 = (step t p).1 := by
  have hone : (encode ['{']).length = 1 := by decide
  have hstep := (step_framed (framed_brace t) hp (.inr h.symm)).1
  rw [hone] at hstep
  rw [hstep]

/-- A local part stops inside the text, or takes its 64 bytes there, or reaches back to the
start of the text. -/
theorem inside_or_opening (t : String) (p : Nat) :
    (64 ≤ p ∨ 0 < localStart (utf8 t) (p - 64) p) ∨ p < 64 ∧ localStart (utf8 t) 0 p = 0 := by
  by_cases hlong : 64 ≤ p
  · exact .inl (.inl hlong)
  · have hzero : p - 64 = 0 := by omega
    rw [hzero]
    omega

theorem inside_or_opensAt (h : FindsAt t p m) :
    (64 ≤ p ∨ 0 < localStart (utf8 t) (p - 64) p) ∨ OpensAt t p m := by
  rcases inside_or_opening t p with hinside | ⟨hnear, hstart⟩
  · exact .inl hinside
  · exact .inr ⟨hnear, hstart, h⟩

theorem findsAt_brace (h : FindsAt t p m) (hopen : ¬ OpensAt t p m) :
    FindsAt ("\x7b" ++ t) (1 + p) m := by
  have hinside := (inside_or_opensAt h).resolve_right hopen
  rw [← step_eq_some, step_brace (lt_of_byteAt h.1) hinside]
  exact step_eq_some.mpr h

/-- The brace becomes the first character of an address that begins the text. -/
theorem not_findsAt_brace (h : OpensAt t p m) : ¬ FindsAt ("\x7b" ++ t) (1 + p) m := by
  intro hbrace
  obtain ⟨hp, hstart, hfinds⟩ := h
  have hlt := lt_of_byteAt hfinds.1
  have hf := framed_brace t
  have hend : candidateEnd (utf8 ("\x7b" ++ t)) (1 + p) = 1 + candidateEnd (utf8 t) p :=
    candidateEnd_framed hf hlt
  have hlocal : localStart (utf8 ("\x7b" ++ t)) 0 (1 + p) = 0 := by
    apply localStart_eq_zero.mpr
    intro i hi
    cases i with
    | zero =>
      rw [hf.bytes]
      rfl
    | succ i =>
      have hbyte : byteAt Validators.isEmailLocalChar (utf8 ("\x7b" ++ t)) (1 + i) =
          byteAt Validators.isEmailLocalChar (utf8 t) i := hf.byteAt_lt (by omega)
      rw [Nat.add_comm i 1, hbyte]
      exact localStart_eq_zero.mp hstart i (by omega)
  have hzero : p - 64 = 0 ∧ 1 + p - 64 = 0 := by omega
  have hinner := slice_of_found hfinds.2
  have houter := slice_of_found hbrace.2
  rw [hzero.1, hstart] at hinner
  rw [hzero.2, hlocal, hend] at houter
  obtain ⟨_, _, _, _, hinner⟩ := slice?_eq_some.mp hinner
  obtain ⟨_, _, _, _, houter⟩ := slice?_eq_some.mp houter
  omega

theorem findsAt_of_brace {q : Nat} (h : FindsAt ("\x7b" ++ t) q m) (hopen : OpensAt t p m) :
    ∃ i, i ≠ p ∧ FindsAt t i m := by
  have hf := framed_brace t
  have hlt := lt_of_byteAt h.1
  cases q with
  | zero =>
    have hbyte := h.1
    rw [hf.bytes] at hbyte
    cases hbyte
  | succ q =>
    rw [Nat.add_comm q 1] at h
    have hq : q < (utf8 t).length := by
      rw [hf.bytes, List.length_append, List.length_append] at hlt
      have hbrace : (encode ['{']).length = 1 := by decide
      simp only [encode_nil, List.length_nil] at hlt
      omega
    rcases inside_or_opening t q with hinside | ⟨_, hstart⟩
    · have hfinds : FindsAt t q m := by
        rw [← step_eq_some, ← step_brace hq hinside]
        exact step_eq_some.mpr h
      refine ⟨q, ?_, hfinds⟩
      intro heq
      rw [heq] at h
      exact not_findsAt_brace hopen h
    · have hat : byteAt (· == 64) (utf8 t) q = true := by
        have hbyte : byteAt (· == 64) (utf8 ("\x7b" ++ t)) (1 + q) =
            byteAt (· == 64) (utf8 t) q := hf.byteAt_lt hq
        rw [← hbyte]
        exact h.1
      have heq := opening_unique hat hstart hopen.2.2.1 hopen.2.1
      rw [heq] at h
      exact (not_findsAt_brace hopen h).elim

end Brace

end Email

namespace Detector
variable (cr : Crates) (d : Detector)

theorem scan_nil : d.scan cr "" = [] := by
  rw [scan_eq]
  exact scanLoop_done (Nat.le_refl 0)

theorem scan_joined (texts : List String) :
    d.scan cr (",".intercalate texts) = texts.flatMap (d.scan cr) := by
  induction texts with
  | nil => rw [String.intercalate_nil, scan_nil, List.flatMap_nil]
  | cons t texts ih =>
    cases texts with
    | nil => simp
    | cons next rest =>
      have hcomma : "," = String.singleton ',' := by decide
      rw [List.flatMap_cons, ← ih, String.intercalate_cons_cons]
      conv_lhs => rw [hcomma]
      rw [scan_delimited cr d t ',' _ (by decide), ← hcomma]

theorem scan_closing_brace (t : String) : d.scan cr (t ++ "\x7d") = d.scan cr t := by
  have hbyte : ∀ b ∈ String.utf8EncodeChar '}', closes b = true ∧ d.starts b = false := by
    intro b hb
    have hcode : String.utf8EncodeChar '}' = [125] := by decide
    rw [hcode, List.mem_singleton] at hb
    subst hb
    cases d <;> decide
  have hsplit := d.scan_split cr t.toList [] hbyte (.inl rfl)
  have hempty : d.scan cr (String.ofList []) = [] := d.scan_nil cr
  have htext : String.ofList (t.toList ++ ['}']) = t ++ "\x7d" := by
    apply String.toList_inj.mp
    simp
  rw [htext, hempty, List.append_nil, String.ofList_toList] at hsplit
  exact hsplit

theorem scan_opening_brace (hd : d ≠ email) (t : String) :
    d.scan cr ("\x7b" ++ t) = d.scan cr t := by
  have hcode : String.utf8EncodeChar '\x7b' = [123] := by decide
  have hbyte : ∀ b ∈ String.utf8EncodeChar '\x7b', closes b = true ∧ d.starts b = false := by
    intro b hb
    rw [hcode, List.mem_singleton] at hb
    subst hb
    cases d <;> decide
  have hopen : ∀ b ∈ String.utf8EncodeChar '\x7b', d.opens b = true := by
    intro b hb
    rw [hcode, List.mem_singleton] at hb
    subst hb
    cases d with
    | email => exact absurd rfl hd
    | creditCard | iban | phone | ssn => decide
  have hsplit := d.scan_split cr [] t.toList hbyte (.inr hopen)
  have hempty : d.scan cr (String.ofList []) = [] := d.scan_nil cr
  have htext : String.ofList ([] ++ '\x7b' :: t.toList) = "\x7b" ++ t := by
    apply String.toList_inj.mp
    simp
  rw [htext, hempty, List.nil_append, String.ofList_toList] at hsplit
  exact hsplit

/-- The text of an array item. -/
def itemText (v : Option String) : String := v.getD "NULL"

theorem arrayCellToString_string (items : List (Option String)) :
    arrayCellToString (.string items) = "\x7b" ++ ",".intercalate (items.map itemText) ++ "\x7d" := by
  have hitems : formatArray items = ",".intercalate (items.map itemText) := by
    rw [formatArray]
    congr 1
  rw [arrayCellToString, hitems]

theorem scan_array (v : Option String) (rest : List (Option String)) :
    d.scan cr (arrayCellToString (.string (v :: rest))) =
      d.scan cr ("\x7b" ++ itemText v) ++ (rest.map itemText).flatMap (d.scan cr) := by
  rw [arrayCellToString_string, scan_closing_brace, List.map_cons,
    ← String.intercalate_cons_append, scan_joined, List.flatMap_cons]

/-- Every match in an element of a text array is found in the array's text, unless an
address begins the array and is nowhere else in it. -/
theorem array_elements_found_iff (items : List (Option String)) :
    (∀ t, some t ∈ items → ∀ m ∈ d.scan cr t, m ∈ d.scan cr (arrayCellToString (.string items))) ↔
      (d = email → ∀ t rest p m, items = some t :: rest → Email.OpensAt t p m →
        (∃ q, q ≠ p ∧ Email.FindsAt t q m) ∨ ∃ u, some u ∈ rest ∧ ∃ q, Email.FindsAt u q m) := by
  constructor
  · intro h hd t rest p m hitems hopen
    subst hd hitems
    have hm := h t List.mem_cons_self m (Email.mem_scan.mpr ⟨p, hopen.2.2⟩)
    rw [scan_array, List.mem_append] at hm
    rcases hm with hfirst | hlater
    · obtain ⟨q, hq⟩ := Email.mem_scan.mp hfirst
      exact .inl (Email.findsAt_of_brace hq hopen)
    · obtain ⟨text, htext, hm⟩ := List.mem_flatMap.mp hlater
      obtain ⟨u, hu, rfl⟩ := List.mem_map.mp htext
      obtain ⟨q, hq⟩ := Email.mem_scan.mp hm
      cases u with
      | none => exact (Email.not_findsAt_null q m hq).elim
      | some u => exact .inr ⟨u, hu, q, hq⟩
  · intro h t ht m hm
    cases items with
    | nil => cases ht
    | cons v rest =>
      rw [scan_array, List.mem_append]
      rcases List.mem_cons.mp ht with hfirst | hlater
      · subst hfirst
        by_cases hd : d = email
        · subst hd
          obtain ⟨p, hp⟩ := Email.mem_scan.mp hm
          by_cases hopen : Email.OpensAt t p m
          · rcases h rfl t rest p m rfl hopen with ⟨q, hne, hq⟩ | ⟨u, hu, q, hq⟩
            · have hkept : ¬ Email.OpensAt t q m := by
                intro hqopen
                apply hne
                exact Email.opening_unique hq.1 hqopen.2.1 hp.1 hopen.2.1
              exact .inl (Email.mem_scan.mpr ⟨1 + q, Email.findsAt_brace hq hkept⟩)
            · refine .inr (List.mem_flatMap.mpr ⟨u, List.mem_map.mpr ⟨some u, hu, rfl⟩, ?_⟩)
              exact Email.mem_scan.mpr ⟨q, hq⟩
          · exact .inl (Email.mem_scan.mpr ⟨1 + p, Email.findsAt_brace hp hopen⟩)
        · rw [scan_opening_brace cr d hd]
          exact .inl hm
      · refine .inr (List.mem_flatMap.mpr ⟨t, List.mem_map.mpr ⟨some t, hlater, rfl⟩, hm⟩)

/-- The address of a one-element array comes out with the brace in front. -/
theorem array_address_lost :
    ¬ ∀ (d : Detector) (items : List (Option String)) (t m : String), some t ∈ items →
      m ∈ d.scan Crates.sample t →
      m ∈ d.scan Crates.sample (arrayCellToString (.string items)) := by
  intro h
  have hm := h email [some "user@example.com"] "user@example.com" "user@example.com"
    (List.mem_singleton.mpr rfl) (by decide)
  revert hm
  decide

end Detector

end PgSense
