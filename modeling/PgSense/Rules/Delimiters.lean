import PgSense.Rules.EngineScan
import PgSense.Rules.Framing

/-! Characters that keep the matches on their two sides apart, for every detector. -/

namespace PgSense
open Library
set_option autoImplicit false

namespace Detector

/-- A byte that may stand right before a match. -/
def opens : Detector → UInt8 → Bool
  | email, b => !Validators.isEmailLocalChar b
  | _, b => !isWordByte b

/-- A byte at which the detector may find something: for an address, its `@`. -/
def starts : Detector → UInt8 → Bool
  | email, b => b == 64
  | iban, b => isAsciiUppercase b
  | phone, b => isAsciiDigit b || b == 43 || b == 40
  | _, b => isAsciiDigit b

variable (cr : Crates) (d : Detector) {pre post : List Char} {inner value : String} {i : Nat}

theorem step_idle (h : byteAt d.starts (utf8 value) i = false) :
    d.step cr value i = (none, i + 1) := by
  cases d with
  | creditCard =>
    have hdigit : byteAt isAsciiDigit (utf8 value) i = false := h
    simp [step, CreditCard.step, hdigit]
  | email =>
    have hat : byteAt (· == 64) (utf8 value) i = false := h
    simp [step, Email.step, hat]
  | iban =>
    have hupper : byteAt isAsciiUppercase (utf8 value) i = false := h
    simp [step, Iban.step, hupper]
  | phone =>
    have hparse : Phone.parseAtWith (Validators.phone cr) (utf8 value) value i = none := by
      have hplus : byteAt (· == 43) (utf8 value) i = false := by
        apply byteAt_mono _ h
        intro b hb
        simp [starts, eq_of_beq hb]
      have hzero : byteAt (· == 48) (utf8 value) i = false := by
        apply byteAt_mono _ h
        intro b hb
        rw [eq_of_beq hb]
        rfl
      have hnanp : byteAt (fun b => b == 40 || Phone.isTwoToNine b) (utf8 value) i = false := by
        apply byteAt_mono _ h
        intro b hb
        rcases Bool.or_eq_true_iff.mp hb with hopen | hdigit
        · simp [starts, eq_of_beq hopen]
        · simp [starts, Phone.isAsciiDigit_of_twoToNine hdigit]
      simp [Phone.parseAtWith, hplus, hzero, hnanp]
    simp [step, Phone.step, Phone.stepWith, hparse]
  | ssn =>
    have hlayout : Ssn.layoutAt (utf8 value) i = false := by
      rw [← Bool.not_eq_true]
      intro hlayout
      simp only [Ssn.layoutAt, List.all_cons, Bool.and_eq_true] at hlayout
      have hdigit : byteAt isAsciiDigit (utf8 value) i = false := h
      exact Bool.false_ne_true (hdigit.symm.trans hlayout.1.1.1)
    simp [step, Ssn.step, hlayout]

theorem step_framed (hd : d ≠ email) (hf : Framed pre post inner value)
    (hi : i < (utf8 inner).length)
    (hbefore : 0 < i ∨ byteBefore isWordByte (utf8 value) (encode pre).length = false) :
    d.step cr value ((encode pre).length + i) =
        ((d.step cr inner i).1, (encode pre).length + (d.step cr inner i).2) ∧
      (d.step cr inner i).2 ≤ (utf8 inner).length := by
  cases d with
  | creditCard => exact CreditCard.step_framed hf hi hbefore
  | email => exact absurd rfl hd
  | iban => exact Iban.step_framed hf hi hbefore
  | phone => exact Phone.step_framed cr hf hi hbefore
  | ssn => exact Ssn.step_framed hf hi hbefore

theorem embeds (hf : Framed pre post inner value)
    (ho : ∀ b, (encode pre).getLast? = some b → d.opens b = true) :
    Embeds (d.step cr inner) 0 (utf8 inner).length (d.step cr value) (encode pre).length := by
  have hstep : ∀ i, i < (utf8 inner).length →
      d.step cr value ((encode pre).length + i) =
          ((d.step cr inner i).1, (encode pre).length + (d.step cr inner i).2) ∧
        (d.step cr inner i).2 ≤ (utf8 inner).length := by
    intro i hi
    cases d with
    | email =>
      have hopen := hf.byteBefore_start (p := Validators.isEmailLocalChar) (by simp [opens]) ho
      exact Email.step_framed hf hi (.inl hopen)
    | creditCard | iban | phone | ssn =>
      have hopen := hf.byteBefore_start (p := isWordByte) (by simp [opens]) ho
      exact step_framed cr _ (by decide) hf hi (.inr hopen)
  exact ⟨fun i _ hi => (hstep i hi).1, fun i _ hi => (hstep i hi).2⟩

theorem framed_front {u : List Char} {c : Char} {w : List Char}
    (hc : ∀ b ∈ String.utf8EncodeChar c, closes b = true) :
    Framed [] (c :: w) (String.ofList u) (String.ofList (u ++ c :: w)) := by
  refine ⟨by simp, ?_⟩
  intro b hb
  rw [encode_cons, List.head?_append_of_ne_nil _ String.utf8EncodeChar_ne_nil] at hb
  exact hc b (List.mem_of_head? hb)

theorem framed_back (pre w : List Char) :
    Framed pre [] (String.ofList w) (String.ofList (pre ++ w)) := by
  refine ⟨by simp, ?_⟩
  intro b hb
  cases hb

theorem getLast?_encode_snoc (u : List Char) (c : Char) :
    (encode (u ++ [c])).getLast? = (String.utf8EncodeChar c).getLast? := by
  rw [encode_append, encode_cons, encode_nil, List.append_nil,
    List.getLast?_append_of_ne_nil _ String.utf8EncodeChar_ne_nil]

/-- The bytes of `c` between `u` and `w`. -/
theorem mem_of_between {u : List Char} {c : Char} {w : List Char} {i : Nat} {b : UInt8}
    (hlow : (encode u).length ≤ i) (hhigh : i < (encode (u ++ [c])).length)
    (hb : (utf8 (String.ofList (u ++ c :: w)))[i]? = some b) : b ∈ String.utf8EncodeChar c := by
  have hsize : (encode (u ++ [c])).length = (encode u).length + c.utf8Size := by simp
  rw [utf8_ofList, encode_append, encode_cons, List.getElem?_append_right hlow,
    List.getElem?_append_left (by rw [String.length_utf8EncodeChar]; omega)] at hb
  exact List.mem_of_getElem? hb

theorem length_utf8_split (u : List Char) (c : Char) (w : List Char) :
    (utf8 (String.ofList (u ++ c :: w))).length =
      (encode (u ++ [c])).length + (utf8 (String.ofList w)).length := by
  rw [utf8_ofList, utf8_ofList, ← List.length_append, ← encode_append, List.append_assoc]
  rfl

theorem length_encode_snoc_le (u : List Char) (c : Char) :
    (encode u).length ≤ (encode (u ++ [c])).length := by
  rw [encode_append, List.length_append]
  omega

/-- Nothing is found at the bytes of a character that starts no match. -/
theorem step_between {u : List Char} {c : Char} {w : List Char} {i : Nat}
    (hc : ∀ b ∈ String.utf8EncodeChar c, d.starts b = false) (hlow : (encode u).length ≤ i)
    (hhigh : i < (encode (u ++ [c])).length) :
    d.step cr (String.ofList (u ++ c :: w)) i = (none, i + 1) := by
  apply step_idle
  rw [← Bool.not_eq_true]
  intro hbyte
  obtain ⟨b, hb, hstart⟩ := byteAt_iff.mp hbyte
  rw [hc b (mem_of_between hlow hhigh hb)] at hstart
  cases hstart

/-- A character that belongs to no match splits a text in two. -/
theorem scan_split (u : List Char) {c : Char} (w : List Char)
    (hc : ∀ b ∈ String.utf8EncodeChar c, closes b = true ∧ d.starts b = false)
    (ho : w = [] ∨ ∀ b ∈ String.utf8EncodeChar c, d.opens b = true) :
    d.scan cr (String.ofList (u ++ c :: w)) =
      d.scan cr (String.ofList u) ++ d.scan cr (String.ofList w) := by
  have hleft := d.embeds cr (framed_front (u := u) (w := w) fun b hb => (hc b hb).1)
    (by intro b hb; cases hb)
  have hidle : ∀ i, (encode u).length ≤ i → i < (encode (u ++ [c])).length →
      d.step cr (String.ofList (u ++ c :: w)) i = (none, i + 1) :=
    fun i hlow hhigh => d.step_between cr (fun b hb => (hc b hb).2) hlow hhigh
  have hright : Embeds (d.step cr (String.ofList w)) 0 (utf8 (String.ofList w)).length
      (d.step cr (String.ofList (u ++ c :: w))) (encode (u ++ [c])).length := by
    rcases ho with rfl | hopen
    · have hempty : (utf8 (String.ofList [])).length = 0 := by rw [utf8_ofList]; rfl
      rw [hempty]
      exact ⟨fun i _ hi => absurd hi (Nat.not_lt_zero i), fun i _ hi => absurd hi (Nat.not_lt_zero i)⟩
    · have hback := framed_back (u ++ [c]) w
      rw [List.append_assoc] at hback
      apply d.embeds cr hback
      intro b hb
      rw [getLast?_encode_snoc] at hb
      exact hopen b (List.mem_of_getLast? hb)
  rw [scan_eq, scan_eq, scan_eq, length_utf8_split]
  rw [utf8_ofList] at hleft
  rw [scanLoop_split (length_encode_snoc_le u c) hleft hidle hright, utf8_ofList u]

/-- Not an ASCII letter, digit or local-part character, and none of `@`, space and parentheses. -/
def isDelimiter (c : Char) : Bool :=
  !(c.toNat < 128 && (isAsciiAlphanumeric (UInt8.ofNat c.toNat) ||
    Validators.isEmailLocalChar (UInt8.ofNat c.toNat) ||
    [64, 32, 40, 41].contains (UInt8.ofNat c.toNat)))

/-- A byte that can neither stand in a match nor touch one. -/
def isNeutral (b : UInt8) : Bool :=
  !(isAsciiAlphanumeric b || Validators.isEmailLocalChar b || [64, 32, 40, 41].contains b)

theorem isNeutral_of_not_ascii {b : UInt8} (h : isAsciiByte b = false) : isNeutral b = true := by
  rw [isNeutral, Bool.not_eq_true', ← Bool.not_eq_true]
  intro hb
  rw [← Bool.not_eq_true] at h
  apply h
  rcases Bool.or_eq_true_iff.mp hb with hb | hmem
  · rcases Bool.or_eq_true_iff.mp hb with halnum | hlocal
    · exact isAsciiByte_of_alphanumeric halnum
    · exact isAsciiByte_of_localChar hlocal
  · have hall : [64, 32, 40, 41].all isAsciiByte = true := by decide
    exact List.all_eq_true.mp hall b (by simpa using hmem)

theorem isNeutral_of_isDelimiter {c : Char} (h : isDelimiter c = true) :
    ∀ b ∈ String.utf8EncodeChar c, isNeutral b = true := by
  intro b hb
  by_cases hc : c.toNat < 128
  · rw [encodeChar_single hc, List.mem_singleton] at hb
    rw [hb]
    simpa [isDelimiter, isNeutral, hc] using h
  · exact isNeutral_of_not_ascii (encodeChar_multi (by omega) b hb)

theorem isNeutral_iff {b : UInt8} : isNeutral b = true ↔ isAsciiAlphanumeric b = false ∧
    Validators.isEmailLocalChar b = false ∧ b ≠ 64 ∧ b ≠ 32 ∧ b ≠ 40 ∧ b ≠ 41 := by
  simp [isNeutral, and_assoc]

theorem ne_of_not_localChar {b c : UInt8} (hb : Validators.isEmailLocalChar b = false)
    (hc : Validators.isEmailLocalChar c = true) : b ≠ c := by
  intro heq
  rw [heq, hc] at hb
  cases hb

theorem closes_of_isNeutral {b : UInt8} (h : isNeutral b = true) : closes b = true := by
  obtain ⟨halnum, hlocal, _, hspace, hopen, hclose⟩ := isNeutral_iff.mp h
  exact (closes_iff b).mpr ⟨halnum, ne_of_not_localChar hlocal rfl, hspace,
    ne_of_not_localChar hlocal rfl, ne_of_not_localChar hlocal rfl, hopen, hclose⟩

theorem starts_of_isNeutral {b : UInt8} (h : isNeutral b = true) : d.starts b = false := by
  obtain ⟨_, hlocal, hat, _, hopen, _⟩ := isNeutral_iff.mp h
  have hclose := closes_of_isNeutral h
  cases d with
  | email => exact beq_eq_false_iff_ne.mpr hat
  | iban => exact rejects_uppercase b hclose
  | phone =>
    have hplus : b ≠ 43 := ne_of_not_localChar hlocal rfl
    simp [starts, rejects_digit b hclose, hopen, hplus]
  | creditCard | ssn => exact rejects_digit b hclose

theorem opens_of_isNeutral {b : UInt8} (h : isNeutral b = true) : d.opens b = true := by
  obtain ⟨_, hlocal, _⟩ := isNeutral_iff.mp h
  have hword := rejects_word b (closes_of_isNeutral h)
  cases d with
  | email => simp [opens, hlocal]
  | creditCard | iban | phone | ssn => simp [opens, hword]

theorem scan_ofList_delimited (u : List Char) {c : Char} (w : List Char)
    (hc : isDelimiter c = true) : d.scan cr (String.ofList (u ++ c :: w)) =
      d.scan cr (String.ofList u) ++ d.scan cr (String.ofList w) := by
  have hneutral := isNeutral_of_isDelimiter hc
  apply scan_split
  · intro b hb
    exact ⟨closes_of_isNeutral (hneutral b hb), d.starts_of_isNeutral (hneutral b hb)⟩
  · exact .inr fun b hb => d.opens_of_isNeutral (hneutral b hb)

/-- A hard delimiter between two texts keeps their matches apart. -/
theorem scan_delimited (u : String) (c : Char) (w : String) (hc : isDelimiter c = true) :
    d.scan cr (u ++ String.singleton c ++ w) = d.scan cr u ++ d.scan cr w := by
  have hsplit := d.scan_ofList_delimited cr u.toList w.toList hc
  have htext : String.ofList (u.toList ++ c :: w.toList) = u ++ String.singleton c ++ w := by
    apply String.toList_inj.mp
    simp
  rw [htext, String.ofList_toList, String.ofList_toList] at hsplit
  exact hsplit

theorem scan_delimited_newline :
    isDelimiter '\n' = true ∧
      ssn.scan Crates.sample ("078-05-1120" ++ String.singleton '\n' ++ "219-09-9999") =
        ssn.scan Crates.sample "078-05-1120" ++ ssn.scan Crates.sample "219-09-9999" :=
  ⟨by decide, scan_delimited Crates.sample ssn _ _ _ (by decide)⟩

end Detector

end PgSense
