import PgSense.TextBytes

/-! Classes of ASCII characters and the classes of their bytes. In UTF-8 the bytes of a class
are the characters of that class, whatever text stands around them. -/

namespace PgSense
set_option autoImplicit false

/-- The byte of an ASCII character. -/
def asciiByte (c : Char) : UInt8 := UInt8.ofNat c.toNat

theorem toNat_asciiByte {c : Char} (h : c.toNat < 128) : (asciiByte c).toNat = c.toNat := by
  rw [asciiByte, UInt8.toNat_ofNat']
  omega

/-- The byte class `p` is the character class `q`. -/
structure AsciiClass (p : UInt8 → Bool) (q : Char → Bool) : Prop where
  ascii : ∀ b, p b = true → isAsciiByte b = true
  small : ∀ c, q c = true → c.toNat < 128
  agree : ∀ c, c.toNat < 128 → p (asciiByte c) = q c

namespace AsciiClass
variable {p : UInt8 → Bool} {q : Char → Bool}

theorem filter_encodeChar (h : AsciiClass p q) (c : Char) :
    (String.utf8EncodeChar c).filter p = if q c then [asciiByte c] else [] := by
  by_cases hc : c.toNat < 128
  · rw [encodeChar_single hc]
    change [asciiByte c].filter p = _
    rw [List.filter_singleton, h.agree c hc]
    cases q c <;> rfl
  · have hq : q c = false := by
      rw [← Bool.not_eq_true]
      exact fun hq => hc (h.small c hq)
    rw [hq, if_neg Bool.false_ne_true, List.filter_eq_nil_iff]
    intro b hb hp
    have hmulti := encodeChar_multi (c := c) (by omega) b hb
    rw [h.ascii b hp] at hmulti
    cases hmulti

/-- A character outside the class has no byte in it. -/
theorem encodeChar_off (h : AsciiClass p q) {c : Char} (hc : q c = false) :
    ∀ b ∈ String.utf8EncodeChar c, p b = false := by
  have hnone := h.filter_encodeChar c
  rw [hc, if_neg Bool.false_ne_true, List.filter_eq_nil_iff] at hnone
  exact fun b hb => eq_false_of_ne_true (hnone b hb)

theorem filter_utf8 (h : AsciiClass p q) (s : String) :
    (utf8 s).filter p = (s.toList.filter q).map asciiByte := by
  rw [utf8_eq_encode]
  induction s.toList with
  | nil => rfl
  | cons c cs ih =>
    have hsplit : encode (c :: cs) = String.utf8EncodeChar c ++ encode cs := List.flatMap_cons
    rw [hsplit, List.filter_append, ih, h.filter_encodeChar, List.filter_cons]
    cases q c <;> rfl

end AsciiClass

theorem charRange_iff (low high : UInt32) (c : Char) :
    (low ≤ c.val && c.val ≤ high) = true ↔ low.toNat ≤ c.toNat ∧ c.toNat ≤ high.toNat := by
  rw [Bool.and_eq_true, decide_eq_true_eq, decide_eq_true_eq, UInt32.le_iff_toNat_le,
    UInt32.le_iff_toNat_le]
  rfl

theorem isDigit_iff (c : Char) : c.isDigit = true ↔ 48 ≤ c.toNat ∧ c.toNat ≤ 57 :=
  charRange_iff 48 57 c

theorem isUpper_iff (c : Char) : c.isUpper = true ↔ 65 ≤ c.toNat ∧ c.toNat ≤ 90 := by
  have heq : c.isUpper = decide (65 ≤ c.val ∧ c.val ≤ 90) := rfl
  rw [heq, Bool.decide_and]
  exact charRange_iff 65 90 c

theorem isLower_iff (c : Char) : c.isLower = true ↔ 97 ≤ c.toNat ∧ c.toNat ≤ 122 :=
  charRange_iff 97 122 c

/-- A range of codes. -/
theorem asciiClass_range {p : UInt8 → Bool} {q : Char → Bool} (low : Nat) {high : Nat}
    (hhigh : high < 128) (hp : ∀ b, p b = true ↔ low ≤ b.toNat ∧ b.toNat ≤ high)
    (hq : ∀ c, q c = true ↔ low ≤ c.toNat ∧ c.toNat ≤ high) : AsciiClass p q where
  ascii b hb := by
    have hrange := (hp b).mp hb
    rw [isAsciiByte_iff]
    omega
  small c hc := by
    have hrange := (hq c).mp hc
    omega
  agree c hc := by
    rw [Bool.eq_iff_iff, hp, hq, toNat_asciiByte hc]

theorem AsciiClass.or {p p' : UInt8 → Bool} {q q' : Char → Bool} (h : AsciiClass p q)
    (h' : AsciiClass p' q') : AsciiClass (fun b => p b || p' b) (fun c => q c || q' c) where
  ascii b hb := (Bool.or_eq_true_iff.mp hb).elim (h.ascii b) (h'.ascii b)
  small c hc := (Bool.or_eq_true_iff.mp hc).elim (h.small c) (h'.small c)
  agree c hc := by rw [h.agree c hc, h'.agree c hc]

theorem isAlphanum_of_digit {c : Char} (h : c.isDigit = true) : c.isAlphanum = true := by
  have heq : c.isAlphanum = (c.isAlpha || c.isDigit) := rfl
  rw [heq, h, Bool.or_true]

theorem isAlphanum_of_alpha {c : Char} (h : c.isAlpha = true) : c.isAlphanum = true := by
  have heq : c.isAlphanum = (c.isAlpha || c.isDigit) := rfl
  rw [heq, h, Bool.true_or]

theorem isAlpha_of_upper {c : Char} (h : c.isUpper = true) : c.isAlpha = true := by
  have heq : c.isAlpha = (c.isUpper || c.isLower) := rfl
  rw [heq, h, Bool.true_or]

/-- A letter is not a digit. -/
theorem not_isDigit_of_alpha {c : Char} (h : c.isAlpha = true) : ¬ c.isDigit = true := by
  have heq : c.isAlpha = (c.isUpper || c.isLower) := rfl
  rw [heq, Bool.or_eq_true, isUpper_iff, isLower_iff] at h
  rw [isDigit_iff]
  omega

theorem asciiClass_digit : AsciiClass isAsciiDigit Char.isDigit :=
  asciiClass_range 48 (by omega) isAsciiDigit_iff isDigit_iff

theorem asciiClass_uppercase : AsciiClass isAsciiUppercase Char.isUpper :=
  asciiClass_range 65 (by omega) isAsciiUppercase_iff isUpper_iff

theorem asciiClass_lowercase : AsciiClass isAsciiLowercase Char.isLower :=
  asciiClass_range 97 (by omega) isAsciiLowercase_iff isLower_iff

theorem asciiClass_alphanumeric : AsciiClass isAsciiAlphanumeric Char.isAlphanum :=
  (asciiClass_uppercase.or asciiClass_lowercase).or asciiClass_digit

/-- What cannot touch a card number. -/
theorem asciiClass_word : AsciiClass isWordByte (fun c => c.isAlphanum || c == '_') := by
  apply asciiClass_alphanumeric.or
  apply asciiClass_range 95 (by omega : 95 < 128)
  · intro b
    rw [beq_iff_eq, ← UInt8.toNat_inj]
    have hcode : (95 : UInt8).toNat = 95 := rfl
    omega
  · intro c
    rw [beq_iff_eq, ← Char.toNat_inj]
    have hcode : '_'.toNat = 95 := rfl
    omega

end PgSense
