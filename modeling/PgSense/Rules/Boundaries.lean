import PgSense.Rules.ArrayCells

/-! Every match is a part of the text that was scanned, and does not stand directly behind an
ASCII letter or digit. -/

namespace PgSense
open Library
set_option autoImplicit false

namespace Detector

/-- `front` does not end in an ASCII letter or digit. -/
def Apart (front : List Char) : Prop :=
  ((encode front).getLast?.any isAsciiAlphanumeric) = false

theorem apart_of_byteBefore {a rest : List Char} {value : String}
    (hvalue : value.toList = a ++ rest)
    (h : byteBefore isAsciiAlphanumeric (utf8 value) (encode a).length = false) : Apart a := by
  rw [utf8_eq_encode, hvalue, encode_append, byteBefore_append] at h
  exact h

theorem occurs_of_slice {value : String} {i j : Nat}
    (h : byteBefore isAsciiAlphanumeric (utf8 value) i = false) :
    ∃ a b, value.toList = a ++ ((slice value i j).toList ++ b) ∧ Apart a := by
  cases hs : slice? value i j with
  | none =>
    refine ⟨[], value.toList, ?_, rfl⟩
    rw [slice, hs]
    rfl
  | some m =>
    obtain ⟨a, b, hvalue, rfl, _⟩ := slice?_eq_some.mp hs
    exact ⟨a, b, by rw [slice, hs]; exact hvalue, apart_of_byteBefore hvalue h⟩

end Detector

section Detectors
variable (cr : Crates) {value m : String} {p : Nat}

theorem CreditCard.apart_of_step (h : (CreditCard.step value p).1 = some m) :
    ∃ a b, value.toList = a ++ (m.toList ++ b) ∧ Detector.Apart a := by
  simp only [CreditCard.step] at h
  split at h
  · rename_i hstart
    rw [Bool.and_eq_true, Bool.not_eq_true'] at hstart
    split at h
    · cases h
      exact Detector.occurs_of_slice (byteBefore_mono isWordByte_of_alphanumeric hstart.2)
    · cases h
  · cases h

theorem Iban.apart_of_step (h : (Iban.step value p).1 = some m) :
    ∃ a b, value.toList = a ++ (m.toList ++ b) ∧ Detector.Apart a := by
  simp only [Iban.step] at h
  split at h
  · rename_i hstart
    rw [Bool.and_eq_true, Bool.not_eq_true'] at hstart
    obtain ⟨expected, _, hextract⟩ := Option.bind_eq_some_iff.mp h
    rw [Iban.slice_of_extractCandidate hextract]
    exact Detector.occurs_of_slice hstart.2
  · cases h

theorem Phone.apart_of_step (h : (Phone.step cr value p).1 = some m) :
    ∃ a b, value.toList = a ++ (m.toList ++ b) ∧ Detector.Apart a := by
  simp only [Phone.step, Phone.stepWith] at h
  split at h
  · cases h
  · rename_i hstart
    rw [Bool.not_eq_true] at hstart
    split at h
    · rename_i hparse
      cases h
      rw [Phone.slice_of_parseAtWith hparse]
      exact Detector.occurs_of_slice hstart
    · cases h

theorem Ssn.apart_of_step (h : (Ssn.step value p).1 = some m) :
    ∃ a b, value.toList = a ++ (m.toList ++ b) ∧ Detector.Apart a := by
  simp only [Ssn.step] at h
  split at h
  · cases h
  · rename_i hstart
    rw [Bool.or_eq_true, not_or, Bool.not_eq_true] at hstart
    split at h
    · cases h
      exact Detector.occurs_of_slice (byteBefore_mono isWordByte_of_alphanumeric hstart.1)
    · cases h

end Detectors

namespace Email

theorem localStart_stops (bytes : List UInt8) (low n : Nat) :
    byteBefore Validators.isEmailLocalChar bytes (localStart bytes low n) = false ∨
      localStart bytes low n ≤ low := by
  induction n with
  | zero => exact .inl rfl
  | succ n ih =>
    rw [localStart]
    split
    · exact ih
    · rename_i hstop
      rw [Bool.and_eq_true, not_and, Bool.not_eq_true, decide_eq_true_eq] at hstop
      by_cases hlow : low < n + 1
      · apply Or.inl
        simp only [byteBefore, Nat.add_sub_cancel, hstop hlow, Bool.and_false]
      · exact .inr (by omega)

/-- The sign of a match stands in it where its local part ends. -/
theorem sign_of_findsAt {value m : String} {p : Nat} (h : FindsAt value p m) :
    (utf8 m)[p - localStart (utf8 value) (p - 64) p]? = some 64 := by
  obtain ⟨a, b, hvalue, ha, hlen⟩ := slice?_eq_some.mp (slice_of_found h.2)
  have hle := localStart_le (utf8 value) (p - 64) p
  have hend : p < candidateEnd (utf8 value) p :=
    le_trimEnd (utf8 value) (le_domainEnd (utf8 value) 253 (p + 1))
  have hinner : p - (encode a).length < (encode m.toList).length := by
    rw [← utf8_eq_encode]
    omega
  obtain ⟨sign, hsign, hat⟩ := byteAt_iff.mp h.1
  rw [utf8_eq_encode, hvalue, encode_append, encode_append, List.getElem?_append_right (by omega),
    List.getElem?_append_left hinner, eq_of_beq hat, ha] at hsign
  exact hsign

theorem apart_of_findsAt {value m : String} {p : Nat} (h : FindsAt value p m)
    (hshort : ∀ n : Nat, (utf8 m)[n]? = some 64 → n < 64) :
    ∃ a b, value.toList = a ++ (m.toList ++ b) ∧ Detector.Apart a := by
  obtain ⟨a, b, hvalue, ha, _⟩ := slice?_eq_some.mp (slice_of_found h.2)
  refine ⟨a, b, hvalue, Detector.apart_of_byteBefore hvalue ?_⟩
  rw [ha]
  rcases localStart_stops (utf8 value) (p - 64) p with hstop | hlow
  · exact byteBefore_mono Validators.isEmailLocalChar_of_alphanumeric hstop
  · -- only a local part of 64 bytes stops at the limit of the walk
    have hnear := hshort _ (sign_of_findsAt h)
    have hzero : localStart (utf8 value) (p - 64) p = 0 := by omega
    rw [hzero]
    rfl

end Email

/-- A match stands in the text, and not directly behind a letter or digit, unless it is an
address with a local part of 64 bytes. -/
theorem Detector.apart_of_mem_scan (cr : Crates) (d : Detector) {value m : String}
    (hm : m ∈ d.scan cr value) (hshort : d = email → ∀ n : Nat, (utf8 m)[n]? = some 64 → n < 64) :
    ∃ a b, value.toList = a ++ (m.toList ++ b) ∧ Apart a := by
  rw [scan_eq] at hm
  obtain ⟨p, _, _, hp⟩ := exists_of_mem_scanLoop hm
  cases d with
  | creditCard => exact CreditCard.apart_of_step hp
  | email => exact Email.apart_of_findsAt (Email.step_eq_some.mp hp) (hshort rfl)
  | iban => exact Iban.apart_of_step hp
  | phone => exact Phone.apart_of_step cr hp
  | ssn => exact Ssn.apart_of_step hp

end PgSense
