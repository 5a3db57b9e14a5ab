import PgSense.AsciiChars
import PgSense.Library.CheckDigits
import PgSense.Rules.CheckedValidators
import PgSense.Rules.IbanMatches

/-! The streaming IBAN check and the number it takes the residue of. -/

namespace PgSense.Validators
open Library
set_option autoImplicit false

/-- The ASCII letters and digits of a text. -/
def alphanumerics (cs : List Char) : List Char := cs.filter Char.isAlphanum

/-- The first four characters moved to the end. -/
def rearranged (cs : List Char) : List Char := cs.drop 4 ++ cs.take 4

/-- The decimal digits that stand for a character: A is 10 and Z is 35. -/
def decimalDigits (c : Char) : List Nat :=
  if c.isDigit then [c.toNat - 48] else (Nat.digits 10 (c.toNat - 65 + 10)).reverse

/-- The number whose residue decides. -/
def ibanNumber (cs : List Char) : Nat := numeral 10 ((rearranged cs).flatMap decimalDigits)

section Steps
variable {c d : Char}

theorem decimalDigits_digit (hc : c.isDigit = true) : decimalDigits c = [c.toNat - 48] :=
  if_pos hc

theorem length_digits_letter : ∀ v < 36, 10 ≤ v → (Nat.digits 10 v).length = 2 := by decide

theorem decimalDigits_upper (hc : c.isUpper = true) : (decimalDigits c).length = 2 ∧
    numeral 10 (decimalDigits c) = c.toNat - 65 + 10 := by
  have hrange := (isUpper_iff c).mp hc
  have hletter := not_isDigit_of_alpha (isAlpha_of_upper hc)
  rw [decimalDigits, if_neg hletter, numeral, List.reverse_reverse, List.length_reverse,
    Nat.ofDigits_digits]
  exact ⟨length_digits_letter _ (by omega) (by omega), rfl⟩

/-- A step shifts the digits of a character in. -/
theorem ibanStep_asciiByte (hc : c.isDigit = true ∨ c.isUpper = true) (r : Nat) :
    ibanStep r (asciiByte c) =
      some ((r * 10 ^ (decimalDigits c).length + numeral 10 (decimalDigits c)) % 97) := by
  rcases hc with hdigit | hupper
  · have hrange := (isDigit_iff c).mp hdigit
    have hclass := asciiClass_digit.agree c (by omega)
    rw [ibanStep, hclass, if_pos hdigit, toNat_asciiByte (by omega), decimalDigits_digit hdigit]
    rfl
  · have hrange := (isUpper_iff c).mp hupper
    have hdigit := asciiClass_digit.agree c (by omega)
    have hclass := asciiClass_uppercase.agree c (by omega)
    obtain ⟨hlen, hvalue⟩ := decimalDigits_upper hupper
    have hletter := not_isDigit_of_alpha (isAlpha_of_upper hupper)
    rw [ibanStep, hdigit, if_neg hletter, hclass, if_pos hupper, toNat_asciiByte (by omega), hlen,
      hvalue]
    rfl

theorem foldlM_asciiByte {cs : List Char} (h : ∀ c ∈ cs, c.isDigit = true ∨ c.isUpper = true) :
    (cs.map asciiByte).foldlM ibanStep 0 = some (numeral 10 (cs.flatMap decimalDigits) % 97) := by
  rw [List.foldlM_map]
  exact foldlM_residue (fun c hc => ibanStep_asciiByte (h c hc)) []

theorem mem_rearranged {cs : List Char} : c ∈ rearranged cs ↔ c ∈ cs := by
  rw [rearranged, List.mem_append, or_comm, ← List.mem_append, List.take_append_drop]

theorem rearranged_map (cs : List Char) :
    (cs.map asciiByte).drop 4 ++ (cs.map asciiByte).take 4 = (rearranged cs).map asciiByte := by
  rw [rearranged, List.map_append, List.map_drop, List.map_take]

theorem legal_of_iban {s : String} (h : iban s = true) :
    ∀ c ∈ alphanumerics s.toList, c.isDigit = true ∨ c.isUpper = true := by
  intro c hc
  have hsmall := asciiClass_alphanumeric.small c (List.mem_filter.mp hc).2
  have hmem : asciiByte c ∈ (utf8 s).filter isAsciiAlphanumeric := by
    rw [asciiClass_alphanumeric.filter_utf8]
    exact List.mem_map_of_mem hc
  obtain ⟨hbyte, halnum⟩ := List.mem_filter.mp hmem
  rcases uppercase_of_iban h _ hbyte halnum with hdigit | hupper
  · exact .inl (by rwa [asciiClass_digit.agree c hsmall] at hdigit)
  · exact .inr (by rwa [asciiClass_uppercase.agree c hsmall] at hupper)

/-- The check, as a condition on the letters and digits of the text. -/
theorem iban_iff (s : String) : iban s = true ↔
    15 ≤ (alphanumerics s.toList).length ∧
      (∀ c ∈ alphanumerics s.toList, c.isDigit = true ∨ c.isUpper = true) ∧
        ibanNumber (alphanumerics s.toList) ≡ 1 [MOD 97] := by
  have hcompact : (utf8 s).filter isAsciiAlphanumeric = (alphanumerics s.toList).map asciiByte :=
    asciiClass_alphanumeric.filter_utf8 s
  have hiban : (∀ c ∈ alphanumerics s.toList, c.isDigit = true ∨ c.isUpper = true) →
      (iban s = true ↔ 15 ≤ (alphanumerics s.toList).length ∧
        ibanNumber (alphanumerics s.toList) ≡ 1 [MOD 97]) := by
    intro hlegal
    have hfold := foldlM_asciiByte fun c hc => hlegal c (mem_rearranged.mp hc)
    unfold iban
    dsimp only
    rw [hcompact, List.length_map, rearranged_map, hfold]
    split
    · rename_i hshort
      exact ⟨fun h => absurd h Bool.false_ne_true, fun h => absurd h.1 (by omega)⟩
    · rw [beq_iff_eq, Option.some.injEq]
      exact ⟨fun h => ⟨by omega, h⟩, fun h => h.2⟩
  constructor
  · intro h
    obtain ⟨hlong, hone⟩ := (hiban (legal_of_iban h)).mp h
    exact ⟨hlong, legal_of_iban h, hone⟩
  · rintro ⟨hlong, hlegal, hone⟩
    exact (hiban hlegal).mpr ⟨hlong, hone⟩

end Steps

section Errors
variable {pre post : List Char} {c d : Char}

theorem alphanumerics_substitute (hc : c.isAlphanum = true) :
    alphanumerics (pre ++ c :: post) = alphanumerics pre ++ c :: alphanumerics post := by
  rw [alphanumerics, List.filter_append, List.filter_cons_of_pos hc]
  rfl

/-- Wherever a character stands, it has one place in the rearranged text. -/
theorem exists_rearranged (pre post : List Char) :
    ∃ front back, ∀ c, rearranged (pre ++ c :: post) = front ++ c :: back := by
  by_cases hlen : 4 ≤ pre.length
  · refine ⟨pre.drop 4, post ++ pre.take 4, ?_⟩
    intro c
    rw [rearranged, List.drop_append_of_le_length hlen, List.take_append_of_le_length hlen,
      List.append_assoc, List.cons_append]
  · obtain ⟨k, hk⟩ : ∃ k, 4 = pre.length + (k + 1) := ⟨3 - pre.length, by omega⟩
    refine ⟨post.drop k ++ pre, post.take k, ?_⟩
    intro c
    rw [rearranged, hk, List.drop_length_add_append, List.take_length_add_append,
      List.drop_succ_cons, List.take_succ_cons, List.append_assoc]

/-- Characters of one kind are told apart modulo 97. -/
theorem decimalDigits_inj (hkind : c.isDigit = true ∧ d.isDigit = true ∨
      c.isUpper = true ∧ d.isUpper = true) :
    (decimalDigits c).length = (decimalDigits d).length ∧
      (numeral 10 (decimalDigits c) ≡ numeral 10 (decimalDigits d) [MOD 97] → c = d) := by
  rcases hkind with ⟨hc, hd⟩ | ⟨hc, hd⟩
  · have hc' := (isDigit_iff c).mp hc
    have hd' := (isDigit_iff d).mp hd
    rw [decimalDigits_digit hc, decimalDigits_digit hd]
    refine ⟨rfl, ?_⟩
    intro hmod
    have hvalue : (c.toNat - 48) % 97 = (d.toNat - 48) % 97 := hmod
    apply Char.toNat_inj.mp
    omega
  · have hc' := (isUpper_iff c).mp hc
    have hd' := (isUpper_iff d).mp hd
    obtain ⟨hlen, hvalue⟩ := decimalDigits_upper hc
    obtain ⟨hlen', hvalue'⟩ := decimalDigits_upper hd
    rw [hlen, hlen', hvalue, hvalue']
    refine ⟨rfl, ?_⟩
    intro hmod
    have hsame : (c.toNat - 65 + 10) % 97 = (d.toNat - 65 + 10) % 97 := hmod
    apply Char.toNat_inj.mp
    omega

theorem iban_substitute (hkind : c.isDigit = true ∧ d.isDigit = true ∨
      c.isUpper = true ∧ d.isUpper = true) (hne : c ≠ d)
    (h : iban (String.ofList (pre ++ c :: post)) = true) :
    iban (String.ofList (pre ++ d :: post)) = false := by
  have halnum : c.isAlphanum = true ∧ d.isAlphanum = true := by
    rcases hkind with ⟨hc, hd⟩ | ⟨hc, hd⟩
    · exact ⟨isAlphanum_of_digit hc, isAlphanum_of_digit hd⟩
    · exact ⟨isAlphanum_of_alpha (isAlpha_of_upper hc), isAlphanum_of_alpha (isAlpha_of_upper hd)⟩
  rw [← Bool.not_eq_true]
  intro h'
  rw [iban_iff, String.toList_ofList, alphanumerics_substitute halnum.1] at h
  rw [iban_iff, String.toList_ofList, alphanumerics_substitute halnum.2] at h'
  obtain ⟨front, back, hplace⟩ := exists_rearranged (alphanumerics pre) (alphanumerics post)
  obtain ⟨hlen, hinj⟩ := decimalDigits_inj hkind
  have hsame := h.2.2.trans h'.2.2.symm
  rw [ibanNumber, ibanNumber, hplace, hplace, List.flatMap_append, List.flatMap_append,
    List.flatMap_cons, List.flatMap_cons] at hsame
  exact hne (hinj ((numeral_substitute (by decide) hlen _ _).mp hsame))

end Errors

/-- The check computes the residue of the whole number in 32 bits, and no digit or letter of
an accepted text can be replaced by another. -/
theorem iban_iso7064 (s : String) :
    (iban s = true ↔
      15 ≤ (alphanumerics s.toList).length ∧
        (∀ c ∈ alphanumerics s.toList, c.isDigit = true ∨ c.isUpper = true) ∧
          ibanNumber (alphanumerics s.toList) ≡ 1 [MOD 97]) ∧
    Checked.iban s = .ok (iban s) ∧
    (iban s = true → ∀ (pre post : List Char) (c d : Char), s.toList = pre ++ c :: post →
      c ≠ d → (c.isDigit = true ∧ d.isDigit = true ∨ c.isAlpha = true ∧ d.isUpper = true) →
        iban (String.ofList (pre ++ d :: post)) = false) := by
  refine ⟨iban_iff s, Checked.iban_ok s, ?_⟩
  intro h pre post c d hs hne hkind
  have hlegal : c.isAlpha = true → c.isUpper = true := by
    intro halpha
    have hmem : c ∈ alphanumerics s.toList := by
      rw [hs, alphanumerics_substitute (isAlphanum_of_alpha halpha)]
      exact List.mem_append_right _ List.mem_cons_self
    exact (legal_of_iban h c hmem).resolve_left (not_isDigit_of_alpha halpha)
  rw [← String.ofList_toList (s := s), hs] at h
  rcases hkind with hdigits | ⟨hc, hd⟩
  · exact iban_substitute (.inl hdigits) hne h
  · exact iban_substitute (.inr ⟨hlegal hc, hd⟩) hne h

example : iban "GB82 WEST 1234 5698 7654 32" = true := by decide

end PgSense.Validators
