import PgSense.AsciiChars
import PgSense.Library.CheckDigits
import PgSense.Rules.Validators

/-! The Luhn check is the one of the textbook, and finds every wrong digit and every two
neighbours out of order except 0 and 9. -/

namespace PgSense.Validators
open Library
set_option autoImplicit false

/-- The values of the ASCII digits of a text. -/
def asciiDigits (cs : List Char) : List Nat := (cs.filter Char.isDigit).map fun c => c.toNat - 48

/-- The sum of the textbook: from the right, every second digit is doubled and replaced by
the sum of the digits of its double. -/
def textbookSum (digits : List Nat) : Nat :=
  (digits.reverse.zipIdx.map fun p =>
    if p.2 % 2 = 0 then p.1 else (Nat.digits 10 (2 * p.1)).sum).sum

/-- The table read at a digit. -/
def doubled (d : Nat) : Nat := luhnDouble.getD d 0

section Digits

theorem asciiDigits_append (xs ys : List Char) :
    asciiDigits (xs ++ ys) = asciiDigits xs ++ asciiDigits ys := by
  rw [asciiDigits, List.filter_append, List.map_append]
  rfl

theorem asciiDigits_cons {c : Char} (hc : c.isDigit = true) (cs : List Char) :
    asciiDigits (c :: cs) = (c.toNat - 48) :: asciiDigits cs := by
  rw [asciiDigits, List.filter_cons_of_pos hc, List.map_cons]
  rfl

theorem asciiDigits_eq_nil {cs : List Char} (h : ∀ c ∈ cs, c.isDigit = false) :
    asciiDigits cs = [] := by
  have hnone : cs.filter Char.isDigit = [] :=
    List.filter_eq_nil_iff.mpr fun c hc => by rw [h c hc]; exact Bool.false_ne_true
  rw [asciiDigits, hnone, List.map_nil]

theorem asciiDigits_le {cs : List Char} {d : Nat} (hd : d ∈ asciiDigits cs) : d ≤ 9 := by
  obtain ⟨c, hc, rfl⟩ := List.mem_map.mp hd
  have hrange := (isDigit_iff c).mp (List.mem_filter.mp hc).2
  omega

theorem digit_le {c : Char} (hc : c.isDigit = true) : c.toNat - 48 ≤ 9 := by
  have hrange := (isDigit_iff c).mp hc
  omega

/-- Digits are told apart by their values. -/
theorem digit_eq_iff {c d : Char} (hc : c.isDigit = true) (hd : d.isDigit = true) :
    c = d ↔ c.toNat - 48 = d.toNat - 48 := by
  have hc' := (isDigit_iff c).mp hc
  have hd' := (isDigit_iff d).mp hd
  rw [← Char.toNat_inj]
  omega

/-- The digits that the check collects from the bytes. -/
theorem collected_digits (s : String) :
    (((utf8 s).filter isAsciiDigit).map (· - 48)).map UInt8.toNat = asciiDigits s.toList := by
  rw [asciiClass_digit.filter_utf8, List.map_map, List.map_map, asciiDigits]
  apply List.map_congr_left
  intro c hc
  have hdigit := (List.mem_filter.mp hc).2
  have hsmall := asciiClass_digit.small c hdigit
  have hbyte : isAsciiDigit (asciiByte c) = true := by rwa [asciiClass_digit.agree c hsmall]
  change (asciiByte c - 48).toNat = c.toNat - 48
  rw [(toNat_digit hbyte).1, toNat_asciiByte hsmall]

end Digits

section Sums

theorem luhnSum_eq (double : Bool) (ds : List UInt8) : luhnSum double ds =
    if double then alternating doubled id (ds.map UInt8.toNat)
    else alternating id doubled (ds.map UInt8.toNat) := by
  induction ds generalizing double with
  | nil => cases double <;> rfl
  | cons d ds ih =>
    rw [luhnSum, ih]
    cases double <;> rfl

theorem digitSum_double : ∀ d ≤ 9, (Nat.digits 10 (2 * d)).sum = doubled d := by decide

theorem textbookSum_eq {digits : List Nat} (h : ∀ d ∈ digits, d ≤ 9) :
    textbookSum digits = alternating id doubled digits.reverse := by
  have hsum := alternating_eq_sum (f := id) (g := doubled) digits.reverse 0
  rw [if_pos rfl] at hsum
  rw [hsum, textbookSum]
  congr 1
  apply List.map_congr_left
  intro p hp
  have hle : p.1 ≤ 9 := h p.1 (List.mem_reverse.mp (List.fst_mem_of_mem_zipIdx hp))
  split
  · rfl
  · exact digitSum_double p.1 hle

/-- The check, as a condition on the digits of the text. -/
theorem luhn_iff (s : String) : luhn s = true ↔
    13 ≤ (asciiDigits s.toList).length ∧ (asciiDigits s.toList).length ≤ 19 ∧
      alternating id doubled (asciiDigits s.toList).reverse ≡ 0 [MOD 10] := by
  have hlen : (((utf8 s).filter isAsciiDigit).map (· - 48)).length =
      (asciiDigits s.toList).length := by
    have hcollected := congrArg List.length (collected_digits s)
    rwa [List.length_map] at hcollected
  have hsum : luhnSum false (((utf8 s).filter isAsciiDigit).map (· - 48)).reverse =
      alternating id doubled (asciiDigits s.toList).reverse := by
    rw [luhnSum_eq, if_neg Bool.false_ne_true, List.map_reverse, collected_digits]
  unfold luhn
  dsimp only
  rw [hlen, hsum]
  split
  · rename_i hmany
    exact ⟨fun h => absurd h Bool.false_ne_true, fun h => absurd h.2.1 (by omega)⟩
  · split
    · rename_i hfew
      exact ⟨fun h => absurd h Bool.false_ne_true, fun h => absurd h.1 (by omega)⟩
    · rw [beq_iff_eq]
      exact ⟨fun h => ⟨by omega, by omega, h⟩, fun h => h.2.2⟩

end Sums

section Errors
variable {pre mid post : List Char} {c d : Char}

/-- The digits from the right, with one of them named. -/
theorem asciiDigits_reverse (hc : c.isDigit = true) :
    (asciiDigits (pre ++ c :: post)).reverse =
      (asciiDigits post).reverse ++ (c.toNat - 48) :: (asciiDigits pre).reverse := by
  rw [asciiDigits_append, asciiDigits_cons hc, List.reverse_append, List.reverse_cons,
    List.append_assoc]
  rfl

theorem doubled_inj : ∀ a ≤ 9, ∀ b ≤ 9, doubled a % 10 = doubled b % 10 → a = b := by decide

/-- The weights of two neighbours agree in either order for 0 and 9 only. -/
theorem doubled_swap : ∀ a ≤ 9, ∀ b ≤ 9, (a + doubled b) % 10 = (b + doubled a) % 10 ↔
    a = b ∨ a = 0 ∧ b = 9 ∨ a = 9 ∧ b = 0 := by decide

theorem luhn_substitute (hc : c.isDigit = true) (hd : d.isDigit = true) (hne : c ≠ d)
    (h : luhn (String.ofList (pre ++ c :: post)) = true) :
    luhn (String.ofList (pre ++ d :: post)) = false := by
  rw [← Bool.not_eq_true]
  intro h'
  obtain ⟨_, _, hsum⟩ := (luhn_iff _).mp h
  obtain ⟨_, _, hsum'⟩ := (luhn_iff _).mp h'
  rw [String.toList_ofList, asciiDigits_reverse hc] at hsum
  rw [String.toList_ofList, asciiDigits_reverse hd] at hsum'
  have hle := digit_le hc
  have hle' := digit_le hd
  have hsame : c.toNat - 48 = d.toNat - 48 := by
    apply alternating_substitute _ _ (hsum.trans hsum'.symm)
    · intro hmod
      simp only [Nat.ModEq, id_eq] at hmod
      omega
    · exact doubled_inj _ hle _ hle'
  exact hne ((digit_eq_iff hc hd).mpr hsame)

/-- Two digits with no digit between them are neighbours. -/
theorem asciiDigits_reverse_pair (hc : c.isDigit = true) (hd : d.isDigit = true)
    (hmid : ∀ x ∈ mid, x.isDigit = false) :
    (asciiDigits (pre ++ c :: (mid ++ d :: post))).reverse =
      (asciiDigits post).reverse ++
        (d.toNat - 48) :: (c.toNat - 48) :: (asciiDigits pre).reverse := by
  rw [asciiDigits_reverse hc, asciiDigits_append, asciiDigits_eq_nil hmid, List.nil_append,
    asciiDigits_cons hd, List.reverse_cons, List.append_assoc]
  rfl

theorem luhn_swap (hc : c.isDigit = true) (hd : d.isDigit = true)
    (hmid : ∀ x ∈ mid, x.isDigit = false)
    (h : luhn (String.ofList (pre ++ c :: (mid ++ d :: post))) = true) :
    luhn (String.ofList (pre ++ d :: (mid ++ c :: post))) = true ↔
      c = d ∨ c = '0' ∧ d = '9' ∨ c = '9' ∧ d = '0' := by
  have hlen : ∀ {x y : Char}, x.isDigit = true → y.isDigit = true →
      (asciiDigits (pre ++ x :: (mid ++ y :: post))).length =
        (asciiDigits post).length + 2 + (asciiDigits pre).length := by
    intro x y hx hy
    rw [← List.length_reverse, asciiDigits_reverse_pair hx hy hmid]
    simp only [List.length_append, List.length_cons, List.length_reverse]
    omega
  have hswap : alternating id doubled ((asciiDigits post).reverse ++
        (c.toNat - 48) :: (d.toNat - 48) :: (asciiDigits pre).reverse) ≡
      alternating id doubled ((asciiDigits post).reverse ++
        (d.toNat - 48) :: (c.toNat - 48) :: (asciiDigits pre).reverse) [MOD 10] ↔
      c = d ∨ c = '0' ∧ d = '9' ∨ c = '9' ∧ d = '0' := by
    rw [digit_eq_iff hc hd, digit_eq_iff hc (rfl : '0'.isDigit = true),
      digit_eq_iff hd (rfl : '9'.isDigit = true), digit_eq_iff hc (rfl : '9'.isDigit = true),
      digit_eq_iff hd (rfl : '0'.isDigit = true)]
    exact (alternating_swap _ _ _ _).trans (doubled_swap _ (digit_le hc) _ (digit_le hd))
  rw [luhn_iff, String.toList_ofList, hlen hc hd, asciiDigits_reverse_pair hc hd hmid] at h
  obtain ⟨hlow, hhigh, hsum⟩ := h
  rw [luhn_iff, String.toList_ofList, hlen hd hc, asciiDigits_reverse_pair hd hc hmid, ← hswap]
  constructor
  · rintro ⟨_, _, hsum'⟩
    exact hsum'.trans hsum.symm
  · intro hsame
    exact ⟨hlow, hhigh, hsame.trans hsum⟩

end Errors

/-- The check is the textbook's: 13 to 19 digits whose sum is divisible by ten. In a text
that passes it no digit can be replaced by another, and two neighbouring digits can change
places only if they are equal or are 0 and 9. -/
theorem luhn_textbook (s : String) :
    (luhn s = true ↔
      13 ≤ (asciiDigits s.toList).length ∧ (asciiDigits s.toList).length ≤ 19 ∧
        10 ∣ textbookSum (asciiDigits s.toList)) ∧
    (luhn s = true → ∀ (pre post : List Char) (c d : Char), s.toList = pre ++ c :: post →
      c.isDigit = true → d.isDigit = true → c ≠ d →
        luhn (String.ofList (pre ++ d :: post)) = false) ∧
    (luhn s = true → ∀ (pre mid post : List Char) (c d : Char),
      s.toList = pre ++ c :: (mid ++ d :: post) → c.isDigit = true → d.isDigit = true →
        (∀ x ∈ mid, x.isDigit = false) →
          (luhn (String.ofList (pre ++ d :: (mid ++ c :: post))) = true ↔
            c = d ∨ c = '0' ∧ d = '9' ∨ c = '9' ∧ d = '0')) := by
  refine ⟨?_, ?_, ?_⟩
  · have hdigits : ∀ d ∈ asciiDigits s.toList, d ≤ 9 := fun d hd => asciiDigits_le hd
    rw [luhn_iff, textbookSum_eq hdigits, Nat.modEq_zero_iff_dvd]
  · intro h pre post c d hs hc hd hne
    rw [← String.ofList_toList (s := s), hs] at h
    exact luhn_substitute hc hd hne h
  · intro h pre mid post c d hs hc hd hmid
    rw [← String.ofList_toList (s := s), hs] at h
    exact luhn_swap hc hd hmid h

example : luhn "4111 0911 1111 1115" = true ∧ luhn "4111 9011 1111 1115" = true := by decide

end PgSense.Validators
