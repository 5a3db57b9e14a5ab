import PgSense.Rules.Walks

/-! IBANs: the matches of a text are exactly the account numbers in it. -/

namespace PgSense
open Library
set_option autoImplicit false

namespace Validators

theorem ibanStep_eq_some {n k : Nat} {b : UInt8} (h : ibanStep n b = some k) :
    isAsciiDigit b = true ∨ isAsciiUppercase b = true := by
  unfold ibanStep at h
  split at h
  · rename_i hdigit
    exact .inl hdigit
  · split at h
    · rename_i hupper
      exact .inr hupper
    · cases h

theorem foldlM_ibanStep {bs : List UInt8} {n k : Nat} (h : bs.foldlM ibanStep n = some k) :
    ∀ b ∈ bs, isAsciiDigit b = true ∨ isAsciiUppercase b = true := by
  induction bs generalizing n with
  | nil => exact fun b hb => absurd hb List.not_mem_nil
  | cons c bs ih =>
    rw [List.foldlM_cons] at h
    obtain ⟨n', hstep, hrest⟩ := Option.bind_eq_some_iff.mp h
    exact List.forall_mem_cons.mpr ⟨ibanStep_eq_some hstep, ih hrest⟩

/-- The check fails on a lowercase letter. -/
theorem uppercase_of_iban {m : String} (h : iban m = true) :
    ∀ b ∈ utf8 m, isAsciiAlphanumeric b = true →
      isAsciiDigit b = true ∨ isAsciiUppercase b = true := by
  intro b hb halnum
  simp only [iban] at h
  split at h
  · cases h
  · apply foldlM_ibanStep (eq_of_beq h)
    have hmem : b ∈ (utf8 m).filter isAsciiAlphanumeric := List.mem_filter.mpr ⟨hb, halnum⟩
    rw [← List.take_append_drop 4 ((utf8 m).filter isAsciiAlphanumeric)] at hmem
    rcases List.mem_append.mp hmem with hfront | hback
    · exact List.mem_append_right _ hfront
    · exact List.mem_append_left _ hback

end Validators

namespace Iban

/-- A country code, two check digits and what follows. -/
def Opening (bytes : List UInt8) (length : Nat) : Prop :=
  ∃ c0 c1 d0 d1 rest, bytes = c0 :: c1 :: d0 :: d1 :: rest ∧
    isAsciiUppercase c0 = true ∧ isAsciiUppercase c1 = true ∧ isAsciiDigit d0 = true ∧
    isAsciiDigit d1 = true ∧ countryLength c0 c1 = some length

/-- An IBAN of a text, between two byte offsets. -/
structure IbanAt (value : String) (start stop : Nat) (m : String) : Prop where
  slice : slice? value start stop = some m
  before : byteBefore isAsciiAlphanumeric (utf8 value) start = false
  after : byteAt isAsciiAlphanumeric (utf8 value) stop = false
  opening : Opening (utf8 m) ((utf8 m).countP isAsciiAlphanumeric)
  first : (utf8 m).head?.any isAsciiAlphanumeric = true
  last : (utf8 m).getLast?.any isAsciiAlphanumeric = true
  inner : Isolated isAsciiAlphanumeric isGroupSeparator (utf8 m)
  upper : ∀ b ∈ utf8 m, isAsciiAlphanumeric b = true →
    isAsciiDigit b = true ∨ isAsciiUppercase b = true
  check : Validators.iban m = true

theorem isAlphanumeric_of_uppercase {b : UInt8} (h : isAsciiUppercase b = true) :
    isAsciiAlphanumeric b = true := by
  rw [isAsciiAlphanumeric, isAsciiAlphabetic, h, Bool.true_or, Bool.true_or]

theorem countryLength_ge {c0 c1 : UInt8} {length : Nat} (h : countryLength c0 c1 = some length) :
    15 ≤ length := by
  have hall : ∀ entry ∈ countryLengths, 15 ≤ entry.2 := by decide
  obtain ⟨front, back, hsplit, _⟩ := List.lookup_eq_some_iff.mp h
  exact hall (_, length) (by rw [hsplit]; exact List.mem_append_right _ List.mem_cons_self)

section Steps
variable {value m : String} {i : Nat}

/-- What a successful candidate consists of. -/
theorem extractCandidate_eq_some {bytes : List UInt8} {start length : Nat} :
    extractCandidate value bytes start length = some m ↔
      byteAt isAsciiDigit bytes (start + 2) = true ∧ byteAt isAsciiDigit bytes (start + 3) = true ∧
      (alnumRun bytes length (start + 2) 2).2 = length ∧
      byteAt isAsciiAlphanumeric bytes (alnumRun bytes length (start + 2) 2).1 = false ∧
      PgSense.slice value start (alnumRun bytes length (start + 2) 2).1 = m ∧
      Validators.iban m = true := by
  simp only [extractCandidate]
  split
  · rename_i hdigits
    constructor
    · intro h
      cases h
    · rintro ⟨h2, h3, _⟩
      simp [h2, h3] at hdigits
  · rename_i hdigits
    simp only [Bool.or_eq_true, Bool.not_eq_true', not_or, Bool.not_eq_false] at hdigits
    split
    · rename_i hcount
      rw [bne_iff_ne] at hcount
      constructor
      · intro h
        cases h
      · exact fun h => absurd h.2.2.1 hcount
    · rename_i hcount
      rw [bne_iff_ne, Decidable.not_not] at hcount
      split
      · rename_i hafter
        constructor
        · intro h
          cases h
        · rintro ⟨_, _, _, hnot, _⟩
          rw [hafter] at hnot
          cases hnot
      · rename_i hafter
        rw [Bool.not_eq_true] at hafter
        split
        · rename_i hiban
          rw [Option.some.injEq]
          constructor
          · rintro rfl
            exact ⟨hdigits.1, hdigits.2, hcount, hafter, rfl, hiban⟩
          · exact fun h => h.2.2.2.2.1
        · rename_i hiban
          constructor
          · intro h
            cases h
          · rintro ⟨_, _, _, _, rfl, hok⟩
            exact absurd hok hiban

theorem step_eq_some : (step value i).1 = some m ↔
    byteAt isAsciiUppercase (utf8 value) i = true ∧
    byteAt isAsciiUppercase (utf8 value) (i + 1) = true ∧
    byteBefore isAsciiAlphanumeric (utf8 value) i = false ∧
    ∃ length, countryLength ((utf8 value).getD i 0) ((utf8 value).getD (i + 1) 0) = some length ∧
      extractCandidate value (utf8 value) i length = some m := by
  simp only [step]
  split
  · rename_i hstart
    simp only [Bool.and_eq_true, Bool.not_eq_true'] at hstart
    rw [Option.bind_eq_some_iff]
    exact ⟨fun h => ⟨hstart.1.1, hstart.1.2, hstart.2, h⟩, fun h => h.2.2.2⟩
  · rename_i hstart
    simp only [Bool.and_eq_true, Bool.not_eq_true'] at hstart
    constructor
    · intro h
      cases h
    · exact fun h => absurd ⟨⟨h.1, h.2.1⟩, h.2.2.1⟩ hstart

/-- The walk behind a country code takes two digits first. -/
theorem alnumRun_takes {length : Nat} (hlength : 15 ≤ length) {pre rest : List UInt8}
    (h2 : byteAt isAsciiDigit rest 0 = true) (h3 : byteAt isAsciiDigit rest 1 = true)
    (hcount : (alnumRun (pre ++ rest) length pre.length 2).2 = length) :
    ∃ d0 d1 xs post, rest = d0 :: d1 :: xs ++ post ∧ isAsciiDigit d0 = true ∧
      isAsciiDigit d1 = true ∧
      Groups isAsciiAlphanumeric (Single isGroupSeparator) (d0 :: d1 :: xs) (length - 2) ∧
      (alnumRun (pre ++ rest) length pre.length 2).1 = pre.length + (d0 :: d1 :: xs).length := by
  obtain ⟨xs, post, c, rfl, hg, hrun, _⟩ := (alnumRun_grouped length).consumes pre rest 2
  rw [hrun] at hcount ⊢
  have hlen : c ≤ xs.length := by
    rw [← hg.countP]
    exact List.countP_le_length
  dsimp only at hcount
  cases xs with
  | nil =>
    rw [List.length_nil] at hlen
    omega
  | cons d0 xs =>
    cases xs with
    | nil =>
      rw [List.length_singleton] at hlen
      omega
    | cons d1 xs =>
      have hc : c = length - 2 := by omega
      rw [← hc]
      exact ⟨d0, d1, xs, post, rfl, h2, h3, hg, rfl⟩

/-- The two letters of a country code, and the text cut behind them. -/
theorem exists_country {bytes : List UInt8} (h0 : byteAt isAsciiUppercase bytes i = true)
    (h1 : byteAt isAsciiUppercase bytes (i + 1) = true) :
    ∃ pre c0 c1 rest, bytes = (pre ++ [c0, c1]) ++ rest ∧ pre.length = i ∧
      isAsciiUppercase c0 = true ∧ isAsciiUppercase c1 = true ∧
      bytes.getD i 0 = c0 ∧ bytes.getD (i + 1) 0 = c1 := by
  obtain ⟨pre, c0, rest, rfl, rfl, hc0⟩ := split_of_byteAt h0
  rw [byteAt_part_succ] at h1
  cases rest with
  | nil => cases h1
  | cons c1 rest =>
    refine ⟨pre, c0, c1, rest, by simp, rfl, hc0, h1, ?_, ?_⟩
    · exact getD_behind pre (c0 :: c1 :: rest) 0
    · exact getD_behind pre (c0 :: c1 :: rest) 1

theorem ibanAt_of_step (h : (step value i).1 = some m) : ∃ stop, IbanAt value i stop m := by
  obtain ⟨h0, h1, hbefore, length, hcountry, hextract⟩ := step_eq_some.mp h
  obtain ⟨h2, h3, hcount, hafter, hslice, hcheck⟩ := extractCandidate_eq_some.mp hextract
  obtain ⟨pre, c0, c1, rest, hbytes, rfl, hc0, hc1, hget0, hget1⟩ := exists_country h0 h1
  rw [hget0, hget1] at hcountry
  have hlong := countryLength_ge hcountry
  have hlen : pre.length + 2 = (pre ++ [c0, c1]).length := by simp
  rw [hlen, hbytes, byteAt_part, List.head?_eq_getElem?] at h2
  rw [show pre.length + 3 = (pre ++ [c0, c1]).length + 1 by simp, hbytes, byteAt_behind] at h3
  rw [hlen, hbytes] at hcount hafter hslice
  obtain ⟨d0, d1, xs, post, rfl, hd0, hd1, hg, hend⟩ := alnumRun_takes hlong h2 h3 hcount
  have hall : Groups isAsciiAlphanumeric (Single isGroupSeparator) (c0 :: c1 :: d0 :: d1 :: xs)
      (length - 2 + 1 + 1) :=
    .cons (g := []) (.inl rfl) (by simp) (isAlphanumeric_of_uppercase hc0)
      (.cons (g := []) (.inl rfl) (by simp) (isAlphanumeric_of_uppercase hc1) hg)
  have hparts : utf8 value = pre ++ ((c0 :: c1 :: d0 :: d1 :: xs) ++ post) := by
    rw [hbytes]
    simp
  have hstop : (alnumRun ((pre ++ [c0, c1]) ++ (d0 :: d1 :: xs ++ post)) length
      (pre ++ [c0, c1]).length 2).1 = pre.length + (c0 :: c1 :: d0 :: d1 :: xs).length := by
    rw [hend]
    simp
    omega
  rw [hstop] at hafter hslice
  have hascii := isAsciiByte_of_groups (fun _ => isAsciiByte_of_alphanumeric) hall
  obtain ⟨ht, hxs⟩ := slice_of_ascii hparts hascii (by simp) hslice
  have hcountP := hall.countP
  have hfirst : (utf8 m).head?.any isAsciiAlphanumeric = true := by
    rw [hxs]
    exact isAlphanumeric_of_uppercase hc0
  rw [← hxs] at hall hcountP
  refine ⟨_, ht, hbefore, ?_, ?_, hfirst, hall.getLast? (by omega), hall.isolated hfirst,
    Validators.uppercase_of_iban hcheck, hcheck⟩
  · rw [hbytes]
    exact hafter
  · rw [hcountP, show length - 2 + 1 + 1 = length by omega]
    exact ⟨c0, c1, d0, d1, xs, hxs, hc0, hc1, hd0, hd1, hcountry⟩

theorem step_of_ibanAt {stop : Nat} (h : IbanAt value i stop m) : (step value i).1 = some m := by
  obtain ⟨pre, post, hvalue, rfl, rfl⟩ := bytes_of_slice? h.slice
  obtain ⟨c0, c1, d0, d1, rest, hm, hc0, hc1, hd0, hd1, hcountry⟩ := h.opening
  have hinner := h.inner
  rw [hm] at hinner
  have hg : Groups isAsciiAlphanumeric (Single isGroupSeparator) (d0 :: d1 :: rest) _ :=
    groups_of_isolated [c0, c1] hinner
  have hcount : (utf8 m).countP isAsciiAlphanumeric =
      2 + (d0 :: d1 :: rest).countP isAsciiAlphanumeric := by
    rw [hm, List.countP_cons_of_pos (isAlphanumeric_of_uppercase hc0),
      List.countP_cons_of_pos (isAlphanumeric_of_uppercase hc1)]
    omega
  generalize (utf8 m).countP isAsciiAlphanumeric = length at hcountry hcount
  have hparts : utf8 value = pre ++ (c0 :: c1 :: d0 :: d1 :: (rest ++ post)) := by
    rw [hvalue, hm]
    rfl
  have hbytes : utf8 value = (pre ++ [c0, c1]) ++ ((d0 :: d1 :: rest) ++ post) := by
    rw [hparts, List.append_assoc]
    rfl
  have hrun := (alnumRun_grouped length).reaches hg (pre ++ [c0, c1]) post (n := 2) (by omega)
    (Nat.le_refl 2) (.inr (isAlphanumeric_of_digit hd0))
  have hcut : (pre ++ [c0, c1]).length = pre.length + 2 := by simp
  have hend : pre.length + 2 + (d0 :: d1 :: rest).length = pre.length + (utf8 m).length := by
    rw [hm]
    simp
    omega
  rw [← hcount, (alnumRun_grouped length).stop (n := length) (.inl (Nat.le_refl length)), ← hbytes,
    hcut, hend] at hrun
  refine step_eq_some.mpr ⟨?_, ?_, h.before, length, ?_, ?_⟩
  · rw [hparts, byteAt_part]
    exact hc0
  · rw [hparts, byteAt_behind]
    exact hc1
  · rw [hparts, getD_behind _ _ 1]
    rw [← Nat.add_zero pre.length, getD_behind]
    exact hcountry
  · refine extractCandidate_eq_some.mpr ⟨?_, ?_, ?_, ?_, ?_, h.check⟩
    · rw [hparts, byteAt_behind]
      exact hd0
    · rw [hparts, byteAt_behind]
      exact hd1
    · rw [hrun]
    · rw [hrun]
      exact h.after
    · rw [hrun]
      exact slice_of_slice? h.slice

theorem iban_scan_exact (value : String) :
    ∃ found : List (Nat × String), scan value = found.map Prod.snd ∧
      found.Pairwise (fun a b => a.1 < b.1) ∧
      ∀ start m, (start, m) ∈ found ↔ ∃ stop, IbanAt value start stop m := by
  refine ⟨located (fun i => (step value i).1) ((utf8 value).length - 1), ?_,
    located_pairwise _ _, ?_⟩
  · rw [located_snd]
    exact scan_eq_filterMap value
  · intro start m
    rw [mem_located]
    constructor
    · exact fun h => ibanAt_of_step h.2
    · rintro ⟨stop, h⟩
      have hstep := step_of_ibanAt h
      refine ⟨?_, hstep⟩
      have hsecond := lt_of_byteAt (step_eq_some.mp hstep).2.1
      omega

end Steps

end Iban

end PgSense
