import PgSense.Rules.CheckedValidators
import PgSense.Rules.Engine

/-! The detectors with every slice, index and arithmetic operation of the source checked, and
that none of them panics on a text of a length a `str` can have. -/

namespace PgSense
open Library
set_option autoImplicit false

section Lookaround

/-- `i > 0 && p(bytes[i - 1])` -/
def precededBy (p : UInt8 → Bool) (bytes : List UInt8) (i : Nat) : Checked Bool :=
  if 0 < i then do
    let k ← Checked.sub i 1
    let b ← Checked.index bytes k
    pure (p b)
  else pure false

/-- `j + 1 < len && p(bytes[j + 1])` -/
def followedBy (p : UInt8 → Bool) (bytes : List UInt8) (j : Nat) : Checked Bool := do
  let k ← Checked.add usizeMax j 1
  if k < bytes.length then
    let b ← Checked.index bytes k
    pure (p b)
  else pure false

variable {p : UInt8 → Bool} {bytes : List UInt8} {value : String} {i j : Nat}

theorem precededBy_ok (hi : i ≤ bytes.length) :
    precededBy p bytes i = .ok (byteBefore p bytes i) := by
  rw [precededBy]
  split
  · rename_i hpos
    have hlt : i - 1 < bytes.length := by omega
    rw [Checked.sub_ok hpos, Outcome.ok_bind, Checked.index_lt hlt, byteBefore, byteAt_of_lt hlt]
    simp [hpos]
  · rename_i hzero
    have hi : i = 0 := by omega
    rw [hi]
    rfl

theorem followedBy_ok (hsize : bytes.length ≤ isizeMax) (hj : j < bytes.length) :
    followedBy p bytes j = .ok (byteAt p bytes (j + 1)) := by
  have hmax := isizeMax_add_le
  rw [followedBy, Checked.add_ok (by omega), Outcome.ok_bind]
  split
  · rename_i hlt
    rw [Checked.index_lt hlt, byteAt_of_lt hlt]
    rfl
  · rw [byteAt_of_le (by omega)]
    rfl

theorem fits_succ (hsize : bytes.length ≤ isizeMax) (hj : j < bytes.length) :
    Checked.fits usizeMax (j + 1) = .ok () := by
  have hmax := isizeMax_add_le
  exact Checked.fits_ok (by omega)

theorem charBoundary_at (hp : ∀ b, p b = true → isAsciiByte b = true)
    (h : byteAt p (utf8 value) i = true) : CharBoundary value.toList i := by
  obtain ⟨b, hb, hpb⟩ := byteAt_iff.mp h
  exact charBoundary_of_ascii hb (hp b hpb)

theorem charBoundary_after (hp : ∀ b, p b = true → isAsciiByte b = true)
    (h : byteAt p (utf8 value) i = true) : CharBoundary value.toList (i + 1) := by
  obtain ⟨b, hb, hpb⟩ := byteAt_iff.mp h
  exact charBoundary_after_ascii hb (hp b hpb)

theorem isAsciiByte_of_eq {k : UInt8} (hk : isAsciiByte k = true) (b : UInt8)
    (h : (b == k) = true) : isAsciiByte b = true := by
  rw [eq_of_beq h]
  exact hk

theorem isAsciiByte_of_either {k l : UInt8} (hk : isAsciiByte k = true) (hl : isAsciiByte l = true)
    (b : UInt8) (h : (b == k || b == l) = true) : isAsciiByte b = true := by
  rcases Bool.or_eq_true_iff.mp h with h | h
  · exact isAsciiByte_of_eq hk b h
  · exact isAsciiByte_of_eq hl b h

theorem isAsciiByte_of_domainChar (b : UInt8) (h : Email.isDomainChar b = true) :
    isAsciiByte b = true := by
  rw [Email.isDomainChar, Bool.or_assoc, Bool.or_eq_true] at h
  rcases h with h | h
  · exact isAsciiByte_of_alphanumeric h
  · exact isAsciiByte_of_either rfl rfl b h

/-- A walk over ASCII bytes ends between characters. -/
theorem Grouped.boundary {run : List UInt8 → Nat → Nat → Nat × Nat} {limit least n : Nat}
    (hrun : Grouped run p limit least) (hp : ∀ b, p b = true → isAsciiByte b = true)
    (hj : CharBoundary value.toList j) : CharBoundary value.toList (run (utf8 value) j n).1 := by
  induction hd : (utf8 value).length - j using Nat.strongRecOn generalizing j n with
  | ind d ih =>
    rw [hrun]
    split
    · rename_i hbyte
      have hlt := lt_of_byteAt hbyte.2
      exact ih (d - 1) (by omega) (charBoundary_after hp hbyte.2) (by omega)
    · split
      · rename_i hsep
        have hlt := lt_of_byteAt hsep.2.1
        have hboundary := charBoundary_after (isAsciiByte_of_either rfl rfl) hsep.2.1
        exact ih (d - 1) (by omega) hboundary (by omega)
      · exact hj

end Lookaround

namespace CreditCard.Checked

/-- A space or hyphen between two digits. -/
def isInnerSeparator (bytes : List UInt8) (b : UInt8) (j digitCount : Nat) : Checked Bool :=
  if (b == 32 || b == 45) && 0 < digitCount then followedBy isAsciiDigit bytes j else pure false

def digitRun (bytes : List UInt8) (j digitCount : Nat) : Checked (Nat × Nat) :=
  if _ : j < bytes.length then
    if 19 ≤ digitCount then pure (j, digitCount)
    else do
      let b ← Checked.index bytes j
      if isAsciiDigit b then do
        Checked.fits 0x7FFFFFFF (digitCount + 1)
        Checked.fits usizeMax (j + 1)
        digitRun bytes (j + 1) (digitCount + 1)
      else do
        let inner ← isInnerSeparator bytes b j digitCount
        if inner then do
          Checked.fits usizeMax (j + 1)
          digitRun bytes (j + 1) digitCount
        else pure (j, digitCount)
  else pure (j, digitCount)
termination_by bytes.length - j

/-- `j >= len || !(bytes[j].is_ascii_alphanumeric() || bytes[j] == b'_')` -/
def atBoundary (bytes : List UInt8) (j : Nat) : Checked Bool :=
  if bytes.length ≤ j then pure true
  else do
    let b ← Checked.index bytes j
    pure !isWordByte b

def cardIn (value : String) (start : Nat) (run : Nat × Nat) : Checked (List String) := do
  let boundary ← atBoundary (utf8 value) run.1
  if 13 ≤ run.2 && run.2 ≤ 19 && boundary then do
    let candidate ← sliceChecked value start run.1
    let valid ← Validators.Checked.luhn candidate
    pure (if valid then [candidate] else [])
  else pure []

def scanFrom (value : String) (i : Nat) : Checked (List String) :=
  if _ : i < (utf8 value).length then do
    let b ← Checked.index (utf8 value) i
    if !isAsciiDigit b then do
      Checked.fits usizeMax (i + 1)
      scanFrom value (i + 1)
    else do
      let before ← precededBy isWordByte (utf8 value) i
      if before then do
        Checked.fits usizeMax (i + 1)
        scanFrom value (i + 1)
      else do
        let run ← digitRun (utf8 value) i 0
        let card ← cardIn value i run
        if _ : i < run.1 then do
          let rest ← scanFrom value run.1
          pure (card ++ rest)
        else do
          Checked.fits usizeMax (i + 1)
          let rest ← scanFrom value (i + 1)
          pure (card ++ rest)
  else pure []
termination_by (utf8 value).length - i

def scan (value : String) : Checked (List String) := scanFrom value 0

theorem isInnerSeparator_ok {bytes : List UInt8} (hsize : bytes.length ≤ isizeMax) (b : UInt8)
    {j : Nat} (n : Nat) (hj : j < bytes.length) : isInnerSeparator bytes b j n =
      .ok ((b == 32 || b == 45) && 0 < n && byteAt isAsciiDigit bytes (j + 1)) := by
  rw [isInnerSeparator]
  split
  · rename_i hsep
    rw [followedBy_ok hsize hj, hsep, Bool.true_and]
  · rename_i hsep
    rw [Bool.not_eq_true] at hsep
    rw [hsep]
    rfl

theorem digitRun_ok {bytes : List UInt8} (hsize : bytes.length ≤ isizeMax) (j n : Nat) :
    digitRun bytes j n = .ok (CreditCard.digitRun bytes j n) := by
  fun_induction CreditCard.digitRun bytes j n with
  | case1 j n h hn =>
    rw [digitRun, dif_pos h, if_pos hn]
    rfl
  | case2 j n h hn hdigit ih =>
    rw [digitRun, dif_pos h, if_neg hn, Checked.index_lt h, Outcome.ok_bind, if_pos hdigit,
      Checked.fits_ok (by omega), Outcome.ok_bind, fits_succ hsize h, Outcome.ok_bind]
    exact ih
  | case3 j n h hn hdigit hsep ih =>
    rw [digitRun, dif_pos h, if_neg hn, Checked.index_lt h, Outcome.ok_bind, if_neg hdigit,
      isInnerSeparator_ok hsize _ _ h, hsep, Outcome.ok_bind, if_pos rfl, fits_succ hsize h,
      Outcome.ok_bind]
    exact ih
  | case4 j n h hn hdigit hsep =>
    rw [Bool.not_eq_true] at hsep
    rw [digitRun, dif_pos h, if_neg hn, Checked.index_lt h, Outcome.ok_bind, if_neg hdigit,
      isInnerSeparator_ok hsize _ _ h, hsep, Outcome.ok_bind, if_neg Bool.false_ne_true]
    rfl
  | case5 j n h =>
    rw [digitRun, dif_neg h]
    rfl

theorem atBoundary_ok (bytes : List UInt8) (j : Nat) :
    atBoundary bytes j = .ok (!byteAt isWordByte bytes j) := by
  rw [atBoundary]
  split
  · rename_i hend
    rw [byteAt_of_le hend]
    rfl
  · rename_i hin
    have hlt : j < bytes.length := by omega
    rw [Checked.index_lt hlt, byteAt_of_lt hlt]
    rfl

theorem cardIn_ok {value : String} {i j n : Nat} (hij : i ≤ j)
    (hi : CharBoundary value.toList i) (hj : CharBoundary value.toList j) :
    cardIn value i (j, n) = .ok (if 13 ≤ n && n ≤ 19 && !byteAt isWordByte (utf8 value) j &&
      Validators.luhn (slice value i j) then [slice value i j] else []) := by
  rw [cardIn, atBoundary_ok, Outcome.ok_bind]
  simp only
  split
  · rename_i hcard
    rw [sliceChecked_ok hij hi hj, Outcome.ok_bind, Validators.Checked.luhn_ok, Outcome.ok_bind, hcard,
      Bool.true_and]
    rfl
  · rename_i hcard
    rw [Bool.not_eq_true] at hcard
    rw [hcard]
    rfl

theorem scanFrom_ok {value : String} (hsize : (utf8 value).length ≤ isizeMax) (i : Nat) :
    scanFrom value i = .ok (CreditCard.scanFrom value (utf8 value) i) := by
  induction hd : (utf8 value).length - i using Nat.strongRecOn generalizing i with
  | ind d ih =>
    rw [scanFrom, CreditCard.scanFrom]
    by_cases hi : i < (utf8 value).length
    · have hnext := ih (d - 1) (by omega) (i + 1) (by omega)
      rw [dif_pos hi, dif_pos hi, Checked.index_lt hi, Outcome.ok_bind]
      split
      · rw [fits_succ hsize hi, Outcome.ok_bind]
        exact hnext
      · rename_i hdigit
        rw [precededBy_ok (Nat.le_of_lt hi), Outcome.ok_bind]
        split
        · rw [fits_succ hsize hi, Outcome.ok_bind]
          exact hnext
        · rename_i hbefore
          have hbyte : byteAt isAsciiDigit (utf8 value) i = true := by
            rw [byteAt_of_lt hi]
            simpa using hdigit
          have hlt := lt_digitRun hbyte
          have hstart := charBoundary_at isAsciiByte_of_digit hbyte
          have hend := digitRun_grouped.boundary isAsciiByte_of_digit (n := 0) hstart
          have hrest := ih _ (by omega) (CreditCard.digitRun (utf8 value) i 0).1 rfl
          rw [digitRun_ok hsize, Outcome.ok_bind, cardIn_ok (Nat.le_of_lt hlt) hstart hend,
            Outcome.ok_bind, dif_pos hlt, hrest, Outcome.ok_bind]
          simp only [hlt, if_true]
          split <;> rfl
    · rw [dif_neg hi, dif_neg hi]
      rfl

end CreditCard.Checked

namespace Iban.Checked

def isInnerSeparator (bytes : List UInt8) (b : UInt8) (j alnumCount : Nat) : Checked Bool :=
  if (b == 32 || b == 45) && 2 < alnumCount then do
    let k ← Checked.add usizeMax j 1
    pure (byteAt isAsciiAlphanumeric bytes k)
  else pure false

def alnumRun (bytes : List UInt8) (expected j alnumCount : Nat) : Checked (Nat × Nat) :=
  if _ : j < bytes.length then
    if expected ≤ alnumCount then pure (j, alnumCount)
    else do
      let b ← Checked.index bytes j
      if isAsciiAlphanumeric b then do
        Checked.fits usizeMax (alnumCount + 1)
        Checked.fits usizeMax (j + 1)
        alnumRun bytes expected (j + 1) (alnumCount + 1)
      else do
        let inner ← isInnerSeparator bytes b j alnumCount
        if inner then do
          Checked.fits usizeMax (j + 1)
          alnumRun bytes expected (j + 1) alnumCount
        else pure (j, alnumCount)
  else pure (j, alnumCount)
termination_by bytes.length - j

/-- The two check digits at `j`. -/
def hasCheckDigits (bytes : List UInt8) (j : Nat) : Checked Bool :=
  if byteAt isAsciiDigit bytes j then do
    let k ← Checked.add usizeMax j 1
    pure (byteAt isAsciiDigit bytes k)
  else pure false

def extractCandidate (value : String) (start expected : Nat) : Checked (Option String) := do
  let j ← Checked.add usizeMax start 2
  let checkDigits ← hasCheckDigits (utf8 value) j
  if !checkDigits then pure none
  else do
    let run ← alnumRun (utf8 value) expected j 2
    if run.2 != expected then pure none
    else if byteAt isAsciiAlphanumeric (utf8 value) run.1 then pure none
    else do
      let candidate ← sliceChecked value start run.1
      let valid ← Validators.Checked.iban candidate
      pure (if valid then some candidate else none)

/-- The window of two bytes at `i`. -/
def candidateAt (value : String) (i : Nat) : Checked (Option String) := do
  let w0 ← Checked.index (utf8 value) i
  let w1 ← Checked.index (utf8 value) (i + 1)
  if isAsciiUppercase w0 && isAsciiUppercase w1 then do
    let before ← precededBy isAsciiAlphanumeric (utf8 value) i
    if before then pure none
    else
      match countryLength w0 w1 with
      | none => pure none
      | some expected => extractCandidate value i expected
  else pure none

def scan (value : String) : Checked (List String) := do
  let found ← (List.range ((utf8 value).length - 1)).mapM (candidateAt value)
  pure (found.filterMap id)

theorem isInnerSeparator_ok {bytes : List UInt8} (hsize : bytes.length ≤ isizeMax) (b : UInt8)
    {j : Nat} (n : Nat) (hj : j < bytes.length) : isInnerSeparator bytes b j n =
      .ok ((b == 32 || b == 45) && 2 < n && byteAt isAsciiAlphanumeric bytes (j + 1)) := by
  have hmax := isizeMax_add_le
  rw [isInnerSeparator]
  split
  · rename_i hsep
    rw [Checked.add_ok (by omega), Outcome.ok_bind, hsep, Bool.true_and]
    rfl
  · rename_i hsep
    rw [Bool.not_eq_true] at hsep
    rw [hsep]
    rfl

theorem alnumRun_ok {bytes : List UInt8} (hsize : bytes.length ≤ isizeMax) {expected : Nat}
    (hexpected : expected ≤ 255) (j n : Nat) :
    alnumRun bytes expected j n = .ok (Iban.alnumRun bytes expected j n) := by
  have hmax := isizeMax_add_le
  fun_induction Iban.alnumRun bytes expected j n with
  | case1 j n h hn =>
    rw [alnumRun, dif_pos h, if_pos hn]
    rfl
  | case2 j n h hn halnum ih =>
    rw [alnumRun, dif_pos h, if_neg hn, Checked.index_lt h, Outcome.ok_bind, if_pos halnum,
      Checked.fits_ok (by omega), Outcome.ok_bind, fits_succ hsize h, Outcome.ok_bind]
    exact ih
  | case3 j n h hn halnum hsep ih =>
    rw [alnumRun, dif_pos h, if_neg hn, Checked.index_lt h, Outcome.ok_bind, if_neg halnum,
      isInnerSeparator_ok hsize _ _ h, hsep, Outcome.ok_bind, if_pos rfl, fits_succ hsize h,
      Outcome.ok_bind]
    exact ih
  | case4 j n h hn halnum hsep =>
    rw [Bool.not_eq_true] at hsep
    rw [alnumRun, dif_pos h, if_neg hn, Checked.index_lt h, Outcome.ok_bind, if_neg halnum,
      isInnerSeparator_ok hsize _ _ h, hsep, Outcome.ok_bind, if_neg Bool.false_ne_true]
    rfl
  | case5 j n h =>
    rw [alnumRun, dif_neg h]
    rfl

theorem countryLength_le {c0 c1 : UInt8} {expected : Nat}
    (h : countryLength c0 c1 = some expected) : expected ≤ 255 := by
  have hall : countryLengths.all (fun r => r.2 ≤ 255) = true := by decide
  obtain ⟨front, back, hlist, _⟩ := List.lookup_eq_some_iff.mp h
  have hmem : (c0.toNat * 256 + c1.toNat, expected) ∈ countryLengths := by
    rw [hlist]
    exact List.mem_append_right front List.mem_cons_self
  exact of_decide_eq_true (List.all_eq_true.mp hall _ hmem)

theorem isAsciiByte_of_uppercase (b : UInt8) (h : isAsciiUppercase b = true) :
    isAsciiByte b = true :=
  isAsciiByte_of_alphanumeric (by rw [isAsciiAlphanumeric, isAsciiAlphabetic, h]; rfl)

theorem hasCheckDigits_ok {bytes : List UInt8} (hsize : bytes.length ≤ isizeMax) (j : Nat) :
    hasCheckDigits bytes j =
      .ok (byteAt isAsciiDigit bytes j && byteAt isAsciiDigit bytes (j + 1)) := by
  have hmax := isizeMax_add_le
  rw [hasCheckDigits]
  split
  · rename_i hdigit
    have hlt := lt_of_byteAt hdigit
    rw [Checked.add_ok (by omega), Outcome.ok_bind, hdigit, Bool.true_and]
    rfl
  · rename_i hdigit
    rw [Bool.not_eq_true] at hdigit
    rw [hdigit]
    rfl

theorem extractCandidate_ok {value : String} (hsize : (utf8 value).length ≤ isizeMax)
    {i expected : Nat} (hi : byteAt isAsciiUppercase (utf8 value) i = true)
    (hnext : byteAt isAsciiUppercase (utf8 value) (i + 1) = true) (hexpected : expected ≤ 255) :
    extractCandidate value i expected =
      .ok (Iban.extractCandidate value (utf8 value) i expected) := by
  have hmax := isizeMax_add_le
  have hlt := lt_of_byteAt hnext
  have hstart := charBoundary_at isAsciiByte_of_uppercase hi
  have hend := (alnumRun_grouped expected).boundary (fun b hb => isAsciiByte_of_alphanumeric hb)
    (j := i + 2) (n := 2) (charBoundary_after isAsciiByte_of_uppercase hnext)
  have hle := (alnumRun_grouped expected).le (utf8 value) (i + 2) 2
  rw [extractCandidate, Iban.extractCandidate, Checked.add_ok (by omega), Outcome.ok_bind,
    hasCheckDigits_ok hsize, Outcome.ok_bind, Bool.not_and]
  split
  · rfl
  · rw [alnumRun_ok hsize hexpected, Outcome.ok_bind]
    simp only at hend hle ⊢
    split
    · rfl
    · split
      · rfl
      · rw [sliceChecked_ok (by omega) hstart hend, Outcome.ok_bind, Validators.Checked.iban_ok,
          Outcome.ok_bind]
        split <;> rfl

theorem candidateAt_ok {value : String} (hsize : (utf8 value).length ≤ isizeMax) {i : Nat}
    (hi : i + 1 < (utf8 value).length) : candidateAt value i = .ok (Iban.step value i).1 := by
  have hlt : i < (utf8 value).length := by omega
  simp only [Iban.step, List.getD_eq_getElem (utf8 value) 0 hlt,
    List.getD_eq_getElem (utf8 value) 0 hi]
  rw [candidateAt, Checked.index_lt hlt, Outcome.ok_bind, Checked.index_lt hi, Outcome.ok_bind,
    ← byteAt_of_lt hlt (p := isAsciiUppercase), ← byteAt_of_lt hi (p := isAsciiUppercase)]
  cases hupper : byteAt isAsciiUppercase (utf8 value) i with
  | false => rfl
  | true =>
    cases hnext : byteAt isAsciiUppercase (utf8 value) (i + 1) with
    | false => rfl
    | true =>
      rw [Bool.and_self, if_pos rfl, precededBy_ok (Nat.le_of_lt hlt), Outcome.ok_bind]
      cases byteBefore isAsciiAlphanumeric (utf8 value) i with
      | true => rfl
      | false =>
        cases hcountry : countryLength (utf8 value)[i] (utf8 value)[i + 1] with
        | none => rfl
        | some expected => exact extractCandidate_ok hsize hupper hnext (countryLength_le hcountry)

theorem scan_ok {value : String} (hsize : (utf8 value).length ≤ isizeMax) :
    scan value = .ok (Iban.scan value) := by
  have hloop : (List.range ((utf8 value).length - 1)).mapM (candidateAt value) =
      .ok ((List.range ((utf8 value).length - 1)).map fun i => (Iban.step value i).1) := by
    apply Checked.mapM_ok
    intro i hi
    have hlt := List.mem_range.mp hi
    exact candidateAt_ok hsize (by omega)
  rw [scan, hloop, Outcome.ok_bind, List.filterMap_map, Iban.scan_eq_filterMap]
  rfl

end Iban.Checked

namespace Ssn.Checked

def digitAt (bytes : List UInt8) (i k : Nat) : Checked Bool := do
  let j ← Checked.add usizeMax i k
  let b ← Checked.index bytes j
  pure (isAsciiDigit b)

def digitsAt (bytes : List UInt8) (i : Nat) : List Nat → Checked Bool
  | [] => pure true
  | k :: ks => do
    let digit ← digitAt bytes i k
    if digit then digitsAt bytes i ks else pure false

def layoutAt (bytes : List UInt8) (i : Nat) (sep : UInt8) : Checked Bool := do
  let area ← digitsAt bytes i [0, 1, 2]
  if !(area && [45, 32, 46].contains sep) then pure false
  else do
    let group ← digitsAt bytes i [4, 5]
    if !group then pure false
    else do
      let j ← Checked.add usizeMax i 6
      let second ← Checked.index bytes j
      if second != sep then pure false
      else digitsAt bytes i [7, 8, 9, 10]

/-- `end < len && (bytes[end].is_ascii_alphanumeric() || bytes[end] == b'_')` -/
def wordAt (bytes : List UInt8) (stop : Nat) : Checked Bool :=
  if stop < bytes.length then do
    let b ← Checked.index bytes stop
    pure (isWordByte b)
  else pure false

def matchAt (value : String) (i : Nat) : Checked (Option String) := do
  let before ← precededBy isWordByte (utf8 value) i
  if before then pure none
  else do
    let stop ← Checked.add usizeMax i 11
    let after ← wordAt (utf8 value) stop
    if after then pure none
    else do
      let j ← Checked.add usizeMax i 3
      let sep ← Checked.index (utf8 value) j
      let layout ← layoutAt (utf8 value) i sep
      if !layout then pure none
      else do
        let candidate ← sliceChecked value i stop
        let valid ← Validators.Checked.ssn candidate
        pure (if valid then some candidate else none)

def scan (value : String) : Checked (List String) :=
  if (utf8 value).length < 11 then pure []
  else do
    let last ← Checked.sub (utf8 value).length 11
    let found ← (List.range (last + 1)).mapM (matchAt value)
    pure (found.filterMap id)

theorem digitsAt_ok {bytes : List UInt8} (hsize : bytes.length ≤ isizeMax) {i : Nat} {ks : List Nat}
    (h : ∀ k ∈ ks, i + k < bytes.length) :
    digitsAt bytes i ks = .ok (ks.all fun k => byteAt isAsciiDigit bytes (i + k)) := by
  have hmax := isizeMax_add_le
  induction ks with
  | nil => rfl
  | cons k ks ih =>
    have hk := h k List.mem_cons_self
    have hrest := ih (fun k' hk' => h k' (List.mem_cons_of_mem k hk'))
    have hdigit : digitAt bytes i k = .ok (byteAt isAsciiDigit bytes (i + k)) := by
      rw [digitAt, Checked.add_ok (by omega), Outcome.ok_bind, Checked.index_lt hk, byteAt_of_lt hk]
      rfl
    rw [digitsAt, hdigit, Outcome.ok_bind, List.all_cons]
    cases byteAt isAsciiDigit bytes (i + k) with
    | true => exact hrest
    | false => rfl

theorem layoutAt_ok {bytes : List UInt8} (hsize : bytes.length ≤ isizeMax) {i : Nat}
    (hi : i + 10 < bytes.length) :
    layoutAt bytes i (bytes.getD (i + 3) 0) = .ok (Ssn.layoutAt bytes i) := by
  have hmax := isizeMax_add_le
  have hsix : i + 6 < bytes.length := by omega
  have hsecond := List.getD_eq_getElem bytes 0 hsix
  have hgroups : [0, 1, 2, 4, 5, 7, 8, 9, 10].all (fun k => byteAt isAsciiDigit bytes (i + k)) =
      ([0, 1, 2].all (fun k => byteAt isAsciiDigit bytes (i + k)) &&
        ([4, 5].all (fun k => byteAt isAsciiDigit bytes (i + k)) &&
          [7, 8, 9, 10].all (fun k => byteAt isAsciiDigit bytes (i + k)))) := by
    simp only [List.all_cons, List.all_nil, Bool.and_true, Bool.and_assoc]
  have hoffset : ∀ ks : List Nat, (∀ k ∈ ks, k ≤ 10) → ∀ k ∈ ks, i + k < bytes.length := by
    intro ks hks k hk
    have hle := hks k hk
    omega
  rw [layoutAt, digitsAt_ok hsize (hoffset _ (by simp)), Outcome.ok_bind,
    digitsAt_ok hsize (hoffset _ (by simp)), digitsAt_ok hsize (hoffset _ (by simp)),
    Checked.add_ok (by omega)]
  simp only [Outcome.ok_bind, Checked.index_lt hsix, Ssn.layoutAt, hgroups, hsecond]
  generalize [0, 1, 2].all (fun k => byteAt isAsciiDigit bytes (i + k)) = area
  generalize [4, 5].all (fun k => byteAt isAsciiDigit bytes (i + k)) = group
  generalize [7, 8, 9, 10].all (fun k => byteAt isAsciiDigit bytes (i + k)) = serial
  generalize [45, 32, 46].contains (bytes.getD (i + 3) 0) = sep
  cases area with
  | false => rfl
  | true =>
    cases sep with
    | false => cases group <;> cases serial <;> rfl
    | true =>
      cases group with
      | false => rfl
      | true =>
        rw [bne]
        cases bytes[i + 6] == bytes.getD (i + 3) 0 <;> cases serial <;> rfl

theorem wordAt_ok (bytes : List UInt8) (j : Nat) :
    wordAt bytes j = .ok (byteAt isWordByte bytes j) := by
  rw [wordAt]
  split
  · rename_i hlt
    rw [Checked.index_lt hlt, byteAt_of_lt hlt]
    rfl
  · rw [byteAt_of_le (by omega)]
    rfl

theorem matchAt_ok {value : String} (hsize : (utf8 value).length ≤ isizeMax) {i : Nat}
    (hi : i + 10 < (utf8 value).length) : matchAt value i = .ok (Ssn.step value i).1 := by
  have hmax := isizeMax_add_le
  have hsep : (utf8 value)[i + 3]? = some ((utf8 value).getD (i + 3) 0) :=
    getElem?_eq_getD (by omega)
  rw [matchAt, precededBy_ok (by omega), Outcome.ok_bind]
  simp only [Ssn.step]
  cases byteBefore isWordByte (utf8 value) i with
  | true => rfl
  | false =>
    rw [if_neg Bool.false_ne_true, Checked.add_ok (by omega), Outcome.ok_bind, wordAt_ok,
      Outcome.ok_bind]
    cases byteAt isWordByte (utf8 value) (i + 11) with
    | true => rfl
    | false =>
      rw [if_neg Bool.false_ne_true, Checked.add_ok (by omega), Outcome.ok_bind,
        Checked.index_ok hsep, Outcome.ok_bind, layoutAt_ok hsize hi, Outcome.ok_bind]
      cases hlayout : Ssn.layoutAt (utf8 value) i with
      | false => rfl
      | true =>
        have hfirst := Ssn.byteAt_of_layoutAt (k := 0) hlayout (by simp)
        have hlast := Ssn.byteAt_of_layoutAt (k := 10) hlayout (by simp)
        have hstart : CharBoundary value.toList i := charBoundary_at isAsciiByte_of_digit hfirst
        have hend : CharBoundary value.toList (i + 11) :=
          charBoundary_after isAsciiByte_of_digit hlast
        rw [Bool.not_true, if_neg Bool.false_ne_true, sliceChecked_ok (by omega) hstart hend,
          Outcome.ok_bind, Validators.Checked.ssn_ok, Outcome.ok_bind]
        rfl

theorem scan_ok {value : String} (hsize : (utf8 value).length ≤ isizeMax) :
    scan value = .ok (Ssn.scan value) := by
  rw [scan, Ssn.scan_eq_filterMap]
  split
  · rename_i hshort
    have hzero : (utf8 value).length - 10 = 0 := by omega
    rw [hzero]
    rfl
  · rename_i hlong
    have hcount : (utf8 value).length - 11 + 1 = (utf8 value).length - 10 := by omega
    have hloop : (List.range ((utf8 value).length - 10)).mapM (matchAt value) =
        .ok ((List.range ((utf8 value).length - 10)).map fun i => (Ssn.step value i).1) := by
      apply Checked.mapM_ok
      intro i hi
      have hlt := List.mem_range.mp hi
      exact matchAt_ok hsize (by omega)
    rw [Checked.sub_ok (by omega), Outcome.ok_bind, hcount, hloop, Outcome.ok_bind,
      List.filterMap_map]
    rfl

end Ssn.Checked

namespace Email.Checked

/-- `while local_start > min_local && is_email_local_char(bytes[local_start - 1])` -/
def localStart (bytes : List UInt8) (minLocal : Nat) : Nat → Checked Nat
  | 0 => pure 0
  | n + 1 =>
    if minLocal < n + 1 then do
      let k ← Checked.sub (n + 1) 1
      let b ← Checked.index bytes k
      let inLocal ← Validators.Checked.isEmailLocalChar b
      if inLocal then localStart bytes minLocal n else pure (n + 1)
    else pure (n + 1)

def domainEnd (bytes : List UInt8) (maxDomain d : Nat) : Checked Nat :=
  if _ : d < maxDomain then do
    let b ← Checked.index bytes d
    if isDomainChar b then do
      Checked.fits usizeMax (d + 1)
      domainEnd bytes maxDomain (d + 1)
    else pure d
  else pure d
termination_by maxDomain - d

/-- `while domain_end > at + 1 && matches!(bytes[domain_end - 1], b'.' | b'-')` -/
def trimEnd (bytes : List UInt8) (low : Nat) : Nat → Checked Nat
  | 0 => pure 0
  | n + 1 =>
    if low < n + 1 then do
      let k ← Checked.sub (n + 1) 1
      let b ← Checked.index bytes k
      if b == 46 || b == 45 then trimEnd bytes low n else pure (n + 1)
    else pure (n + 1)

def extractCandidate (value : String) (pos : Nat) : Checked (Option String) := do
  let start ← localStart (utf8 value) (pos - 64) pos
  if start == pos then pure none
  else do
    let low ← Checked.add usizeMax pos 1
    let cap ← Checked.add usizeMax low 253
    let stop ← domainEnd (utf8 value) (min cap (utf8 value).length) low
    if stop == low then pure none
    else if byteAt isWordByte (utf8 value) stop then pure none
    else do
      let stop ← trimEnd (utf8 value) low stop
      let candidate ← sliceChecked value start stop
      pure (some candidate)

/-- One byte of the loop over `enumerate()`. -/
def candidateAt (value : String) (pos : Nat) : Checked (Option String) := do
  let b ← Checked.index (utf8 value) pos
  if b == 64 then do
    match ← extractCandidate value pos with
    | none => pure none
    | some candidate => do
      let valid ← Validators.Checked.email candidate
      pure (if valid then some candidate else none)
  else pure none

def scan (value : String) : Checked (List String) := do
  let found ← (List.range (utf8 value).length).mapM (candidateAt value)
  pure (found.filterMap id)

theorem localStart_ok (bytes : List UInt8) (low : Nat) {n : Nat} (hn : n ≤ bytes.length) :
    localStart bytes low n = .ok (Email.localStart bytes low n) := by
  induction n with
  | zero => rfl
  | succ n ih =>
    have hlt : n < bytes.length := by omega
    rw [localStart, Email.localStart, Checked.sub_ok (by omega), Outcome.ok_bind,
      Nat.add_sub_cancel, Checked.index_lt hlt, Outcome.ok_bind,
      Validators.Checked.isEmailLocalChar_ok, Outcome.ok_bind, byteAt_of_lt hlt]
    by_cases hlow : low < n + 1
    · cases hlocal : Validators.isEmailLocalChar bytes[n] with
      | true =>
        rw [if_pos hlow, if_pos rfl, if_pos (by simp [hlow])]
        exact ih (by omega)
      | false =>
        rw [if_pos hlow, if_neg Bool.false_ne_true, if_neg (by simp)]
        rfl
    · rw [if_neg hlow, if_neg (by simp [hlow])]
      rfl

theorem domainEnd_ok {bytes : List UInt8} (hsize : bytes.length ≤ isizeMax) (fuel : Nat) {d : Nat}
    (hd : d ≤ bytes.length) : domainEnd bytes (min (d + fuel) bytes.length) d =
      .ok (Email.domainEnd bytes fuel d) := by
  induction fuel generalizing d with
  | zero =>
    rw [domainEnd, dif_neg (by omega)]
    rfl
  | succ fuel ih =>
    rw [domainEnd, Email.domainEnd]
    by_cases hlt : d < bytes.length
    · have hcap : d + (fuel + 1) = d + 1 + fuel := by omega
      rw [dif_pos (by omega), Checked.index_lt hlt, Outcome.ok_bind, byteAt_of_lt hlt]
      split
      · rw [fits_succ hsize hlt, Outcome.ok_bind, hcap]
        exact ih hlt
      · rfl
    · rw [dif_neg (by omega), byteAt_of_le (by omega)]
      rfl

theorem trimEnd_ok (bytes : List UInt8) (low : Nat) {n : Nat} (hn : n ≤ bytes.length) :
    trimEnd bytes low n = .ok (Email.trimEnd bytes low n) := by
  induction n with
  | zero => rfl
  | succ n ih =>
    have hlt : n < bytes.length := by omega
    rw [trimEnd, Email.trimEnd, Checked.sub_ok (by omega), Outcome.ok_bind, Nat.add_sub_cancel,
      Checked.index_lt hlt, Outcome.ok_bind, byteAt_of_lt hlt]
    by_cases hlow : low < n + 1
    · cases htrim : bytes[n] == 46 || bytes[n] == 45 with
      | true =>
        rw [if_pos hlow, if_pos rfl, if_pos (by simp [hlow])]
        exact ih (by omega)
      | false =>
        rw [if_pos hlow, if_neg Bool.false_ne_true, if_neg (by simp)]
        rfl
    · rw [if_neg hlow, if_neg (by simp [hlow])]
      rfl

section Boundaries
variable {value : String}

theorem localStart_boundary (low : Nat) {n : Nat} (hn : CharBoundary value.toList n) :
    CharBoundary value.toList (Email.localStart (utf8 value) low n) := by
  induction n with
  | zero => exact hn
  | succ n ih =>
    rw [Email.localStart]
    split
    · rename_i hbyte
      rw [Bool.and_eq_true] at hbyte
      exact ih (charBoundary_at (fun b hb => isAsciiByte_of_localChar hb) hbyte.2)
    · exact hn

theorem domainEnd_boundary (fuel : Nat) {d : Nat} (hd : CharBoundary value.toList d) :
    CharBoundary value.toList (Email.domainEnd (utf8 value) fuel d) := by
  induction fuel generalizing d with
  | zero => exact hd
  | succ fuel ih =>
    rw [Email.domainEnd]
    split
    · rename_i hbyte
      exact ih (charBoundary_after isAsciiByte_of_domainChar hbyte)
    · exact hd

theorem trimEnd_boundary (low : Nat) {n : Nat} (hn : CharBoundary value.toList n) :
    CharBoundary value.toList (Email.trimEnd (utf8 value) low n) := by
  induction n with
  | zero => exact hn
  | succ n ih =>
    rw [Email.trimEnd]
    split
    · rename_i hbyte
      rw [Bool.and_eq_true] at hbyte
      exact ih (charBoundary_at (isAsciiByte_of_either rfl rfl) hbyte.2)
    · exact hn

end Boundaries

theorem extractCandidate_ok {value : String} (hsize : (utf8 value).length ≤ isizeMax) {pos : Nat}
    (hat : byteAt (· == 64) (utf8 value) pos = true) :
    extractCandidate value pos = .ok (Email.extractCandidate value (utf8 value) pos) := by
  have hmax := isizeMax_add_le
  have hlt := lt_of_byteAt hat
  have hpos := charBoundary_at (isAsciiByte_of_eq rfl) hat
  have hstart := localStart_boundary (pos - 64) hpos
  have hstop := domainEnd_boundary 253 (charBoundary_after (isAsciiByte_of_eq rfl) hat)
  have htrim := trimEnd_boundary (pos + 1) hstop
  have hle := Email.localStart_le (utf8 value) (pos - 64) pos
  have hge := Email.le_trimEnd (utf8 value) (Email.le_domainEnd (utf8 value) 253 (pos + 1))
  rw [extractCandidate, localStart_ok _ _ (Nat.le_of_lt hlt), Outcome.ok_bind]
  simp only [Email.extractCandidate]
  split
  · rfl
  · rw [Checked.add_ok (by omega), Outcome.ok_bind, Checked.add_ok (by omega), Outcome.ok_bind,
      domainEnd_ok hsize 253 hlt, Outcome.ok_bind]
    split
    · rfl
    · split
      · rfl
      · rw [trimEnd_ok _ _ (Email.domainEnd_le_length 253 hlt), Outcome.ok_bind,
          sliceChecked_ok (by omega) hstart htrim]
        rfl

theorem candidateAt_ok {value : String} (hsize : (utf8 value).length ≤ isizeMax) {pos : Nat}
    (hpos : pos < (utf8 value).length) : candidateAt value pos = .ok (Email.step value pos).1 := by
  have hvalid : ∀ c, Email.extractCandidate value (utf8 value) pos = some c →
      (utf8 c).length ≤ isizeMax := by
    intro c hc
    rw [Email.slice_of_extractCandidate hc]
    exact Nat.le_trans (length_slice_le _ _ _) hsize
  rw [candidateAt, Checked.index_lt hpos, Outcome.ok_bind]
  simp only [Email.step, byteAt_of_lt hpos]
  split
  · rename_i hsign
    rw [extractCandidate_ok hsize (by rw [byteAt_of_lt hpos]; exact hsign), Outcome.ok_bind,
      Email.found]
    cases hextract : Email.extractCandidate value (utf8 value) pos with
    | none => rfl
    | some c =>
      simp only
      rw [Validators.Checked.email_ok ⟨c, hvalid c hextract⟩, Outcome.ok_bind, Option.filter_some]
      rfl
  · rfl

theorem scan_ok {value : String} (hsize : (utf8 value).length ≤ isizeMax) :
    scan value = .ok (Email.scan value) := by
  have hloop : (List.range (utf8 value).length).mapM (candidateAt value) =
      .ok ((List.range (utf8 value).length).map fun i => (Email.step value i).1) := by
    apply Checked.mapM_ok
    intro i hi
    exact candidateAt_ok hsize (List.mem_range.mp hi)
  rw [scan, hloop, Outcome.ok_bind, List.filterMap_map, Email.scan_eq_filterMap]
  rfl

end Email.Checked

namespace Phone.Checked
variable (cr : Crates)

def internationalRun (bytes : List UInt8) (j count stop : Nat) : Checked (Nat × Nat) :=
  if _ : j < bytes.length then
    if 15 ≤ count then pure (count, stop)
    else do
      let b ← Checked.index bytes j
      if isAsciiDigit b then do
        Checked.fits 0x7FFFFFFF (count + 1)
        Checked.fits usizeMax (j + 1)
        internationalRun bytes (j + 1) (count + 1) (j + 1)
      else if [32, 45, 46, 40, 41].contains b && 0 < count then do
        Checked.fits usizeMax (j + 1)
        internationalRun bytes (j + 1) count stop
      else pure (count, stop)
  else pure (count, stop)
termination_by bytes.length - j

def parseInternational (value : String) (matchStart digitStart : Nat) :
    Checked (Option (Nat × String)) := do
  let (count, stop) ← internationalRun (utf8 value) digitStart 0 digitStart
  if !(7 ≤ count && count ≤ 15) || byteAt isAsciiAlphanumeric (utf8 value) stop then pure none
  else do
    let candidate ← sliceChecked value matchStart stop
    let valid ← Validators.Checked.phone cr candidate
    pure (if valid then some (stop, candidate) else none)

/-- The array of ten digits and what `parseNanp` keeps beside it. -/
structure NanpBuffer where
  digits : List UInt8
  count : Nat
  hasSep : Bool
  stop : Nat

def NanpBuffer.read (r : NanpBuffer) : NanpRead := ⟨r.digits.take r.count, r.hasSep, r.stop⟩

structure NanpBuffer.Valid (r : NanpBuffer) : Prop where
  length_digits : r.digits.length = 10
  count_le : r.count ≤ 10

@[simp] theorem NanpBuffer.read_hasSep (r : NanpBuffer) : r.read.hasSep = r.hasSep := rfl

@[simp] theorem NanpBuffer.read_stop (r : NanpBuffer) : r.read.stop = r.stop := rfl

theorem NanpBuffer.Valid.length_read {r : NanpBuffer} (hr : r.Valid) :
    r.read.digits.length = r.count := by
  have hlength := hr.length_digits
  have hle := hr.count_le
  rw [NanpBuffer.read, List.length_take]
  omega

def nanpRun (bytes : List UInt8) (j : Nat) (r : NanpBuffer) : Checked NanpBuffer :=
  if _ : j < bytes.length then
    if 10 ≤ r.count then pure r
    else do
      let b ← Checked.index bytes j
      if isAsciiDigit b then do
        let digits ← Checked.store r.digits r.count b
        Checked.fits usizeMax (r.count + 1)
        Checked.fits usizeMax (j + 1)
        nanpRun bytes (j + 1) { r with digits, count := r.count + 1, stop := j + 1 }
      else if [41, 45, 46, 32].contains b && 0 < r.count then do
        Checked.fits usizeMax (j + 1)
        nanpRun bytes (j + 1) { r with hasSep := true }
      else pure r
  else pure r
termination_by bytes.length - j

/-- `matches!(digits[0], b'2'..=b'9') && matches!(digits[3], b'2'..=b'9')` -/
def areaAndExchange (digits : List UInt8) : Checked Bool := do
  let area ← Checked.index digits 0
  if !isTwoToNine area then pure false
  else do
    let exchange ← Checked.index digits 3
    pure (isTwoToNine exchange)

def nanpStart (value : String) (start : Nat) : Checked Nat :=
  if byteAt (· == 40) (utf8 value) start then Checked.add usizeMax start 1 else pure start

def parseNanp (value : String) (start : Nat) : Checked (Option (Nat × String)) := do
  let j ← nanpStart value start
  let r ← nanpRun (utf8 value) j ⟨List.replicate 10 0, 0, false, j⟩
  if r.count != 10 || !r.hasSep then pure none
  else do
    let leading ← areaAndExchange r.digits
    if !leading then pure none
    else if byteAt isAsciiAlphanumeric (utf8 value) r.stop then pure none
    else do
      let candidate ← sliceChecked value start r.stop
      let valid ← Validators.Checked.phone cr candidate
      pure (if valid then some (r.stop, candidate) else none)

/-- `b'+' if i + 1 < bytes.len() && bytes[i + 1].is_ascii_digit()` -/
def plusAt (bytes : List UInt8) (b : UInt8) (i : Nat) : Checked Bool :=
  if b == 43 then followedBy isAsciiDigit bytes i else pure false

/-- `b'0' if i + 2 < bytes.len() && bytes[i + 1] == b'0' && bytes[i + 2].is_ascii_digit()` -/
def doubleZeroAt (bytes : List UInt8) (b : UInt8) (i : Nat) : Checked Bool :=
  if b == 48 then do
    let second ← Checked.add usizeMax i 2
    if second < bytes.length then do
      let zero ← followedBy (· == 48) bytes i
      if zero then do
        let digit ← Checked.index bytes second
        pure (isAsciiDigit digit)
      else pure false
    else pure false
  else pure false

def parseAt (value : String) (i : Nat) : Checked (Option (Nat × String)) := do
  let b ← Checked.index (utf8 value) i
  let plus ← plusAt (utf8 value) b i
  if plus then do
    let digitStart ← Checked.add usizeMax i 1
    parseInternational cr value i digitStart
  else do
    let doubleZero ← doubleZeroAt (utf8 value) b i
    if doubleZero then do
      let digitStart ← Checked.add usizeMax i 2
      parseInternational cr value i digitStart
    else if b == 40 || isTwoToNine b then parseNanp cr value i
    else pure none

def scanFrom (value : String) (i : Nat) : Checked (List String) :=
  if _ : i < (utf8 value).length then do
    let before ← precededBy isAsciiAlphanumeric (utf8 value) i
    if before then do
      Checked.fits usizeMax (i + 1)
      scanFrom value (i + 1)
    else do
      match ← parseAt cr value i with
      | some (stop, candidate) =>
        if _ : i < stop then do
          let rest ← scanFrom value stop
          pure (candidate :: rest)
        -- `parseAt` ends behind `i`, so the loop never stands still
        else .panic "the scan does not advance"
      | none =>
        Checked.fits usizeMax (i + 1)
        scanFrom value (i + 1)
  else pure []
termination_by (utf8 value).length - i

def scan (value : String) : Checked (List String) := scanFrom cr value 0

theorem internationalRun_ok {bytes : List UInt8} (hsize : bytes.length ≤ isizeMax)
    (j count stop : Nat) :
    internationalRun bytes j count stop = .ok (Phone.internationalRun bytes j count stop) := by
  fun_induction Phone.internationalRun bytes j count stop with
  | case1 j count stop h hn =>
    rw [internationalRun, dif_pos h, if_pos hn]
    rfl
  | case2 j count stop h hn hdigit ih =>
    rw [internationalRun, dif_pos h, if_neg hn, Checked.index_lt h, Outcome.ok_bind, if_pos hdigit,
      Checked.fits_ok (by omega), Outcome.ok_bind, fits_succ hsize h, Outcome.ok_bind]
    exact ih
  | case3 j count stop h hn hdigit hsep ih =>
    rw [internationalRun, dif_pos h, if_neg hn, Checked.index_lt h, Outcome.ok_bind, if_neg hdigit,
      if_pos hsep, fits_succ hsize h, Outcome.ok_bind]
    exact ih
  | case4 j count stop h hn hdigit hsep =>
    rw [internationalRun, dif_pos h, if_neg hn, Checked.index_lt h, Outcome.ok_bind, if_neg hdigit,
      if_neg hsep]
    rfl
  | case5 j count stop h =>
    rw [internationalRun, dif_neg h]
    rfl

section Boundaries
variable {value : String}

theorem internationalRun_boundary (j count : Nat) {stop : Nat}
    (hstop : CharBoundary value.toList stop) :
    CharBoundary value.toList (Phone.internationalRun (utf8 value) j count stop).2 := by
  fun_induction Phone.internationalRun (utf8 value) j count stop with
  | case2 j count stop h hn hdigit ih =>
    apply ih
    exact charBoundary_after isAsciiByte_of_digit (by rw [byteAt_of_lt h]; exact hdigit)
  | case3 j count stop h hn hdigit hsep ih => exact ih hstop
  | case1 | case4 | case5 => exact hstop

theorem nanpRun_boundary (j : Nat) {r : NanpRead} (hstop : CharBoundary value.toList r.stop) :
    CharBoundary value.toList (Phone.nanpRun (utf8 value) j r).stop := by
  fun_induction Phone.nanpRun (utf8 value) j r with
  | case2 j r h hn hdigit ih =>
    apply ih
    exact charBoundary_after isAsciiByte_of_digit (by rw [byteAt_of_lt h]; exact hdigit)
  | case3 j r h hn hdigit hsep ih => exact ih hstop
  | case1 | case4 | case5 => exact hstop

theorem nanpRun_stop_le (bytes : List UInt8) (j : Nat) (r : NanpRead) (h : r.stop ≤ j) :
    r.stop ≤ (Phone.nanpRun bytes j r).stop := by
  fun_induction Phone.nanpRun bytes j r with
  | case2 j r _ _ _ ih => exact Nat.le_trans (Nat.le_succ_of_le h) (ih (Nat.le_refl _))
  | case3 j r _ _ _ _ ih => exact ih (Nat.le_succ_of_le h)
  | case1 | case4 | case5 => exact Nat.le_refl _

end Boundaries

theorem parseInternational_ok {value : String} (hsize : (utf8 value).length ≤ isizeMax)
    {i digitStart : Nat} (hle : i ≤ digitStart) (hi : CharBoundary value.toList i)
    (hstart : CharBoundary value.toList digitStart) : parseInternational cr value i digitStart =
      .ok (Phone.parseInternational cr (utf8 value) value i digitStart) := by
  have hstop := internationalRun_boundary digitStart 0 hstart
  have hge := internationalRun_stop_le (utf8 value) digitStart 0 digitStart (Nat.le_refl _)
  rw [parseInternational, internationalRun_ok hsize, Outcome.ok_bind]
  simp only [Phone.parseInternational, Phone.parseInternationalWith]
  split
  · rfl
  · rw [sliceChecked_ok (by omega) hi hstop]
    rfl

theorem nanpRun_ok {bytes : List UInt8} (hsize : bytes.length ≤ isizeMax) (j : Nat)
    {r : NanpBuffer} (hr : r.Valid) : ∃ out, nanpRun bytes j r = .ok out ∧ out.Valid ∧
      out.read = Phone.nanpRun bytes j r.read := by
  have hmax := isizeMax_add_le
  induction hd : bytes.length - j using Nat.strongRecOn generalizing j r with
  | ind d ih =>
    have hlength := hr.length_digits
    have hle := hr.count_le
    rw [nanpRun, Phone.nanpRun, hr.length_read]
    by_cases hj : j < bytes.length
    · rw [dif_pos hj, dif_pos hj]
      split
      · exact ⟨r, rfl, hr, rfl⟩
      · rename_i hroom
        rw [Checked.index_lt hj, Outcome.ok_bind]
        split
        · have hstored : (r.digits.set r.count bytes[j]).length = 10 := by
            rw [List.length_set, hlength]
          have htake := Checked.take_set_succ bytes[j] (by omega : r.count < r.digits.length)
          rw [Checked.store_ok _ (by omega), Outcome.ok_bind, Checked.fits_ok (by omega),
            Outcome.ok_bind, fits_succ hsize hj, Outcome.ok_bind]
          obtain ⟨out, hout, hvalid, hread⟩ := ih (bytes.length - (j + 1)) (by omega) (j + 1)
            (r := ⟨r.digits.set r.count bytes[j], r.count + 1, r.hasSep, j + 1⟩)
            ⟨hstored, Nat.lt_of_not_le hroom⟩ rfl
          refine ⟨out, hout, hvalid, ?_⟩
          rw [hread, NanpBuffer.read, htake]
          rfl
        · split
          · rw [fits_succ hsize hj, Outcome.ok_bind]
            exact ih _ (by omega) (j + 1) (r := { r with hasSep := true }) ⟨hlength, hle⟩ rfl
          · exact ⟨r, rfl, hr, rfl⟩
    · rw [dif_neg hj, dif_neg hj]
      exact ⟨r, rfl, hr, rfl⟩

theorem areaAndExchange_ok {r : NanpBuffer} (hr : r.Valid) (hcount : r.count = 10) :
    areaAndExchange r.digits =
      .ok (isTwoToNine (r.read.digits.getD 0 0) && isTwoToNine (r.read.digits.getD 3 0)) := by
  have hlength := hr.length_digits
  have hall : r.read.digits = r.digits := by
    rw [NanpBuffer.read, List.take_of_length_le (by omega)]
  have hzero : 0 < r.digits.length := by omega
  have hthree : 3 < r.digits.length := by omega
  rw [hall, areaAndExchange, Checked.index_lt hzero, Outcome.ok_bind,
    List.getD_eq_getElem r.digits 0 hzero, List.getD_eq_getElem r.digits 0 hthree]
  cases isTwoToNine r.digits[0] with
  | false => rfl
  | true =>
    rw [Bool.not_true, if_neg Bool.false_ne_true, Checked.index_lt hthree]
    rfl

theorem nanpStart_ok {value : String} (hsize : (utf8 value).length ≤ isizeMax) (start : Nat) :
    nanpStart value start = .ok (if byteAt (· == 40) (utf8 value) start then start + 1 else start) := by
  have hmax := isizeMax_add_le
  rw [nanpStart]
  split
  · rename_i hparen
    have hlt := lt_of_byteAt hparen
    exact Checked.add_ok (by omega)
  · rfl

theorem parseNanp_ok {value : String} (hsize : (utf8 value).length ≤ isizeMax) {i : Nat}
    (hi : CharBoundary value.toList i) :
    parseNanp cr value i = .ok (Phone.parseNanp cr (utf8 value) value i) := by
  have hj : CharBoundary value.toList
      (if byteAt (· == 40) (utf8 value) i then i + 1 else i) ∧
        i ≤ if byteAt (· == 40) (utf8 value) i then i + 1 else i := by
    split
    · rename_i hparen
      exact ⟨charBoundary_after (isAsciiByte_of_eq rfl) hparen, Nat.le_succ i⟩
    · exact ⟨hi, Nat.le_refl i⟩
  rw [parseNanp, nanpStart_ok hsize, Outcome.ok_bind]
  simp only [Phone.parseNanp, Phone.parseNanpWith]
  generalize (if byteAt (· == 40) (utf8 value) i then i + 1 else i) = j at hj ⊢
  have hstop := nanpRun_boundary j (r := ⟨[], false, j⟩) hj.1
  have hge := nanpRun_stop_le (utf8 value) j ⟨[], false, j⟩ (Nat.le_refl j)
  obtain ⟨r, hr, hvalid, hread⟩ := nanpRun_ok hsize j (r := ⟨List.replicate 10 0, 0, false, j⟩)
    ⟨List.length_replicate, Nat.zero_le 10⟩
  have hempty : NanpBuffer.read ⟨List.replicate 10 0, 0, false, j⟩ = ⟨[], false, j⟩ := rfl
  rw [hempty] at hread
  rw [← hread, NanpBuffer.read_stop] at hstop hge
  rw [hr, Outcome.ok_bind, ← hread, hvalid.length_read, NanpBuffer.read_hasSep, NanpBuffer.read_stop]
  split
  · rfl
  · rename_i hfull
    have hten : r.count = 10 := by
      simp only [Bool.or_eq_true, bne_iff_ne, ne_eq, not_or, Decidable.not_not] at hfull
      exact hfull.1
    rw [areaAndExchange_ok hvalid hten, Outcome.ok_bind, Bool.not_and]
    split
    · rfl
    · split
      · rfl
      · rw [sliceChecked_ok (Nat.le_trans hj.2 hge) hi hstop]
        rfl

theorem plusAt_ok {bytes : List UInt8} (hsize : bytes.length ≤ isizeMax) {i : Nat}
    (hi : i < bytes.length) : plusAt bytes bytes[i] i =
      .ok (byteAt (· == 43) bytes i && byteAt isAsciiDigit bytes (i + 1)) := by
  rw [plusAt, byteAt_of_lt hi]
  split
  · rename_i hplus
    rw [followedBy_ok hsize hi, hplus, Bool.true_and]
  · rename_i hplus
    rw [Bool.not_eq_true] at hplus
    rw [hplus]
    rfl

theorem doubleZeroAt_ok {bytes : List UInt8} (hsize : bytes.length ≤ isizeMax) {i : Nat}
    (hi : i < bytes.length) : doubleZeroAt bytes bytes[i] i =
      .ok (byteAt (· == 48) bytes i && byteAt (· == 48) bytes (i + 1) &&
        byteAt isAsciiDigit bytes (i + 2)) := by
  have hmax := isizeMax_add_le
  rw [doubleZeroAt, byteAt_of_lt hi]
  split
  · rename_i hzero
    rw [Checked.add_ok (by omega), Outcome.ok_bind, hzero, Bool.true_and]
    split
    · rename_i hin
      rw [followedBy_ok hsize hi, Outcome.ok_bind, byteAt_of_lt hin]
      cases byteAt (· == 48) bytes (i + 1) with
      | false => rfl
      | true =>
        rw [if_pos rfl, Checked.index_lt hin]
        rfl
    · rw [byteAt_of_le (i := i + 2) (by omega), Bool.and_false]
      rfl
  · rename_i hzero
    rw [Bool.not_eq_true] at hzero
    rw [hzero]
    rfl

theorem isAsciiByte_of_nanpStart (b : UInt8) (h : (b == 40 || isTwoToNine b) = true) :
    isAsciiByte b = true := by
  rw [isAsciiByte_iff]
  rw [Bool.or_eq_true, beq_iff_eq] at h
  rcases h with rfl | hdigit
  · decide
  · have hrange : 50 ≤ b.toNat ∧ b.toNat ≤ 57 := (byteRange_iff 50 57 b).mp hdigit
    omega

theorem parseAt_ok {value : String} (hsize : (utf8 value).length ≤ isizeMax) {i : Nat}
    (hi : i < (utf8 value).length) :
    parseAt cr value i = .ok (Phone.parseAt cr (utf8 value) value i) := by
  have hmax := isizeMax_add_le
  rw [parseAt, Checked.index_lt hi, Outcome.ok_bind, plusAt_ok hsize hi, Outcome.ok_bind,
    Phone.parseAt, Phone.parseAtWith]
  split
  · rename_i hplus
    rw [Bool.and_eq_true] at hplus
    rw [Checked.add_ok (by omega), Outcome.ok_bind]
    exact parseInternational_ok cr hsize (Nat.le_succ i)
      (charBoundary_at (isAsciiByte_of_eq rfl) hplus.1)
      (charBoundary_after (isAsciiByte_of_eq rfl) hplus.1)
  · rw [doubleZeroAt_ok hsize hi, Outcome.ok_bind]
    split
    · rename_i hzeros
      rw [Bool.and_eq_true, Bool.and_eq_true] at hzeros
      rw [Checked.add_ok (by omega), Outcome.ok_bind]
      exact parseInternational_ok cr hsize (by omega)
        (charBoundary_at (isAsciiByte_of_eq rfl) hzeros.1.1)
        (charBoundary_after (isAsciiByte_of_eq rfl) hzeros.1.2)
    · rw [byteAt_of_lt hi]
      split
      · rename_i hnanp
        exact parseNanp_ok cr hsize
          (charBoundary_at isAsciiByte_of_nanpStart (by rw [byteAt_of_lt hi]; exact hnanp))
      · rfl

theorem scanFrom_ok {value : String} (hsize : (utf8 value).length ≤ isizeMax) (i : Nat) :
    scanFrom cr value i = .ok (Phone.scanFrom cr value (utf8 value) i) := by
  induction hd : (utf8 value).length - i using Nat.strongRecOn generalizing i with
  | ind d ih =>
    rw [scanFrom, Phone.scanFrom]
    by_cases hi : i < (utf8 value).length
    · have hnext := ih (d - 1) (by omega) (i + 1) (by omega)
      rw [dif_pos hi, dif_pos hi, precededBy_ok (Nat.le_of_lt hi), Outcome.ok_bind]
      split
      · rw [fits_succ hsize hi, Outcome.ok_bind]
        exact hnext
      · rw [parseAt_ok cr hsize hi, Outcome.ok_bind]
        split
        · rename_i stop candidate hparse
          have hlt := parseAt_end hparse
          rw [dif_pos hlt, ih _ (by omega) stop rfl, Outcome.ok_bind]
          split
          · rename_i stop' candidate' hparse'
            rw [hparse] at hparse'
            cases hparse'
            rfl
          · rename_i hnone
            rw [hparse] at hnone
            cases hnone
        · rename_i hparse
          rw [fits_succ hsize hi, Outcome.ok_bind, hnext]
          split
          · rename_i stop' candidate' hparse'
            rw [hparse] at hparse'
            cases hparse'
          · rfl
    · rw [dif_neg hi, dif_neg hi]
      rfl

theorem scan_ok {value : String} (hsize : (utf8 value).length ≤ isizeMax) :
    scan cr value = .ok (Phone.scan cr value) := scanFrom_ok cr hsize 0

end Phone.Checked

def Detector.Checked.scan (cr : Crates) : Detector → String → Checked (List String)
  | .creditCard, value => CreditCard.Checked.scan value
  | .email, value => Email.Checked.scan value
  | .iban, value => Iban.Checked.scan value
  | .phone, value => Phone.Checked.scan cr value
  | .ssn, value => Ssn.Checked.scan value

def Validator.Checked.accepts (cr : Crates) : Validator → String → Checked Bool
  | .luhn, text => Validators.Checked.luhn text
  | .ssn, text => Validators.Checked.ssn text
  | .phone, text => Validators.Checked.phone cr text
  | .email, text => Validators.Checked.email text
  | .iban, text => Validators.Checked.iban text

theorem Detector.Checked.scan_ok (cr : Crates) (d : Detector) (value : Str) :
    Detector.Checked.scan cr d value.text = .ok (d.scan cr value.text) := by
  cases d with
  | creditCard => exact CreditCard.Checked.scanFrom_ok value.bounded 0
  | email => exact Email.Checked.scan_ok value.bounded
  | iban => exact Iban.Checked.scan_ok value.bounded
  | phone => exact Phone.Checked.scan_ok cr value.bounded
  | ssn => exact Ssn.Checked.scan_ok value.bounded

theorem Validator.Checked.accepts_ok (cr : Crates) (v : Validator) (text : Str) :
    Validator.Checked.accepts cr v text.text = .ok (v.accepts cr text.text) := by
  cases v with
  | luhn => exact Validators.Checked.luhn_ok text.text
  | ssn => exact Validators.Checked.ssn_ok text.text
  | phone => rfl
  | email => exact Validators.Checked.email_ok text
  | iban => exact Validators.Checked.iban_ok text.text

/-- A text that a `str` can hold, be it a value or a part of one, is scanned, validated and
masked with every slice between characters, every index in range, every unwrap on a value and
no overflow; the results are those of the plain functions. -/
theorem Str.never_panics (cr : Crates) (s : Str) :
    (∀ d : Detector, Detector.Checked.scan cr d s.text = .ok (d.scan cr s.text)) ∧
      (∀ v : Validator, Validator.Checked.accepts cr v s.text = .ok (v.accepts cr s.text)) ∧
      Masking.Checked.mask s.text = .ok (mask s.text) :=
  ⟨fun d => Detector.Checked.scan_ok cr d s, fun v => Validator.Checked.accepts_ok cr v s,
    Masking.Checked.mask_ok s.text⟩

end PgSense
