import Mathlib.Data.List.GetD
import PgSense.Library.ScanLoop
import PgSense.Rules.Detectors
import PgSense.TextBytes

/-! Each detector as one scan loop: what a position of the text yields, and where the
detector goes on. -/

namespace PgSense
open Library
set_option autoImplicit false

section Bytes
variable {p : UInt8 → Bool} {bytes : List UInt8} {i : Nat}

theorem byteAt_of_lt (h : i < bytes.length) : byteAt p bytes i = p bytes[i] := by
  rw [byteAt, List.getElem?_eq_getElem h, Option.any_some]

theorem byteAt_of_le (h : bytes.length ≤ i) : byteAt p bytes i = false := by
  rw [byteAt, List.getElem?_eq_none h, Option.any_none]

theorem lt_of_byteAt (h : byteAt p bytes i = true) : i < bytes.length := by
  by_cases hi : i < bytes.length
  · exact hi
  · rw [byteAt_of_le (by omega)] at h
    cases h

theorem byteAt_iff : byteAt p bytes i = true ↔ ∃ b, bytes[i]? = some b ∧ p b = true := by
  rw [byteAt, Option.any_eq_true]

theorem byteAt_mono {q : UInt8 → Bool} (hpq : ∀ b, p b = true → q b = true)
    (h : byteAt q bytes i = false) : byteAt p bytes i = false := by
  rw [← Bool.not_eq_true] at h ⊢
  intro hp
  obtain ⟨b, hb, hpb⟩ := byteAt_iff.mp hp
  exact h (byteAt_iff.mpr ⟨b, hb, hpq b hpb⟩)

theorem byteBefore_mono {q : UInt8 → Bool} (hpq : ∀ b, p b = true → q b = true)
    (h : byteBefore q bytes i = false) : byteBefore p bytes i = false := by
  rw [byteBefore, Bool.and_eq_false_iff] at h ⊢
  rcases h with hstart | hbyte
  · exact .inl hstart
  · exact .inr (byteAt_mono hpq hbyte)

theorem byteBefore_append (xs ys : List UInt8) :
    byteBefore p (xs ++ ys) xs.length = xs.getLast?.any p := by
  cases hlast : xs.getLast? with
  | none =>
    rw [List.getLast?_eq_none_iff.mp hlast]
    rfl
  | some b =>
    rw [List.getLast?_eq_getElem?] at hlast
    obtain ⟨hlt, _⟩ := List.getElem?_eq_some_iff.mp hlast
    have hpos : 0 < xs.length := by omega
    rw [byteBefore, byteAt, List.getElem?_append_left hlt, hlast]
    simp [hpos]

theorem isWordByte_of_alphanumeric (b : UInt8) (h : isAsciiAlphanumeric b = true) :
    isWordByte b = true := by
  rw [isWordByte, h, Bool.true_or]

theorem getElem?_eq_getD (h : i < bytes.length) : bytes[i]? = some (bytes.getD i 0) := by
  rw [List.getD_eq_getElem bytes 0 h, List.getElem?_eq_getElem h]

theorem apply_getD (h : p 0 = false) : p (bytes.getD i 0) = byteAt p bytes i := by
  by_cases hi : i < bytes.length
  · rw [byteAt_of_lt hi, List.getD_eq_getElem bytes 0 hi]
  · rw [byteAt_of_le (by omega), List.getD, List.getElem?_eq_none (by omega), Option.getD_none, h]

end Bytes

theorem isAsciiByte_of_localChar {b : UInt8} (h : Validators.isEmailLocalChar b = true) :
    isAsciiByte b = true := by
  rw [Validators.isEmailLocalChar, Bool.or_eq_true] at h
  rcases h with halnum | hmem
  · exact isAsciiByte_of_alphanumeric halnum
  · have hall : [46, 33, 35, 36, 37, 38, 39, 42, 43, 47, 61, 63, 94, 95, 96, 123, 124, 125, 126,
        45].all isAsciiByte = true := by decide
    exact List.all_eq_true.mp hall b (by simpa using hmem)

theorem Validators.isEmailLocalChar_of_alphanumeric (b : UInt8) (h : isAsciiAlphanumeric b = true) :
    isEmailLocalChar b = true := by
  rw [isEmailLocalChar, h, Bool.true_or]

/-- A walk over bytes in `p`, at most `limit` of them, with single spaces and hyphens between
them after the first `least`: its branches in terms of the bytes at `j` and `j + 1`. -/
def Grouped (run : List UInt8 → Nat → Nat → Nat × Nat) (p : UInt8 → Bool) (limit least : Nat) :
    Prop :=
  ∀ bytes j n, run bytes j n =
    if n < limit ∧ byteAt p bytes j = true then run bytes (j + 1) (n + 1)
    else if n < limit ∧ byteAt (fun b => b == 32 || b == 45) bytes j = true ∧ least < n ∧
        byteAt p bytes (j + 1) = true then
      run bytes (j + 1) n
    else (j, n)

theorem Grouped.le {run : List UInt8 → Nat → Nat → Nat × Nat} {p : UInt8 → Bool}
    {limit least : Nat} (hrun : Grouped run p limit least) (bytes : List UInt8) (j n : Nat) :
    j ≤ (run bytes j n).1 := by
  induction hd : bytes.length - j using Nat.strongRecOn generalizing j n with
  | ind d ih =>
    rw [hrun]
    split
    · rename_i hbyte
      have hlt := lt_of_byteAt hbyte.2
      exact Nat.le_trans (Nat.le_succ j) (ih (d - 1) (by omega) (j + 1) (n + 1) (by omega))
    · split
      · rename_i hsep
        have hlt := lt_of_byteAt hsep.2.1
        exact Nat.le_trans (Nat.le_succ j) (ih (d - 1) (by omega) (j + 1) n (by omega))
      · exact Nat.le_refl j

namespace CreditCard

theorem digitRun_grouped : Grouped digitRun isAsciiDigit 19 0 := by
  intro bytes j n
  rw [digitRun]
  by_cases hj : j < bytes.length
  · rw [dif_pos hj, byteAt_of_lt hj, byteAt_of_lt hj]
    by_cases hn : 19 ≤ n
    · have hge : ¬ n < 19 := by omega
      simp [hn, hge]
    · have hlt : n < 19 := by omega
      simp [hn, hlt, and_assoc]
  · rw [dif_neg hj, byteAt_of_le (by omega), byteAt_of_le (by omega)]
    simp

def step (value : String) (i : Nat) : Option String × Nat :=
  let bytes := utf8 value
  if byteAt isAsciiDigit bytes i && !byteBefore isWordByte bytes i then
    let run := digitRun bytes i 0
    (if 13 ≤ run.2 && run.2 ≤ 19 && !byteAt isWordByte bytes run.1 &&
        Validators.luhn (slice value i run.1) then
      some (slice value i run.1)
    else none, run.1)
  else (none, i + 1)

theorem lt_digitRun {bytes : List UInt8} {i : Nat} (h : byteAt isAsciiDigit bytes i = true) :
    i < (digitRun bytes i 0).1 := by
  rw [digitRun_grouped, if_pos ⟨by omega, h⟩]
  exact digitRun_grouped.le bytes (i + 1) (0 + 1)

theorem scanFrom_eq (value : String) (i : Nat) :
    scanFrom value (utf8 value) i = scanLoop (step value) (utf8 value).length i := by
  induction hd : (utf8 value).length - i using Nat.strongRecOn generalizing i with
  | ind d ih =>
    rw [scanFrom]
    by_cases hi : i < (utf8 value).length
    · rw [dif_pos hi, ← byteAt_of_lt hi (p := isAsciiDigit)]
      cases hdigit : byteAt isAsciiDigit (utf8 value) i with
      | false =>
        have hstep : step value i = (none, i + 1) := by simp [step, hdigit]
        rw [scanLoop_skip hstep]
        exact ih _ (by omega) (i + 1) rfl
      | true =>
        cases hbefore : byteBefore isWordByte (utf8 value) i with
        | true =>
          have hstep : step value i = (none, i + 1) := by simp [step, hbefore]
          rw [scanLoop_skip hstep]
          exact ih _ (by omega) (i + 1) rfl
        | false =>
          have hlt := lt_digitRun hdigit
          have hrest := ih _ (by omega) (digitRun (utf8 value) i 0).1 rfl
          have hnext : step value i = ((step value i).1, (digitRun (utf8 value) i 0).1) := by
            simp [step, hdigit, hbefore]
          rw [scanLoop_step hi hnext hlt, ← hrest]
          simp only [step, hdigit, hbefore, hlt, Bool.not_true, Bool.not_false, Bool.and_self,
            Bool.false_eq_true, if_true, if_false]
          split <;> rfl
    · rw [dif_neg hi, scanLoop_done (by omega)]

end CreditCard

namespace Email

theorem localStart_le (bytes : List UInt8) (low n : Nat) : localStart bytes low n ≤ n := by
  induction n with
  | zero => exact Nat.le_refl 0
  | succ n ih =>
    rw [localStart]
    split
    · omega
    · exact Nat.le_refl (n + 1)

theorem le_domainEnd (bytes : List UInt8) (fuel d : Nat) : d ≤ domainEnd bytes fuel d := by
  induction fuel generalizing d with
  | zero => exact Nat.le_refl d
  | succ fuel ih =>
    rw [domainEnd]
    split
    · exact Nat.le_trans (Nat.le_succ d) (ih (d + 1))
    · exact Nat.le_refl d

theorem domainEnd_le_length {bytes : List UInt8} (fuel : Nat) {d : Nat} (hd : d ≤ bytes.length) :
    domainEnd bytes fuel d ≤ bytes.length := by
  induction fuel generalizing d with
  | zero => exact hd
  | succ fuel ih =>
    rw [domainEnd]
    split
    · rename_i hbyte
      exact ih (lt_of_byteAt hbyte)
    · exact hd

theorem le_trimEnd (bytes : List UInt8) {low n : Nat} (h : low ≤ n) :
    low ≤ trimEnd bytes low n := by
  induction n with
  | zero => exact h
  | succ n ih =>
    rw [trimEnd]
    split
    · rename_i hbyte
      rw [Bool.and_eq_true, decide_eq_true_eq] at hbyte
      exact ih (by omega)
    · exact h

def candidateEnd (bytes : List UInt8) (p : Nat) : Nat :=
  trimEnd bytes (p + 1) (domainEnd bytes 253 (p + 1))

theorem slice_of_extractCandidate {value m : String} {p : Nat}
    (h : extractCandidate value (utf8 value) p = some m) :
    m = slice value (localStart (utf8 value) (p - 64) p) (candidateEnd (utf8 value) p) := by
  simp only [extractCandidate] at h
  split at h
  · cases h
  · split at h
    · cases h
    · split at h
      · cases h
      · exact (Option.some.inj h).symm

/-- The address around an `@`, when it passes the structural check. -/
def found (value : String) (at' : Nat) : Option String :=
  (extractCandidate value (utf8 value) at').filter Validators.email

def step (value : String) (i : Nat) : Option String × Nat :=
  (if byteAt (· == 64) (utf8 value) i then found value i else none, i + 1)

theorem scan_eq_filterMap (value : String) : scan value =
    (List.range (utf8 value).length).filterMap fun i => (step value i).1 := by
  rw [scan, List.filterMap_filter, List.filter_filterMap]
  apply List.filterMap_congr
  intro i _
  simp only [step]
  split <;> rfl

theorem scan_eq (value : String) : scan value = scanLoop (step value) (utf8 value).length 0 := by
  rw [scanLoop_eq_filterMap _ (fun i => rfl) (Nat.le_refl _), scan_eq_filterMap]
  intro i hi
  simp [step, byteAt_of_le hi]

end Email

namespace Iban

theorem slice_of_extractCandidate {value : String} {bytes : List UInt8} {start expected : Nat}
    {m : String} (h : extractCandidate value bytes start expected = some m) :
    m = slice value start (alnumRun bytes expected (start + 2) 2).1 := by
  simp only [extractCandidate] at h
  split at h
  · cases h
  · split at h
    · cases h
    · split at h
      · cases h
      · split at h
        · cases h
          rfl
        · cases h

theorem alnumRun_grouped (expected : Nat) :
    Grouped (fun bytes => alnumRun bytes expected) isAsciiAlphanumeric expected 2 := by
  intro bytes j n
  simp only
  rw [alnumRun]
  by_cases hj : j < bytes.length
  · rw [dif_pos hj, byteAt_of_lt hj, byteAt_of_lt hj]
    by_cases hn : expected ≤ n
    · have hge : ¬ n < expected := by omega
      simp [hn, hge]
    · have hlt : n < expected := by omega
      simp [hn, hlt, and_assoc]
  · rw [dif_neg hj, byteAt_of_le (by omega), byteAt_of_le (by omega)]
    simp

def step (value : String) (i : Nat) : Option String × Nat :=
  let bytes := utf8 value
  (if byteAt isAsciiUppercase bytes i && byteAt isAsciiUppercase bytes (i + 1) &&
      !byteBefore isAsciiAlphanumeric bytes i then
    (countryLength (bytes.getD i 0) (bytes.getD (i + 1) 0)).bind (extractCandidate value bytes i)
  else none, i + 1)

theorem scan_eq_filterMap (value : String) : scan value =
    (List.range ((utf8 value).length - 1)).filterMap fun i => (step value i).1 := by
  rw [scan]
  apply List.filterMap_congr
  intro i _
  simp only [step, ← apply_getD (p := isAsciiUppercase) rfl]

theorem scan_eq (value : String) : scan value = scanLoop (step value) (utf8 value).length 0 := by
  rw [scanLoop_eq_filterMap ((utf8 value).length - 1) (fun i => rfl) (by omega), scan_eq_filterMap]
  · intro i hi
    have hnext : byteAt isAsciiUppercase (utf8 value) (i + 1) = false := byteAt_of_le (by omega)
    simp [step, hnext]

end Iban

namespace Phone
variable (cr : Crates)

section Candidates
variable {valid : String → Bool} {bytes : List UInt8} {value : String} {i stop : Nat}
  {candidate : String}

theorem slice_of_parseInternationalWith {start : Nat}
    (h : parseInternationalWith valid bytes value i start = some (stop, candidate)) :
    candidate = slice value i stop := by
  simp only [parseInternationalWith] at h
  split at h
  · cases h
  · split at h
    · cases h
      rfl
    · cases h

theorem slice_of_parseNanpWith (h : parseNanpWith valid bytes value i = some (stop, candidate)) :
    candidate = slice value i stop := by
  simp only [parseNanpWith] at h
  generalize (if byteAt (· == 40) bytes i = true then i + 1 else i) = j at h
  generalize nanpRun bytes j ⟨[], false, j⟩ = r at h
  split at h
  · cases h
  · split at h
    · cases h
    · split at h
      · cases h
      · split at h
        · cases h
          rfl
        · cases h

theorem slice_of_parseAtWith (h : parseAtWith valid bytes value i = some (stop, candidate)) :
    candidate = slice value i stop := by
  rw [parseAtWith] at h
  split at h
  · exact slice_of_parseInternationalWith h
  · split at h
    · exact slice_of_parseInternationalWith h
    · split at h
      · exact slice_of_parseNanpWith h
      · cases h

end Candidates

theorem internationalRun_eq (bytes : List UInt8) (j count stop : Nat) :
    internationalRun bytes j count stop =
      if count < 15 ∧ byteAt isAsciiDigit bytes j = true then
        internationalRun bytes (j + 1) (count + 1) (j + 1)
      else if count < 15 ∧ byteAt [32, 45, 46, 40, 41].contains bytes j = true ∧ 0 < count then
        internationalRun bytes (j + 1) count stop
      else (count, stop) := by
  rw [internationalRun]
  by_cases hj : j < bytes.length
  · rw [dif_pos hj, byteAt_of_lt hj, byteAt_of_lt hj]
    by_cases hn : 15 ≤ count
    · have hge : ¬ count < 15 := by omega
      simp [hn, hge]
    · have hlt : count < 15 := by omega
      simp [hn, hlt]
  · rw [dif_neg hj, byteAt_of_le (by omega), byteAt_of_le (by omega)]
    simp

theorem nanpRun_eq (bytes : List UInt8) (j : Nat) (r : NanpRead) :
    nanpRun bytes j r =
      if r.digits.length < 10 ∧ byteAt isAsciiDigit bytes j = true then
        nanpRun bytes (j + 1) ⟨r.digits ++ [bytes.getD j 0], r.hasSep, j + 1⟩
      else if r.digits.length < 10 ∧ byteAt [41, 45, 46, 32].contains bytes j = true ∧
          0 < r.digits.length then
        nanpRun bytes (j + 1) ⟨r.digits, true, r.stop⟩
      else r := by
  rw [nanpRun]
  by_cases hj : j < bytes.length
  · rw [dif_pos hj, byteAt_of_lt hj, byteAt_of_lt hj, List.getD, List.getElem?_eq_getElem hj,
      Option.getD_some]
    by_cases hn : 10 ≤ r.digits.length
    · have hge : ¬ r.digits.length < 10 := by omega
      simp [hn, hge]
    · have hlt : r.digits.length < 10 := by omega
      simp [hn, hlt]
  · rw [dif_neg hj, byteAt_of_le (by omega), byteAt_of_le (by omega)]
    simp

def stepWith (valid : String → Bool) (value : String) (i : Nat) : Option String × Nat :=
  let bytes := utf8 value
  if byteBefore isAsciiAlphanumeric bytes i then (none, i + 1)
  else
    match parseAtWith valid bytes value i with
    | some (stop, candidate) => (some candidate, stop)
    | none => (none, i + 1)

def step : String → Nat → Option String × Nat := stepWith (Validators.phone cr)

theorem scanFrom_eq (value : String) (i : Nat) :
    scanFrom cr value (utf8 value) i = scanLoop (step cr value) (utf8 value).length i := by
  induction hd : (utf8 value).length - i using Nat.strongRecOn generalizing i with
  | ind d ih =>
    rw [scanFrom]
    by_cases hi : i < (utf8 value).length
    · rw [dif_pos hi]
      cases hbefore : byteBefore isAsciiAlphanumeric (utf8 value) i with
      | true =>
        have hstep : step cr value i = (none, i + 1) := by simp [step, stepWith, hbefore]
        rw [scanLoop_skip hstep]
        exact ih _ (by omega) (i + 1) rfl
      | false =>
        rw [if_neg Bool.false_ne_true]
        split
        · rename_i stop candidate hp
          have hstep : step cr value i = (some candidate, stop) := by
            rw [parseAt] at hp
            simp [step, stepWith, hbefore, hp]
          have hlt := parseAt_end hp
          rw [scanLoop_step hi hstep hlt, ih _ (by omega) stop rfl]
          rfl
        · rename_i hp
          have hstep : step cr value i = (none, i + 1) := by
            rw [parseAt] at hp
            simp [step, stepWith, hbefore, hp]
          rw [scanLoop_skip hstep]
          exact ih _ (by omega) (i + 1) rfl
    · rw [dif_neg hi, scanLoop_done (by omega)]

end Phone

namespace Ssn

def step (value : String) (i : Nat) : Option String × Nat :=
  let bytes := utf8 value
  (if byteBefore isWordByte bytes i || byteAt isWordByte bytes (i + 11) then none
  else if layoutAt bytes i && Validators.ssn (slice value i (i + 11)) then
    some (slice value i (i + 11))
  else none, i + 1)

theorem byteAt_of_layoutAt {bytes : List UInt8} {i k : Nat} (h : layoutAt bytes i = true)
    (hk : k ∈ [0, 1, 2, 4, 5, 7, 8, 9, 10]) : byteAt isAsciiDigit bytes (i + k) = true := by
  simp only [layoutAt, Bool.and_eq_true] at h
  exact List.all_eq_true.mp h.1.1 k hk

/-- The layout is decided by the eleven bytes. -/
theorem layoutAt_congr {bytes bytes' : List UInt8} {i j : Nat}
    (h : ∀ k, k < 11 → bytes[i + k]? = bytes'[j + k]?) : layoutAt bytes i = layoutAt bytes' j := by
  have hdigit : ∀ k, k < 11 →
      byteAt isAsciiDigit bytes (i + k) = byteAt isAsciiDigit bytes' (j + k) := by
    intro k hk
    rw [byteAt, byteAt, h k hk]
  have hget : ∀ k, k < 11 → bytes.getD (i + k) 0 = bytes'.getD (j + k) 0 := by
    intro k hk
    rw [List.getD, List.getD, h k hk]
  simp (disch := omega) only [layoutAt, List.all_cons, List.all_nil, hdigit, hget]

theorem scan_eq_filterMap (value : String) : scan value =
    (List.range ((utf8 value).length - 10)).filterMap fun i => (step value i).1 := by
  rw [scan]
  split
  · rename_i hshort
    have hzero : (utf8 value).length - 10 = 0 := by omega
    rw [hzero]
    rfl
  · rename_i hlong
    have hsize : (utf8 value).length - 11 + 1 = (utf8 value).length - 10 := by omega
    rw [hsize]
    rfl

theorem scan_eq (value : String) : scan value = scanLoop (step value) (utf8 value).length 0 := by
  rw [scanLoop_eq_filterMap ((utf8 value).length - 10) (fun i => rfl) (by omega), scan_eq_filterMap]
  · intro i hi
    have hlayout : layoutAt (utf8 value) i = false := by
      rw [← Bool.not_eq_true]
      intro h
      have hlt := lt_of_byteAt (byteAt_of_layoutAt (k := 10) h (by simp))
      omega
    simp [step, hlayout]

end Ssn

namespace Detector

def step (cr : Crates) (d : Detector) (value : String) : Nat → Option String × Nat :=
  match d with
  | creditCard => CreditCard.step value
  | email => Email.step value
  | iban => Iban.step value
  | phone => Phone.step cr value
  | ssn => Ssn.step value

theorem scan_eq (cr : Crates) (d : Detector) (value : String) :
    d.scan cr value = scanLoop (d.step cr value) (utf8 value).length 0 := by
  cases d with
  | creditCard => exact CreditCard.scanFrom_eq value 0
  | email => exact Email.scan_eq value
  | iban => exact Iban.scan_eq value
  | phone => exact Phone.scanFrom_eq cr value 0
  | ssn => exact Ssn.scan_eq value

end Detector

end PgSense
