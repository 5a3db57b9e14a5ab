import PgSense.Rules.Config
import PgSense.Rules.Validators

/-! The built-in detectors. Each walks the bytes of a value with the index
arithmetic of the source and slices its candidates out of the text. -/

namespace PgSense
set_option autoImplicit false

namespace CreditCard

/-- Digits with single separators between them, from `j` with `n` digits so far:
where the walk stops and how many digits it took, at most 19. -/
def digitRun (bytes : List UInt8) (j n : Nat) : Nat × Nat :=
  if h : j < bytes.length then
    if 19 ≤ n then (j, n)
    else if isAsciiDigit bytes[j] then digitRun bytes (j + 1) (n + 1)
    else if (bytes[j] == 32 || bytes[j] == 45) && 0 < n && byteAt isAsciiDigit bytes (j + 1) then
      digitRun bytes (j + 1) n
    else (j, n)
  else (j, n)
termination_by bytes.length - j

def scanFrom (value : String) (bytes : List UInt8) (i : Nat) : List String :=
  if h : i < bytes.length then
    if !isAsciiDigit bytes[i] then scanFrom value bytes (i + 1)
    else if byteBefore isWordByte bytes i then scanFrom value bytes (i + 1)
    else
      let (j, digitCount) := digitRun bytes i 0
      let candidate := slice value i j
      let rest := scanFrom value bytes (if i < j then j else i + 1)
      if 13 ≤ digitCount && digitCount ≤ 19 && !byteAt isWordByte bytes j &&
          Validators.luhn candidate then
        candidate :: rest
      else rest
  else []
termination_by bytes.length - i
decreasing_by all_goals (try split) <;> omega

def scan (value : String) : List String := scanFrom value (utf8 value) 0

end CreditCard

namespace Email

def isDomainChar (b : UInt8) : Bool := isAsciiAlphanumeric b || b == 45 || b == 46

/-- Walk back over local-part characters, not below `minLocal`. -/
def localStart (bytes : List UInt8) (minLocal : Nat) : Nat → Nat
  | 0 => 0
  | n + 1 =>
    if minLocal < n + 1 && byteAt Validators.isEmailLocalChar bytes n then
      localStart bytes minLocal n
    else n + 1

/-- Walk forward over domain characters, for at most `fuel` bytes. -/
def domainEnd (bytes : List UInt8) : (fuel : Nat) → (start : Nat) → Nat
  | 0, d => d
  | fuel + 1, d => if byteAt isDomainChar bytes d then domainEnd bytes fuel (d + 1) else d

/-- Drop trailing dots and hyphens, not below `low`. -/
def trimEnd (bytes : List UInt8) (low : Nat) : Nat → Nat
  | 0 => 0
  | n + 1 =>
    if low < n + 1 && byteAt (fun b => b == 46 || b == 45) bytes n then trimEnd bytes low n
    else n + 1

def extractCandidate (value : String) (bytes : List UInt8) (pos : Nat) : Option String :=
  let start := localStart bytes (pos - 64) pos
  if start == pos then none
  else
    -- the domain walk ends at most 253 bytes after the `@`
    let stop := domainEnd bytes 253 (pos + 1)
    if stop == pos + 1 then none
    else if byteAt isWordByte bytes stop then none
    else some (slice value start (trimEnd bytes (pos + 1) stop))

def scan (value : String) : List String :=
  let bytes := utf8 value
  ((List.range bytes.length).filter fun i => byteAt (· == 64) bytes i).filterMap
    (extractCandidate value bytes) |>.filter Validators.email

end Email

namespace Iban

/-- IBAN lengths by country code, keyed by its two bytes read as one number. -/
def countryLengths : List (Nat × Nat) :=
  [(0x4144, 28), (0x4145, 23), (0x414C, 28), (0x4154, 20), (0x415A, 28), (0x4241, 22),
    (0x4245, 16), (0x4247, 22), (0x4248, 22), (0x4249, 29), (0x4252, 29), (0x4259, 28),
    (0x4348, 21), (0x4352, 22), (0x4359, 28), (0x435A, 24), (0x4445, 22), (0x444A, 18),
    (0x444B, 18), (0x444F, 28), (0x4545, 20), (0x4547, 27), (0x4553, 24), (0x4649, 18),
    (0x464B, 18), (0x464F, 18), (0x4652, 27), (0x4742, 22), (0x4745, 22), (0x4749, 24),
    (0x474C, 18), (0x4752, 27), (0x4754, 28), (0x4852, 21), (0x4855, 22), (0x4945, 22),
    (0x494C, 23), (0x4951, 23), (0x4953, 26), (0x4954, 27), (0x4A4F, 30), (0x4B57, 30),
    (0x4B5A, 20), (0x4C42, 28), (0x4C43, 21), (0x4C49, 21), (0x4C54, 20), (0x4C55, 20),
    (0x4C56, 21), (0x4C59, 25), (0x4D43, 27), (0x4D44, 24), (0x4D45, 22), (0x4D4B, 19),
    (0x4D52, 27), (0x4D54, 31), (0x4D55, 30), (0x4D5A, 29), (0x4E49, 28), (0x4E4C, 18),
    (0x4E4F, 15), (0x4F4D, 23), (0x504B, 24), (0x504C, 28), (0x5053, 29), (0x5054, 25),
    (0x5141, 29), (0x524F, 24), (0x5253, 33), (0x5255, 33), (0x5341, 24), (0x5343, 31),
    (0x5344, 18), (0x5345, 24), (0x5349, 19), (0x534B, 24), (0x534D, 28), (0x534E, 28),
    (0x5356, 25), (0x544E, 24), (0x5452, 26), (0x5541, 34), (0x5641, 24), (0x5643, 29),
    (0x564E, 30), (0x584B, 24)]

def countryLength (c0 c1 : UInt8) : Option Nat :=
  countryLengths.lookup (c0.toNat * 256 + c1.toNat)

/-- Alphanumerics with single separators after the second one, up to `expected`
of them: where the walk stops and how many it took. -/
def alnumRun (bytes : List UInt8) (expected j n : Nat) : Nat × Nat :=
  if h : j < bytes.length then
    if expected ≤ n then (j, n)
    else if isAsciiAlphanumeric bytes[j] then alnumRun bytes expected (j + 1) (n + 1)
    else if (bytes[j] == 32 || bytes[j] == 45) && 2 < n &&
        byteAt isAsciiAlphanumeric bytes (j + 1) then
      alnumRun bytes expected (j + 1) n
    else (j, n)
  else (j, n)
termination_by bytes.length - j

def extractCandidate (value : String) (bytes : List UInt8) (start expected : Nat) :
    Option String :=
  -- positions 2 and 3 are always decimal check digits
  if !byteAt isAsciiDigit bytes (start + 2) || !byteAt isAsciiDigit bytes (start + 3) then none
  else
    let (j, alnumCount) := alnumRun bytes expected (start + 2) 2
    if alnumCount != expected then none
    else if byteAt isAsciiAlphanumeric bytes j then none
    else
      let candidate := slice value start j
      if Validators.iban candidate then some candidate else none

def scan (value : String) : List String :=
  let bytes := utf8 value
  (List.range (bytes.length - 1)).filterMap fun i =>
    let w0 := bytes.getD i 0
    let w1 := bytes.getD (i + 1) 0
    if isAsciiUppercase w0 && isAsciiUppercase w1 && !byteBefore isAsciiAlphanumeric bytes i then
      (countryLength w0 w1).bind (extractCandidate value bytes i)
    else none

end Iban

namespace Phone
variable (cr : Crates)

/-- Digits and separators after the prefix: the digit count, at most 15, and the
end of the last digit. -/
def internationalRun (bytes : List UInt8) (j count stop : Nat) : Nat × Nat :=
  if h : j < bytes.length then
    if 15 ≤ count then (count, stop)
    else if isAsciiDigit bytes[j] then internationalRun bytes (j + 1) (count + 1) (j + 1)
    else if [32, 45, 46, 40, 41].contains bytes[j] && 0 < count then
      internationalRun bytes (j + 1) count stop
    else (count, stop)
  else (count, stop)
termination_by bytes.length - j

/-- `parse_international`, with the check of a candidate as a parameter. -/
def parseInternationalWith (valid : String → Bool) (bytes : List UInt8) (value : String)
    (matchStart digitStart : Nat) : Option (Nat × String) :=
  let (count, stop) := internationalRun bytes digitStart 0 digitStart
  if !(7 ≤ count && count ≤ 15) || byteAt isAsciiAlphanumeric bytes stop then none
  else
    let candidate := slice value matchStart stop
    if valid candidate then some (stop, candidate) else none

def parseInternational : List UInt8 → String → Nat → Nat → Option (Nat × String) :=
  parseInternationalWith (Validators.phone cr)

/-- What `nanpRun` has read: the digits, whether a separator was seen, and the
end of the last digit. -/
structure NanpRead where
  digits : List UInt8
  hasSep : Bool
  stop : Nat

def nanpRun (bytes : List UInt8) (j : Nat) (r : NanpRead) : NanpRead :=
  if h : j < bytes.length then
    if 10 ≤ r.digits.length then r
    else if isAsciiDigit bytes[j] then
      nanpRun bytes (j + 1) { r with digits := r.digits ++ [bytes[j]], stop := j + 1 }
    else if [41, 45, 46, 32].contains bytes[j] && 0 < r.digits.length then
      nanpRun bytes (j + 1) { r with hasSep := true }
    else r
  else r
termination_by bytes.length - j

/-- `b'2'..=b'9'` -/
def isTwoToNine (b : UInt8) : Bool := 50 ≤ b && b ≤ 57

/-- `parse_nanp`, with the check of a candidate as a parameter. -/
def parseNanpWith (valid : String → Bool) (bytes : List UInt8) (value : String) (start : Nat) :
    Option (Nat × String) :=
  let j := if byteAt (· == 40) bytes start then start + 1 else start
  let r := nanpRun bytes j ⟨[], false, j⟩
  if r.digits.length != 10 || !r.hasSep then none
  else if !isTwoToNine (r.digits.getD 0 0) || !isTwoToNine (r.digits.getD 3 0) then none
  else if byteAt isAsciiAlphanumeric bytes r.stop then none
  else
    let candidate := slice value start r.stop
    if valid candidate then some (r.stop, candidate) else none

def parseNanp : List UInt8 → String → Nat → Option (Nat × String) :=
  parseNanpWith (Validators.phone cr)

/-- `parse_at`, with the check of a candidate as a parameter. -/
def parseAtWith (valid : String → Bool) (bytes : List UInt8) (value : String) (i : Nat) :
    Option (Nat × String) :=
  if byteAt (· == 43) bytes i && byteAt isAsciiDigit bytes (i + 1) then
    parseInternationalWith valid bytes value i (i + 1)
  else if byteAt (· == 48) bytes i && byteAt (· == 48) bytes (i + 1) &&
      byteAt isAsciiDigit bytes (i + 2) then
    parseInternationalWith valid bytes value i (i + 2)
  else if byteAt (fun b => b == 40 || isTwoToNine b) bytes i then parseNanpWith valid bytes value i
  else none

def parseAt : List UInt8 → String → Nat → Option (Nat × String) := parseAtWith (Validators.phone cr)

theorem internationalRun_stop_le (bytes : List UInt8) (j count stop : Nat) (h : stop ≤ j) :
    stop ≤ (internationalRun bytes j count stop).2 := by
  fun_induction internationalRun bytes j count stop with
  | case2 j count stop _ _ _ ih => exact Nat.le_trans (by omega) (ih (Nat.le_refl _))
  | case3 j count stop _ _ _ _ ih => exact ih (by omega)
  | case1 | case4 | case5 => exact Nat.le_refl _

theorem nanpRun_stop_lt (bytes : List UInt8) (j : Nat) (r : NanpRead) (start : Nat)
    (hj : start ≤ j) (h : r.digits = [] ∨ start < r.stop) :
    (nanpRun bytes j r).digits = [] ∨ start < (nanpRun bytes j r).stop := by
  fun_induction nanpRun bytes j r with
  | case2 j r _ _ _ ih => exact ih (by omega) (.inr (by simp only; omega))
  | case3 j r _ _ _ _ ih => exact ih (by omega) h
  | case1 | case4 | case5 => exact h

section Ends
variable {valid : String → Bool} {bytes : List UInt8} {value : String} {i stop : Nat} {c : String}

theorem parseInternationalWith_end {d : Nat} (hd : i < d)
    (h : parseInternationalWith valid bytes value i d = some (stop, c)) : i < stop := by
  have hle := internationalRun_stop_le bytes d 0 d (Nat.le_refl d)
  simp only [parseInternationalWith] at h
  split at h
  · cases h
  · split at h
    · cases h
      omega
    · cases h

theorem parseNanpWith_end (h : parseNanpWith valid bytes value i = some (stop, c)) : i < stop := by
  have hlt : ∀ j, i ≤ j → (nanpRun bytes j ⟨[], false, j⟩).digits.length = 10 →
      i < (nanpRun bytes j ⟨[], false, j⟩).stop := by
    intro j hj hlen
    rcases nanpRun_stop_lt bytes j ⟨[], false, j⟩ i hj (.inl rfl) with hnil | hlt
    · simp [hnil] at hlen
    · exact hlt
  have hj : i ≤ if byteAt (· == 40) bytes i then i + 1 else i := by split <;> omega
  simp only [parseNanpWith] at h
  generalize (if byteAt (· == 40) bytes i = true then i + 1 else i) = j at h hj
  have hlt := hlt j hj
  generalize nanpRun bytes j ⟨[], false, j⟩ = r at h hlt
  split at h
  · cases h
  · rename_i hlen
    simp only [Bool.or_eq_true, bne_iff_ne, ne_eq, not_or, Decidable.not_not] at hlen
    have hlt := hlt hlen.1
    split at h
    · cases h
    · split at h
      · cases h
      · split at h
        · cases h
          exact hlt
        · cases h

/-- A parsed number ends after the position it was tried at, so the scan advances. -/
theorem parseAtWith_end (h : parseAtWith valid bytes value i = some (stop, c)) : i < stop := by
  unfold parseAtWith at h
  split at h
  · exact parseInternationalWith_end (by omega) h
  · split at h
    · exact parseInternationalWith_end (by omega) h
    · split at h
      · exact parseNanpWith_end h
      · cases h

theorem parseAt_end {cr : Crates} (h : parseAt cr bytes value i = some (stop, c)) : i < stop :=
  parseAtWith_end h

end Ends

def scanFrom (value : String) (bytes : List UInt8) (i : Nat) : List String :=
  if _ : i < bytes.length then
    if byteBefore isAsciiAlphanumeric bytes i then scanFrom value bytes (i + 1)
    else
      match hp : parseAt cr bytes value i with
      | some (stop, candidate) => candidate :: scanFrom value bytes stop
      | none => scanFrom value bytes (i + 1)
  else []
termination_by bytes.length - i
decreasing_by
  · omega
  · have := parseAt_end hp
    omega
  · omega

def scan (value : String) : List String := scanFrom cr value (utf8 value) 0

end Phone

namespace Ssn

/-- The eleven bytes at `i` have the layout of a social security number. -/
def layoutAt (bytes : List UInt8) (i : Nat) : Bool :=
  let sep := bytes.getD (i + 3) 0
  [0, 1, 2, 4, 5, 7, 8, 9, 10].all (fun k => byteAt isAsciiDigit bytes (i + k)) &&
  [45, 32, 46].contains sep && bytes.getD (i + 6) 0 == sep

def scan (value : String) : List String :=
  let bytes := utf8 value
  if bytes.length < 11 then []
  else
    (List.range (bytes.length - 11 + 1)).filterMap fun i =>
      if byteBefore isWordByte bytes i || byteAt isWordByte bytes (i + 11) then none
      else if layoutAt bytes i && Validators.ssn (slice value i (i + 11)) then
        some (slice value i (i + 11))
      else none

end Ssn

inductive Detector where
  | creditCard
  | email
  | iban
  | phone
  | ssn
  deriving DecidableEq, Repr

namespace Detector

def fromKind : BuiltinKind → Detector
  | .creditCard => creditCard
  | .email => email
  | .iban => iban
  | .phone => phone
  | .ssn => ssn

def scan (cr : Crates) : Detector → String → List String
  | creditCard, value => CreditCard.scan value
  | email, value => Email.scan value
  | iban, value => Iban.scan value
  | phone, value => Phone.scan cr value
  | ssn, value => Ssn.scan value

end Detector

end PgSense
