import Mathlib.Data.List.TakeDrop
import PgSense.Library.Checked
import PgSense.Rules.DetectorSteps
import PgSense.Rules.Masking

/-! The validators and the mask with every slice, index, unwrap and arithmetic operation of the
source checked. On a text of a length a `str` can have, none of them panics. -/

namespace PgSense
open Library
set_option autoImplicit false

def usizeMax : Nat := 0xFFFFFFFFFFFFFFFF

/-- The greatest length of a `str`. -/
def isizeMax : Nat := 0x7FFFFFFFFFFFFFFF

/-- No offset a few hundred bytes past a text overflows. -/
theorem isizeMax_add_le : isizeMax + 256 ≤ usizeMax := by decide

/-- A `str`. -/
structure Str where
  text : String
  bounded : (utf8 text).length ≤ isizeMax

/-- `&value[i..j]` -/
def sliceChecked (value : String) (i j : Nat) : Checked String :=
  match slice? value i j with
  | some t => .ok t
  | none => .panic "byte index is not a char boundary"

theorem sliceChecked_ok {value : String} {i j : Nat} (hij : i ≤ j)
    (hi : CharBoundary value.toList i) (hj : CharBoundary value.toList j) :
    sliceChecked value i j = .ok (slice value i j) := by
  obtain ⟨t, ht⟩ := exists_slice hij hi hj
  rw [sliceChecked, slice, ht]
  rfl

namespace Validators

namespace Checked

/-- The digits of `s` in an array of 19; `none` at the twentieth. -/
def luhnDigits (digits : List UInt8) (len : Nat) : List UInt8 → Checked (Option (List UInt8 × Nat))
  | [] => pure (some (digits, len))
  | b :: bs =>
    if isAsciiDigit b then
      if 19 ≤ len then pure none
      else do
        let d ← Checked.sub b.toNat 48
        let digits ← Checked.store digits len (UInt8.ofNat d)
        Checked.fits usizeMax (len + 1)
        luhnDigits digits (len + 1) bs
    else luhnDigits digits len bs

def luhnTerm (double : Bool) (d : UInt8) : Checked Nat :=
  if double then Checked.index luhnDouble d.toNat else pure d.toNat

/-- The sum, in a `u16`, over the digits from the last one. -/
def luhnSum (sum : Nat) : Bool → List UInt8 → Checked Nat
  | _, [] => pure sum
  | double, d :: ds => do
    let term ← luhnTerm double d
    let sum ← Checked.add 65535 sum term
    luhnSum sum (!double) ds

def luhn (s : String) : Checked Bool := do
  match ← luhnDigits (List.replicate 19 0) 0 (utf8 s) with
  | none => pure false
  | some (digits, len) =>
    if len < 13 then pure false
    else
      let used ← Checked.range digits 0 len
      let sum ← luhnSum 0 false used.reverse
      pure (sum % 10 == 0)

theorem digit_value {b : UInt8} (h : isAsciiDigit b = true) :
    UInt8.ofNat (b.toNat - 48) = b - 48 := by
  obtain ⟨hvalue, hsmall⟩ := toNat_digit h
  apply UInt8.toNat_inj.mp
  rw [UInt8.toNat_ofNat', hvalue]
  omega

/-- The digits read, as `Validators.luhn` takes them. -/
def digitsOf (bs : List UInt8) : List UInt8 := (bs.filter isAsciiDigit).map (· - 48)

theorem luhnDigits_ok {digits : List UInt8} {len : Nat} (bs : List UInt8)
    (hsize : digits.length = 19) (hlen : len ≤ 19) :
    ∃ r, luhnDigits digits len bs = .ok r ∧
      (r = none ∧ 19 < len + (digitsOf bs).length ∨
        ∃ all, r = some (all, len + (digitsOf bs).length) ∧ all.length = 19 ∧
          len + (digitsOf bs).length ≤ 19 ∧
          all.take (len + (digitsOf bs).length) = digits.take len ++ digitsOf bs) := by
  induction bs generalizing digits len with
  | nil => exact ⟨_, rfl, .inr ⟨digits, rfl, hsize, hlen, by simp [digitsOf]⟩⟩
  | cons b bs ih =>
    rw [luhnDigits]
    cases hdigit : isAsciiDigit b with
    | false =>
      have hsame : digitsOf (b :: bs) = digitsOf bs := by simp [digitsOf, hdigit]
      rw [if_neg Bool.false_ne_true, hsame]
      exact ih hsize hlen
    | true =>
      have hnext : digitsOf (b :: bs) = (b - 48) :: digitsOf bs := by simp [digitsOf, hdigit]
      rw [if_pos rfl, hnext, List.length_cons]
      split
      · exact ⟨none, rfl, .inl ⟨rfl, by omega⟩⟩
      · rename_i hroom
        have hstore : (digits.set len (b - 48)).length = 19 := by rw [List.length_set, hsize]
        have hmax := isizeMax_add_le
        have hfits : len + 1 ≤ usizeMax := by omega
        have htake := Checked.take_set_succ (b - 48) (by omega : len < digits.length)
        obtain ⟨r, hr, hcases⟩ := ih hstore (by omega : len + 1 ≤ 19)
        refine ⟨r, ?_, ?_⟩
        · rw [Checked.sub_ok ((isAsciiDigit_iff b).mp hdigit).1, Outcome.ok_bind, digit_value hdigit,
            Checked.store_ok _ (by omega), Outcome.ok_bind, Checked.fits_ok hfits, Outcome.ok_bind]
          exact hr
        · rcases hcases with ⟨hnone, hmany⟩ | ⟨all, hall, hsize, hfew, hdigits⟩
          · exact .inl ⟨hnone, by omega⟩
          · refine .inr ⟨all, ?_, hsize, by omega, ?_⟩
            · rw [hall]
              congr 2
              omega
            · rw [htake, List.append_assoc, List.singleton_append] at hdigits
              rw [← hdigits]
              congr 1
              omega

theorem luhnSum_ok {sum : Nat} (double : Bool) {ds : List UInt8} (hds : ∀ d ∈ ds, d.toNat ≤ 9)
    (hsum : sum + 9 * ds.length ≤ 65535) :
    luhnSum sum double ds = .ok (sum + Validators.luhnSum double ds) := by
  induction ds generalizing sum double with
  | nil => rfl
  | cons d ds ih =>
    have hd := hds d List.mem_cons_self
    have hterm : ∃ t, t ≤ 9 ∧ (if double then luhnDouble.getD d.toNat 0 else d.toNat) = t ∧
        luhnTerm double d = .ok t := by
      cases double with
      | false => exact ⟨d.toNat, hd, rfl, rfl⟩
      | true =>
        have hindex : d.toNat < luhnDouble.length := Nat.lt_succ_of_le hd
        have hsmall : ∀ t ∈ luhnDouble, t ≤ 9 := by decide
        refine ⟨luhnDouble[d.toNat], hsmall _ (List.getElem_mem hindex), ?_, ?_⟩
        · rw [if_pos rfl, List.getD_eq_getElem luhnDouble 0 hindex]
        · exact Checked.index_lt hindex
    obtain ⟨t, ht, hvalue, hread⟩ := hterm
    rw [List.length_cons] at hsum
    rw [luhnSum, hread, Outcome.ok_bind, Checked.add_ok (by omega), Outcome.ok_bind,
      ih _ (fun d' hd' => hds d' (List.mem_cons_of_mem d hd')) (by omega), Validators.luhnSum, hvalue,
      Nat.add_assoc]

theorem luhn_ok (s : String) : luhn s = .ok (Validators.luhn s) := by
  obtain ⟨r, hr, hcases⟩ := luhnDigits_ok (utf8 s) List.length_replicate (Nat.zero_le 19)
  have htotal : Validators.luhn s = (if 19 < (digitsOf (utf8 s)).length then false
      else if (digitsOf (utf8 s)).length < 13 then false
      else Validators.luhnSum false (digitsOf (utf8 s)).reverse % 10 == 0) := rfl
  rw [Nat.zero_add] at hcases
  rw [luhn, hr, Outcome.ok_bind, htotal]
  rcases hcases with ⟨rfl, hmany⟩ | ⟨all, rfl, hsize, hfew, hdigits⟩
  · rw [if_pos hmany]
    rfl
  · rw [if_neg (by omega)]
    simp only
    split
    · rfl
    · rw [List.take_zero, List.nil_append] at hdigits
      have hsmall : ∀ d ∈ (digitsOf (utf8 s)).reverse, d.toNat ≤ 9 := by
        intro d hd
        obtain ⟨b, hb, rfl⟩ := List.mem_map.mp (List.mem_reverse.mp hd)
        obtain ⟨hvalue, hdigit⟩ := toNat_digit (List.mem_filter.mp hb).2
        rw [hvalue]
        exact hdigit
      have hsum : 0 + 9 * (digitsOf (utf8 s)).reverse.length ≤ 65535 := by
        rw [List.length_reverse]
        omega
      rw [Checked.range_ok (Nat.zero_le _) (by omega), Outcome.ok_bind, List.drop_zero, Nat.sub_zero,
        hdigits, luhnSum_ok false hsmall hsum, Outcome.ok_bind, Nat.zero_add]
      rfl

/-- `EMAIL_LOCAL_CHAR` -/
def emailLocalChar : List Bool :=
  (List.range 128).map fun n => Validators.isEmailLocalChar (UInt8.ofNat n)

def isEmailLocalChar (b : UInt8) : Checked Bool :=
  if b.toNat < 128 then Checked.index emailLocalChar b.toNat else pure false

theorem isEmailLocalChar_ok (b : UInt8) :
    isEmailLocalChar b = .ok (Validators.isEmailLocalChar b) := by
  rw [isEmailLocalChar]
  split
  · rename_i hascii
    have hlt : b.toNat < emailLocalChar.length := by
      rw [emailLocalChar, List.length_map, List.length_range]
      exact hascii
    rw [Checked.index_lt hlt]
    simp [emailLocalChar]
  · rename_i hhigh
    have hfalse : Validators.isEmailLocalChar b = false := by
      rw [← Bool.not_eq_true]
      intro hlocal
      exact hhigh ((isAsciiByte_iff b).mp (isAsciiByte_of_localChar hlocal))
    rw [hfalse]
    rfl

/-- `s.as_bytes().iter().all(p)` for a predicate that may panic. -/
def allBytes (p : UInt8 → Checked Bool) : List UInt8 → Checked Bool
  | [] => pure true
  | b :: bs => do
    if ← p b then allBytes p bs
    else pure false

theorem allBytes_ok {p : UInt8 → Checked Bool} {q : UInt8 → Bool} (h : ∀ b, p b = .ok (q b))
    (bs : List UInt8) : allBytes p bs = .ok (bs.all q) := by
  induction bs with
  | nil => rfl
  | cons b bs ih =>
    rw [allBytes, h b, Outcome.ok_bind, List.all_cons]
    cases q b with
    | true => exact ih
    | false => rfl

/-- The labels of a domain, counted in a `u32`, and the last one; `none` at a bad label. -/
def emailLabels (labelCount : Nat) (lastLabel : List UInt8) :
    List (List UInt8) → Checked (Option (Nat × List UInt8))
  | [] => pure (some (labelCount, lastLabel))
  | label :: labels =>
    if !emailLabelOk label then pure none
    else do
      let labelCount ← Checked.add 0xFFFFFFFF labelCount 1
      emailLabels labelCount label labels

def emailDomainOk (domain : List UInt8) : Checked Bool :=
  if domain.isEmpty || 253 < domain.length then pure false
  else do
    match ← emailLabels 0 [] (splitOn 46 domain) with
    | none => pure false
    | some (labelCount, lastLabel) =>
      pure (2 ≤ labelCount && 2 ≤ lastLabel.length && lastLabel.all isAsciiAlphabetic)

def emailLocalOk (localPart : List UInt8) : Checked Bool :=
  if localPart.isEmpty || 64 < localPart.length then pure false
  else if localPart.head? == some 46 || localPart.getLast? == some 46 then pure false
  else if hasDoubleDot localPart then pure false
  else allBytes isEmailLocalChar localPart

/-- `str::find` of an ASCII character. -/
def findByte (b : UInt8) (bytes : List UInt8) : Option Nat :=
  if bytes.contains b then some (bytes.takeWhile (· != b)).length else none

def email (s : String) : Checked Bool :=
  match findByte 64 (utf8 s) with
  | none => pure false
  | some atPos => do
    let start ← Checked.add usizeMax atPos 1
    let domain ← sliceChecked s start (utf8 s).length
    if (utf8 domain).contains 64 then pure false
    else do
      let localPart ← sliceChecked s 0 atPos
      if ← emailLocalOk (utf8 localPart) then emailDomainOk (utf8 domain)
      else pure false

theorem emailLabels_ok {labelCount : Nat} (lastLabel : List UInt8) {labels : List (List UInt8)}
    (h : labelCount + labels.length ≤ 0xFFFFFFFF) :
    emailLabels labelCount lastLabel labels = .ok (if labels.all emailLabelOk then
      some (labelCount + labels.length, labels.getLastD lastLabel) else none) := by
  induction labels generalizing labelCount lastLabel with
  | nil => rfl
  | cons label labels ih =>
    rw [List.length_cons] at h
    rw [emailLabels, List.all_cons]
    cases hlabel : emailLabelOk label with
    | false => rfl
    | true =>
      have hlast : (label :: labels).getLastD lastLabel = labels.getLastD label := by
        cases labels <;> rfl
      have hcount : labelCount + 1 + labels.length = labelCount + (labels.length + 1) := by omega
      rw [Bool.not_true, if_neg Bool.false_ne_true, Checked.add_ok (by omega), Outcome.ok_bind,
        ih label (by omega), hlast, hcount, Bool.true_and, List.length_cons]

theorem length_splitOn (sep : UInt8) (bs : List UInt8) :
    (splitOn sep bs).length ≤ bs.length + 1 := by
  induction bs with
  | nil => exact Nat.le_refl 1
  | cons b bs ih =>
    rw [splitOn, List.length_cons]
    split
    · rw [List.length_cons]
      omega
    · split
      · rw [List.length_singleton]
        omega
      · rename_i hrest
        rw [hrest, List.length_cons] at ih
        rw [List.length_cons]
        omega

theorem emailDomainOk_ok (domain : List UInt8) :
    emailDomainOk domain = .ok (Validators.emailDomainOk domain) := by
  rw [emailDomainOk, Validators.emailDomainOk]
  split
  · rename_i hbad
    rw [hbad]
    rfl
  · rename_i hgood
    rw [Bool.not_eq_true] at hgood
    have hlength : domain.length ≤ 253 := by
      rw [Bool.or_eq_false_iff, decide_eq_false_iff_not] at hgood
      omega
    have hlabels := length_splitOn 46 domain
    rw [emailLabels_ok [] (by omega), Outcome.ok_bind, hgood]
    cases hall : (splitOn 46 domain).all emailLabelOk with
    | false => rfl
    | true =>
      simp only [if_true, Nat.zero_add, Bool.not_false, Bool.true_and]
      rfl

theorem emailLocalOk_ok (localPart : List UInt8) :
    emailLocalOk localPart = .ok (Validators.emailLocalOk localPart) := by
  rw [emailLocalOk, Validators.emailLocalOk]
  split
  · rename_i hbad
    rw [hbad]
    rfl
  · rename_i hlength
    split
    · rename_i hbad
      simp only [hbad, Bool.not_true, Bool.and_false, Bool.false_and]
      rfl
    · rename_i hends
      split
      · rename_i hbad
        simp only [hbad, Bool.not_true, Bool.and_false, Bool.false_and]
        rfl
      · rename_i hdots
        rw [allBytes_ok isEmailLocalChar_ok]
        simp only [Bool.not_eq_true] at hlength hends hdots
        simp only [hlength, hends, hdots, Bool.not_false, Bool.true_and]

theorem splitAt_byte (b : UInt8) (bytes : List UInt8) :
    bytes.contains b = false ∧ bytes.dropWhile (· != b) = [] ∨
      ∃ rest, bytes.contains b = true ∧ bytes.dropWhile (· != b) = b :: rest ∧
        bytes = bytes.takeWhile (· != b) ++ b :: rest := by
  induction bytes with
  | nil => exact .inl ⟨rfl, rfl⟩
  | cons c bytes ih =>
    by_cases hc : c = b
    · subst hc
      exact .inr ⟨bytes, by simp, by simp, by simp⟩
    · have hcb : (c != b) = true := by simp [hc]
      have hbc : (b == c) = false := by simp [Ne.symm hc]
      have hdrop : (c :: bytes).dropWhile (· != b) = bytes.dropWhile (· != b) := by simp [hcb]
      have htake : (c :: bytes).takeWhile (· != b) = c :: bytes.takeWhile (· != b) := by simp [hcb]
      rw [hdrop, htake, List.contains_cons, hbc, Bool.false_or]
      rcases ih with hnone | ⟨rest, hmem, hdrop, hbytes⟩
      · exact .inl hnone
      · exact .inr ⟨rest, hmem, hdrop, by rw [List.cons_append, ← hbytes]⟩

/-- An ASCII byte parts a text in two slices. -/
theorem slices_at_byte {s : String} {b : UInt8} {front back : List UInt8}
    (hb : isAsciiByte b = true) (hbytes : utf8 s = front ++ b :: back) :
    (∃ t, slice? s 0 front.length = some t ∧ utf8 t = front) ∧
      ∃ t, slice? s (front.length + 1) (utf8 s).length = some t ∧ utf8 t = back := by
  have hlength : (utf8 s).length = front.length + 1 + back.length := by
    rw [hbytes, List.length_append, List.length_cons]
    omega
  have hat : (encode s.toList)[front.length]? = some b := by
    rw [← utf8_eq_encode, hbytes, List.getElem?_append_right (Nat.le_refl _), Nat.sub_self]
    rfl
  constructor
  · obtain ⟨t, ht⟩ := exists_slice (Nat.zero_le _) (charBoundary_zero s.toList)
      (charBoundary_of_ascii hat hb)
    refine ⟨t, ht, ?_⟩
    rw [utf8_slice? ht, hbytes]
    simp
  · have hend : front.length + 1 ≤ (encode s.toList).length := by
      rw [← utf8_eq_encode]
      omega
    obtain ⟨t, ht⟩ := exists_slice hend (charBoundary_after_ascii hat hb)
      (charBoundary_length s.toList)
    rw [← utf8_eq_encode] at ht
    have hrest : (utf8 s).drop (front.length + 1) = back := by
      rw [hbytes]
      simp
    refine ⟨t, ht, ?_⟩
    rw [utf8_slice? ht, hrest, List.take_of_length_le (by omega)]

theorem email_ok (s : Str) : email s.text = .ok (Validators.email s.text) := by
  rw [email, findByte, Validators.email, List.span_eq_takeWhile_dropWhile]
  rcases splitAt_byte 64 (utf8 s.text) with ⟨hmem, hdrop⟩ | ⟨domain, hmem, hdrop, hbytes⟩
  · rw [hmem, hdrop]
    rfl
  · rw [hmem, hdrop, if_pos rfl]
    generalize (utf8 s.text).takeWhile (· != 64) = front at hbytes
    have hsize := s.bounded
    have hmax := isizeMax_add_le
    have hfront : front.length < (utf8 s.text).length := by
      rw [hbytes, List.length_append, List.length_cons]
      omega
    obtain ⟨⟨l, hl, hlbytes⟩, d, hd, hdbytes⟩ := slices_at_byte rfl hbytes
    simp only
    rw [Checked.add_ok (by omega), Outcome.ok_bind, sliceChecked, hd]
    simp only
    rw [Outcome.ok_bind, hdbytes]
    cases hsign : domain.contains 64 with
    | true => rfl
    | false =>
      rw [if_neg Bool.false_ne_true, sliceChecked, hl]
      simp only
      rw [Outcome.ok_bind, hlbytes, emailLocalOk_ok, Outcome.ok_bind]
      cases Validators.emailLocalOk front with
      | true => exact emailDomainOk_ok domain
      | false => rfl

/-- `s[i..j].parse::<u16>()` -/
def parseSlice (s : String) (i j : Nat) : Checked (Option Nat) := do
  let part ← sliceChecked s i j
  pure (parseU16 (utf8 part))

def ssn (s : String) : Checked Bool :=
  let b := utf8 s
  if b.length != 11 then pure false
  else do
    let sep ← Checked.index b 3
    if !(sep == 45 || sep == 32 || sep == 46) then pure false
    else do
      let second ← Checked.index b 6
      if second != sep then pure false
      else do
        match ← parseSlice s 0 3 with
        | none => pure false
        | some area =>
          match ← parseSlice s 4 6 with
          | none => pure false
          | some group =>
            match ← parseSlice s 7 11 with
            | none => pure false
            | some serial =>
              if area == 0 || area == 666 || 900 ≤ area then pure false
              else pure !(group == 0 || serial == 0)

/-- One turn of the mod-97 loop, in a `u32`; `none` on a lowercase letter. -/
def ibanStep (remainder : Nat) (b : UInt8) : Checked (Option Nat) :=
  if isAsciiDigit b then do
    let d ← Checked.sub b.toNat 48
    let shifted ← Checked.mul 0xFFFFFFFF remainder 10
    let sum ← Checked.add 0xFFFFFFFF shifted d
    pure (some (sum % 97))
  else if isAsciiUppercase b then do
    let letter ← Checked.sub b.toNat 65
    let val ← Checked.add 0xFFFFFFFF letter 10
    let shifted ← Checked.mul 0xFFFFFFFF remainder 100
    let sum ← Checked.add 0xFFFFFFFF shifted val
    pure (some (sum % 97))
  else pure none

def ibanFold (remainder : Nat) : List UInt8 → Checked (Option Nat)
  | [] => pure (some remainder)
  | b :: bs => do
    match ← ibanStep remainder b with
    | none => pure none
    | some remainder => ibanFold remainder bs

def iban (s : String) : Checked Bool :=
  let compact := (utf8 s).filter isAsciiAlphanumeric
  if compact.length < 15 then pure false
  else do
    let rest ← Checked.range compact 4 compact.length
    let front ← Checked.range compact 0 4
    let remainder ← ibanFold 0 (rest ++ front)
    pure (remainder == some 1)

/-- Up to the library call: a prefix test, and a text one byte shorter than `s`. -/
def phone (cr : Crates) (s : String) : Checked Bool := pure (Validators.phone cr s)

theorem ibanStep_ok {remainder : Nat} (h : remainder < 97) (b : UInt8) :
    ibanStep remainder b = .ok (Validators.ibanStep remainder b) := by
  rw [ibanStep, Validators.ibanStep]
  split
  · rename_i hdigit
    obtain ⟨hlow, hhigh⟩ := (isAsciiDigit_iff b).mp hdigit
    rw [Checked.sub_ok hlow, Outcome.ok_bind, Checked.mul_ok (by omega), Outcome.ok_bind,
      Checked.add_ok (by omega)]
    rfl
  · split
    · rename_i hupper
      obtain ⟨hlow, hhigh⟩ := (isAsciiUppercase_iff b).mp hupper
      rw [Checked.sub_ok hlow, Outcome.ok_bind, Checked.add_ok (by omega), Outcome.ok_bind,
        Checked.mul_ok (by omega), Outcome.ok_bind, Checked.add_ok (by omega)]
      rfl
    · rfl

theorem ibanStep_lt {remainder next : Nat} {b : UInt8}
    (h : Validators.ibanStep remainder b = some next) : next < 97 := by
  rw [Validators.ibanStep] at h
  split at h
  · cases h
    exact Nat.mod_lt _ (by omega)
  · split at h
    · cases h
      exact Nat.mod_lt _ (by omega)
    · cases h

theorem ibanFold_ok {remainder : Nat} (h : remainder < 97) (bs : List UInt8) :
    ibanFold remainder bs = .ok (bs.foldlM Validators.ibanStep remainder) := by
  induction bs generalizing remainder with
  | nil => rfl
  | cons b bs ih =>
    rw [ibanFold, ibanStep_ok h, Outcome.ok_bind, List.foldlM_cons]
    cases hstep : Validators.ibanStep remainder b with
    | none => rfl
    | some next => exact ih (ibanStep_lt hstep)

theorem iban_ok (s : String) : iban s = .ok (Validators.iban s) := by
  simp only [iban, Validators.iban]
  split
  · rfl
  · rename_i hlong
    rw [Checked.range_ok (by omega) (Nat.le_refl _), Outcome.ok_bind,
      Checked.range_ok (Nat.zero_le 4) (by omega), Outcome.ok_bind, ibanFold_ok (by omega),
      Outcome.ok_bind, List.drop_zero, List.take_of_length_le (Nat.le_of_eq List.length_drop)]
    rfl

theorem parseSlice_ok {s : String} {i j : Nat} (hij : i ≤ j) (hi : CharBoundary s.toList i)
    (hj : CharBoundary s.toList j) :
    parseSlice s i j = .ok (parseU16 (((utf8 s).drop i).take (j - i))) := by
  obtain ⟨t, ht⟩ := exists_slice hij hi hj
  rw [parseSlice, sliceChecked, ht, ← utf8_slice? ht]
  rfl

/-- Equal ASCII separators at bytes 3 and 6 put the parts of a text of 11 bytes between
characters. -/
theorem parseSlices_ok {s : String} (hlength : (utf8 s).length = 11)
    (hsep : isAsciiByte ((utf8 s).getD 3 0) = true)
    (hsame : (utf8 s).getD 6 0 = (utf8 s).getD 3 0) :
    parseSlice s 0 3 = .ok (parseU16 ((utf8 s).take 3)) ∧
      parseSlice s 4 6 = .ok (parseU16 (((utf8 s).drop 4).take 2)) ∧
      parseSlice s 7 11 = .ok (parseU16 (((utf8 s).drop 7).take 4)) := by
  have h3 : (utf8 s)[3]? = some ((utf8 s).getD 3 0) := getElem?_eq_getD (by omega)
  have h6 : (utf8 s)[6]? = some ((utf8 s).getD 6 0) := getElem?_eq_getD (by omega)
  rw [hsame] at h6
  have hend : CharBoundary s.toList 11 := by
    have hlast := charBoundary_length s.toList
    rw [← utf8_eq_encode, hlength] at hlast
    exact hlast
  refine ⟨?_, ?_, ?_⟩
  · exact parseSlice_ok (by omega) (charBoundary_zero s.toList) (charBoundary_of_ascii h3 hsep)
  · exact parseSlice_ok (by omega) (charBoundary_after_ascii h3 hsep) (charBoundary_of_ascii h6 hsep)
  · exact parseSlice_ok (by omega) (charBoundary_after_ascii h6 hsep) hend

theorem ssn_ok (s : String) : ssn s = .ok (Validators.ssn s) := by
  simp only [ssn, Validators.ssn]
  split
  · rfl
  · rename_i hsize
    have hlength : (utf8 s).length = 11 := by simpa using hsize
    have h3 : (utf8 s)[3]? = some ((utf8 s).getD 3 0) := getElem?_eq_getD (by omega)
    have h6 : (utf8 s)[6]? = some ((utf8 s).getD 6 0) := getElem?_eq_getD (by omega)
    rw [Checked.index_ok h3, Outcome.ok_bind]
    split
    · rfl
    · rename_i hsep
      rw [Checked.index_ok h6, Outcome.ok_bind]
      split
      · rfl
      · rename_i hsame
        have hascii : isAsciiByte ((utf8 s).getD 3 0) = true := by
          rw [Bool.not_eq_true, Bool.not_eq_false', Bool.or_eq_true, Bool.or_eq_true, beq_iff_eq,
            beq_iff_eq, beq_iff_eq] at hsep
          rcases hsep with (hsep | hsep) | hsep <;> rw [hsep] <;> decide
        obtain ⟨harea, hgroup, hserial⟩ := parseSlices_ok hlength hascii (by simpa using hsame)
        rw [harea, Outcome.ok_bind]
        cases parseU16 ((utf8 s).take 3) with
        | none => rfl
        | some area =>
          simp only
          rw [hgroup, Outcome.ok_bind]
          cases parseU16 (((utf8 s).drop 4).take 2) with
          | none => rfl
          | some group =>
            simp only
            rw [hserial, Outcome.ok_bind]
            cases parseU16 (((utf8 s).drop 7).take 4) with
            | none => rfl
            | some serial =>
              simp only
              split <;> rfl

end Checked

end Validators

namespace Masking.Checked

def mask (s : String) : Checked String := do
  let chars := s.toList
  let charLen := chars.length
  if charLen < 8 then pure (String.ofList (List.replicate charLen '*'))
  else do
    let c0 ← Checked.unwrap chars[0]?
    let c1 ← Checked.unwrap chars[1]?
    let last ← Checked.sub charLen 2
    let lastStart ← Checked.unwrap (charIndices 0 chars)[last]?
    let stars ← Checked.sub charLen 4
    let suffix ← sliceChecked s lastStart.1 (utf8 s).length
    pure (String.ofList ([c0, c1] ++ List.replicate stars '*') ++ suffix)

theorem mask_ok (s : String) : mask s = .ok (PgSense.mask s) := by
  simp only [mask, PgSense.mask]
  split
  · rfl
  · rename_i hlong
    have h0 : s.toList[0]? = some s.toList[0] := List.getElem?_eq_getElem (by omega)
    have h1 : s.toList[1]? = some s.toList[1] := List.getElem?_eq_getElem (by omega)
    have hindex : s.toList.length - 2 < s.toList.length := by omega
    have hlast := getElem?_charIndices 0 hindex
    have hfront : s.toList.take 2 = [s.toList[0], s.toList[1]] := by
      rw [List.take_succ_eq_append_getElem (by omega), List.take_succ_eq_append_getElem (by omega)]
      rfl
    have hboundary : CharBoundary s.toList
        (0 + (encode (s.toList.take (s.toList.length - 2))).length) := by
      rw [Nat.zero_add]
      exact ⟨_, _, (List.take_append_drop (s.toList.length - 2) s.toList).symm, rfl⟩
    have hle : 0 + (encode (s.toList.take (s.toList.length - 2))).length ≤ (utf8 s).length := by
      have hsplit := List.take_append_drop (s.toList.length - 2) s.toList
      rw [utf8_eq_encode, ← congrArg encode hsplit, encode_append, List.length_append]
      omega
    rw [h0, h1, hlast, Checked.unwrap, Checked.unwrap]
    simp only [Outcome.ok_bind]
    rw [Checked.sub_ok (by omega), Outcome.ok_bind, hlast, Checked.unwrap]
    simp only [Outcome.ok_bind]
    rw [Checked.sub_ok (by omega), Outcome.ok_bind,
      sliceChecked_ok hle hboundary (charBoundary_length s.toList), Outcome.ok_bind, hfront]
    rfl

end Masking.Checked

end PgSense
