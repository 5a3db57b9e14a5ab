import PgSense.Crates
import PgSense.Text

/-! The structural checks behind `validate = "..."`, on the bytes of a match. -/

namespace PgSense.Validators
set_option autoImplicit false

/-- `LUHN_DOUBLE`: a digit doubled and reduced to its digit sum. -/
def luhnDouble : List Nat := [0, 2, 4, 6, 8, 1, 3, 5, 7, 9]

/-- The fold from the last digit, with `double` flipped at each digit. -/
def luhnSum : Bool → List UInt8 → Nat
  | _, [] => 0
  | double, d :: ds =>
    (if double then luhnDouble.getD d.toNat 0 else d.toNat) + luhnSum (!double) ds

/-- Non-digits are skipped; more than 19 or fewer than 13 digits are rejected. -/
def luhn (s : String) : Bool :=
  let digits := ((utf8 s).filter isAsciiDigit).map (· - 48)
  if 19 < digits.length then false
  else if digits.length < 13 then false
  else luhnSum false digits.reverse % 10 == 0

/-- `EMAIL_LOCAL_CHAR`: letters, digits and the punctuation of a dot-atom. -/
def isEmailLocalChar (b : UInt8) : Bool :=
  isAsciiAlphanumeric b ||
    [46, 33, 35, 36, 37, 38, 39, 42, 43, 47, 61, 63, 94, 95, 96, 123, 124, 125, 126, 45].contains b

/-- `str::split` on one ASCII byte. -/
def splitOn (sep : UInt8) : List UInt8 → List (List UInt8)
  | [] => [[]]
  | b :: bs =>
    if b == sep then [] :: splitOn sep bs
    else
      match splitOn sep bs with
      | [] => [[b]]
      | piece :: rest => (b :: piece) :: rest

def hasDoubleDot : List UInt8 → Bool
  | a :: b :: rest => (a == 46 && b == 46) || hasDoubleDot (b :: rest)
  | _ => false

def emailLocalOk (localPart : List UInt8) : Bool :=
  !(localPart.isEmpty || 64 < localPart.length) &&
  !(localPart.head? == some 46 || localPart.getLast? == some 46) &&
  !hasDoubleDot localPart && localPart.all isEmailLocalChar

def emailLabelOk (label : List UInt8) : Bool :=
  !(label.isEmpty || 63 < label.length) &&
  !(label.head? == some 45 || label.getLast? == some 45) &&
  label.all fun b => isAsciiAlphanumeric b || b == 45

def emailDomainOk (domain : List UInt8) : Bool :=
  let labels := splitOn 46 domain
  let lastLabel := labels.getLastD []
  !(domain.isEmpty || 253 < domain.length) && labels.all emailLabelOk &&
  2 ≤ labels.length && 2 ≤ lastLabel.length && lastLabel.all isAsciiAlphabetic

def email (s : String) : Bool :=
  match (utf8 s).span (· != 64) with
  | (_, []) => false
  | (localPart, _ :: domain) => !domain.contains 64 && emailLocalOk localPart && emailDomainOk domain

/-- `str::parse::<u16>`: an optional `+`, then decimal digits, at most 65535. -/
def parseU16 (bytes : List UInt8) : Option Nat :=
  let digits := if bytes.head? == some 43 then bytes.drop 1 else bytes
  if digits.isEmpty || !digits.all isAsciiDigit then none
  else
    let value := digits.foldl (fun n b => n * 10 + (b.toNat - 48)) 0
    if value ≤ 65535 then some value else none

def ssn (s : String) : Bool :=
  let b := utf8 s
  if b.length != 11 then false
  else
    let sep := b.getD 3 0
    if !(sep == 45 || sep == 32 || sep == 46) then false
    else if b.getD 6 0 != sep then false
    else
      match parseU16 (b.take 3), parseU16 ((b.drop 4).take 2), parseU16 ((b.drop 7).take 4) with
      | some area, some group, some serial =>
        if area == 0 || area == 666 || 900 ≤ area then false
        else !(group == 0 || serial == 0)
      | _, _, _ => false

/-- One step of the mod-97 fold; `none` on a lowercase letter. -/
def ibanStep (remainder : Nat) (b : UInt8) : Option Nat :=
  if isAsciiDigit b then some ((remainder * 10 + (b.toNat - 48)) % 97)
  else if isAsciiUppercase b then some ((remainder * 100 + (b.toNat - 65 + 10)) % 97)
  else none

def iban (s : String) : Bool :=
  let compact := (utf8 s).filter isAsciiAlphanumeric
  if compact.length < 15 then false
  else (compact.drop 4 ++ compact.take 4).foldlM ibanStep 0 == some 1

/-- `parse(..).is_ok_and(|n| n.is_valid())` -/
def parsedValid (cr : Crates) (s : String) (region : Option Region) : Bool :=
  match cr.phoneParse s region with
  | .ok n => n.isValid
  | .error _ => false

def phone (cr : Crates) (s : String) : Bool :=
  match s.toList with
  | '+' :: _ => parsedValid cr s none
  | '0' :: '0' :: rest => parsedValid cr (String.ofList ('+' :: rest)) none
  | _ => parsedValid cr s (some .us)

end PgSense.Validators
