import Mathlib.Data.List.Basic

/-! Text as UTF-8 bytes: the byte classes, slices by byte offset and one-byte
look-around that the validators and detectors work with. -/

namespace PgSense
set_option autoImplicit false

/-- `str::as_bytes` -/
def utf8 (s : String) : List UInt8 := s.toList.flatMap String.utf8EncodeChar

def isAsciiDigit (b : UInt8) : Bool := 48 ≤ b && b ≤ 57

def isAsciiUppercase (b : UInt8) : Bool := 65 ≤ b && b ≤ 90

def isAsciiLowercase (b : UInt8) : Bool := 97 ≤ b && b ≤ 122

def isAsciiAlphabetic (b : UInt8) : Bool := isAsciiUppercase b || isAsciiLowercase b

def isAsciiAlphanumeric (b : UInt8) : Bool := isAsciiAlphabetic b || isAsciiDigit b

/-- Alphanumeric or `_`: what may not touch a card or social security number. -/
def isWordByte (b : UInt8) : Bool := isAsciiAlphanumeric b || b == 95

/-- `bytes.get(i).is_some_and(p)` -/
def byteAt (p : UInt8 → Bool) (bytes : List UInt8) (i : Nat) : Bool := (bytes[i]?).any p

/-- `i > 0 && p(bytes[i - 1])` -/
def byteBefore (p : UInt8 → Bool) (bytes : List UInt8) (i : Nat) : Bool :=
  0 < i && byteAt p bytes (i - 1)

/-- Drop exactly `n` bytes; `none` when `n` is past the end or inside a character. -/
def dropBytes : Nat → List Char → Option (List Char)
  | 0, cs => some cs
  | _ + 1, [] => none
  | n + 1, c :: cs => if c.utf8Size ≤ n + 1 then dropBytes (n + 1 - c.utf8Size) cs else none

/-- Keep exactly `n` bytes; `none` when `n` is past the end or inside a character. -/
def takeBytes : Nat → List Char → Option (List Char)
  | 0, _ => some []
  | _ + 1, [] => none
  | n + 1, c :: cs =>
    if c.utf8Size ≤ n + 1 then (takeBytes (n + 1 - c.utf8Size) cs).map (c :: ·) else none

/-- `value.get(i..j)` -/
def slice? (value : String) (i j : Nat) : Option String :=
  if i ≤ j then (dropBytes i value.toList).bind (takeBytes (j - i)) |>.map String.ofList
  else none

/-- `&value[i..j]`; the source panics where `slice?` is `none`. -/
def slice (value : String) (i j : Nat) : String := (slice? value i j).getD ""

/-- `str::char_indices`, with the byte offset of the first character given. -/
def charIndices : Nat → List Char → List (Nat × Char)
  | _, [] => []
  | offset, c :: cs => (offset, c) :: charIndices (offset + c.utf8Size) cs

end PgSense
