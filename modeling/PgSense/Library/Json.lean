import Mathlib.Data.List.Basic

/-! JSON values whose numbers are naturals, their compact text, and a parser of such
text that inverts it. -/

namespace PgSense.Library
set_option autoImplicit false

inductive JsonValue where
  | null
  | bool (b : Bool)
  | number (n : Nat)
  | string (s : String)
  | array (items : List JsonValue)
  | object (fields : List (String × JsonValue))

namespace JsonValue

/-- A character inside the quotes of a string. -/
def escape (c : Char) : List Char :=
  match c.toNat with
  | 34 => ['\\', '"']
  | 92 => ['\\', '\\']
  | 8 => ['\\', 'b']
  | 9 => ['\\', 't']
  | 10 => ['\\', 'n']
  | 12 => ['\\', 'f']
  | 13 => ['\\', 'r']
  | n => if n < 32 then ['\\', 'u', '0', '0', Nat.digitChar (n / 16), Nat.digitChar (n % 16)] else [c]

def renderString (s : String) : List Char := '"' :: s.toList.flatMap escape ++ ['"']

mutual

def render : JsonValue → List Char
  | .null => ['n', 'u', 'l', 'l']
  | .bool true => ['t', 'r', 'u', 'e']
  | .bool false => ['f', 'a', 'l', 's', 'e']
  | .number n => Nat.toDigits 10 n
  | .string s => renderString s
  | .array [] => ['[', ']']
  | .array (item :: rest) => '[' :: render item ++ renderItems rest
  | .object [] => ['{', '}']
  | .object ((key, value) :: rest) =>
    '{' :: renderString key ++ ':' :: render value ++ renderFields rest

/-- The items after the first, and the closing bracket. -/
def renderItems : List JsonValue → List Char
  | [] => [']']
  | item :: rest => ',' :: render item ++ renderItems rest

def renderFields : List (String × JsonValue) → List Char
  | [] => ['}']
  | (key, value) :: rest => ',' :: renderString key ++ ':' :: render value ++ renderFields rest

end

def hexValue (c : Char) : Option Nat :=
  if c.isDigit then some (c.toNat - 48)
  else if 97 ≤ c.toNat ∧ c.toNat ≤ 102 then some (c.toNat - 87)
  else if 65 ≤ c.toNat ∧ c.toNat ≤ 70 then some (c.toNat - 55)
  else none

/-- What a backslash and a character stand for. -/
def unescape (c : Char) : Option Char :=
  match c with
  | '"' => some '"'
  | '\\' => some '\\'
  | '/' => some '/'
  | 'b' => some (Char.ofNat 8)
  | 't' => some '\t'
  | 'n' => some '\n'
  | 'f' => some (Char.ofNat 12)
  | 'r' => some '\r'
  | _ => none

/-- A scalar value written with four hexadecimal digits; pairs of surrogates are not read. -/
def unicode (a b c d : Char) : Option Char := do
  let n := (← hexValue a) * 4096 + (← hexValue b) * 256 + (← hexValue c) * 16 + (← hexValue d)
  if n.isValidChar then some (Char.ofNat n) else none

/-- The characters up to the closing quote, and what follows it. -/
def parseString : List Char → Option (List Char × List Char)
  | [] => none
  | '"' :: rest => some ([], rest)
  | '\\' :: 'u' :: a :: b :: c :: d :: rest => do
    let first ← unicode a b c d
    let (chars, rest) ← parseString rest
    some (first :: chars, rest)
  | '\\' :: c :: rest => do
    let first ← unescape c
    let (chars, rest) ← parseString rest
    some (first :: chars, rest)
  | c :: rest => do
    if c.toNat < 32 then none
    else
      let (chars, rest) ← parseString rest
      some (c :: chars, rest)

/-- A run of digits; leading zeros are read too. -/
def parseNumber (cs : List Char) : Option (Nat × List Char) :=
  match cs.takeWhile Char.isDigit with
  | [] => none
  | digits => some (Nat.ofDigitChars 10 digits 0, cs.dropWhile Char.isDigit)

mutual

def parseValue : Nat → List Char → Option (JsonValue × List Char)
  | 0, _ => none
  | fuel + 1, cs =>
    match parseNumber cs, cs with
    | some (n, rest), _ => some (.number n, rest)
    | none, 'n' :: 'u' :: 'l' :: 'l' :: rest => some (.null, rest)
    | none, 't' :: 'r' :: 'u' :: 'e' :: rest => some (.bool true, rest)
    | none, 'f' :: 'a' :: 'l' :: 's' :: 'e' :: rest => some (.bool false, rest)
    | none, '"' :: rest => (parseString rest).map fun r => (.string (String.ofList r.1), r.2)
    | none, '[' :: rest =>
      match rest with
      | ']' :: rest => some (.array [], rest)
      | _ => do
        let (item, rest) ← parseValue fuel rest
        let (items, rest) ← parseItems fuel rest
        some (.array (item :: items), rest)
    | none, '{' :: rest =>
      match rest with
      | '}' :: rest => some (.object [], rest)
      | _ => do
        let (field, rest) ← parseField fuel rest
        let (fields, rest) ← parseFields fuel rest
        some (.object (field :: fields), rest)
    | none, _ => none

def parseItems : Nat → List Char → Option (List JsonValue × List Char)
  | 0, _ => none
  | fuel + 1, cs =>
    match cs with
    | ']' :: rest => some ([], rest)
    | ',' :: rest => do
      let (item, rest) ← parseValue fuel rest
      let (items, rest) ← parseItems fuel rest
      some (item :: items, rest)
    | _ => none

def parseField : Nat → List Char → Option ((String × JsonValue) × List Char)
  | 0, _ => none
  | fuel + 1, cs =>
    match cs with
    | '"' :: rest => do
      let (key, rest) ← parseString rest
      match rest with
      | ':' :: rest =>
        let (value, rest) ← parseValue fuel rest
        some ((String.ofList key, value), rest)
      | _ => none
    | _ => none

def parseFields : Nat → List Char → Option (List (String × JsonValue) × List Char)
  | 0, _ => none
  | fuel + 1, cs =>
    match cs with
    | '}' :: rest => some ([], rest)
    | ',' :: rest => do
      let (field, rest) ← parseField fuel rest
      let (fields, rest) ← parseFields fuel rest
      some (field :: fields, rest)
    | _ => none

end

/-- A text that is one value; its length is fuel enough. -/
def parse (cs : List Char) : Option JsonValue :=
  match parseValue cs.length cs with
  | some (value, []) => some value
  | _ => none

/-- Nesting below a limit, and numbers of 64 bits: what bounded readers take. -/
def readable : Nat → JsonValue → Bool
  | 0, _ => false
  | _ + 1, .number n => n ≤ 0xFFFFFFFFFFFFFFFF
  | depth + 1, .array items => items.all (readable depth)
  | depth + 1, .object fields => fields.all fun field => readable depth field.2
  | _ + 1, _ => true

section Strings

theorem unicode_control : ∀ n < 32,
    unicode '0' '0' (Nat.digitChar (n / 16)) (Nat.digitChar (n % 16)) = some (Char.ofNat n) := by
  decide

theorem parseString_plain {c : Char} (hquote : c ≠ '"') (hslash : c ≠ '\\') (h : 32 ≤ c.toNat)
    (rest : List Char) :
    parseString (c :: rest) = (parseString rest).map fun r => (c :: r.1, r.2) := by
  rw [parseString, if_neg (Nat.not_lt.mpr h)]
  · cases parseString rest <;> rfl
  · exact hquote
  · intro _ _ _ _ _ heq _
    exact hslash heq
  · intro _ _ heq _
    exact hslash heq

theorem parseString_escape (c : Char) (rest : List Char) :
    parseString (escape c ++ rest) = (parseString rest).map fun r => (c :: r.1, r.2) := by
  have hchar : ∀ {d : Char}, c.toNat = d.toNat → c = d := fun h => Char.toNat_inj.mp h
  unfold escape
  split
  · next h =>
    rw [hchar (d := '"') h]
    cases h : parseString rest <;> simp [parseString, unescape, h]
  · next h =>
    rw [hchar (d := '\\') h]
    cases h : parseString rest <;> simp [parseString, unescape, h]
  · next h =>
    rw [hchar (d := Char.ofNat 8) h]
    cases h : parseString rest <;> simp [parseString, unescape, h]
  · next h =>
    rw [hchar (d := '\t') h]
    cases h : parseString rest <;> simp [parseString, unescape, h]
  · next h =>
    rw [hchar (d := '\n') h]
    cases h : parseString rest <;> simp [parseString, unescape, h]
  · next h =>
    rw [hchar (d := Char.ofNat 12) h]
    cases h : parseString rest <;> simp [parseString, unescape, h]
  · next h =>
    rw [hchar (d := '\r') h]
    cases h : parseString rest <;> simp [parseString, unescape, h]
  · next hquote hslash _ _ _ _ _ =>
    split
    · next hlt =>
      have hcode := unicode_control c.toNat hlt
      rw [Char.ofNat_toNat] at hcode
      cases h : parseString rest <;> simp [parseString, hcode, h]
    · next hge =>
      have hquote' : c ≠ '"' := fun heq => hquote (congrArg Char.toNat heq)
      have hslash' : c ≠ '\\' := fun heq => hslash (congrArg Char.toNat heq)
      exact parseString_plain hquote' hslash' (Nat.le_of_not_lt hge) rest

theorem parseString_render (cs rest : List Char) :
    parseString (cs.flatMap escape ++ '"' :: rest) = some (cs, rest) := by
  induction cs with
  | nil => rfl
  | cons c cs ih =>
    rw [List.flatMap_cons, List.append_assoc, parseString_escape, ih]
    rfl

end Strings

section Values

/-- What follows a value does not continue a number. -/
def Stops (rest : List Char) : Prop := ∀ c ∈ rest.head?, c.isDigit = false

theorem stops_cons {c : Char} (h : c.isDigit = false) (rest : List Char) : Stops (c :: rest) := by
  intro d hd
  rw [List.head?_cons] at hd
  rw [← Option.mem_some.mp hd]
  exact h

theorem parseNumber_digits (n : Nat) {rest : List Char} (h : Stops rest) :
    parseNumber (Nat.toDigits 10 n ++ rest) = some (n, rest) := by
  have hdigits : ∀ c ∈ Nat.toDigits 10 n, c.isDigit = true :=
    fun c hc => Nat.isDigit_of_mem_toDigits (by decide) (by decide) hc
  have htake : rest.takeWhile Char.isDigit = [] := by
    cases rest with
    | nil => rfl
    | cons c rest =>
      rw [List.takeWhile_cons, h c rfl]
      rfl
  have hdrop : rest.dropWhile Char.isDigit = rest := by
    cases rest with
    | nil => rfl
    | cons c rest =>
      rw [List.dropWhile_cons, h c rfl]
      rfl
  unfold parseNumber
  rw [List.takeWhile_append_of_pos hdigits, htake, List.append_nil,
    List.dropWhile_append_of_pos hdigits, hdrop]
  split
  · next hnil => exact absurd hnil Nat.toDigits_ne_nil
  · rw [Nat.ofDigitChars_toDigits (by decide) (by decide)]

theorem parseNumber_none {c : Char} (h : c.isDigit = false) (rest : List Char) :
    parseNumber (c :: rest) = none := by
  unfold parseNumber
  rw [List.takeWhile_cons, h]
  rfl

theorem renderString_parse (s : String) (rest : List Char) :
    ∃ tail, renderString s ++ rest = '"' :: tail ∧ parseString tail = some (s.toList, rest) := by
  refine ⟨s.toList.flatMap escape ++ '"' :: rest, ?_, parseString_render s.toList rest⟩
  simp [renderString]

theorem stops_items (items : List JsonValue) (rest : List Char) :
    Stops (renderItems items ++ rest) := by
  cases items with
  | nil => exact stops_cons (c := ']') rfl _
  | cons item items => exact stops_cons (c := ',') rfl _

theorem stops_fields (fields : List (String × JsonValue)) (rest : List Char) :
    Stops (renderFields fields ++ rest) := by
  cases fields with
  | nil => exact stops_cons (c := '\x7d') rfl _
  | cons field fields => exact stops_cons (c := ',') rfl _

/-- A value begins with a character that closes neither an array nor an object. -/
theorem render_head (value : JsonValue) :
    ∃ c tail, render value = c :: tail ∧ c ≠ ']' ∧ c ≠ '\x7d' := by
  cases value with
  | null => exact ⟨_, _, rfl, by decide, by decide⟩
  | bool b => cases b <;> exact ⟨_, _, rfl, by decide, by decide⟩
  | number n =>
    obtain ⟨c, tail, heq⟩ := List.exists_cons_of_ne_nil (Nat.toDigits_ne_nil (b := 10) (n := n))
    have hdigit : c.isDigit = true := by
      apply Nat.isDigit_of_mem_toDigits (b := 10) (n := n) (by decide) (by decide)
      rw [heq]
      exact List.mem_cons_self
    refine ⟨c, tail, heq, ?_, ?_⟩
    · intro hc
      rw [hc] at hdigit
      cases hdigit
    · intro hc
      rw [hc] at hdigit
      cases hdigit
  | string s => exact ⟨_, _, rfl, by decide, by decide⟩
  | array items => cases items <;> exact ⟨_, _, rfl, by decide, by decide⟩
  | object fields => cases fields <;> exact ⟨_, _, rfl, by decide, by decide⟩

theorem parseField_render (key : String) (value : JsonValue) (fuel : Nat) (rest : List Char)
    (hvalue : ∀ fuel, (render value).length ≤ fuel →
      parseValue fuel (render value ++ rest) = some (value, rest))
    (hfuel : (renderString key).length + (render value).length < fuel) :
    parseField fuel (renderString key ++ ':' :: (render value ++ rest)) =
      some ((key, value), rest) := by
  cases fuel with
  | zero => omega
  | succ fuel =>
    obtain ⟨tail, htext, hkey⟩ := renderString_parse key (':' :: (render value ++ rest))
    rw [htext]
    have hv := hvalue fuel (by omega)
    simp only [parseField, hkey, Option.bind_eq_bind, Option.bind_some, hv, String.ofList_toList]

mutual

theorem parseValue_render (value : JsonValue) (fuel : Nat) (rest : List Char)
    (hfuel : (render value).length ≤ fuel) (hrest : Stops rest) :
    parseValue fuel (render value ++ rest) = some (value, rest) := by
  cases fuel with
  | zero =>
    obtain ⟨c, tail, heq, _⟩ := render_head value
    rw [heq] at hfuel
    cases hfuel
  | succ fuel =>
    cases value with
    | null => rfl
    | bool b => cases b <;> rfl
    | number n =>
      simp only [render, parseValue, parseNumber_digits n hrest]
    | string s =>
      obtain ⟨tail, htext, hs⟩ := renderString_parse s rest
      simp only [render, htext, parseValue, parseNumber_none (c := '"') rfl, hs, Option.map_some,
        String.ofList_toList]
    | array items =>
      cases items with
      | nil => rfl
      | cons item items =>
        simp only [render, List.length_append, List.length_cons] at hfuel
        have hitem := parseValue_render item fuel _ (by omega) (stops_items items rest)
        have hitems := parseItems_render items fuel rest (by omega)
        obtain ⟨c, tail, heq, hclose, _⟩ := render_head item
        simp only [render, List.cons_append, List.append_assoc] at hitem hitems ⊢
        rw [heq, List.cons_append] at hitem ⊢
        have hnumber := parseNumber_none (c := '[') rfl
        simp only [parseValue, hnumber]
        split
        · next hbracket => exact absurd (List.cons.inj hbracket).1 hclose
        · simp only [hitem, hitems, Option.bind_eq_bind, Option.bind_some]
    | object fields =>
      cases fields with
      | nil => rfl
      | cons field fields =>
        obtain ⟨key, value⟩ := field
        simp only [render, List.length_append, List.length_cons] at hfuel
        have hfield := parseField_render key value fuel _
          (fun fuel h => parseValue_render value fuel _ h (stops_fields fields rest)) (by omega)
        have hfields := parseFields_render fields fuel rest (by omega)
        simp only [render, List.cons_append, List.append_assoc, renderString] at hfield ⊢
        have hnumber := parseNumber_none (c := '\x7b') rfl
        simp only [parseValue, hnumber]
        split
        · next hbrace => exact absurd (List.cons.inj hbrace).1 (by decide)
        · simp only [hfield, hfields, Option.bind_eq_bind, Option.bind_some]

theorem parseItems_render (items : List JsonValue) (fuel : Nat) (rest : List Char)
    (hfuel : (renderItems items).length ≤ fuel) :
    parseItems fuel (renderItems items ++ rest) = some (items, rest) := by
  cases fuel with
  | zero => cases items <;> simp [renderItems] at hfuel
  | succ fuel =>
    cases items with
    | nil => rfl
    | cons item items =>
      simp only [renderItems, List.length_append, List.length_cons] at hfuel
      have hitem := parseValue_render item fuel _ (by omega) (stops_items items rest)
      have hitems := parseItems_render items fuel rest (by omega)
      simp only [renderItems, List.cons_append, List.append_assoc, parseItems, hitem,
        Option.bind_eq_bind, Option.bind_some, hitems]

theorem parseFields_render (fields : List (String × JsonValue)) (fuel : Nat) (rest : List Char)
    (hfuel : (renderFields fields).length ≤ fuel) :
    parseFields fuel (renderFields fields ++ rest) = some (fields, rest) := by
  cases fuel with
  | zero => cases fields <;> simp [renderFields] at hfuel
  | succ fuel =>
    cases fields with
    | nil => rfl
    | cons field fields =>
      obtain ⟨key, value⟩ := field
      simp only [renderFields, List.length_append, List.length_cons] at hfuel
      have hfield := parseField_render key value fuel _
        (fun fuel h => parseValue_render value fuel _ h (stops_fields fields rest)) (by omega)
      have hfields := parseFields_render fields fuel rest (by omega)
      simp only [renderFields, List.cons_append, List.append_assoc, parseFields, hfield,
        Option.bind_eq_bind, Option.bind_some, hfields]

end

/-- The parser inverts the renderer. -/
theorem parse_render (value : JsonValue) : parse (render value) = some value := by
  have hvalue := parseValue_render value (render value).length [] (Nat.le_refl _) nofun
  rw [List.append_nil] at hvalue
  unfold parse
  rw [hvalue]

end Values

section Controls

theorem digitChar_printable : ∀ n < 16, 32 ≤ (Nat.digitChar n).toNat := by decide

theorem escape_printable (c : Char) : ∀ d ∈ escape c, 32 ≤ d.toNat := by
  unfold escape
  split
  all_goals try simp
  split
  · next hlt =>
    have hhigh := digitChar_printable (c.toNat / 16) (by omega)
    have hlow := digitChar_printable (c.toNat % 16) (by omega)
    simp [hhigh, hlow]
  · next hge =>
    intro d hd
    rw [List.mem_singleton.mp hd]
    exact Nat.le_of_not_lt hge

theorem renderString_printable (s : String) : ∀ d ∈ renderString s, 32 ≤ d.toNat := by
  intro d hd
  simp only [renderString, List.mem_append, List.mem_cons, List.mem_flatMap, List.not_mem_nil,
    or_false] at hd
  rcases hd with (rfl | ⟨c, _, hd⟩) | rfl
  · decide
  · exact escape_printable c d hd
  · decide

mutual

/-- No control character is left in the text. -/
theorem render_printable (value : JsonValue) : ∀ d ∈ render value, 32 ≤ d.toNat := by
  cases value with
  | null => simp [render]
  | bool b => cases b <;> simp [render]
  | number n =>
    intro d hd
    have hdigit := Nat.isDigit_of_mem_toDigits (by decide) (by decide) hd
    simp only [Char.isDigit, Bool.and_eq_true, decide_eq_true_eq] at hdigit
    have hlow : 48 ≤ d.toNat := hdigit.1
    omega
  | string s => exact renderString_printable s
  | array items =>
    cases items with
    | nil => simp [render]
    | cons item items =>
      have hitem := render_printable item
      have hitems := renderItems_printable items
      simp only [render, List.cons_append, List.forall_mem_cons, List.forall_mem_append]
      exact ⟨by decide, hitem, hitems⟩
  | object fields =>
    cases fields with
    | nil => simp [render]
    | cons field fields =>
      obtain ⟨key, value⟩ := field
      have hvalue := render_printable value
      have hfields := renderFields_printable fields
      simp only [render, List.cons_append, List.append_assoc, List.forall_mem_cons,
        List.forall_mem_append]
      exact ⟨by decide, renderString_printable key, by decide, hvalue, hfields⟩

theorem renderItems_printable (items : List JsonValue) :
    ∀ d ∈ renderItems items, 32 ≤ d.toNat := by
  cases items with
  | nil => simp [renderItems]
  | cons item items =>
    have hitem := render_printable item
    have hitems := renderItems_printable items
    simp only [renderItems, List.cons_append, List.forall_mem_cons, List.forall_mem_append]
    exact ⟨by decide, hitem, hitems⟩

theorem renderFields_printable (fields : List (String × JsonValue)) :
    ∀ d ∈ renderFields fields, 32 ≤ d.toNat := by
  cases fields with
  | nil => simp [renderFields]
  | cons field fields =>
    obtain ⟨key, value⟩ := field
    have hvalue := render_printable value
    have hfields := renderFields_printable fields
    simp only [renderFields, List.cons_append, List.append_assoc, List.forall_mem_cons,
      List.forall_mem_append]
    exact ⟨by decide, renderString_printable key, by decide, hvalue, hfields⟩

end

end Controls

end JsonValue

end PgSense.Library
