import PgSense.Text

/-! The masked sample of a match. -/

namespace PgSense
set_option autoImplicit false

/-- All asterisks below eight characters, otherwise the first two and the last
two characters around asterisks. -/
def mask (s : String) : String :=
  let chars := s.toList
  let charLen := chars.length
  if charLen < 8 then String.ofList (List.replicate charLen '*')
  else
    let lastStart := (((charIndices 0 chars)[charLen - 2]?).map Prod.fst).getD 0
    String.ofList (chars.take 2 ++ List.replicate (charLen - 4) '*') ++
      slice s lastStart (utf8 s).length

end PgSense
