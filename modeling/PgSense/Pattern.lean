import PgSense.Crates

/-! Name patterns of filters and scopes: exact strings, and globs when the
string contains a glob metacharacter. -/

namespace PgSense
open Library
set_option autoImplicit false

def isGlobPattern (s : String) : Bool := s.toList.contains '*' || s.toList.contains '?'

inductive Pattern where
  | exact (s : String)
  | glob (matcher : String → Bool)

def Pattern.isMatch : Pattern → String → Bool
  | .exact s, value => s == value
  | .glob m, value => m value

structure PatternMatcher where
  raw : List String
  patterns : List Pattern

namespace PatternMatcher

def empty : PatternMatcher := ⟨[], []⟩

def compilePattern (cr : Crates) (s : String) : Outcome Error Pattern :=
  if isGlobPattern s then
    withContext s!"invalid glob pattern: {s}"
      ((Outcome.ofExcept (cr.globNew s)).mapErr Error.msg) >>= fun m => .ok (.glob m)
  else .ok (.exact s)

def compile (cr : Crates) (raw : List String) : Outcome Error PatternMatcher := do
  let patterns ← raw.mapM (compilePattern cr)
  return ⟨raw, patterns⟩

def isMatch (m : PatternMatcher) (value : String) : Bool := m.patterns.any (·.isMatch value)

def isEmpty (m : PatternMatcher) : Bool := m.patterns.isEmpty

end PatternMatcher

end PgSense
