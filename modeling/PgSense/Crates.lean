import PgSense.Library.Outcome

/-! The third-party crates the scanner calls, as parameters. Each field is one
entry point with the arguments the scanner passes; nothing is assumed of them
here. The laws a result needs are stated next to it. -/

namespace PgSense
open Library
set_option autoImplicit false

/-- An `anyhow::Error`: the context messages, outermost first. -/
structure Error where
  chain : List String
  deriving DecidableEq, Repr

namespace Error

def msg (message : String) : Error := ⟨[message]⟩

def context (message : String) (e : Error) : Error := ⟨message :: e.chain⟩

end Error

/-- `with_context` on a fallible call. -/
def withContext {α : Type} (message : String) (x : Outcome Error α) : Outcome Error α :=
  x.mapErr (Error.context message)

@[simp] theorem withContext_eq_ok {α : Type} {message : String} {x : Outcome Error α} {a : α} :
    withContext message x = .ok a ↔ x = .ok a :=
  Outcome.mapErr_eq_ok

@[simp] theorem withContext_eq_panic {α : Type} {message : String} {x : Outcome Error α}
    {m : String} : withContext message x = .panic m ↔ x = .panic m :=
  Outcome.mapErr_eq_panic

/-- A call out of the program, with the context that is put on its error. -/
def callWithContext {α : Type} (message : String) (call : Except String α) : Outcome Error α :=
  withContext message ((Outcome.ofExcept call).mapErr Error.msg)

@[simp] theorem callWithContext_eq_ok {α : Type} {message : String} {call : Except String α}
    {a : α} : callWithContext message call = .ok a ↔ call = .ok a := by
  rw [callWithContext, withContext_eq_ok, Outcome.mapErr_eq_ok, Outcome.ofExcept_eq_ok]

/-- A compiled `regex::Regex`, taken as the texts of its non-overlapping
leftmost matches in a value, in order. -/
structure Regex where
  findIter : String → List String

namespace Regex

def find (r : Regex) (value : String) : Option String := (r.findIter value).head?

def isMatch (r : Regex) (value : String) : Bool := !(r.findIter value).isEmpty

theorem isMatch_eq_isSome_find (r : Regex) (value : String) :
    r.isMatch value = (r.find value).isSome := by
  unfold isMatch find
  cases r.findIter value <;> rfl

end Regex

/-- A compiled `regex::RegexSet`: the indices of the patterns that match. -/
structure RegexSet where
  matched : String → List Nat

def RegexSet.isMatch (s : RegexSet) (text : String) : Bool := !(s.matched text).isEmpty

/-- A `rhai::Dynamic`, as far as a script's result is inspected. -/
inductive Dynamic where
  | string (s : String)
  | array (items : List Dynamic)
  | other

namespace Dynamic

def asString : Dynamic → Option String
  | string s => some s
  | _ => none

/-- `into_typed_array::<String>()` -/
def intoTypedArray : Dynamic → Option (List String)
  | array items => items.mapM asString
  | _ => none

end Dynamic

/-- A compiled `rhai::AST`: the names and parameter counts of its functions, and
the result of calling `detect` on a string under the engine's limits. -/
structure Ast where
  functions : List (String × Nat)
  callDetect : String → Except String Dynamic

inductive Region where
  | us
  deriving DecidableEq, Repr

structure PhoneNumber where
  isValid : Bool

structure Crates where
  /-- `regex::Regex::new` -/
  regexNew : String → Except String Regex
  /-- `regex::RegexSet::new` -/
  regexSetNew : List String → Except String RegexSet
  /-- `rhai::Engine::compile`, on the engine of `create_script_engine` -/
  rhaiCompile : String → Except String Ast
  /-- `PHONE_NUMBER_UTIL.parse` -/
  phoneParse : String → Option Region → Except String PhoneNumber
  /-- `Glob::new` followed by `compile_matcher` -/
  globNew : String → Except String (String → Bool)
  /-- `RandomState::hash_one` of a string, fixed for the life of the process -/
  hashOne : String → UInt64
  /-- `DefaultHasher::finish` after the given bytes -/
  defaultHash : List UInt8 → UInt64

end PgSense
