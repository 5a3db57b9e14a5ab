import PgSense.Crates

/-! Script rules: loading a rhai file and calling its `detect` function. -/

namespace PgSense
open Library
set_option autoImplicit false

/-- `std::fs::read_to_string`, at one moment. -/
abbrev Files := String → Except String String

namespace Script

/-- The dry run on the empty string catches signature and return-type errors at load time. -/
def validateScript (ast : Ast) (path : String) : Outcome Error Unit :=
  match ast.functions.find? (·.1 == "detect") with
  | none => .err (.msg s!"script '{path}' must define `fn detect(value)`")
  | some detect =>
    let params := detect.2
    if params != 1 then
      .err (.msg s!"script '{path}': detect() must take exactly 1 parameter, found {params}")
    else
      match ast.callDetect "" with
      | .error e => .err (.msg s!"script '{path}': dry-run of detect(\"\") failed: {e}")
      | .ok result =>
        match result.intoTypedArray with
        | none => .err (.msg s!"script '{path}': detect() must return an array of strings")
        | some _ => .ok ()

def compileScript (cr : Crates) (files : Files) (path : String) : Outcome Error Ast := do
  let source ← withContext s!"failed to read script: {path}"
    ((Outcome.ofExcept (files path)).mapErr Error.msg)
  let ast ← (Outcome.ofExcept (cr.rhaiCompile source)).mapErr
    fun e => Error.msg s!"failed to compile script '{path}': {e}"
  validateScript ast path
  return ast

theorem validateScript_ne_panic (ast : Ast) (path m : String) :
    validateScript ast path ≠ .panic m := by
  unfold validateScript
  split
  · simp
  · dsimp only
    split
    · simp
    · split
      · simp
      · split <;> simp

theorem compileScript_ne_panic (cr : Crates) (files : Files) (path m : String) :
    compileScript cr files path ≠ .panic m := by
  simp [compileScript, Outcome.bind_eq_panic, validateScript_ne_panic]

def runDetect (ast : Ast) (value : String) : Except Error (List String) :=
  match ast.callDetect value with
  | .error e => .error (.msg s!"failed to call detect(value): {e}")
  | .ok result =>
    match result.intoTypedArray with
    | some texts => .ok texts
    | none => .error (.msg "detect() must return an array of strings")

end Script

end PgSense
