import PgSense.Rules.Detectors
import PgSense.Rules.Script

/-! The rule engine: compiling a rule list, and the three-phase scan of a value.
`RuleEngine.new` and `RuleEngine.scanValue` follow the source loop by loop. -/

namespace PgSense
open Library
set_option autoImplicit false

structure RuleMetadata where
  id : String
  description : String
  category : String
  severity : Severity
  ruleType : RuleType
  scope : Option RuleScope
  channels : Option (List String)

def RuleConfig.metadata (c : RuleConfig) : RuleMetadata :=
  ⟨c.id, c.description, c.category, c.severity, c.ruleType, c.scope, c.channels⟩

inductive RuleKind where
  | regex (regex : Regex) (validator : Option Validator)
  | builtin (detector : Detector)
  | script (ast : Ast)

structure CompiledAllowlist where
  description : Option String
  values : List String
  patterns : RegexSet

def CompiledAllowlist.isAllowed (al : CompiledAllowlist) (text : String) : Bool :=
  al.values.contains text || al.patterns.isMatch text

structure CompiledRule where
  metadata : RuleMetadata
  kind : RuleKind
  allowlist : Option CompiledAllowlist

def CompiledRule.isAllowed (rule : CompiledRule) (text : String) : Bool :=
  rule.allowlist.any (·.isAllowed text)

/-- A match. The reference to the rule's metadata is the position of the rule
together with the metadata it points to. -/
structure RuleMatch where
  ruleIdx : Nat
  rule : RuleMetadata
  matchedText : String

/-- The engine under construction in `RuleEngine::new`. -/
structure Builder where
  rules : List CompiledRule
  regexPatterns : List String
  regexIndices : List Nat
  builtinIndices : List Nat
  scriptIndices : List Nat

def Builder.empty : Builder := ⟨[], [], [], [], []⟩

structure RuleEngine where
  rules : List CompiledRule
  regexSet : RegexSet
  /-- the rule position of each pattern of `regexSet` -/
  regexIndices : List Nat
  builtinIndices : List Nat
  scriptIndices : List Nat

section Compile
variable (cr : Crates) (files : Files)

def checkScope (c : RuleConfig) : Outcome Error Unit :=
  match c.scope with
  | some scope => scope.validate c.id
  | none => .ok ()

def compileAllowlist (c : RuleConfig) : Outcome Error (Option CompiledAllowlist) :=
  match c.allowlist with
  | some al => do
    let patterns ← withContext s!"invalid allowlist pattern for rule '{c.id}'"
      ((Outcome.ofExcept (cr.regexSetNew al.patterns)).mapErr Error.msg)
    .ok (some ⟨al.description, al.values, patterns⟩)
  | none => .ok none

/-- The `match c.rule_type` of the loop body. A missing type-specific field is a
panic, every other defect is a returned error. -/
def Builder.addKind (b : Builder) (c : RuleConfig) (i : Nat) : Outcome Error (RuleKind × Builder) :=
  match c.ruleType with
  | .regex =>
    match c.pattern with
    | none => .panic s!"regex rule '{c.id}' requires a pattern"
    | some pattern => do
      let regex ← withContext s!"invalid regex pattern for rule '{c.id}'"
        ((Outcome.ofExcept (cr.regexNew pattern)).mapErr Error.msg)
      .ok (.regex regex c.validate,
        { b with
          regexPatterns := b.regexPatterns ++ [pattern]
          regexIndices := b.regexIndices ++ [i] })
  | .builtin =>
    match c.builtin with
    | none => .panic s!"builtin rule '{c.id}' requires a `builtin` field"
    | some builtinKind =>
      .ok (.builtin (Detector.fromKind builtinKind),
        { b with builtinIndices := b.builtinIndices ++ [i] })
  | .script =>
    match c.script with
    | none => .panic s!"script rule '{c.id}' requires a `script` field"
    | some path => do
      let ast ← withContext s!"failed to compile script for rule '{c.id}'"
        (Script.compileScript cr files path)
      .ok (.script ast, { b with scriptIndices := b.scriptIndices ++ [i] })

/-- The body of the loop of `RuleEngine::new`, at rule `i`. -/
def Builder.addRule (b : Builder) (c : RuleConfig) (i : Nat) : Outcome Error Builder := do
  checkScope c
  let (kind, b) ← b.addKind cr files c i
  let allowlist ← compileAllowlist cr c
  .ok { b with rules := b.rules ++ [⟨c.metadata, kind, allowlist⟩] }

def RuleEngine.new (configs : List RuleConfig) : Outcome Error RuleEngine := do
  let b ← configs.zipIdx.foldlM (fun b (c, i) => b.addRule cr files c i) Builder.empty
  let regexSet ← withContext "failed to compile regex set"
    ((Outcome.ofExcept (cr.regexSetNew b.regexPatterns)).mapErr Error.msg)
  return ⟨b.rules, regexSet, b.regexIndices, b.builtinIndices, b.scriptIndices⟩

end Compile

section Scan
variable (cr : Crates)

def Validator.accepts : Validator → String → Bool
  | .luhn, text => Validators.luhn text
  | .ssn, text => Validators.ssn text
  | .phone, text => Validators.phone cr text
  | .email, text => Validators.email text
  | .iban, text => Validators.iban text

namespace RuleEngine
variable (e : RuleEngine) (value : String)

/-- Phase 1: only the patterns the set reports are run, once each, and only their
first match is looked at. -/
def scanRegexPhase : List RuleMatch :=
  (e.regexSet.matched value).flatMap fun setIdx =>
    -- a position outside the lists would be a panic in the source
    match e.regexIndices[setIdx]? with
    | none => []
    | some ruleIdx =>
      match e.rules[ruleIdx]? with
      | none => []
      | some rule =>
        match rule.kind with
        | .regex regex validator =>
          match regex.find value with
          | none => []
          | some matchedText =>
            if validator.any (fun v => !v.accepts cr matchedText) then []
            else if rule.isAllowed matchedText then []
            else [⟨ruleIdx, rule.metadata, matchedText⟩]
        | _ => []

def scanBuiltinPhase : List RuleMatch :=
  e.builtinIndices.flatMap fun ruleIdx =>
    match e.rules[ruleIdx]? with
    | none => []
    | some rule =>
      match rule.kind with
      | .builtin detector =>
        ((detector.scan cr value).filter fun text => !rule.isAllowed text).map
          fun text => ⟨ruleIdx, rule.metadata, text⟩
      | _ => []

/-- Phase 3: scripts. A failing script is logged and yields nothing. -/
def scanScriptPhase : List RuleMatch :=
  e.scriptIndices.flatMap fun ruleIdx =>
    match e.rules[ruleIdx]? with
    | none => []
    | some rule =>
      match rule.kind with
      | .script ast =>
        match Script.runDetect ast value with
        | .ok texts =>
          (texts.filter fun text => !rule.isAllowed text).map
            fun text => ⟨ruleIdx, rule.metadata, text⟩
        | .error _ => []
      | _ => []

def scanValue : List RuleMatch :=
  e.scanRegexPhase cr value ++ e.scanBuiltinPhase cr value ++ e.scanScriptPhase value

end RuleEngine

end Scan

end PgSense
