import PgSense.Rules.EngineCompile
import PgSense.Rules.PerRule

/-! The rule checks of the `validate` command, next to the engine that loads the same
rules. -/

namespace PgSense
open Library
set_option autoImplicit false

/-- `Option::context`, for a field that a rule type needs. -/
def requireField {α : Type} (message : String) : Option α → Outcome Error α
  | some value => .ok value
  | none => .err (.msg message)

@[simp] theorem requireField_eq_ok {α : Type} {message : String} {field : Option α} {a : α} :
    requireField message field = .ok a ↔ field = some a := by
  cases field <;> simp [requireField]

section Rules
variable (cr : Crates) (files : Files)

def validateAllowlist (rule : RuleConfig) : Outcome Error Unit :=
  match rule.allowlist with
  | some al => do
    let _ ← withContext "invalid allowlist pattern"
      ((Outcome.ofExcept (cr.regexSetNew al.patterns)).mapErr Error.msg)
    .ok ()
  | none => .ok ()

def validateKind (rule : RuleConfig) : Outcome Error Unit :=
  match rule.ruleType with
  | .regex => do
    let pattern ← requireField "regex rule requires a `pattern` field" rule.pattern
    let _ ← withContext "invalid regex pattern"
      ((Outcome.ofExcept (cr.regexNew pattern)).mapErr Error.msg)
    .ok ()
  | .builtin => do
    let _ ← requireField "builtin rule requires a `builtin` field" rule.builtin
    .ok ()
  | .script => do
    let path ← requireField "script rule requires a `script` field" rule.script
    let _ ← withContext "script compilation failed" (Script.compileScript cr files path)
    .ok ()

def validateRule (rule : RuleConfig) : Outcome Error Unit := do
  checkScope rule
  validateAllowlist cr rule
  validateKind cr files rule

theorem validateAllowlist_eq_ok {rule : RuleConfig} :
    validateAllowlist cr rule = .ok () ↔ ∃ allowlist, compileAllowlist cr rule = .ok allowlist := by
  unfold validateAllowlist compileAllowlist
  cases rule.allowlist with
  | none => simp
  | some al => simp [Outcome.bind_eq_ok]

theorem validateKind_eq_ok {rule : RuleConfig} :
    validateKind cr files rule = .ok () ↔ ∃ kind, compileKind cr files rule = .ok kind := by
  simp only [compileKind_eq_ok]
  unfold validateKind
  cases ht : rule.ruleType with
  | regex => simp [Outcome.bind_eq_ok]
  | builtin => simp [Outcome.bind_eq_ok]
  | script => simp [Outcome.bind_eq_ok]

/-- A missing field is a reported error here, where the engine panics. -/
theorem validateRule_ne_panic (rule : RuleConfig) (m : String) :
    validateRule cr files rule ≠ .panic m := by
  intro h
  rcases Outcome.bind_eq_panic.mp h with hscope | ⟨_, _, h⟩
  · exact checkScope_ne_panic rule m hscope
  · rcases Outcome.bind_eq_panic.mp h with hallow | ⟨_, _, hkind⟩
    · revert hallow
      unfold validateAllowlist
      cases rule.allowlist with
      | none => simp
      | some al => simp [Outcome.bind_eq_panic]
    · revert hkind
      unfold validateKind
      cases rule.ruleType with
      | regex => cases rule.pattern <;> simp [requireField, Outcome.bind_eq_panic]
      | builtin => cases rule.builtin <;> simp [requireField]
      | script =>
        cases rule.script with
        | none => simp [requireField]
        | some path =>
          simp [requireField, Outcome.bind_eq_panic, Script.compileScript_ne_panic]

/-- The order of the checks differs, the checks do not. -/
theorem validateRule_eq_ok {rule : RuleConfig} :
    validateRule cr files rule = .ok () ↔ ∃ compiled, compileRule cr files rule = .ok compiled := by
  simp only [compileRule_eq_ok]
  constructor
  · intro h
    obtain ⟨_, hscope, h⟩ := Outcome.bind_eq_ok.mp h
    obtain ⟨_, hallow, hkind⟩ := Outcome.bind_eq_ok.mp h
    obtain ⟨allowlist, hallow⟩ := (validateAllowlist_eq_ok cr).mp hallow
    obtain ⟨kind, hkind⟩ := (validateKind_eq_ok cr files).mp hkind
    exact ⟨⟨rule.metadata, kind, allowlist⟩, hscope, hkind, hallow, rfl⟩
  · intro h
    obtain ⟨compiled, hscope, hkind, hallow, _⟩ := h
    have hallow := (validateAllowlist_eq_ok cr).mpr ⟨_, hallow⟩
    have hkind := (validateKind_eq_ok cr files).mpr ⟨_, hkind⟩
    exact Outcome.bind_eq_ok.mpr ⟨(), hscope, Outcome.bind_eq_ok.mpr ⟨(), hallow, hkind⟩⟩

end Rules

/-- A set of patterns compiles when each of them does. -/
def CompilesEach (cr : Crates) : Prop :=
  ∀ patterns, (∃ set, cr.regexSetNew patterns = .ok set) ↔
    ∀ p ∈ patterns, ∃ regex, cr.regexNew p = .ok regex

section Lists
variable {cr : Crates} {files : Files} {configs : List RuleConfig}

theorem forall_validateRule : (∀ c ∈ configs, validateRule cr files c = .ok ()) ↔
    ∃ rules, List.Forall₂ (fun c rule => compileRule cr files c = .ok rule) configs rules := by
  induction configs with
  | nil => exact ⟨fun _ => ⟨[], .nil⟩, fun _ c hc => absurd hc List.not_mem_nil⟩
  | cons c configs ih =>
    rw [List.forall_mem_cons, validateRule_eq_ok, ih]
    constructor
    · intro h
      obtain ⟨⟨rule, hrule⟩, rules, hrules⟩ := h
      exact ⟨rule :: rules, .cons hrule hrules⟩
    · intro h
      obtain ⟨_, hall⟩ := h
      cases hall with
      | cons hrule hrules => exact ⟨⟨_, hrule⟩, _, hrules⟩

/-- The rules that compile one by one have patterns that compile together. -/
theorem exists_regexSet (hset : CompilesEach cr) {rules : List CompiledRule}
    (h : List.Forall₂ (fun c rule => compileRule cr files c = .ok rule) configs rules) :
    ∃ set, cr.regexSetNew (regexPatternsOf configs) = .ok set := by
  apply (hset _).mpr
  have hpatterns := patterns_line_up cr files h
  generalize regexPatternsOf configs = patterns at hpatterns
  generalize rules.filter (·.kind.isRegex) = regexRules at hpatterns
  induction hpatterns with
  | nil => exact fun p hp => absurd hp List.not_mem_nil
  | cons hof _ ih =>
    obtain ⟨regex, _, _, hregex⟩ := hof
    exact List.forall_mem_cons.mpr ⟨⟨regex, hregex⟩, ih⟩

theorem validate_agrees (hset : CompilesEach cr) :
    (∀ c ∈ configs, validateRule cr files c = .ok ()) ↔
      ∃ e, RuleEngine.new cr files configs = .ok e := by
  rw [forall_validateRule]
  simp only [new_eq_ok]
  constructor
  · intro h
    obtain ⟨rules, hrules⟩ := h
    obtain ⟨set, hcompiled⟩ := exists_regexSet hset hrules
    exact ⟨⟨rules, set, rules.findIdxs (·.kind.isRegex), rules.findIdxs (·.kind.isBuiltin),
      rules.findIdxs (·.kind.isScript)⟩, hrules, hcompiled, rfl, rfl, rfl⟩
  · intro h
    obtain ⟨e, hrules, _⟩ := h
    exact ⟨e.rules, hrules⟩

end Lists

theorem Crates.sample_compilesEach : CompilesEach .sample := by
  intro patterns
  simp only [Crates.sample_set, List.all_eq_true]
  constructor
  · intro h p hp
    obtain ⟨_, hall, _⟩ := h
    exact ⟨digitRegex, by simp [Crates.sample, eq_of_beq (hall p hp)]⟩
  · intro h
    refine ⟨_, ?_, rfl⟩
    intro p hp
    obtain ⟨regex, hregex⟩ := h p hp
    by_cases heq : p = "[0-9]+"
    · rw [heq, beq_self_eq_true]
    · simp [Crates.sample, heq] at hregex

theorem validate_agrees_sample :
    ((∀ c ∈ [luhnRule, ssnRule, throwingRule], validateRule .sample sampleFiles c = .ok ()) ↔
      ∃ e, RuleEngine.new .sample sampleFiles [luhnRule, ssnRule, throwingRule] = .ok e) ∧
    ∃ e, RuleEngine.new .sample sampleFiles [luhnRule, ssnRule, throwingRule] = .ok e :=
  ⟨validate_agrees Crates.sample_compilesEach, _, rfl⟩

end PgSense
