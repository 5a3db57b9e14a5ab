import PgSense.Library.Selection
import PgSense.Rules.Engine

/-! What `RuleEngine.new` builds. The loop is the rule-by-rule compilation
`compileRule`, and the index lists name exactly the rules of each kind. -/

namespace PgSense
open Library
set_option autoImplicit false

def RuleKind.isRegex : RuleKind → Bool
  | regex _ _ => true
  | _ => false

def RuleKind.isBuiltin : RuleKind → Bool
  | builtin _ => true
  | _ => false

def RuleKind.isScript : RuleKind → Bool
  | script _ => true
  | _ => false

/-- A compiled kind filed under its type, at rule `i`. -/
def Builder.fileKind (b : Builder) (c : RuleConfig) (i : Nat) : RuleKind → Builder
  | .regex _ _ =>
    { b with
      regexPatterns := b.regexPatterns ++ [c.pattern.getD ""]
      regexIndices := b.regexIndices ++ [i] }
  | .builtin _ => { b with builtinIndices := b.builtinIndices ++ [i] }
  | .script _ => { b with scriptIndices := b.scriptIndices ++ [i] }

section Filing
variable (b : Builder) (c : RuleConfig) (i : Nat) (kind : RuleKind)

theorem fileKind_regexIndices : (b.fileKind c i kind).regexIndices =
    b.regexIndices ++ if kind.isRegex then [i] else [] := by
  cases kind <;> simp [Builder.fileKind, RuleKind.isRegex]

theorem fileKind_builtinIndices : (b.fileKind c i kind).builtinIndices =
    b.builtinIndices ++ if kind.isBuiltin then [i] else [] := by
  cases kind <;> simp [Builder.fileKind, RuleKind.isBuiltin]

theorem fileKind_scriptIndices : (b.fileKind c i kind).scriptIndices =
    b.scriptIndices ++ if kind.isScript then [i] else [] := by
  cases kind <;> simp [Builder.fileKind, RuleKind.isScript]

theorem fileKind_regexPatterns : (b.fileKind c i kind).regexPatterns =
    b.regexPatterns ++ if kind.isRegex then [c.pattern.getD ""] else [] := by
  cases kind <;> simp [Builder.fileKind, RuleKind.isRegex]

end Filing

theorem checkScope_ne_panic (c : RuleConfig) (m : String) : checkScope c ≠ .panic m := by
  unfold checkScope
  cases c.scope with
  | none => simp
  | some scope => exact scope.validate_ne_panic c.id m

section Compile
variable (cr : Crates) (files : Files)

def compileKind (c : RuleConfig) : Outcome Error RuleKind :=
  (Builder.empty.addKind cr files c 0) >>= fun p => .ok p.1

/-- One rule on its own: scope, kind, allowlist, in the order of the loop body. -/
def compileRule (c : RuleConfig) : Outcome Error CompiledRule := do
  checkScope c
  let kind ← compileKind cr files c
  let allowlist ← compileAllowlist cr c
  .ok ⟨c.metadata, kind, allowlist⟩

/-- Filing does not influence compilation. -/
theorem addKind_eq (b : Builder) (c : RuleConfig) (i : Nat) :
    b.addKind cr files c i =
      compileKind cr files c >>= fun kind => .ok (kind, b.fileKind c i kind) := by
  unfold compileKind Builder.addKind
  cases c.ruleType with
  | regex =>
    cases hp : c.pattern with
    | none => rfl
    | some pattern =>
      dsimp only
      cases withContext s!"invalid regex pattern for rule '{c.id}'"
        ((Outcome.ofExcept (cr.regexNew pattern)).mapErr Error.msg) with
      | ok regex => simp [Builder.fileKind, hp]
      | err e => rfl
      | panic m => rfl
  | builtin => cases c.builtin <;> rfl
  | script =>
    cases c.script with
    | none => rfl
    | some path =>
      dsimp only
      cases withContext s!"failed to compile script for rule '{c.id}'"
        (Script.compileScript cr files path) <;> rfl

theorem addRule_eq (b : Builder) (c : RuleConfig) (i : Nat) :
    b.addRule cr files c i = compileRule cr files c >>= fun rule =>
      .ok { b.fileKind c i rule.kind with rules := b.rules ++ [rule] } := by
  unfold Builder.addRule compileRule
  rw [addKind_eq]
  cases checkScope c with
  | err e => rfl
  | panic m => rfl
  | ok _ =>
    cases compileKind cr files c with
    | err e => rfl
    | panic m => rfl
    | ok kind =>
      cases compileAllowlist cr c with
      | err e => rfl
      | panic m => rfl
      | ok allowlist => cases kind <;> rfl

theorem compileKind_eq_ok {c : RuleConfig} {kind : RuleKind} :
    compileKind cr files c = .ok kind ↔
      (c.ruleType = .regex ∧ ∃ pattern regex, c.pattern = some pattern ∧
        cr.regexNew pattern = .ok regex ∧ .regex regex c.validate = kind) ∨
      (c.ruleType = .builtin ∧ ∃ k, c.builtin = some k ∧ .builtin (Detector.fromKind k) = kind) ∨
      (c.ruleType = .script ∧ ∃ path ast, c.script = some path ∧
        Script.compileScript cr files path = .ok ast ∧ .script ast = kind) := by
  unfold compileKind Builder.addKind
  cases c.ruleType with
  | regex => cases c.pattern <;> simp [Outcome.bind_eq_ok]
  | builtin => cases c.builtin <;> simp
  | script => cases c.script <;> simp [Outcome.bind_eq_ok]

theorem compileRule_eq_ok {c : RuleConfig} {rule : CompiledRule} :
    compileRule cr files c = .ok rule ↔
      checkScope c = .ok () ∧ compileKind cr files c = .ok rule.kind ∧
        compileAllowlist cr c = .ok rule.allowlist ∧ rule.metadata = c.metadata := by
  unfold compileRule
  simp only [Outcome.bind_eq_ok, Outcome.ok.injEq]
  constructor
  · intro hrule
    obtain ⟨_, hs, kind, hk, allowlist, ha, rfl⟩ := hrule
    exact ⟨hs, hk, ha, rfl⟩
  · intro hparts
    obtain ⟨hs, hk, ha, hm⟩ := hparts
    refine ⟨(), hs, rule.kind, hk, rule.allowlist, ha, ?_⟩
    rw [← hm]

theorem compiled_kind {c : RuleConfig} {rule : CompiledRule}
    (h : compileRule cr files c = .ok rule) :
    rule.kind.isRegex = (c.ruleType == .regex) ∧
      rule.kind.isBuiltin = (c.ruleType == .builtin) ∧
      rule.kind.isScript = (c.ruleType == .script) := by
  obtain ⟨_, hk, _, _⟩ := (compileRule_eq_ok cr files).mp h
  rcases (compileKind_eq_ok cr files).mp hk with
    ⟨ht, _, _, _, _, hk⟩ | ⟨ht, _, _, hk⟩ | ⟨ht, _, _, _, _, hk⟩
  all_goals
    rw [ht, ← hk]
    exact ⟨rfl, rfl, rfl⟩

/-- The pattern at a position of the set belongs to the regex rule that was
compiled from it. -/
def PatternOf (pattern : String) (rule : CompiledRule) : Prop :=
  ∃ regex validator, rule.kind = .regex regex validator ∧ cr.regexNew pattern = .ok regex

def regexPatternsOf (configs : List RuleConfig) : List String :=
  (configs.filter fun c => c.ruleType == .regex).map fun c => c.pattern.getD ""

/-- The builder after the rules `configs`, compiled to `rules`: every index list
names the rules of its kind. -/
def Builder.describing (configs : List RuleConfig) (rules : List CompiledRule) : Builder where
  rules := rules
  regexPatterns := regexPatternsOf configs
  regexIndices := rules.findIdxs (·.kind.isRegex)
  builtinIndices := rules.findIdxs (·.kind.isBuiltin)
  scriptIndices := rules.findIdxs (·.kind.isScript)

theorem describing_push {configs : List RuleConfig} {rules : List CompiledRule} {c : RuleConfig}
    {rule : CompiledRule} (hlen : rules.length = configs.length)
    (h : compileRule cr files c = .ok rule) :
    { (Builder.describing configs rules).fileKind c configs.length rule.kind with
        rules := rules ++ [rule] } =
      Builder.describing (configs ++ [c]) (rules ++ [rule]) := by
  obtain ⟨hregex, _, _⟩ := compiled_kind cr files h
  refine (Builder.mk.injEq ..).mpr ⟨rfl, ?_, ?_, ?_, ?_⟩
  · rw [fileKind_regexPatterns, hregex]
    cases hc : c.ruleType == .regex <;> simp [Builder.describing, regexPatternsOf, hc]
  · rw [fileKind_regexIndices, findIdxs_concat, hlen]
    rfl
  · rw [fileKind_builtinIndices, findIdxs_concat, hlen]
    rfl
  · rw [fileKind_scriptIndices, findIdxs_concat, hlen]
    rfl

theorem foldlM_addRule (front : List RuleConfig) (done : List CompiledRule)
    (hlen : done.length = front.length) (configs : List RuleConfig) :
    (configs.zipIdx front.length).foldlM
        (fun (b : Builder) (p : RuleConfig × Nat) => b.addRule cr files p.1 p.2)
        (Builder.describing front done) =
      configs.mapM (compileRule cr files) >>= fun rules =>
        .ok (Builder.describing (front ++ configs) (done ++ rules)) := by
  induction configs generalizing front done with
  | nil => simp
  | cons c configs ih =>
    rw [List.zipIdx_cons, List.foldlM_cons, List.mapM_cons, addRule_eq]
    cases hc : compileRule cr files c with
    | err e => rfl
    | panic m => rfl
    | ok rule =>
      have ih := ih (front ++ [c]) (done ++ [rule]) (by simp [hlen])
      rw [List.length_append, List.length_singleton] at ih
      simp only [Outcome.ok_bind, bind_assoc, Outcome.pure_eq]
      rw [show (Builder.describing front done).rules = done from rfl,
        describing_push cr files hlen hc, ih]
      simp

theorem new_eq (configs : List RuleConfig) :
    RuleEngine.new cr files configs = (do
      let rules ← configs.mapM (compileRule cr files)
      let regexSet ← withContext "failed to compile regex set"
        ((Outcome.ofExcept (cr.regexSetNew (regexPatternsOf configs))).mapErr Error.msg)
      let b := Builder.describing configs rules
      .ok ⟨rules, regexSet, b.regexIndices, b.builtinIndices, b.scriptIndices⟩) := by
  have hfold := foldlM_addRule cr files [] [] rfl configs
  unfold RuleEngine.new
  rw [show Builder.empty = Builder.describing [] [] from rfl]
  rw [List.length_nil] at hfold
  rw [hfold]
  simp [bind_assoc, Builder.describing]

/-- A built engine: the compiled rules, the set of their patterns, and the index
lists of the three phases. -/
theorem new_eq_ok {configs : List RuleConfig} {e : RuleEngine} :
    RuleEngine.new cr files configs = .ok e ↔
      List.Forall₂ (fun c rule => compileRule cr files c = .ok rule) configs e.rules ∧
      cr.regexSetNew (regexPatternsOf configs) = .ok e.regexSet ∧
      e.regexIndices = e.rules.findIdxs (·.kind.isRegex) ∧
      e.builtinIndices = e.rules.findIdxs (·.kind.isBuiltin) ∧
      e.scriptIndices = e.rules.findIdxs (·.kind.isScript) := by
  rw [new_eq]
  simp only [Outcome.bind_eq_ok, Outcome.mapM_eq_ok, withContext_eq_ok, Outcome.mapErr_eq_ok,
    Outcome.ofExcept_eq_ok, Outcome.ok.injEq]
  constructor
  · intro hbuilt
    obtain ⟨rules, hrules, set, hset, rfl⟩ := hbuilt
    exact ⟨hrules, hset, rfl, rfl, rfl⟩
  · intro hparts
    obtain ⟨hrules, hset, h1, h2, h3⟩ := hparts
    refine ⟨e.rules, hrules, e.regexSet, hset, ?_⟩
    cases e
    simp_all [Builder.describing]

theorem patterns_line_up {configs : List RuleConfig} {rules : List CompiledRule}
    (h : List.Forall₂ (fun c rule => compileRule cr files c = .ok rule) configs rules) :
    List.Forall₂ (PatternOf cr) (regexPatternsOf configs)
      (rules.filter (·.kind.isRegex)) := by
  induction h with
  | nil => exact .nil
  | @cons c rule configs rules hc _ ih =>
    obtain ⟨hregex, _, _⟩ := compiled_kind cr files hc
    obtain ⟨_, hk, _, _⟩ := (compileRule_eq_ok cr files).mp hc
    rw [List.filter_cons, hregex]
    rcases (compileKind_eq_ok cr files).mp hk with
      ⟨ht, pattern, regex, hp, hr, hk⟩ | ⟨ht, _⟩ | ⟨ht, _⟩
    · have hof : PatternOf cr (c.pattern.getD "") rule :=
        ⟨regex, c.validate, hk.symm, by simpa [hp] using hr⟩
      have hpatterns : regexPatternsOf (c :: configs) =
          c.pattern.getD "" :: regexPatternsOf configs := by
        simp [regexPatternsOf, ht]
      rw [hpatterns, ht]
      exact .cons hof ih
    · have hpatterns : regexPatternsOf (c :: configs) = regexPatternsOf configs := by
        simp [regexPatternsOf, ht]
      rw [hpatterns, ht]
      exact ih
    · have hpatterns : regexPatternsOf (c :: configs) = regexPatternsOf configs := by
        simp [regexPatternsOf, ht]
      rw [hpatterns, ht]
      exact ih

end Compile
end PgSense
