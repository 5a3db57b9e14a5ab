import PgSense.Rules.PerRule
import Mathlib.Data.List.Induction

/-! Hot reload: the rules file is read, parsed and compiled again, and the new
engine replaces the active one only if all of that returned a value. A panic on
the way ends the process. -/

namespace PgSense
open Library
set_option autoImplicit false

def RuleConfig.missingField (c : RuleConfig) : Bool :=
  match c.ruleType with
  | .regex => c.pattern.isNone
  | .builtin => c.builtin.isNone
  | .script => c.script.isNone

section Panics
variable (cr : Crates) (files : Files)

theorem compileAllowlist_ne_panic (c : RuleConfig) (m : String) :
    compileAllowlist cr c ≠ .panic m := by
  unfold compileAllowlist
  cases c.allowlist with
  | none => simp
  | some al => simp [Outcome.bind_eq_panic]

theorem compileKind_isPanic (c : RuleConfig) :
    (compileKind cr files c).isPanic = c.missingField := by
  unfold compileKind Builder.addKind RuleConfig.missingField
  cases c.ruleType with
  | regex =>
    cases c.pattern with
    | none => rfl
    | some pattern => cases h : cr.regexNew pattern <;> simp [h, withContext, Outcome.mapErr]
  | builtin => cases c.builtin <;> rfl
  | script =>
    cases c.script with
    | none => rfl
    | some path =>
      have hne := Script.compileScript_ne_panic cr files path
      cases h : Script.compileScript cr files path with
      | ok ast => simp [withContext, Outcome.mapErr, h]
      | err e => simp [withContext, Outcome.mapErr, h]
      | panic m => exact absurd h (hne m)

theorem compileRule_isPanic (c : RuleConfig) :
    (compileRule cr files c).isPanic = true ↔
      checkScope c = .ok () ∧ c.missingField = true := by
  have hkind := compileKind_isPanic cr files c
  unfold compileRule
  cases hs : checkScope c with
  | err e => simp
  | panic m => exact absurd hs (checkScope_ne_panic c m)
  | ok _ =>
    cases hk : compileKind cr files c with
    | err e =>
      rw [hk] at hkind
      simp [← hkind]
    | panic m =>
      rw [hk] at hkind
      simp [← hkind]
    | ok kind =>
      rw [hk] at hkind
      cases ha : compileAllowlist cr c with
      | ok allowlist => simp [← hkind]
      | err e => simp [← hkind]
      | panic m => exact absurd ha (compileAllowlist_ne_panic cr c m)

/-- A rule list panics at a rule with a fine scope and no type-specific field, if
everything before it compiles. -/
def Fatal (configs : List RuleConfig) : Prop :=
  ∃ front c back, configs = front ++ c :: back ∧
    (∀ r ∈ front, (compileRule cr files r).isOk = true) ∧
      checkScope c = .ok () ∧ c.missingField = true

theorem new_isPanic (configs : List RuleConfig) :
    (RuleEngine.new cr files configs).isPanic = true ↔ Fatal cr files configs := by
  have hset : ∀ (rules : List CompiledRule) (m : String), (do
      let regexSet ← withContext "failed to compile regex set"
        ((Outcome.ofExcept (cr.regexSetNew (regexPatternsOf configs))).mapErr Error.msg)
      let b := Builder.describing configs rules
      .ok (⟨rules, regexSet, b.regexIndices, b.builtinIndices, b.scriptIndices⟩ : RuleEngine)) ≠
        (.panic m : Outcome Error RuleEngine) := by
    intro rules m
    simp [Outcome.bind_eq_panic]
  rw [Outcome.isPanic_iff, new_eq]
  constructor
  · intro hpanic
    obtain ⟨m, hm⟩ := hpanic
    rcases Outcome.bind_eq_panic.mp hm with hm | ⟨rules, _, hm⟩
    · obtain ⟨front, c, back, heq, hfront, hc⟩ := Outcome.mapM_eq_panic.mp hm
      exact ⟨front, c, back, heq, hfront,
        (compileRule_isPanic cr files c).mp (Outcome.isPanic_iff.mpr ⟨m, hc⟩)⟩
    · exact absurd hm (hset rules m)
  · intro hfatal
    obtain ⟨front, c, back, heq, hfront, hc⟩ := hfatal
    obtain ⟨m, hm⟩ := Outcome.isPanic_iff.mp ((compileRule_isPanic cr files c).mpr hc)
    exact ⟨m, Outcome.bind_eq_panic.mpr
      (.inl (Outcome.mapM_eq_panic.mpr ⟨front, c, back, heq, hfront, hm⟩))⟩

end Panics

section Reload
-- the TOML parser together with the derived deserialization of a rules file
variable (cr : Crates) (parse : String → Except String (List RuleConfig)) (path : String)

def loadRules (files : Files) : Outcome Error (List RuleConfig) := do
  let content ← withContext s!"failed to read rules file: {path}"
    ((Outcome.ofExcept (files path)).mapErr Error.msg)
  withContext s!"failed to parse rules file: {path}"
    ((Outcome.ofExcept (parse content)).mapErr Error.msg)

def buildScanner (files : Files) : Outcome Error (RuleEngine × List RuleConfig) := do
  let rules ← withContext "failed to load rules" (loadRules parse path files)
  let engine ← withContext "failed to compile detection rules" (RuleEngine.new cr files rules)
  .ok (engine, rules)

inductive Process where
  | running (active : RuleEngine)
  | aborted (message : String)

/-- The reload arm of the main loop, on the files as they are at that moment. -/
def Process.reload (files : Files) : Process → Process
  | aborted message => aborted message
  | running active =>
    match buildScanner cr parse path files with
    | .ok (newEngine, _) => running newEngine
    | .err _ => running active
    | .panic message => aborted message

def Process.reloads (p : Process) (history : List Files) : Process :=
  history.foldl (fun p files => p.reload cr parse path files) p

def good (files : Files) : Option RuleEngine :=
  match buildScanner cr parse path files with
  | .ok (engine, _) => some engine
  | _ => none

/-- The engine of the most recent good files, or else the initial one. -/
def lastGood (initial : RuleEngine) (history : List Files) : RuleEngine :=
  (history.reverse.findSome? (good cr parse path)).getD initial

def FatalFiles (files : Files) : Prop :=
  ∃ rules, loadRules parse path files = .ok rules ∧ Fatal cr files rules

theorem loadRules_ne_panic (files : Files) (m : String) :
    loadRules parse path files ≠ .panic m := by
  simp [loadRules, Outcome.bind_eq_panic]

theorem buildScanner_isPanic (files : Files) :
    (buildScanner cr parse path files).isPanic = true ↔ FatalFiles cr parse path files := by
  simp only [FatalFiles, ← new_isPanic, Outcome.isPanic_iff, buildScanner, Outcome.bind_eq_panic,
    withContext_eq_panic, withContext_eq_ok, loadRules_ne_panic, false_or, reduceCtorEq, and_false,
    exists_false, or_false]
  constructor
  · intro h
    obtain ⟨m, rules, hload, hm⟩ := h
    exact ⟨rules, hload, m, hm⟩
  · intro h
    obtain ⟨rules, hload, m, hm⟩ := h
    exact ⟨m, rules, hload, hm⟩

theorem lastGood_concat (initial : RuleEngine) (history : List Files) (files : Files) :
    lastGood cr parse path initial (history ++ [files]) =
      (good cr parse path files).getD (lastGood cr parse path initial history) := by
  unfold lastGood
  rw [List.reverse_append, List.reverse_singleton, List.singleton_append, List.findSome?_cons]
  cases good cr parse path files <;> rfl

theorem reload_running (active : RuleEngine) (files : Files) :
    ((¬ FatalFiles cr parse path files) ∧ (Process.running active).reload cr parse path files =
        .running ((good cr parse path files).getD active)) ∨
      (FatalFiles cr parse path files ∧
        ∃ m, (Process.running active).reload cr parse path files = .aborted m) := by
  have hpanic := buildScanner_isPanic cr parse path files
  unfold Process.reload good
  cases hb : buildScanner cr parse path files with
  | ok built =>
    rw [hb, Outcome.isPanic_ok] at hpanic
    exact .inl ⟨fun h => Bool.false_ne_true (hpanic.mpr h), rfl⟩
  | err e =>
    rw [hb, Outcome.isPanic_err] at hpanic
    exact .inl ⟨fun h => Bool.false_ne_true (hpanic.mpr h), rfl⟩
  | panic m =>
    rw [hb, Outcome.isPanic_panic] at hpanic
    exact .inr ⟨hpanic.mp rfl, m, rfl⟩

theorem reloads_concat (p : Process) (history : List Files) (files : Files) :
    p.reloads cr parse path (history ++ [files]) =
      (p.reloads cr parse path history).reload cr parse path files := by
  simp [Process.reloads, List.foldl_append]

theorem reloads_running {initial : RuleEngine} {history : List Files}
    (h : ∀ files ∈ history, ¬ FatalFiles cr parse path files) :
    (Process.running initial).reloads cr parse path history =
      .running (lastGood cr parse path initial history) := by
  induction history using List.reverseRecOn with
  | nil => rfl
  | append_singleton history files ih =>
    have hlast : ¬ FatalFiles cr parse path files := h files (by simp)
    rw [reloads_concat, ih fun f hf => h f (List.mem_append_left _ hf), lastGood_concat]
    rcases reload_running cr parse path (lastGood cr parse path initial history) files with
      ⟨_, heq⟩ | ⟨hfatal, _⟩
    · exact heq
    · exact absurd hfatal hlast

/-- Reloading keeps the most recent good rules active at every step, and never
aborts, for exactly the histories without fatal files. -/
theorem reload_atomic_iff (initial : RuleEngine) (history : List Files) :
    (∀ front, front <+: history → (Process.running initial).reloads cr parse path front =
        .running (lastGood cr parse path initial front)) ↔
      ∀ files ∈ history, ¬ FatalFiles cr parse path files := by
  constructor
  · intro hall files hfiles hfatal
    obtain ⟨front, back, rfl⟩ := List.append_of_mem hfiles
    have hbefore := hall front ⟨files :: back, rfl⟩
    have hafter := hall (front ++ [files]) ⟨back, by simp⟩
    rw [reloads_concat, hbefore] at hafter
    rcases reload_running cr parse path (lastGood cr parse path initial front) files with
      ⟨hnot, _⟩ | ⟨_, m, heq⟩
    · exact hnot hfatal
    · rw [heq] at hafter
      cases hafter
  · intro hnone front hfront
    exact reloads_running cr parse path fun files hfiles => hnone files (hfront.subset hfiles)

end Reload

section Sample

def patternlessRule : RuleConfig := { luhnRule with pattern := none }

def patternlessContent : String :=
  "[[rules]]\nid = \"card\"\ndescription = \"Card number\"\ncategory = \"pci\"\n" ++
    "severity = \"critical\"\ntype = \"regex\"\nvalidate = \"luhn\"\n"

def luhnContent : String := patternlessContent ++ "pattern = \"[0-9]+\"\n"

def sampleParse : String → Except String (List RuleConfig) := fun content =>
  if content == luhnContent then .ok [luhnRule]
  else if content == patternlessContent then .ok [patternlessRule]
  else .error "TOML parse error"

/-- Deleting the `pattern` line of a running rules file aborts the process. -/
theorem patternless_rule_aborts :
    ∃ initial rules m,
      buildScanner .sample sampleParse "rules.toml" (fun _ => .ok luhnContent) =
          .ok (initial, rules) ∧
        (Process.running initial).reloads .sample sampleParse "rules.toml"
          [fun _ => .ok patternlessContent] = .aborted m := by
  refine ⟨_, _, _, rfl, rfl⟩

end Sample

end PgSense
