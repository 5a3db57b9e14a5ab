import PgSense.Rules.EngineCompile

/-! What `RuleEngine.scanValue` reports. A rule's own scan, `CompiledRule.scan`,
looks at nothing but the rule and the value; the three phases together are the
rules' own scans, regex rules first, then builtin rules, then script rules. -/

namespace PgSense
open Library
set_option autoImplicit false

/-- The documented behaviour of `RegexSet` that the scan rests on. -/
structure RegexSetLaws (cr : Crates) : Prop where
  /-- `RegexSet::matches` yields, in ascending order, the indices of the patterns
  that `Regex::is_match` accepts -/
  matched_eq : ∀ {patterns : List String} {set : RegexSet}, cr.regexSetNew patterns = .ok set →
    ∀ value, set.matched value = (List.range patterns.length).filter fun k =>
      (patterns[k]?).any fun p => ((cr.regexNew p).toOption).any (·.isMatch value)
  /-- `RegexSet::new` fails on an invalid pattern or on the size limit only, so
  some of the patterns of a set compile too -/
  sublist_ok : ∀ {patterns fewer : List String} {set : RegexSet}, fewer.Sublist patterns →
    cr.regexSetNew patterns = .ok set → ∃ set', cr.regexSetNew fewer = .ok set'

section OneRule
variable (cr : Crates)

def CompiledRule.accepts (rule : CompiledRule) (text : String) : Bool :=
  match rule.kind with
  | .regex _ (some v) => v.accepts cr text && !rule.isAllowed text
  | _ => !rule.isAllowed text

/-- The texts a rule finds before its validator and allowlist. -/
def CompiledRule.candidates (rule : CompiledRule) (value : String) : List String :=
  match rule.kind with
  | .regex regex _ => (regex.find value).toList
  | .builtin detector => detector.scan cr value
  | .script ast => ((Script.runDetect ast value).toOption).getD []

def CompiledRule.scan (rule : CompiledRule) (value : String) : List String :=
  (rule.candidates cr value).filter (rule.accepts cr)

/-- The matches of the rule when it sits at position `i`. -/
def CompiledRule.reports (rule : CompiledRule) (value : String) (i : Nat) : List RuleMatch :=
  (rule.scan cr value).map fun text => ⟨i, rule.metadata, text⟩

/-- One visit of a phase: the rule at position `i`, if it is of the phase's kind. -/
def visit (value : String) (p : RuleKind → Bool) (i : Nat) : Option CompiledRule → List RuleMatch
  | some rule => if p rule.kind then rule.reports cr value i else []
  | none => []

theorem accepts_eq_of_not_regex {rule : CompiledRule} (h : rule.kind.isRegex = false) :
    rule.accepts cr = fun text => !rule.isAllowed text := by
  funext text
  unfold CompiledRule.accepts
  cases hk : rule.kind with
  | regex regex validator => simp [hk, RuleKind.isRegex] at h
  | builtin detector => rfl
  | script ast => rfl

theorem regex_visit (rule : CompiledRule) (value : String) (i : Nat) :
    visit cr value RuleKind.isRegex i (some rule) =
      match rule.kind with
      | .regex regex validator =>
        match regex.find value with
        | none => []
        | some matchedText =>
          if validator.any (fun v => !v.accepts cr matchedText) then []
          else if rule.isAllowed matchedText then []
          else [⟨i, rule.metadata, matchedText⟩]
      | _ => [] := by
  cases hk : rule.kind with
  | builtin detector => simp [visit, hk, RuleKind.isRegex]
  | script ast => simp [visit, hk, RuleKind.isRegex]
  | regex regex validator =>
    simp only [visit, hk, RuleKind.isRegex, if_true, CompiledRule.reports, CompiledRule.scan,
      CompiledRule.candidates]
    cases regex.find value with
    | none => rfl
    | some text =>
      cases validator with
      | none => cases ha : rule.isAllowed text <;> simp [CompiledRule.accepts, hk, ha]
      | some v =>
        cases hv : v.accepts cr text <;> cases ha : rule.isAllowed text <;>
          simp [CompiledRule.accepts, hk, hv, ha]

theorem builtin_visit (rule : CompiledRule) (value : String) (i : Nat) :
    visit cr value RuleKind.isBuiltin i (some rule) =
      match rule.kind with
      | .builtin detector =>
        ((detector.scan cr value).filter fun text => !rule.isAllowed text).map
          fun text => ⟨i, rule.metadata, text⟩
      | _ => [] := by
  cases hk : rule.kind with
  | regex regex validator => simp [visit, hk, RuleKind.isBuiltin]
  | script ast => simp [visit, hk, RuleKind.isBuiltin]
  | builtin detector =>
    have hnot : rule.kind.isRegex = false := by rw [hk]; rfl
    have haccepts := accepts_eq_of_not_regex cr hnot
    simp [visit, hk, haccepts, RuleKind.isBuiltin, CompiledRule.reports, CompiledRule.scan,
      CompiledRule.candidates]

theorem script_visit (rule : CompiledRule) (value : String) (i : Nat) :
    visit cr value RuleKind.isScript i (some rule) =
      match rule.kind with
      | .script ast =>
        match Script.runDetect ast value with
        | .ok texts =>
          (texts.filter fun text => !rule.isAllowed text).map
            fun text => ⟨i, rule.metadata, text⟩
        | .error _ => []
      | _ => [] := by
  cases hk : rule.kind with
  | regex regex validator => simp [visit, hk, RuleKind.isScript]
  | builtin detector => simp [visit, hk, RuleKind.isScript]
  | script ast =>
    have hnot : rule.kind.isRegex = false := by rw [hk]; rfl
    have haccepts := accepts_eq_of_not_regex cr hnot
    cases hr : Script.runDetect ast value <;>
      simp [visit, hk, hr, haccepts, RuleKind.isScript, CompiledRule.reports, CompiledRule.scan,
        CompiledRule.candidates, Except.toOption]

end OneRule

section Phases
variable (cr : Crates) (value : String)

def RuleEngine.phase (e : RuleEngine) (p : RuleKind → Bool) : List (CompiledRule × Nat) :=
  e.rules.zipIdx.filter fun x => p x.1.kind

/-- A phase that visits the positions of the rules of its kind. -/
theorem visits_eq_phase (e : RuleEngine) (p : RuleKind → Bool) :
    (e.rules.findIdxs (fun rule => p rule.kind)).flatMap
        (fun i => visit cr value p i e.rules[i]?) =
      (e.phase p).flatMap fun x => x.1.reports cr value x.2 := by
  rw [flatMap_findIdxs (fun rule : CompiledRule => p rule.kind) (visit cr value p)]
  apply List.flatMap_congr
  intro x hx
  have hp : p x.1.kind = true := (List.mem_filter.mp hx).2
  simp [visit, hp]

theorem scanBuiltinPhase_eq (e : RuleEngine) : e.scanBuiltinPhase cr value =
    e.builtinIndices.flatMap fun i => visit cr value RuleKind.isBuiltin i e.rules[i]? := by
  unfold RuleEngine.scanBuiltinPhase
  apply List.flatMap_congr
  intro i _
  cases e.rules[i]? with
  | none => rfl
  | some rule => exact (builtin_visit cr rule value i).symm

theorem scanScriptPhase_eq (e : RuleEngine) : e.scanScriptPhase value =
    e.scriptIndices.flatMap fun i => visit cr value RuleKind.isScript i e.rules[i]? := by
  unfold RuleEngine.scanScriptPhase
  apply List.flatMap_congr
  intro i _
  cases e.rules[i]? with
  | none => rfl
  | some rule => exact (script_visit cr rule value i).symm

def RuleEngine.visitPattern (e : RuleEngine) : Option Nat → List RuleMatch
  | some i => visit cr value RuleKind.isRegex i e.rules[i]?
  | none => []

theorem scanRegexPhase_eq (e : RuleEngine) : e.scanRegexPhase cr value =
    (e.regexSet.matched value).flatMap fun k => e.visitPattern cr value e.regexIndices[k]? := by
  unfold RuleEngine.scanRegexPhase
  apply List.flatMap_congr
  intro k _
  cases hi : e.regexIndices[k]? with
  | none => rfl
  | some i =>
    dsimp only [RuleEngine.visitPattern]
    cases hr : e.rules[i]? with
    | none => rfl
    | some rule => exact (regex_visit cr rule value i).symm

theorem reports_of_not_isMatch {rule : CompiledRule} {regex : Regex}
    {validator : Option Validator} (hk : rule.kind = .regex regex validator)
    (h : regex.isMatch value = false) (i : Nat) : rule.reports cr value i = [] := by
  have hfind : regex.find value = none := by
    rw [Regex.isMatch_eq_isSome_find] at h
    exact Option.isSome_eq_false_iff.mp h |> Option.isNone_iff_eq_none.mp
  simp [CompiledRule.reports, CompiledRule.scan, CompiledRule.candidates, hk, hfind]

end Phases

section Built
variable {cr : Crates} {files : Files} {configs : List RuleConfig} {e : RuleEngine}

theorem pattern_rule (h : RuleEngine.new cr files configs = .ok e) {k : Nat}
    (hk : k < (regexPatternsOf configs).length) :
    ∃ i rule, e.regexIndices[k]? = some i ∧ e.rules[i]? = some rule ∧
      PatternOf cr (regexPatternsOf configs)[k] rule := by
  obtain ⟨hrules, _, hregex, _, _⟩ := (new_eq_ok cr files).mp h
  have hline := patterns_line_up cr files hrules
  have hk' : k < (e.rules.filter (·.kind.isRegex)).length := hline.length_eq ▸ hk
  have hget := getElem?_findIdxs (fun rule : CompiledRule => rule.kind.isRegex) e.rules k
  rw [List.getElem?_eq_getElem hk', ← hregex] at hget
  obtain ⟨i, hi, hr⟩ := Option.bind_eq_some_iff.mp hget
  exact ⟨i, _, hi, hr, hline.get hk hk'⟩

theorem regexIndices_length (h : RuleEngine.new cr files configs = .ok e) :
    e.regexIndices.length = (regexPatternsOf configs).length := by
  obtain ⟨hrules, _, hregex, _, _⟩ := (new_eq_ok cr files).mp h
  rw [(patterns_line_up cr files hrules).length_eq, hregex, List.length_findIdxs,
    List.countP_eq_length_filter]

theorem scanRegexPhase_built (laws : RegexSetLaws cr)
    (h : RuleEngine.new cr files configs = .ok e) (value : String) :
    e.scanRegexPhase cr value =
      (e.phase RuleKind.isRegex).flatMap fun x => x.1.reports cr value x.2 := by
  obtain ⟨_, hset, hregex, _, _⟩ := (new_eq_ok cr files).mp h
  rw [scanRegexPhase_eq, laws.matched_eq hset, flatMap_filter_of_nil]
  · rw [← regexIndices_length h, flatMap_range_getElem? (e.visitPattern cr value), hregex]
    exact visits_eq_phase cr value e RuleKind.isRegex
  · intro k hk hno
    have hk := List.mem_range.mp hk
    obtain ⟨i, rule, hi, hr, regex, validator, hkind, hnew⟩ := pattern_rule h hk
    have hmiss : regex.isMatch value = false := by
      simpa [List.getElem?_eq_getElem hk, hnew, Except.toOption] using hno
    simp [RuleEngine.visitPattern, hi, hr, visit,
      reports_of_not_isMatch cr value hkind hmiss i]

/-- The positions the three phases read are positions of rules of the phase's
kind: no lookup of a built engine is out of range. -/
theorem indices_in_range (h : RuleEngine.new cr files configs = .ok e) :
    (∀ i ∈ e.regexIndices, ∃ rule, e.rules[i]? = some rule ∧ rule.kind.isRegex) ∧
      (∀ i ∈ e.builtinIndices, ∃ rule, e.rules[i]? = some rule ∧ rule.kind.isBuiltin) ∧
      (∀ i ∈ e.scriptIndices, ∃ rule, e.rules[i]? = some rule ∧ rule.kind.isScript) := by
  have hpos : ∀ (p : RuleKind → Bool) (i : Nat),
      i ∈ e.rules.findIdxs (fun rule => p rule.kind) →
        ∃ rule, e.rules[i]? = some rule ∧ p rule.kind = true := by
    intro p i hi
    obtain ⟨hlt, hp⟩ := List.mem_findIdxs_iff_exists_getElem_pos.mp hi
    exact ⟨_, List.getElem?_eq_getElem hlt, hp⟩
  obtain ⟨_, _, h1, h2, h3⟩ := (new_eq_ok cr files).mp h
  rw [h1, h2, h3]
  exact ⟨hpos _, hpos _, hpos _⟩

/-- A built engine reports what its rules report, phase after phase. -/
theorem scanValue_built (laws : RegexSetLaws cr)
    (h : RuleEngine.new cr files configs = .ok e) (value : String) :
    e.scanValue cr value =
      (e.phase RuleKind.isRegex).flatMap (fun x => x.1.reports cr value x.2) ++
        (e.phase RuleKind.isBuiltin).flatMap (fun x => x.1.reports cr value x.2) ++
          (e.phase RuleKind.isScript).flatMap (fun x => x.1.reports cr value x.2) := by
  obtain ⟨_, _, _, hbuiltin, hscript⟩ := (new_eq_ok cr files).mp h
  unfold RuleEngine.scanValue
  rw [scanRegexPhase_built laws h, scanBuiltinPhase_eq, scanScriptPhase_eq, hbuiltin, hscript,
    visits_eq_phase, visits_eq_phase]

end Built

section Sample

def digitRuns (run : List Char) : List Char → List String
  | [] => if run.isEmpty then [] else [String.ofList run]
  | c :: cs =>
    if c.isDigit then digitRuns (run ++ [c]) cs
    else if run.isEmpty then digitRuns [] cs
    else String.ofList run :: digitRuns [] cs

def digitRegex : Regex := ⟨fun value => digitRuns [] value.toList⟩

/-- Crates that know the pattern `[0-9]+`, one failing script and literal globs. -/
def Crates.sample : Crates where
  regexNew p := if p == "[0-9]+" then .ok digitRegex else .error "unsupported pattern"
  regexSetNew ps :=
    if ps.all (· == "[0-9]+") then
      .ok ⟨fun value => if digitRegex.isMatch value then List.range ps.length else []⟩
    else .error "unsupported pattern"
  rhaiCompile source :=
    if source == "fn detect(v) \x7bif v.len() == 0 \x7b[]\x7d else \x7bthrow 1\x7d\x7d" then
      .ok ⟨[("detect", 1)], fun value =>
        if value.isEmpty then .ok (.array []) else .error "Runtime error: 1"⟩
    else .error "unsupported script"
  phoneParse _ _ := .error "not a number"
  globNew p := .ok (· == p)
  hashOne s := UInt64.ofNat s.length
  defaultHash bytes := bytes.foldl (fun h b => h * 31 + b.toUInt64) 7

theorem Crates.sample_set {patterns : List String} {set : RegexSet} :
    Crates.sample.regexSetNew patterns = .ok set ↔ (patterns.all (· == "[0-9]+")) = true ∧
      set = ⟨fun value => if digitRegex.isMatch value then List.range patterns.length else []⟩ := by
  unfold Crates.sample
  dsimp only
  by_cases hall : (patterns.all (· == "[0-9]+")) = true
  · rw [if_pos hall, Except.ok.injEq]
    exact ⟨fun h => ⟨hall, h.symm⟩, fun h => h.2.symm⟩
  · rw [if_neg hall]
    exact ⟨nofun, fun h => absurd h.1 hall⟩

theorem Crates.sample_laws : RegexSetLaws Crates.sample where
  matched_eq := by
    intro patterns set hset value
    obtain ⟨hall, rfl⟩ := Crates.sample_set.mp hset
    have heach : ∀ k ∈ List.range patterns.length,
        ((patterns[k]?).any fun p =>
          ((Crates.sample.regexNew p).toOption).any (·.isMatch value)) =
            digitRegex.isMatch value := by
      intro k hk
      have hk := List.mem_range.mp hk
      have hp := eq_of_beq (List.all_eq_true.mp hall patterns[k] (List.getElem_mem hk))
      rw [List.getElem?_eq_getElem hk]
      simp [Crates.sample, Except.toOption, hp]
    rw [List.filter_congr heach]
    cases hm : digitRegex.isMatch value with
    | false => simp [hm]
    | true => simp [hm]
  sublist_ok := by
    intro patterns fewer set hsub hset
    obtain ⟨hall, _⟩ := Crates.sample_set.mp hset
    have hfewer : (fewer.all (· == "[0-9]+")) = true :=
      List.all_eq_true.mpr fun p hp => List.all_eq_true.mp hall p (hsub.subset hp)
    exact ⟨_, Crates.sample_set.mpr ⟨hfewer, rfl⟩⟩

end Sample

end PgSense
