import PgSense.Rules.EngineScan

/-! A built engine rule by rule: what it reports for one rule is what the rule
reports alone, and for a regex rule that is decided by its leftmost match. -/

namespace PgSense
open Library
set_option autoImplicit false

/-- What a match says, apart from the position of its rule. -/
def RuleMatch.carried (m : RuleMatch) : RuleMetadata × String := (m.rule, m.matchedText)

section OneEngine
variable {cr : Crates} {files : Files} {configs : List RuleConfig} {e : RuleEngine}

@[simp] theorem reports_carried (rule : CompiledRule) (value : String) (i : Nat) :
    (rule.reports cr value i).map RuleMatch.carried =
      (rule.scan cr value).map fun text => (rule.metadata, text) := by
  simp only [CompiledRule.reports, List.map_map]
  rfl

theorem filter_reports (rule : CompiledRule) (value : String) (i j : Nat) :
    (rule.reports cr value j).filter (fun m => m.ruleIdx == i) =
      if j == i then rule.reports cr value j else [] := by
  cases hj : j == i <;>
    simp [CompiledRule.reports, List.filter_map, Function.comp_def, hj]

theorem filter_phase (p : RuleKind → Bool) (value : String) (i : Nat) :
    ((e.phase p).flatMap fun x => x.1.reports cr value x.2).filter (fun m => m.ruleIdx == i) =
      (e.rules[i]?).toList.flatMap fun rule =>
        if p rule.kind then rule.reports cr value i else [] := by
  rw [← flatMap_zipIdx_single (fun rule : CompiledRule =>
    if p rule.kind then rule.reports cr value i else []) e.rules 0 i]
  unfold RuleEngine.phase
  rw [List.filter_flatMap, ← flatMap_filter_of_nil (p := fun x => p x.1.kind)
    (l := e.rules.zipIdx)]
  · apply List.flatMap_congr
    intro x hx
    have hp : p x.1.kind = true := (List.mem_filter.mp hx).2
    rw [filter_reports, Nat.zero_add, hp]
    cases hi : x.2 == i with
    | false => rfl
    | true => simp [eq_of_beq hi]
  · intro x _ hp
    simp [hp]

theorem kind_cases (kind : RuleKind) :
    (kind.isRegex = true ∧ kind.isBuiltin = false ∧ kind.isScript = false) ∨
      (kind.isRegex = false ∧ kind.isBuiltin = true ∧ kind.isScript = false) ∨
      (kind.isRegex = false ∧ kind.isBuiltin = false ∧ kind.isScript = true) := by
  cases kind with
  | regex _ _ => exact .inl ⟨rfl, rfl, rfl⟩
  | builtin _ => exact .inr (.inl ⟨rfl, rfl, rfl⟩)
  | script _ => exact .inr (.inr ⟨rfl, rfl, rfl⟩)

theorem filter_scanValue (laws : RegexSetLaws cr) (h : RuleEngine.new cr files configs = .ok e)
    (value : String) (i : Nat) :
    (e.scanValue cr value).filter (fun m => m.ruleIdx == i) =
      (e.rules[i]?).toList.flatMap fun rule => rule.reports cr value i := by
  rw [scanValue_built laws h, List.filter_append, List.filter_append, filter_phase, filter_phase,
    filter_phase]
  cases e.rules[i]? with
  | none => rfl
  | some rule =>
    rcases kind_cases rule.kind with ⟨h1, h2, h3⟩ | ⟨h1, h2, h3⟩ | ⟨h1, h2, h3⟩ <;>
      simp [h1, h2, h3]

theorem reported_iff (laws : RegexSetLaws cr) (h : RuleEngine.new cr files configs = .ok e)
    {i : Nat} {rule : CompiledRule} (hi : e.rules[i]? = some rule) (value : String) :
    (∃ m ∈ e.scanValue cr value, m.ruleIdx = i) ↔ rule.scan cr value ≠ [] := by
  have hfilter := filter_scanValue laws h value i
  rw [hi] at hfilter
  simp only [Option.toList_some, List.flatMap_cons, List.flatMap_nil, List.append_nil] at hfilter
  have hreports : rule.reports cr value i ≠ [] ↔ rule.scan cr value ≠ [] := by
    simp [CompiledRule.reports]
  rw [← hreports, ← hfilter, Ne, List.filter_eq_nil_iff]
  simp

end OneEngine

section FirstMatch
variable {cr : Crates} {files : Files} {configs : List RuleConfig} {e : RuleEngine}

/-- A regex rule looks at the leftmost match only. -/
theorem regex_scan_ne_nil {rule : CompiledRule} {regex : Regex} {validator : Option Validator}
    (hk : rule.kind = .regex regex validator) (value : String) :
    rule.scan cr value ≠ [] ↔ ∃ text, regex.find value = some text ∧ rule.accepts cr text := by
  simp only [CompiledRule.scan, CompiledRule.candidates, hk]
  cases regex.find value with
  | none => simp
  | some text => cases ha : rule.accepts cr text <;> simp [ha]

/-- A regex rule reports a value with an accepted match exactly when the leftmost
match is accepted or no match is. -/
theorem regex_rule_complete_iff (laws : RegexSetLaws cr)
    (h : RuleEngine.new cr files configs = .ok e) {i : Nat} {rule : CompiledRule} {regex : Regex}
    {validator : Option Validator} (hi : e.rules[i]? = some rule)
    (hk : rule.kind = .regex regex validator) (value : String) :
    ((∃ text ∈ regex.findIter value, rule.accepts cr text = true) →
        ∃ m ∈ e.scanValue cr value, m.ruleIdx = i) ↔
      (∀ first, (regex.findIter value).head? = some first → rule.accepts cr first = false →
        ∀ text ∈ regex.findIter value, rule.accepts cr text = false) := by
  rw [reported_iff laws h hi, regex_scan_ne_nil hk]
  constructor
  · intro hcomplete first hfirst hreject text htext
    by_contra haccept
    obtain ⟨found, hfound, hok⟩ := hcomplete ⟨text, htext, by simpa using haccept⟩
    have hsame : found = first := Option.some.inj (hfound.symm.trans hfirst)
    rw [hsame, hreject] at hok
    cases hok
  · intro hfirst hsome
    obtain ⟨text, htext, haccept⟩ := hsome
    obtain ⟨first, hhead⟩ : ∃ first, (regex.findIter value).head? = some first := by
      cases hl : regex.findIter value with
      | nil => simp [hl] at htext
      | cons first rest => exact ⟨first, rfl⟩
    refine ⟨first, hhead, ?_⟩
    by_contra hreject
    have hnone := hfirst first hhead (by simpa using hreject) text htext
    rw [hnone] at haccept
    cases haccept

def luhnRule : RuleConfig where
  id := "card"
  description := "Card number"
  category := "pci"
  severity := .critical
  ruleType := .regex
  pattern := some "[0-9]+"
  validate := some .luhn
  builtin := none
  script := none
  allowlist := none
  scope := none
  channels := none

theorem card_after_order_number_missed :
    ∃ e rule, RuleEngine.new .sample (fun _ => .error "no file") [luhnRule] = .ok e ∧
      e.rules[0]? = some rule ∧ rule.kind = .regex digitRegex (some .luhn) ∧
      (∃ text ∈ digitRegex.findIter "order 1234567 card 4111111111111111",
        rule.accepts .sample text = true) ∧
      ¬ ∃ m ∈ e.scanValue .sample "order 1234567 card 4111111111111111", m.ruleIdx = 0 := by
  refine ⟨_, _, rfl, rfl, rfl, ⟨"4111111111111111", ?_, ?_⟩, ?_⟩
  · decide +kernel
  · decide +kernel
  · decide +kernel

theorem regex_rule_complete_iff_luhn :
    ∃ e rule, RuleEngine.new .sample (fun _ => .error "no file") [luhnRule] = .ok e ∧
      e.rules[0]? = some rule ∧
      (((∃ text ∈ digitRegex.findIter "4111111111111111 or 7",
            rule.accepts .sample text = true) →
          ∃ m ∈ e.scanValue .sample "4111111111111111 or 7", m.ruleIdx = 0) ↔
        (∀ first, (digitRegex.findIter "4111111111111111 or 7").head? = some first →
          rule.accepts .sample first = false →
            ∀ text ∈ digitRegex.findIter "4111111111111111 or 7",
              rule.accepts .sample text = false)) := by
  refine ⟨_, _, rfl, rfl, ?_⟩
  have hnew : RuleEngine.new .sample (fun _ => .error "no file") [luhnRule] = .ok _ := rfl
  exact regex_rule_complete_iff Crates.sample_laws hnew rfl rfl _

end FirstMatch

section Alone
variable (cr : Crates) (files : Files)

def scanAlone (value : String) (c : RuleConfig) : List (RuleMetadata × String) :=
  match RuleEngine.new cr files [c] with
  | .ok e => (e.scanValue cr value).map RuleMatch.carried
  | _ => []

end Alone

section Composition
variable {cr : Crates} {files : Files} {configs : List RuleConfig} {e : RuleEngine}

theorem rule_at (h : RuleEngine.new cr files configs = .ok e) {i : Nat} {c : RuleConfig}
    (hi : configs[i]? = some c) :
    ∃ rule, e.rules[i]? = some rule ∧ compileRule cr files c = .ok rule := by
  obtain ⟨hrules, _, _, _, _⟩ := (new_eq_ok cr files).mp h
  obtain ⟨hlt, rfl⟩ := List.getElem?_eq_some_iff.mp hi
  have hlt' : i < e.rules.length := hrules.length_eq ▸ hlt
  exact ⟨_, List.getElem?_eq_getElem hlt', hrules.get hlt hlt'⟩

theorem new_singleton (laws : RegexSetLaws cr) (h : RuleEngine.new cr files configs = .ok e)
    {c : RuleConfig} (hc : c ∈ configs) : ∃ s, RuleEngine.new cr files [c] = .ok s := by
  obtain ⟨_, hset, _, _, _⟩ := (new_eq_ok cr files).mp h
  obtain ⟨i, hi⟩ := List.getElem?_of_mem hc
  obtain ⟨rule, _, hrule⟩ := rule_at h hi
  have hsub : (regexPatternsOf [c]).Sublist (regexPatternsOf configs) :=
    ((List.singleton_sublist.mpr hc).filter _).map _
  obtain ⟨set, hset⟩ := laws.sublist_ok hsub hset
  refine ⟨⟨[rule], set, [rule].findIdxs (·.kind.isRegex), [rule].findIdxs (·.kind.isBuiltin),
    [rule].findIdxs (·.kind.isScript)⟩, (new_eq_ok cr files).mpr ?_⟩
  exact ⟨.cons hrule .nil, hset, rfl, rfl, rfl⟩

theorem scanAlone_eq (laws : RegexSetLaws cr) {c : RuleConfig} {rule : CompiledRule}
    (hc : compileRule cr files c = .ok rule) {s : RuleEngine}
    (hs : RuleEngine.new cr files [c] = .ok s) (value : String) :
    scanAlone cr files value c =
      (rule.scan cr value).map fun text => (rule.metadata, text) := by
  obtain ⟨hrules, _, _, _, _⟩ := (new_eq_ok cr files).mp hs
  have hone : s.rules = [rule] := by
    obtain ⟨rule', rest, hrule', hrest, heq⟩ := List.forall₂_cons_left_iff.mp hrules
    rw [heq, List.forall₂_nil_left_iff.mp hrest, Outcome.ok.inj (hc.symm.trans hrule')]
  have hscan := scanValue_built laws hs value
  unfold scanAlone
  rw [hs]
  simp only [hscan, RuleEngine.phase, hone, List.zipIdx_singleton]
  rcases kind_cases rule.kind with ⟨h1, h2, h3⟩ | ⟨h1, h2, h3⟩ | ⟨h1, h2, h3⟩ <;>
    simp [h1, h2, h3]

theorem phase_carried {p : RuleKind → Bool} {t : RuleType} {value : String} {n : Nat}
    {rules : List CompiledRule}
    (h : List.Forall₂ (fun c rule => p rule.kind = (c.ruleType == t) ∧
      scanAlone cr files value c = (rule.scan cr value).map fun text => (rule.metadata, text))
      configs rules) :
    (((rules.zipIdx n).filter fun x => p x.1.kind).flatMap
        fun x => x.1.reports cr value x.2).map RuleMatch.carried =
      (configs.filter fun c => c.ruleType == t).flatMap (scanAlone cr files value) := by
  induction h generalizing n with
  | nil => rfl
  | @cons c rule configs rules hc _ ih =>
    obtain ⟨hp, halone⟩ := hc
    rw [List.zipIdx_cons, List.filter_cons, List.filter_cons, hp]
    cases c.ruleType == t with
    | false => simpa using ih (n := n + 1)
    | true => simp [ih (n := n + 1), halone]

theorem filter_scanValue_alone (laws : RegexSetLaws cr)
    (h : RuleEngine.new cr files configs = .ok e) {i : Nat} {c : RuleConfig}
    (hi : configs[i]? = some c) (value : String) :
    ((e.scanValue cr value).filter fun m => m.ruleIdx == i).map RuleMatch.carried =
      scanAlone cr files value c := by
  obtain ⟨rule, hrule, hc⟩ := rule_at h hi
  obtain ⟨s, hs⟩ := new_singleton laws h (List.mem_of_getElem? hi)
  rw [filter_scanValue laws h, hrule, scanAlone_eq laws hc hs]
  simp

theorem match_metadata (laws : RegexSetLaws cr) (h : RuleEngine.new cr files configs = .ok e)
    {value : String} {m : RuleMatch} (hm : m ∈ e.scanValue cr value) :
    ∃ c, configs[m.ruleIdx]? = some c ∧ m.rule = c.metadata := by
  have hmem : m ∈ (e.scanValue cr value).filter fun x => x.ruleIdx == m.ruleIdx :=
    List.mem_filter.mpr ⟨hm, beq_self_eq_true _⟩
  rw [filter_scanValue laws h, List.mem_flatMap] at hmem
  obtain ⟨rule, hrule, hmem⟩ := hmem
  obtain ⟨hrules, _, _, _, _⟩ := (new_eq_ok cr files).mp h
  obtain ⟨hlt, rfl⟩ := List.getElem?_eq_some_iff.mp (Option.mem_toList.mp hrule)
  have hlt' : m.ruleIdx < configs.length := hrules.length_eq ▸ hlt
  obtain ⟨_, _, _, hmeta⟩ := (compileRule_eq_ok cr files).mp (hrules.get hlt' hlt)
  obtain ⟨text, _, hm⟩ := List.mem_map.mp hmem
  exact ⟨_, List.getElem?_eq_getElem hlt', (congrArg RuleMatch.rule hm).symm.trans hmeta⟩

theorem scanValue_carried (laws : RegexSetLaws cr) (h : RuleEngine.new cr files configs = .ok e)
    (value : String) :
    (e.scanValue cr value).map RuleMatch.carried =
      (configs.filter fun c => c.ruleType == .regex).flatMap (scanAlone cr files value) ++
        (configs.filter fun c => c.ruleType == .builtin).flatMap (scanAlone cr files value) ++
          (configs.filter fun c => c.ruleType == .script).flatMap (scanAlone cr files value) := by
  obtain ⟨hrules, _, _, _, _⟩ := (new_eq_ok cr files).mp h
  have hpairs : List.Forall₂ (fun c rule => compileRule cr files c = .ok rule ∧
      scanAlone cr files value c = (rule.scan cr value).map fun text => (rule.metadata, text))
      configs e.rules := by
    refine List.forall₂_iff_get.mpr ⟨hrules.length_eq, fun i hi hi' => ?_⟩
    have hc := hrules.get hi hi'
    obtain ⟨s, hs⟩ := new_singleton laws h (List.get_mem configs ⟨i, hi⟩)
    exact ⟨hc, scanAlone_eq laws hc hs value⟩
  rw [scanValue_built laws h, List.map_append, List.map_append]
  congr 1
  congr 1
  · exact phase_carried (hpairs.imp fun c rule hp => ⟨(compiled_kind cr files hp.1).1, hp.2⟩)
  · exact phase_carried (hpairs.imp fun c rule hp => ⟨(compiled_kind cr files hp.1).2.1, hp.2⟩)
  · exact phase_carried (hpairs.imp fun c rule hp => ⟨(compiled_kind cr files hp.1).2.2, hp.2⟩)

/-- The combined engine agrees with running each rule alone, and a rule's matches
are the same in every engine that contains the rule. -/
theorem combined_agrees_with_alone (laws : RegexSetLaws cr)
    (h : RuleEngine.new cr files configs = .ok e) (value : String) :
    (∀ c ∈ configs, ∃ s, RuleEngine.new cr files [c] = .ok s) ∧
    (e.scanValue cr value).map RuleMatch.carried =
      (configs.filter fun c => c.ruleType == .regex).flatMap (scanAlone cr files value) ++
        (configs.filter fun c => c.ruleType == .builtin).flatMap (scanAlone cr files value) ++
          (configs.filter fun c => c.ruleType == .script).flatMap (scanAlone cr files value) ∧
    (∀ m ∈ e.scanValue cr value, ∃ c, configs[m.ruleIdx]? = some c ∧ m.rule = c.metadata) ∧
    (∀ (others : List RuleConfig) (e' : RuleEngine), RuleEngine.new cr files others = .ok e' →
      ∀ (i j : Nat) (c : RuleConfig), configs[i]? = some c → others[j]? = some c →
        ((e.scanValue cr value).filter fun m => m.ruleIdx == i).map RuleMatch.carried =
          ((e'.scanValue cr value).filter fun m => m.ruleIdx == j).map RuleMatch.carried) := by
  refine ⟨fun c hc => new_singleton laws h hc, scanValue_carried laws h value,
    fun m hm => match_metadata laws h hm, ?_⟩
  intro others e' h' i j c hi hj
  rw [filter_scanValue_alone laws h hi, filter_scanValue_alone laws h' hj]

def ssnRule : RuleConfig :=
  { luhnRule with
    id := "ssn", ruleType := .builtin, pattern := none, validate := none, builtin := some .ssn }

def throwingRule : RuleConfig :=
  { luhnRule with
    id := "throwing", ruleType := .script, pattern := none, validate := none
    script := some "throwing.rhai" }

def sampleFiles : Files := fun path =>
  if path == "throwing.rhai" then
    .ok "fn detect(v) \x7bif v.len() == 0 \x7b[]\x7d else \x7bthrow 1\x7d\x7d"
  else .error "no such file"

/-- Builtin, failing script and regex rules, interleaved. -/
theorem combined_agrees_with_alone_mixed :
    ∃ e, RuleEngine.new .sample sampleFiles [ssnRule, throwingRule, luhnRule] = .ok e ∧
      (e.scanValue .sample "4111111111111111 219-09-9999").map RuleMatch.carried =
        scanAlone .sample sampleFiles "4111111111111111 219-09-9999" luhnRule ++
          scanAlone .sample sampleFiles "4111111111111111 219-09-9999" ssnRule ++
            scanAlone .sample sampleFiles "4111111111111111 219-09-9999" throwingRule := by
  refine ⟨_, rfl, ?_⟩
  have hnew : RuleEngine.new .sample sampleFiles [ssnRule, throwingRule, luhnRule] = .ok _ := rfl
  exact (combined_agrees_with_alone Crates.sample_laws hnew "4111111111111111 219-09-9999").2.1

end Composition
end PgSense
