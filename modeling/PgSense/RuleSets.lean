import Mathlib.Data.List.Flatten
import Mathlib.Data.List.Perm.Basic
import PgSense.Scanner

/-! Findings under different rule lists: what a further rule adds, what the order of the
rules changes, and what an allowlist takes away. -/

namespace PgSense
set_option autoImplicit false

/-- A finding apart from the keys it echoes. -/
def Finding.withoutKeys (f : Finding) : Finding := { f with primaryKeys := [] }

section Places
variable (cr : Crates) (files : Files) (engine : RuleEngine) (event : ScanEvent)

/-- What rules find in a value when each runs alone, type after type. -/
def aloneByType (value : String) (configs : List RuleConfig) : List (RuleMetadata × String) :=
  (configs.filter fun c => c.ruleType == .regex).flatMap (scanAlone cr files value) ++
    (configs.filter fun c => c.ruleType == .builtin).flatMap (scanAlone cr files value) ++
      (configs.filter fun c => c.ruleType == .script).flatMap (scanAlone cr files value)

/-- Where something was found, under which rule, and what. -/
abbrev Place := String × RuleMetadata × String

def columnPlaces (carried : String → List (RuleMetadata × String)) (col : ColumnValue) :
    List Place :=
  if !isScannableType col.typeName then []
  else match col.value with
    | none => []
    | some value =>
      ((carried value).filter fun m => inScope event m.1 col.name).map fun m => (col.name, m)

def places (carried : String → List (RuleMetadata × String)) : List Place :=
  event.columns.flatMap (columnPlaces event carried)

def Place.finding (keys : List (String × String)) (place : Place) : Finding where
  database := event.database
  ruleId := place.2.1.id
  description := place.2.1.description
  category := place.2.1.category
  severity := place.2.1.severity
  schemaName := event.schemaName
  tableName := event.tableName
  columnName := place.1
  maskedSample := mask place.2.2
  valueHash := cr.hashOne place.2.2
  primaryKeys := keys
  lsn := event.commitLsn
  channels := place.2.1.channels

/-- The keys left when the columns of some places are stripped. -/
def keysOff (ps : List Place) : List (String × String) :=
  event.primaryKeys.filter fun key => !(ps.map Prod.fst).contains key.1

variable {cr files engine event}

theorem hits_places : (hits cr engine event).map (fun hit => (hit.column, hit.found.carried)) =
    places event fun value => (engine.scanValue cr value).map RuleMatch.carried := by
  unfold hits places
  rw [List.map_flatMap]
  apply List.flatMap_congr
  intro col _
  unfold columnPlaces
  split
  · rfl
  · cases col.value with
    | none => rfl
    | some value =>
      simp only [List.map_map, List.filter_map]
      rfl

/-- The findings of an event are those of its places, all with the same keys. -/
theorem scan_places {ps : List Place}
    (h : places event (fun value => (engine.scanValue cr value).map RuleMatch.carried) = ps) :
    scan cr engine event = ps.map (Place.finding cr event (keysOff event ps)) := by
  rw [← hits_places] at h
  have hkeys : echoedKeys cr engine event = keysOff event ps := by
    rw [← h]
    simp [echoedKeys, keysOff, matchedColumns, Function.comp_def]
  rw [scan_eq, hkeys, ← h, List.map_map]
  rfl

/-- The finding is that of the place, and shows none of the keys of its column. -/
def Place.Reported (cr : Crates) (event : ScanEvent) (place : Place) (f : Finding) : Prop :=
  ∃ keys, keys.Sublist event.primaryKeys ∧ (∀ key ∈ keys, key.1 ≠ place.1) ∧
    f = place.finding cr event keys

theorem place_reported {place : Place}
    (h : place ∈ places event fun value => (engine.scanValue cr value).map RuleMatch.carried) :
    ∃ f ∈ scan cr engine event, place.Reported cr event f := by
  rw [scan_places rfl]
  refine ⟨_, List.mem_map.mpr ⟨place, h, rfl⟩, _, List.filter_sublist, ?_, rfl⟩
  intro key hkey heq
  obtain ⟨_, hkey⟩ := List.mem_filter.mp hkey
  have hcolumn : key.1 ∈ (places event fun value =>
      (engine.scanValue cr value).map RuleMatch.carried).map Prod.fst := by
    rw [heq]
    exact List.mem_map.mpr ⟨place, h, rfl⟩
  rw [List.contains_iff_mem.mpr hcolumn] at hkey
  cases hkey

theorem mem_places {carried : String → List (RuleMetadata × String)} {col : ColumnValue}
    {value : String} (hcol : col ∈ event.columns) (htype : isScannableType col.typeName = true)
    (hvalue : col.value = some value) {m : RuleMetadata × String} (hm : m ∈ carried value)
    (hscope : inScope event m.1 col.name = true) : (col.name, m) ∈ places event carried := by
  refine List.mem_flatMap.mpr ⟨col, hcol, ?_⟩
  simp only [columnPlaces, htype, hvalue, Bool.not_true, Bool.false_eq_true, if_false]
  exact List.mem_map.mpr ⟨m, List.mem_filter.mpr ⟨hm, hscope⟩, rfl⟩

variable (event)

theorem places_sublist {carried carried' : String → List (RuleMetadata × String)}
    (h : ∀ value, (carried value).Sublist (carried' value)) :
    (places event carried).Sublist (places event carried') := by
  apply List.Sublist.flatMap_right
  intro col _
  unfold columnPlaces
  split
  · exact List.Sublist.refl _
  · cases col.value with
    | none => exact List.Sublist.refl _
    | some value => exact ((h value).filter _).map _

theorem places_perm {carried carried' : String → List (RuleMetadata × String)}
    (h : ∀ value, (carried value).Perm (carried' value)) :
    (places event carried).Perm (places event carried') := by
  apply List.Perm.flatMap_left
  intro col _
  unfold columnPlaces
  split
  · exact List.Perm.refl _
  · cases col.value with
    | none => exact List.Perm.refl _
    | some value => exact ((h value).filter _).map _

theorem keysOff_sublist {ps ps' : List Place} (h : ps ⊆ ps') :
    (keysOff event ps').Sublist (keysOff event ps) := by
  have hstrip : keysOff event ps' = (keysOff event ps).filter
      fun key => !(ps'.map Prod.fst).contains key.1 := by
    unfold keysOff
    rw [List.filter_filter]
    apply List.filter_congr
    intro key _
    cases hmem : (ps.map Prod.fst).contains key.1 with
    | false => rw [Bool.not_false, Bool.and_true]
    | true =>
      have hmore : key.1 ∈ ps'.map Prod.fst := List.map_subset _ h (List.contains_iff_mem.mp hmem)
      rw [List.contains_iff_mem.mpr hmore]
      rfl
  rw [hstrip]
  exact List.filter_sublist

theorem keysOff_congr {ps ps' : List Place} (h : ps.Perm ps') :
    keysOff event ps = keysOff event ps' := by
  unfold keysOff
  apply List.filter_congr
  intro key _
  have hmem : key.1 ∈ ps.map Prod.fst ↔ key.1 ∈ ps'.map Prod.fst := (h.map _).mem_iff
  simp only [List.contains_eq_mem, hmem]

end Places

section Lists
variable {cr : Crates} {files : Files} {configs more : List RuleConfig} {e e' : RuleEngine}

/-- The engine has the rule, and alone it finds the text in the value. -/
def FoundUnder (cr : Crates) (e : RuleEngine) (rule : RuleConfig) (value text : String) : Prop :=
  ∃ files configs, RuleEngine.new cr files configs = .ok e ∧ rule ∈ configs ∧
    (rule.metadata, text) ∈ scanAlone cr files value rule

/-- What a rule finds alone is found by every engine that has the rule. -/
theorem FoundUnder.carried (laws : RegexSetLaws cr) {rule : RuleConfig} {value text : String}
    (h : FoundUnder cr e rule value text) :
    (rule.metadata, text) ∈ (e.scanValue cr value).map RuleMatch.carried := by
  obtain ⟨files, configs, hnew, hrule, halone⟩ := h
  obtain ⟨i, hi⟩ := List.getElem?_of_mem hrule
  rw [← filter_scanValue_alone laws hnew hi] at halone
  obtain ⟨m, hm, heq⟩ := List.mem_map.mp halone
  exact List.mem_map.mpr ⟨m, List.mem_of_mem_filter hm, heq⟩

/-- A longer rule list finds all that a shorter one finds, in the same order, and shows
no more keys: no rule hides what another finds. -/
theorem more_rules_find_more (laws : RegexSetLaws cr) (h : RuleEngine.new cr files configs = .ok e)
    (h' : RuleEngine.new cr files more = .ok e') (hsub : configs.Sublist more)
    (event : ScanEvent) :
    ((scan cr e event).map Finding.withoutKeys).Sublist
        ((scan cr e' event).map Finding.withoutKeys) ∧
      ∀ f ∈ scan cr e event, ∀ f' ∈ scan cr e' event, f'.primaryKeys.Sublist f.primaryKeys := by
  have hcarried : ∀ value, ((e.scanValue cr value).map RuleMatch.carried).Sublist
      ((e'.scanValue cr value).map RuleMatch.carried) := by
    intro value
    rw [scanValue_carried laws h, scanValue_carried laws h']
    exact (((hsub.filter _).flatMap _).append ((hsub.filter _).flatMap _)).append
      ((hsub.filter _).flatMap _)
  have hplaces := places_sublist event hcarried
  rw [scan_places rfl, scan_places rfl]
  constructor
  · rw [List.map_map, List.map_map]
    exact hplaces.map _
  · intro f hf f' hf'
    obtain ⟨_, _, rfl⟩ := List.mem_map.mp hf
    obtain ⟨_, _, rfl⟩ := List.mem_map.mp hf'
    exact keysOff_sublist event hplaces.subset

theorem aloneByType_perm {value : String} (h : configs.Perm more) :
    (aloneByType cr files value configs).Perm (aloneByType cr files value more) :=
  (((h.filter _).flatMap_right _).append ((h.filter _).flatMap_right _)).append
    ((h.filter _).flatMap_right _)

theorem more_rules_find_more_ssn :
    ∃ e e', RuleEngine.new .sample sampleFiles [ssnRule] = .ok e ∧
      RuleEngine.new .sample sampleFiles [ssnRule, throwingRule, luhnRule] = .ok e' ∧
      ∀ event, ((scan .sample e event).map Finding.withoutKeys).Sublist
        ((scan .sample e' event).map Finding.withoutKeys) := by
  refine ⟨_, _, rfl, rfl, ?_⟩
  have hnew : RuleEngine.new .sample sampleFiles [ssnRule] = .ok _ := rfl
  have hmore : RuleEngine.new .sample sampleFiles [ssnRule, throwingRule, luhnRule] = .ok _ := rfl
  have hsub : [ssnRule].Sublist [ssnRule, throwingRule, luhnRule] :=
    (List.nil_sublist [throwingRule, luhnRule]).cons_cons ssnRule
  intro event
  exact (more_rules_find_more Crates.sample_laws hnew hmore hsub event).1

/-- The order in which rules are listed changes the order of the findings only: their
contents, their number and the keys they show stay the same. -/
theorem rule_order_irrelevant (laws : RegexSetLaws cr)
    (h : RuleEngine.new cr files configs = .ok e) (h' : RuleEngine.new cr files more = .ok e')
    (hperm : configs.Perm more) (event : ScanEvent) :
    (scan cr e event).Perm (scan cr e' event) := by
  have hcarried : ∀ value, ((e.scanValue cr value).map RuleMatch.carried).Perm
      ((e'.scanValue cr value).map RuleMatch.carried) := by
    intro value
    rw [scanValue_carried laws h, scanValue_carried laws h']
    exact aloneByType_perm hperm
  have hplaces := places_perm event hcarried
  rw [scan_places rfl, scan_places rfl]
  have hkeys := keysOff_congr event hplaces
  rw [hkeys]
  exact hplaces.map _

theorem rule_order_irrelevant_ssn :
    ∃ e e', RuleEngine.new .sample sampleFiles [ssnRule, luhnRule] = .ok e ∧
      RuleEngine.new .sample sampleFiles [luhnRule, ssnRule] = .ok e' ∧
      ∀ event, (scan .sample e event).Perm (scan .sample e' event) := by
  refine ⟨_, _, rfl, rfl, ?_⟩
  have hnew : RuleEngine.new .sample sampleFiles [ssnRule, luhnRule] = .ok _ := rfl
  have hother : RuleEngine.new .sample sampleFiles [luhnRule, ssnRule] = .ok _ := rfl
  exact rule_order_irrelevant Crates.sample_laws hnew hother (.swap luhnRule ssnRule [])

end Lists

section Allowlists
variable {cr : Crates} {files : Files} {configs : List RuleConfig} {e : RuleEngine}

def RuleConfig.withoutAllowlist (c : RuleConfig) : RuleConfig := { c with allowlist := none }

def CompiledRule.withoutAllowlist (rule : CompiledRule) : CompiledRule :=
  { rule with allowlist := none }

def RuleEngine.withoutAllowlists (e : RuleEngine) : RuleEngine :=
  { e with rules := e.rules.map CompiledRule.withoutAllowlist }

/-- The text of a match is on the allowlist of its rule. -/
def RuleEngine.allows (e : RuleEngine) (m : RuleMatch) : Bool :=
  (e.rules[m.ruleIdx]?).any fun rule => rule.isAllowed m.matchedText

theorem compileRule_withoutAllowlist {c : RuleConfig} {rule : CompiledRule}
    (h : compileRule cr files c = .ok rule) :
    compileRule cr files c.withoutAllowlist = .ok rule.withoutAllowlist := by
  obtain ⟨hscope, hkind, _, hmetadata⟩ := (compileRule_eq_ok cr files).mp h
  exact (compileRule_eq_ok cr files).mpr ⟨hscope, hkind, rfl, hmetadata⟩

theorem new_withoutAllowlists (h : RuleEngine.new cr files configs = .ok e) :
    RuleEngine.new cr files (configs.map RuleConfig.withoutAllowlist) =
      .ok e.withoutAllowlists := by
  obtain ⟨hrules, hset, hregex, hbuiltin, hscript⟩ := (new_eq_ok cr files).mp h
  have hpatterns : regexPatternsOf (configs.map RuleConfig.withoutAllowlist) =
      regexPatternsOf configs := by
    simp [regexPatternsOf, List.filter_map, Function.comp_def, RuleConfig.withoutAllowlist]
  have hindices : ∀ p : RuleKind → Bool,
      (e.rules.map CompiledRule.withoutAllowlist).findIdxs (fun rule => p rule.kind) =
        e.rules.findIdxs fun rule => p rule.kind := by
    intro p
    exact List.findIdxs_map ..
  apply (new_eq_ok cr files).mpr
  refine ⟨?_, by rw [hpatterns]; exact hset, hregex.trans (hindices _).symm,
    hbuiltin.trans (hindices _).symm, hscript.trans (hindices _).symm⟩
  rw [RuleEngine.withoutAllowlists, List.forall₂_map_left_iff, List.forall₂_map_right_iff]
  exact hrules.imp fun _ _ hc => compileRule_withoutAllowlist hc

theorem reports_withoutAllowlist (rule : CompiledRule) (value : String) (i : Nat) :
    rule.reports cr value i = (rule.withoutAllowlist.reports cr value i).filter
      fun m => !rule.isAllowed m.matchedText := by
  have haccepts : ∀ text, rule.accepts cr text =
      (!rule.isAllowed text && rule.withoutAllowlist.accepts cr text) := by
    intro text
    unfold CompiledRule.accepts CompiledRule.withoutAllowlist
    cases rule.kind with
    | regex regex validator => cases validator <;> simp [CompiledRule.isAllowed, Bool.and_comm]
    | builtin detector => simp [CompiledRule.isAllowed]
    | script ast => simp [CompiledRule.isAllowed]
  unfold CompiledRule.reports CompiledRule.scan
  rw [List.filter_map, List.filter_filter]
  have hfilter := List.filter_congr (l := rule.candidates cr value) fun text _ => haccepts text
  rw [hfilter]
  rfl

theorem phase_withoutAllowlists (e : RuleEngine) (p : RuleKind → Bool) (value : String) :
    (e.phase p).flatMap (fun x => x.1.reports cr value x.2) =
      ((e.withoutAllowlists.phase p).flatMap fun x => x.1.reports cr value x.2).filter
        fun m => !e.allows m := by
  have hphase : e.withoutAllowlists.phase p = (e.phase p).map fun x => (x.1.withoutAllowlist, x.2) := by
    unfold RuleEngine.phase RuleEngine.withoutAllowlists
    rw [List.zipIdx_map, List.filter_map]
    rfl
  rw [hphase, List.flatMap_map, List.filter_flatMap]
  apply List.flatMap_congr
  intro x hx
  obtain ⟨rule, i⟩ := x
  have hi : e.rules[i]? = some rule := by
    have hmem := (List.mem_filter.mp hx).1
    simpa using List.mem_zipIdx_iff_getElem?.mp hmem
  rw [reports_withoutAllowlist]
  apply List.filter_congr
  intro m hm
  obtain ⟨text, _, rfl⟩ := List.mem_map.mp hm
  simp [RuleEngine.allows, hi]

/-- Allowlists only take away: a rule list reports what it would report without any
allowlist, less the texts on the allowlist of the rule that found them. -/
theorem allowlists_only_filter (laws : RegexSetLaws cr)
    (h : RuleEngine.new cr files configs = .ok e) :
    RuleEngine.new cr files (configs.map RuleConfig.withoutAllowlist) = .ok e.withoutAllowlists ∧
      ∀ value, e.scanValue cr value =
        (e.withoutAllowlists.scanValue cr value).filter fun m => !e.allows m := by
  have hbare := new_withoutAllowlists h
  refine ⟨hbare, ?_⟩
  intro value
  rw [scanValue_built laws h, scanValue_built laws hbare, List.filter_append, List.filter_append,
    phase_withoutAllowlists e RuleKind.isRegex, phase_withoutAllowlists e RuleKind.isBuiltin,
    phase_withoutAllowlists e RuleKind.isScript]

/-- A rule for social security numbers that knows one of them to be harmless. -/
def allowingRule : RuleConfig :=
  { ssnRule with
    allowlist := some { description := none, values := ["219-09-9999"], patterns := [] } }

theorem allowlists_only_filter_ssn :
    ∃ e, RuleEngine.new .sample sampleFiles [allowingRule] = .ok e ∧
      ∀ value, e.scanValue .sample value =
        (e.withoutAllowlists.scanValue .sample value).filter fun m => !e.allows m := by
  refine ⟨_, rfl, ?_⟩
  have hnew : RuleEngine.new .sample sampleFiles [allowingRule] = .ok _ := rfl
  exact (allowlists_only_filter Crates.sample_laws hnew).2

end Allowlists

end PgSense
