import PgSense.Events
import PgSense.Rules.Masking
import PgSense.Rules.PerRule

/-! The scanner: one event against the rule engine, and the primary keys that
its findings echo. -/

namespace PgSense
set_option autoImplicit false

structure ScanFilter where
  includeSchemas : PatternMatcher
  excludeTables : PatternMatcher
  excludeColumns : PatternMatcher

namespace ScanFilter
variable (filter : ScanFilter)

def matchesSchema (schema : String) : Bool :=
  filter.includeSchemas.isEmpty || filter.includeSchemas.isMatch schema

def matchesTable (table : String) : Bool := !filter.excludeTables.isMatch table

def shouldIncludeColumn (column : String) : Bool := !filter.excludeColumns.isMatch column

end ScanFilter

structure Finding where
  database : String
  ruleId : String
  description : String
  category : String
  severity : Severity
  schemaName : String
  tableName : String
  columnName : String
  maskedSample : String
  valueHash : UInt64
  primaryKeys : List (String × String)
  lsn : Nat
  channels : Option (List String)
  deriving DecidableEq, Repr

section Scan
variable (cr : Crates) (engine : RuleEngine) (event : ScanEvent)

def inScope (rule : RuleMetadata) (column : String) : Bool :=
  match rule.scope with
  | some scope => scope.matches event.schemaName event.tableName column
  | none => true

/-- A match in the column named `column`. The source keeps it only as the finding
made from it. -/
structure Hit where
  column : String
  found : RuleMatch

/-- The two loops of `Scanner::scan`. -/
def hits : List Hit :=
  event.columns.flatMap fun col =>
    if !isScannableType col.typeName then []
    else match col.value with
      | none => []
      | some value =>
        ((engine.scanValue cr value).filter fun m => inScope event m.rule col.name).map
          fun m => ⟨col.name, m⟩

def Hit.finding (hit : Hit) : Finding where
  database := event.database
  ruleId := hit.found.rule.id
  description := hit.found.rule.description
  category := hit.found.rule.category
  severity := hit.found.rule.severity
  schemaName := event.schemaName
  tableName := event.tableName
  columnName := hit.column
  maskedSample := mask hit.found.matchedText
  valueHash := cr.hashOne hit.found.matchedText
  primaryKeys := event.primaryKeys
  lsn := event.commitLsn
  channels := hit.found.rule.channels

def scan : List Finding :=
  let findings := (hits cr engine event).map (Hit.finding cr event)
  let matchedColumns := findings.map Finding.columnName
  findings.map fun f =>
    { f with primaryKeys := f.primaryKeys.filter fun key => !matchedColumns.contains key.1 }

def matchedColumns : List String := (hits cr engine event).map Hit.column

def echoedKeys : List (String × String) :=
  event.primaryKeys.filter fun key => !(matchedColumns cr engine event).contains key.1

/-- One finding for each hit, in order, all with the same keys. -/
theorem scan_eq : scan cr engine event = (hits cr engine event).map fun hit =>
    { hit.finding cr event with primaryKeys := echoedKeys cr engine event } := by
  simp only [scan, List.map_map]
  rfl

/-- An in-scope match with the given text in a column with the given name. -/
def HasMatch (column text : String) : Prop :=
  ∃ col ∈ event.columns, col.name = column ∧ isScannableType col.typeName = true ∧
    ∃ value, col.value = some value ∧ ∃ m ∈ engine.scanValue cr value,
      inScope event m.rule column = true ∧ m.matchedText = text

variable {cr engine event}

theorem exists_hit_iff {column text : String} :
    (∃ hit ∈ hits cr engine event, hit.column = column ∧ hit.found.matchedText = text) ↔
      HasMatch cr engine event column text := by
  simp only [hits, List.mem_flatMap, HasMatch]
  constructor
  · intro hexists
    obtain ⟨hit, ⟨col, hcol, hmem⟩, rfl, rfl⟩ := hexists
    cases ht : isScannableType col.typeName with
    | false => simp [ht] at hmem
    | true =>
      cases hv : col.value with
      | none => simp [ht, hv] at hmem
      | some value =>
        simp only [ht, hv, Bool.not_true, Bool.false_eq_true, if_false, List.mem_map,
          List.mem_filter] at hmem
        obtain ⟨m, ⟨hm, hscope⟩, rfl⟩ := hmem
        exact ⟨col, hcol, rfl, ht, value, hv, m, hm, hscope, rfl⟩
  · intro hmatch
    obtain ⟨col, hcol, rfl, ht, value, hv, m, hm, hscope, rfl⟩ := hmatch
    refine ⟨⟨col.name, m⟩, ⟨col, hcol, ?_⟩, rfl, rfl⟩
    simp only [ht, hv, Bool.not_true, Bool.false_eq_true, if_false, List.mem_map,
      List.mem_filter]
    exact ⟨m, ⟨hm, hscope⟩, rfl⟩

theorem mem_matchedColumns_iff {column : String} :
    column ∈ matchedColumns cr engine event ↔ ∃ text, HasMatch cr engine event column text := by
  simp only [matchedColumns, List.mem_map, ← exists_hit_iff]
  constructor
  · intro hcolumn
    obtain ⟨hit, hmem, hcol⟩ := hcolumn
    exact ⟨_, hit, hmem, hcol, rfl⟩
  · intro htext
    obtain ⟨_, hit, hmem, hcol, _⟩ := htext
    exact ⟨hit, hmem, hcol⟩

theorem mem_echoedKeys_iff {key : String × String} :
    key ∈ echoedKeys cr engine event ↔
      key ∈ event.primaryKeys ∧ ∀ text, ¬ HasMatch cr engine event key.1 text := by
  simp only [echoedKeys, List.mem_filter, Bool.not_eq_true', List.contains_eq_mem,
    decide_eq_false_iff_not, mem_matchedColumns_iff, not_exists]

variable (cr engine event)

/-- The echoed keys are free of matched texts exactly when every key value that
is matched somewhere sits in a column with a match of its own. -/
theorem echoed_keys_free_iff :
    (∀ f ∈ scan cr engine event, ∀ key ∈ f.primaryKeys, ∀ hit ∈ hits cr engine event,
        key.2 ≠ hit.found.matchedText) ↔
      ∀ key ∈ event.primaryKeys, (∃ column, HasMatch cr engine event column key.2) →
        ∃ text, HasMatch cr engine event key.1 text := by
  rw [scan_eq]
  constructor
  · intro hfree key hkey ⟨column, hmatch⟩
    obtain ⟨hit, hhit, _, htext⟩ := exists_hit_iff.mpr hmatch
    by_contra hnone
    have hechoed : key ∈ echoedKeys cr engine event :=
      mem_echoedKeys_iff.mpr ⟨hkey, not_exists.mp hnone⟩
    exact hfree _ (List.mem_map.mpr ⟨hit, hhit, rfl⟩) key hechoed hit hhit htext.symm
  · intro hcovered f hf key hkey hit hhit heq
    obtain ⟨_, _, rfl⟩ := List.mem_map.mp hf
    obtain ⟨hkey, hnone⟩ := mem_echoedKeys_iff.mp hkey
    obtain ⟨text, hmatch⟩ :=
      hcovered key hkey ⟨hit.column, exists_hit_iff.mp ⟨hit, hhit, rfl, heq.symm⟩⟩
    exact hnone text hmatch

end Scan

section Sample

def scopedSsnRule : RuleConfig :=
  { ssnRule with
    scope := some { RuleScope.empty with includeColumns := ⟨["ssn"], [.exact "ssn"]⟩ } }

/-- A table with `REPLICA IDENTITY FULL`: both text columns are key columns. -/
def customers : ReplicatedTableSchema where
  id := 1
  schemaName := "public"
  tableName := "customers"
  columnSchemas := [⟨"ssn", "text", true⟩, ⟨"previous_ssn", "text", true⟩]

def customerInsert : InsertEvent where
  schema := customers
  tableRow := [.string "219-09-9999", .string "219-09-9999"]
  startLsn := 0
  commitLsn := 0

/-- The rule matches in `ssn`, and the key column `previous_ssn`, which is out of
its scope, echoes the same value. -/
theorem ssn_leaks_through_second_key :
    ∃ e, RuleEngine.new .sample sampleFiles [scopedSsnRule] = .ok e ∧
      ∃ f ∈ scan .sample e (fromInsert customerInsert "db"), ∃ key ∈ f.primaryKeys,
        ∃ hit ∈ hits .sample e (fromInsert customerInsert "db"),
          key.2 = hit.found.matchedText := by
  refine ⟨_, rfl, ?_⟩
  decide +kernel

end Sample

end PgSense
