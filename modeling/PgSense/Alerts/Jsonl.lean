import PgSense.Library.Json
import PgSense.Scanner
import Std.Data.ExtTreeMap

/-! The payload of an alert, its two derived `serde` implementations, and the JSONL
channel that appends one payload a line. -/

namespace PgSense
open Library
set_option autoImplicit false

abbrev BTreeMap := Std.ExtTreeMap String String compare

/-- `serde_json`: the text of a value, and the value of a text. -/
structure SerdeJson where
  toText : JsonValue → String
  fromText : String → Except String JsonValue

/-- A value within the limits of the reader is read back from its text, in which no
control character is left unescaped. -/
structure SerdeJson.Laws (json : SerdeJson) : Prop where
  fromText_toText : ∀ v, v.readable 127 = true → json.fromText (json.toText v) = .ok v
  printable : ∀ v, ∀ c ∈ (json.toText v).toList, 32 ≤ c.toNat

structure AlertPayload where
  database : String
  ruleId : String
  description : String
  category : String
  severity : String
  schemaName : String
  tableName : String
  columnName : String
  maskedSample : String
  primaryKey : BTreeMap
  lsn : Nat
  timestamp : String

/-- A string field of a struct being deserialized, by its name. -/
def stringField (fields : List (String × JsonValue)) (name : String) : Except String String :=
  match fields.filter fun field => field.1 == name with
  | [] => .error ("missing field `" ++ name ++ "`")
  | [(_, .string s)] => .ok s
  | [_] => .error "invalid type: expected a string"
  | _ => .error ("duplicate field `" ++ name ++ "`")

def u64Field (fields : List (String × JsonValue)) (name : String) : Except String Nat :=
  match fields.filter fun field => field.1 == name with
  | [] => .error ("missing field `" ++ name ++ "`")
  | [(_, .number n)] => if n ≤ 0xFFFFFFFFFFFFFFFF then .ok n else .error "invalid value: expected u64"
  | [_] => .error "invalid type: expected u64"
  | _ => .error ("duplicate field `" ++ name ++ "`")

def stringEntry : String × JsonValue → Except String (String × String)
  | (key, .string s) => .ok (key, s)
  | _ => .error "invalid type: expected a string"

def mapField (fields : List (String × JsonValue)) (name : String) : Except String BTreeMap :=
  match fields.filter fun field => field.1 == name with
  | [] => .error ("missing field `" ++ name ++ "`")
  | [(_, .object entries)] => (entries.mapM stringEntry).map fun entries => .ofList entries
  | [_] => .error "invalid type: expected a map"
  | _ => .error ("duplicate field `" ++ name ++ "`")

namespace AlertPayload

/-- `From<&Finding>`; the time of the call is given as text. -/
def ofFinding (finding : Finding) (now : String) : AlertPayload where
  database := finding.database
  ruleId := finding.ruleId
  description := finding.description
  category := finding.category
  severity := finding.severity.display
  schemaName := finding.schemaName
  tableName := finding.tableName
  columnName := finding.columnName
  maskedSample := finding.maskedSample
  primaryKey := .ofList finding.primaryKeys
  lsn := finding.lsn
  timestamp := now

variable (p : AlertPayload)

def keyFields : List (String × JsonValue) :=
  -- `skip_serializing_if = "BTreeMap::is_empty"`
  if p.primaryKey.isEmpty then []
  else [("primary_key", .object (p.primaryKey.toList.map fun entry => (entry.1, .string entry.2)))]

def fields : List (String × JsonValue) :=
  [("database", .string p.database), ("rule_id", .string p.ruleId),
    ("description", .string p.description), ("category", .string p.category),
    ("severity", .string p.severity), ("schema_name", .string p.schemaName),
    ("table_name", .string p.tableName), ("column_name", .string p.columnName),
    ("masked_sample", .string p.maskedSample)] ++
  p.keyFields ++
  [("lsn", .number p.lsn), ("timestamp", .string p.timestamp)]

/-- The derived `Serialize`. -/
def serialize : JsonValue := .object p.fields

/-- The derived `Deserialize`: unknown fields are skipped, and no field has a default. -/
def deserialize : JsonValue → Except String AlertPayload
  | .object fields => do
    let database ← stringField fields "database"
    let ruleId ← stringField fields "rule_id"
    let description ← stringField fields "description"
    let category ← stringField fields "category"
    let severity ← stringField fields "severity"
    let schemaName ← stringField fields "schema_name"
    let tableName ← stringField fields "table_name"
    let columnName ← stringField fields "column_name"
    let maskedSample ← stringField fields "masked_sample"
    let primaryKey ← mapField fields "primary_key"
    let lsn ← u64Field fields "lsn"
    let timestamp ← stringField fields "timestamp"
    .ok {
      database, ruleId, description, category, severity, schemaName, tableName, columnName,
      maskedSample, primaryKey, lsn, timestamp }
  | _ => .error "invalid type: expected struct AlertPayload"

def fromStr (json : SerdeJson) (text : String) : Except String AlertPayload :=
  (json.fromText text).bind deserialize

theorem stringEntry_mapM (entries : List (String × String)) :
    (entries.map fun entry => (entry.1, JsonValue.string entry.2)).mapM stringEntry =
      .ok entries := by
  induction entries with
  | nil => rfl
  | cons entry entries ih =>
    rw [List.map_cons, List.mapM_cons, ih]
    rfl

theorem ofList_toList (m : BTreeMap) : (Std.ExtTreeMap.ofList m.toList compare : BTreeMap) = m := by
  apply Std.ExtTreeMap.ext_getElem?
  intro k
  cases hk : m[k]? with
  | none =>
    apply Std.ExtTreeMap.getElem?_ofList_of_contains_eq_false
    rw [Std.ExtTreeMap.map_fst_toList_eq_keys]
    simpa using hk
  | some v =>
    have hmem := Std.ExtTreeMap.mem_toList_iff_getElem?_eq_some.mpr hk
    exact Std.ExtTreeMap.getElem?_ofList_of_mem (by simp) Std.ExtTreeMap.distinct_keys_toList hmem

variable {fs : List (String × JsonValue)} {name : String}

theorem filter_name (hnames : (fs.map Prod.fst).Nodup) {value : JsonValue}
    (hmem : (name, value) ∈ fs) : (fs.filter fun field => field.1 == name) = [(name, value)] := by
  induction fs with
  | nil => cases hmem
  | cons field fs ih =>
    rw [List.map_cons, List.nodup_cons] at hnames
    obtain ⟨hnew, hnames⟩ := hnames
    rcases List.mem_cons.mp hmem with heq | hmem
    · have hrest : (fs.filter fun field => field.1 == name) = [] := by
        rw [List.filter_eq_nil_iff]
        intro other hother heq'
        apply hnew
        rw [← heq]
        exact List.mem_map.mpr ⟨other, hother, eq_of_beq heq'⟩
      rw [← heq, List.filter_cons_of_pos (by simp), hrest]
    · have hne : ¬ (field.1 == name) = true := by
        intro heq
        apply hnew
        exact List.mem_map.mpr ⟨(name, value), hmem, (eq_of_beq heq).symm⟩
      rw [List.filter_cons, if_neg hne, ih hnames hmem]

theorem stringField_of_mem (hnames : (fs.map Prod.fst).Nodup) {s : String}
    (hmem : (name, .string s) ∈ fs) : stringField fs name = .ok s := by
  unfold stringField
  rw [filter_name hnames hmem]

theorem u64Field_of_mem (hnames : (fs.map Prod.fst).Nodup) {n : Nat} (hn : n ≤ 0xFFFFFFFFFFFFFFFF)
    (hmem : (name, .number n) ∈ fs) : u64Field fs name = .ok n := by
  unfold u64Field
  rw [filter_name hnames hmem]
  exact if_pos hn

theorem mapField_of_mem (hnames : (fs.map Prod.fst).Nodup) {m : BTreeMap}
    (hmem : (name, .object (m.toList.map fun entry => (entry.1, .string entry.2))) ∈ fs) :
    mapField fs name = .ok m := by
  unfold mapField
  rw [filter_name hnames hmem]
  dsimp only
  rw [stringEntry_mapM]
  exact congrArg Except.ok (ofList_toList m)

theorem mapField_missing (h : name ∉ fs.map Prod.fst) :
    mapField fs name = .error ("missing field `" ++ name ++ "`") := by
  have hnone : (fs.filter fun field => field.1 == name) = [] := by
    rw [List.filter_eq_nil_iff]
    intro field hfield heq
    apply h
    exact List.mem_map.mpr ⟨field, hfield, eq_of_beq heq⟩
  unfold mapField
  rw [hnone]

theorem fields_nodup : (p.fields.map Prod.fst).Nodup := by
  unfold fields keyFields
  cases p.primaryKey.isEmpty <;> simp

theorem stringFields :
    stringField p.fields "database" = .ok p.database ∧
    stringField p.fields "rule_id" = .ok p.ruleId ∧
    stringField p.fields "description" = .ok p.description ∧
    stringField p.fields "category" = .ok p.category ∧
    stringField p.fields "severity" = .ok p.severity ∧
    stringField p.fields "schema_name" = .ok p.schemaName ∧
    stringField p.fields "table_name" = .ok p.tableName ∧
    stringField p.fields "column_name" = .ok p.columnName ∧
    stringField p.fields "masked_sample" = .ok p.maskedSample ∧
    stringField p.fields "timestamp" = .ok p.timestamp := by
  refine ⟨?_, ?_, ?_, ?_, ?_, ?_, ?_, ?_, ?_, ?_⟩ <;>
    exact stringField_of_mem p.fields_nodup (by simp [fields])

/-- The encoder leaves an empty key map out, and the decoder requires it. -/
theorem deserialize_serialize (h : p.lsn ≤ 0xFFFFFFFFFFFFFFFF) :
    deserialize p.serialize =
      if p.primaryKey.isEmpty then .error "missing field `primary_key`" else .ok p := by
  obtain ⟨hdatabase, hrule, hdescription, hcategory, hseverity, hschema, htable, hcolumn,
    hsample, htimestamp⟩ := p.stringFields
  have hlsn : u64Field p.fields "lsn" = .ok p.lsn :=
    u64Field_of_mem p.fields_nodup h (by simp [fields])
  have hkey : mapField p.fields "primary_key" =
      if p.primaryKey.isEmpty then .error "missing field `primary_key`" else .ok p.primaryKey := by
    cases hempty : p.primaryKey.isEmpty with
    | true =>
      apply mapField_missing
      simp [fields, keyFields, hempty]
    | false =>
      apply mapField_of_mem p.fields_nodup
      simp [fields, keyFields, hempty]
  simp only [serialize, deserialize, hdatabase, hrule, hdescription, hcategory, hseverity, hschema,
    htable, hcolumn, hsample, hkey, hlsn, htimestamp]
  cases p.primaryKey.isEmpty <;> rfl

theorem serialize_readable (h : p.lsn ≤ 0xFFFFFFFFFFFFFFFF) : p.serialize.readable 127 = true := by
  have hkeys : (p.keyFields.all fun field => field.2.readable 126) = true := by
    unfold keyFields
    split
    · rfl
    · simp [JsonValue.readable]
  have hlsn : decide (p.lsn ≤ 0xFFFFFFFFFFFFFFFF) = true := decide_eq_true h
  simp only [serialize, fields, JsonValue.readable, List.all_append, List.all_cons, List.all_nil,
    hkeys, hlsn, Bool.and_self]

theorem ofFinding_isEmpty (finding : Finding) (now : String) :
    (ofFinding finding now).primaryKey.isEmpty = finding.primaryKeys.isEmpty := by
  unfold ofFinding
  rw [Std.ExtTreeMap.ofList_eq_insertMany_empty, Std.ExtTreeMap.isEmpty_insertMany_list]
  simp

end AlertPayload

/-- What `BufRead::lines` yields, for a text without carriage returns. -/
def textLines (text : String) : List String :=
  let parts := text.toList.splitOn '\n'
  (if parts.getLast? = some [] then parts.dropLast else parts).map String.ofList

/-- The file behind the writer. -/
structure JsonlChannel where
  text : String

namespace JsonlChannel

/-- A `send` whose write and flush succeed. -/
def send (json : SerdeJson) (ch : JsonlChannel) (finding : Finding) (now : String) : JsonlChannel :=
  ⟨ch.text ++ (json.toText (AlertPayload.ofFinding finding now).serialize).push '\n'⟩

/-- Findings are sent one after the other, each at its own time. -/
def sendAll (json : SerdeJson) (ch : JsonlChannel) (sends : List (Finding × String)) : JsonlChannel :=
  sends.foldl (fun ch s => ch.send json s.1 s.2) ch

/-- The line of one send, without its newline. -/
def line (json : SerdeJson) (s : Finding × String) : String :=
  json.toText (AlertPayload.ofFinding s.1 s.2).serialize

variable {json : SerdeJson}

theorem sendAll_text (ch : JsonlChannel) (sends : List (Finding × String)) :
    (ch.sendAll json sends).text =
      ch.text ++ String.ofList (sends.flatMap fun s => (line json s).toList ++ ['\n']) := by
  induction sends generalizing ch with
  | nil => simp [sendAll]
  | cons s sends ih =>
    have hstep : ch.sendAll json (s :: sends) = (ch.send json s.1 s.2).sendAll json sends := rfl
    rw [hstep, ih]
    apply String.toList_inj.mp
    simp [send, line]

/-- A text of newline-free lines, each closed by a newline, splits into them. -/
theorem textLines_join (lines : List String) (h : ∀ l ∈ lines, '\n' ∉ l.toList) :
    textLines (String.ofList (lines.flatMap fun l => l.toList ++ ['\n'])) = lines := by
  have hsplit : (lines.flatMap fun l => l.toList ++ ['\n']).splitOn '\n' =
      lines.map String.toList ++ [[]] := by
    induction lines with
    | nil => rfl
    | cons l lines ih =>
      rw [List.flatMap_cons, List.append_assoc, List.singleton_append,
        List.splitOn_append_cons_self_of_not_mem (h l List.mem_cons_self),
        ih fun l' hl' => h l' (List.mem_cons_of_mem l hl')]
      rfl
  unfold textLines
  rw [String.toList_ofList, hsplit]
  simp

theorem line_newline (hjson : json.Laws) (s : Finding × String) : '\n' ∉ (line json s).toList := by
  intro hmem
  have hprintable := hjson.printable _ _ hmem
  exact absurd hprintable (by decide)

theorem fromStr_line (hjson : json.Laws) {s : Finding × String} (h : s.1.lsn ≤ 0xFFFFFFFFFFFFFFFF) :
    AlertPayload.fromStr json (line json s) =
      if s.1.primaryKeys.isEmpty then .error "missing field `primary_key`"
      else .ok (AlertPayload.ofFinding s.1 s.2) := by
  unfold AlertPayload.fromStr line
  rw [hjson.fromText_toText _ (AlertPayload.serialize_readable _ h)]
  simp only [Except.bind]
  rw [AlertPayload.deserialize_serialize _ h, AlertPayload.ofFinding_isEmpty]

/-- Each send appends one line, and the lines read back as the payloads exactly when
every finding carries a primary key. -/
theorem lines_read_back_iff (hjson : json.Laws) (ch : JsonlChannel)
    {sends : List (Finding × String)} (hlsn : ∀ s ∈ sends, s.1.lsn ≤ 0xFFFFFFFFFFFFFFFF) :
    ∃ text, (ch.sendAll json sends).text = ch.text ++ text ∧
      (textLines text).length = sends.length ∧
      ((textLines text).map (AlertPayload.fromStr json) =
          sends.map (fun s => .ok (AlertPayload.ofFinding s.1 s.2)) ↔
        ∀ s ∈ sends, s.1.primaryKeys ≠ []) := by
  have hlines := textLines_join (sends.map (line json)) (by
    intro l hl
    obtain ⟨s, _, rfl⟩ := List.mem_map.mp hl
    exact line_newline hjson s)
  rw [List.flatMap_map] at hlines
  refine ⟨_, sendAll_text ch sends, ?_, ?_⟩
  · rw [hlines, List.length_map]
  · rw [hlines, List.map_map, List.map_inj_left]
    constructor
    · intro hall s hs hnil
      have hread := hall s hs
      rw [Function.comp_apply, fromStr_line hjson (hlsn s hs), hnil] at hread
      cases hread
    · intro hall s hs
      rw [Function.comp_apply, fromStr_line hjson (hlsn s hs)]
      have hne : s.1.primaryKeys.isEmpty = false := by simpa using hall s hs
      rw [hne]
      rfl

section Sample

/-- The compact text of `JsonValue`. -/
def compactJson : SerdeJson where
  toText v := String.ofList v.render
  fromText text := (JsonValue.parse text.toList).elim (.error "expected value") .ok

theorem compactJson_laws : compactJson.Laws := by
  constructor
  · intro v _
    simp [compactJson, JsonValue.parse_render]
  · intro v c hc
    apply JsonValue.render_printable v
    simpa [compactJson] using hc

def keylessFinding : Finding where
  database := "localhost/shop"
  ruleId := "email"
  description := "Email address"
  category := "pii"
  severity := .medium
  schemaName := "public"
  tableName := "customers"
  columnName := "email"
  maskedSample := "us***om"
  valueHash := 7
  primaryKeys := []
  lsn := 1
  channels := none

/-- A finding whose keys were all stripped is written and cannot be read back. -/
theorem keyless_line_unreadable :
    ∃ text, ((JsonlChannel.mk "").sendAll compactJson [(keylessFinding, "t")]).text = "" ++ text ∧
      (textLines text).map (AlertPayload.fromStr compactJson) =
        [.error "missing field `primary_key`"] := by
  refine ⟨_, sendAll_text ⟨""⟩ _, ?_⟩
  have hlines := textLines_join [line compactJson (keylessFinding, "t")] (by
    intro l hl
    rw [List.mem_singleton.mp hl]
    exact line_newline compactJson_laws _)
  rw [List.flatMap_singleton] at hlines ⊢
  rw [hlines, List.map_singleton, fromStr_line compactJson_laws (by decide)]
  rfl

def keyedFinding : Finding := { keylessFinding with primaryKeys := [("id", "1"), ("a\nb", "\"")] }

theorem lines_read_back_iff_two :
    ∃ text, ((JsonlChannel.mk "").sendAll compactJson
        [(keyedFinding, "t"), (keylessFinding, "u")]).text = "" ++ text ∧
      (textLines text).length = 2 ∧
      ((textLines text).map (AlertPayload.fromStr compactJson) =
          [.ok (AlertPayload.ofFinding keyedFinding "t"),
            .ok (AlertPayload.ofFinding keylessFinding "u")] ↔
        ∀ s ∈ [(keyedFinding, "t"), (keylessFinding, "u")], s.1.primaryKeys ≠ []) :=
  lines_read_back_iff compactJson_laws ⟨""⟩ (by decide)

end Sample

end JsonlChannel

end PgSense
