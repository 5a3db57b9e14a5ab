import Mathlib.Data.List.Forall2

/-! Replicated rows and the scan events extracted from them. -/

namespace PgSense
set_option autoImplicit false

def nonTextTypes : List String :=
  ["bool", "int2", "int4", "int8", "float4", "float8", "numeric", "oid", "bytea", "uuid", "date",
    "time", "timetz", "timestamp", "timestamptz", "interval"]

def isScannableType (typeName : String) : Bool := !nonTextTypes.contains typeName

inductive Action where
  | insert
  | update
  deriving DecidableEq, Repr

/-- A float, decimal, time or UUID value, known by its `Display` text. -/
structure Displayed where
  text : String
  deriving DecidableEq, Repr

instance : ToString Displayed := ⟨Displayed.text⟩

/-- A `serde_json::Value`. Only strings are taken apart. -/
inductive Json where
  | string (s : String)
  | other (value : Displayed)
  deriving DecidableEq, Repr

/-- A character inside the quotes of a JSON string. -/
def jsonEscape (c : Char) : String :=
  match c.toNat with
  | 34 => "\\\""
  | 92 => "\\\\"
  | 8 => "\\b"
  | 9 => "\\t"
  | 10 => "\\n"
  | 12 => "\\f"
  | 13 => "\\r"
  | n =>
    if n < 32 then "\\u00" ++ String.ofList [Nat.digitChar (n / 16), Nat.digitChar (n % 16)]
    else c.toString

instance : ToString Json where
  toString
    | .string s => "\"" ++ String.join (s.toList.map jsonEscape) ++ "\""
    | .other v => v.text

inductive ArrayCell where
  | bool (items : List (Option Bool))
  | string (items : List (Option String))
  | i16 (items : List (Option Int))
  | i32 (items : List (Option Int))
  | u32 (items : List (Option Nat))
  | i64 (items : List (Option Int))
  | f32 (items : List (Option Displayed))
  | f64 (items : List (Option Displayed))
  | numeric (items : List (Option Displayed))
  | date (items : List (Option Displayed))
  | time (items : List (Option Displayed))
  | timestamp (items : List (Option Displayed))
  | timestampTz (items : List (Option Displayed))
  | uuid (items : List (Option Displayed))
  | json (items : List (Option Json))
  | bytes (items : List (Option (List UInt8)))
  deriving DecidableEq, Repr

inductive Cell where
  | null
  | bool (b : Bool)
  | string (s : String)
  | i16 (n : Int)
  | i32 (n : Int)
  | u32 (n : Nat)
  | i64 (n : Int)
  | f32 (n : Displayed)
  | f64 (n : Displayed)
  | numeric (n : Displayed)
  | date (d : Displayed)
  | time (t : Displayed)
  | timestamp (ts : Displayed)
  | timestampTz (ts : Displayed)
  | uuid (u : Displayed)
  | json (j : Json)
  | bytes (bs : List UInt8)
  | array (arr : ArrayCell)
  deriving DecidableEq, Repr

def formatArray {α : Type} [ToString α] (values : List (Option α)) : String :=
  ",".intercalate (values.map fun v =>
    match v with
    | some val => toString val
    | none => "NULL")

def arrayCellToString (arr : ArrayCell) : String :=
  let inner := match arr with
    | .bool v => formatArray v
    | .string v => formatArray v
    | .i16 v => formatArray v
    | .i32 v => formatArray v
    | .u32 v => formatArray v
    | .i64 v => formatArray v
    | .f32 v => formatArray v
    | .f64 v => formatArray v
    | .numeric v => formatArray v
    | .date v => formatArray v
    | .time v => formatArray v
    | .timestamp v => formatArray v
    | .timestampTz v => formatArray v
    | .uuid v => formatArray v
    | .json v => formatArray v
    | .bytes v => formatArray (v.map fun val => val.map fun _ => "<bytes>")
  "\x7b" ++ inner ++ "\x7d"

def cellToString : Cell → Option String
  | .null => none
  | .bool b => some (toString b)
  | .string s => some s
  | .i16 n => some (toString n)
  | .i32 n => some (toString n)
  | .u32 n => some (toString n)
  | .i64 n => some (toString n)
  | .f32 n => some n.text
  | .f64 n => some n.text
  | .numeric n => some n.text
  | .date d => some d.text
  | .time t => some t.text
  | .timestamp ts => some ts.text
  | .timestampTz ts => some ts.text
  | .uuid u => some u.text
  | .json j => some (toString j)
  | .bytes _ => none
  | .array arr => some (arrayCellToString arr)

structure ColumnSchema where
  name : String
  typeName : String
  primaryKey : Bool
  deriving DecidableEq, Repr

structure ReplicatedTableSchema where
  id : Nat
  schemaName : String
  tableName : String
  columnSchemas : List ColumnSchema
  deriving DecidableEq, Repr

structure InsertEvent where
  schema : ReplicatedTableSchema
  tableRow : List Cell
  startLsn : Nat
  commitLsn : Nat
  deriving DecidableEq, Repr

/-- The new row of an update. A partial row lists the positions it lacks. -/
inductive UpdatedTableRow where
  | full (values : List Cell)
  | partialRow (values : List Cell) (missingColumnIndexes : List Nat)
  deriving DecidableEq, Repr

structure UpdateEvent where
  schema : ReplicatedTableSchema
  updatedTableRow : UpdatedTableRow
  startLsn : Nat
  commitLsn : Nat
  deriving DecidableEq, Repr

/-- `other` stands for begin, commit, delete, relation and truncate events. -/
inductive Event where
  | insert (event : InsertEvent)
  | update (event : UpdateEvent)
  | other
  deriving DecidableEq, Repr

structure ColumnValue where
  name : String
  typeName : String
  value : Option String
  deriving DecidableEq, Repr

structure ScanEvent where
  database : String
  tableId : Nat
  schemaName : String
  tableName : String
  action : Action
  columns : List ColumnValue
  /-- With `REPLICA IDENTITY FULL` every column is marked as primary. -/
  primaryKeys : List (String × String)
  startLsn : Nat
  commitLsn : Nat
  deriving DecidableEq, Repr

/-- The loop of `extract`: the column values, and the non-null key cells. -/
def extract : List (ColumnSchema × Cell) → List ColumnValue × List (String × String)
  | [] => ([], [])
  | (col, cell) :: pairs =>
    let (columns, primaryKeys) := extract pairs
    let value := if isScannableType col.typeName then cellToString cell else none
    let key := if col.primaryKey then (cellToString cell).toList.map fun v => (col.name, v) else []
    (⟨col.name, col.typeName, value⟩ :: columns, key ++ primaryKeys)

def fromInsert (event : InsertEvent) (database : String) : ScanEvent :=
  let (columns, primaryKeys) := extract (event.schema.columnSchemas.zip event.tableRow)
  { database
    tableId := event.schema.id
    schemaName := event.schema.schemaName
    tableName := event.schema.tableName
    action := .insert
    columns
    primaryKeys
    startLsn := event.startLsn
    commitLsn := event.commitLsn }

/-- The columns a row has values for, in replicated-column order. -/
def presentColumns (schema : ReplicatedTableSchema) : UpdatedTableRow → List ColumnSchema
  | .full _ => schema.columnSchemas
  | .partialRow _ missing =>
    schema.columnSchemas.zipIdx.filterMap fun (col, i) =>
      if missing.contains i then none else some col

def UpdatedTableRow.values : UpdatedTableRow → List Cell
  | full values => values
  | partialRow values _ => values

def fromUpdate (event : UpdateEvent) (database : String) : ScanEvent :=
  let (columns, primaryKeys) :=
    extract ((presentColumns event.schema event.updatedTableRow).zip event.updatedTableRow.values)
  { database
    tableId := event.schema.id
    schemaName := event.schema.schemaName
    tableName := event.schema.tableName
    action := .update
    columns
    primaryKeys
    startLsn := event.startLsn
    commitLsn := event.commitLsn }

def extractScanEvent (database : String) : Event → Option ScanEvent
  | .insert e => some (fromInsert e database)
  | .update e => some (fromUpdate e database)
  | .other => none

def extractScanEvents (events : List Event) (database : String) : List ScanEvent :=
  events.filterMap (extractScanEvent database)

end PgSense
