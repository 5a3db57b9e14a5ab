import PgSense.Events
import PgSense.Library.Selection

/-! Updates that carry a part of the row: each value stays with its own column. -/

namespace PgSense
open Library
set_option autoImplicit false

/-- What one column of a row adds to the columns of an event. -/
def columnOf (pair : ColumnSchema × Cell) : ColumnValue :=
  ⟨pair.1.name, pair.1.typeName,
    if isScannableType pair.1.typeName then cellToString pair.2 else none⟩

/-- What one column of a row adds to the primary keys of an event. -/
def keyOf (pair : ColumnSchema × Cell) : Option (String × String) :=
  if pair.1.primaryKey then (cellToString pair.2).map fun v => (pair.1.name, v) else none

theorem extract_eq (pairs : List (ColumnSchema × Cell)) :
    extract pairs = (pairs.map columnOf, pairs.filterMap keyOf) := by
  induction pairs with
  | nil => rfl
  | cons pair pairs ih =>
    obtain ⟨col, cell⟩ := pair
    rw [extract, ih, List.map_cons, List.filterMap_cons]
    cases hkey : col.primaryKey with
    | false => simp [columnOf, keyOf, hkey]
    | true => cases hcell : cellToString cell <;> simp [columnOf, keyOf, hkey, hcell]

theorem presentColumns_partialRow (schema : ReplicatedTableSchema) (values : List Cell)
    (missing : List Nat) :
    presentColumns schema (.partialRow values missing) = without missing schema.columnSchemas := by
  rw [presentColumns, without, withoutFrom, ← List.filterMap_eq_map, List.filterMap_filter]
  apply List.filterMap_congr
  intro x _
  obtain ⟨col, i⟩ := x
  dsimp only
  cases missing.contains i <;> rfl

section Updates
variable (schema : ReplicatedTableSchema) (startLsn commitLsn : Nat) (database : String)

def updateOf (row : UpdatedTableRow) : ScanEvent :=
  fromUpdate ⟨schema, row, startLsn, commitLsn⟩ database

theorem updateOf_eq (row : UpdatedTableRow) :
    updateOf schema startLsn commitLsn database row =
      { database
        tableId := schema.id
        schemaName := schema.schemaName
        tableName := schema.tableName
        action := .update
        columns := ((presentColumns schema row).zip row.values).map columnOf
        primaryKeys := ((presentColumns schema row).zip row.values).filterMap keyOf
        startLsn
        commitLsn } := by
  rw [updateOf, fromUpdate, extract_eq]

/-- A partial row yields what the full row yields at the columns it has. -/
theorem partial_row_lines_up (row : List Cell) (missing : List Nat) :
    let full := updateOf schema startLsn commitLsn database (.full row)
    let cells := schema.columnSchemas.zip row
    full.columns = cells.map columnOf ∧ full.primaryKeys = cells.filterMap keyOf ∧
    updateOf schema startLsn commitLsn database (.partialRow (without missing row) missing) =
      { full with
        columns := without missing full.columns
        primaryKeys := (without missing cells).filterMap keyOf } := by
  refine ⟨?_, ?_, ?_⟩
  · rw [updateOf_eq]
    rfl
  · rw [updateOf_eq]
    rfl
  · rw [updateOf_eq, updateOf_eq, presentColumns_partialRow]
    simp only [UpdatedTableRow.values, presentColumns, without_zip, without_map]

end Updates

end PgSense
