import PgSense.Scanner

/-! The destination of a replication stream: a batch is turned into scan events,
filtered, queued and scanned. Two batches that differ in excluded columns only
are compared along the whole chain. -/

namespace PgSense
set_option autoImplicit false

/-- The filter and map of `ScannerDestination::write_events`. -/
def filterEvents (filter : ScanFilter) (scanEvents : List ScanEvent) : List ScanEvent :=
  (scanEvents.filter fun e =>
    filter.matchesSchema e.schemaName && filter.matchesTable e.tableName).map fun e =>
      { e with columns := e.columns.filter fun c => filter.shouldIncludeColumn c.name }

/-- The batch that `write_events` queues, if any. -/
def forwarded (filter : ScanFilter) (database : String) (events : List Event) :
    Option (List ScanEvent) :=
  let scanEvents := filterEvents filter (extractScanEvents events database)
  if scanEvents.isEmpty then none else some scanEvents

/-- The findings of a batch, from the replication stream to the scanner. -/
def batchFindings (cr : Crates) (engine : RuleEngine) (filter : ScanFilter) (database : String)
    (events : List Event) : List Finding :=
  ((forwarded filter database events).getD []).flatMap (scan cr engine)

theorem forwarded_getD (filter : ScanFilter) (database : String) (events : List Event) :
    (forwarded filter database events).getD [] =
      filterEvents filter (extractScanEvents events database) := by
  unfold forwarded
  cases filterEvents filter (extractScanEvents events database) <;> simp

section TwoRuns
variable (excluded : String → Bool)

/-- Two rows over the same columns that differ in excluded columns only. -/
def CellsAgree : List ColumnSchema → List Cell → List Cell → Prop
  | col :: cols, c :: cs, c' :: cs' =>
    (c = c' ∨ excluded col.name = true) ∧ CellsAgree cols cs cs'
  | _, cs, cs' => cs = cs'

inductive EventsAgree : Event → Event → Prop
  | insert (e : InsertEvent) (row' : List Cell)
      (h : CellsAgree excluded e.schema.columnSchemas e.tableRow row') :
      EventsAgree (.insert e) (.insert { e with tableRow := row' })
  | updateFull (e : UpdateEvent) (row row' : List Cell) (hrow : e.updatedTableRow = .full row)
      (h : CellsAgree excluded (presentColumns e.schema (.full row)) row row') :
      EventsAgree (.update e) (.update { e with updatedTableRow := .full row' })
  | updatePartial (e : UpdateEvent) (row row' : List Cell) (missing : List Nat)
      (hrow : e.updatedTableRow = .partialRow row missing)
      (h : CellsAgree excluded (presentColumns e.schema (.partialRow row missing)) row row') :
      EventsAgree (.update e) (.update { e with updatedTableRow := .partialRow row' missing })

def visibleKeys (keys : List (String × String)) : List (String × String) :=
  keys.filter fun key => !excluded key.1

structure ScanAgree (e e' : ScanEvent) : Prop where
  rest : { e with columns := e'.columns, primaryKeys := e'.primaryKeys } = e'
  columns : e.columns.filter (fun c => !excluded c.name) =
    e'.columns.filter fun c => !excluded c.name
  keys : visibleKeys excluded e.primaryKeys = visibleKeys excluded e'.primaryKeys

variable {excluded}

theorem CellsAgree.extract {cols : List ColumnSchema} {row row' : List Cell}
    (h : CellsAgree excluded cols row row') :
    (extract (cols.zip row)).1.filter (fun c => !excluded c.name) =
        (extract (cols.zip row')).1.filter (fun c => !excluded c.name) ∧
      visibleKeys excluded (PgSense.extract (cols.zip row)).2 =
        visibleKeys excluded (PgSense.extract (cols.zip row')).2 := by
  induction cols generalizing row row' with
  | nil => exact ⟨rfl, rfl⟩
  | cons col cols ih =>
    cases row with
    | nil =>
      cases h
      exact ⟨rfl, rfl⟩
    | cons c cs =>
      cases row' with
      | nil => cases h
      | cons c' cs' =>
        obtain ⟨hcell, hrest⟩ := h
        obtain ⟨hcolumns, hkeys⟩ := ih hrest
        rcases hcell with rfl | hex
        · simp only [List.zip_cons_cons, PgSense.extract, List.filter_cons, hcolumns,
            visibleKeys, List.filter_append, true_and] at hkeys ⊢
          rw [hkeys]
        · have hown : ∀ v : Cell,
              visibleKeys excluded
                (if col.primaryKey then (cellToString v).toList.map fun w => (col.name, w)
                  else []) = [] := by
            intro v
            unfold visibleKeys
            rw [List.filter_eq_nil_iff]
            intro key hkey
            split at hkey
            · obtain ⟨w, _, rfl⟩ := List.mem_map.mp hkey
              simp [hex]
            · cases hkey
          simp only [visibleKeys] at hkeys hown
          simp only [List.zip_cons_cons, PgSense.extract, List.filter_cons, hex, Bool.not_true,
            Bool.false_eq_true, if_false, hcolumns, visibleKeys, List.filter_append, hown, hkeys,
            and_self]

theorem updated_agree {e : UpdateEvent} {row : UpdatedTableRow} (row' : UpdatedTableRow)
    (hrow : e.updatedTableRow = row)
    (hcolumns : presentColumns e.schema row' = presentColumns e.schema row)
    (h : CellsAgree excluded (presentColumns e.schema row) row.values row'.values)
    (database : String) :
    ScanAgree excluded (fromUpdate e database)
      (fromUpdate { e with updatedTableRow := row' } database) := by
  obtain ⟨hmatched, hkeys⟩ := h.extract
  constructor
  · rfl
  · rw [fromUpdate, fromUpdate, hrow, hcolumns]
    exact hmatched
  · rw [fromUpdate, fromUpdate, hrow, hcolumns]
    exact hkeys

theorem EventsAgree.extracted {ev ev' : Event} (h : EventsAgree excluded ev ev')
    (database : String) :
    ∃ e e', extractScanEvent database ev = some e ∧ extractScanEvent database ev' = some e' ∧
      ScanAgree excluded e e' := by
  cases h with
  | insert e row' h =>
    obtain ⟨hcolumns, hkeys⟩ := h.extract
    exact ⟨_, _, rfl, rfl, rfl, hcolumns, hkeys⟩
  | updateFull e row row' hrow h =>
    exact ⟨_, _, rfl, rfl, updated_agree (.full row') hrow rfl h database⟩
  | updatePartial e row row' missing hrow h =>
    exact ⟨_, _, rfl, rfl, updated_agree (.partialRow row' missing) hrow rfl h database⟩

def Finding.hideKeys (excluded : String → Bool) (f : Finding) : Finding :=
  { f with primaryKeys := visibleKeys excluded f.primaryKeys }

section Scanned
variable (cr : Crates) (engine : RuleEngine)

/-- The keys of an event reach nothing but the keys of its findings. -/
theorem scan_hideKeys {e : ScanEvent} {keys : List (String × String)}
    (h : visibleKeys excluded e.primaryKeys = visibleKeys excluded keys) :
    (scan cr engine e).map (Finding.hideKeys excluded) =
      (scan cr engine { e with primaryKeys := keys }).map (Finding.hideKeys excluded) := by
  have hechoed : visibleKeys excluded (echoedKeys cr engine e) =
      visibleKeys excluded (echoedKeys cr engine { e with primaryKeys := keys }) := by
    have hmatched : matchedColumns cr engine { e with primaryKeys := keys } =
        matchedColumns cr engine e := rfl
    unfold visibleKeys at h ⊢
    unfold echoedKeys
    rw [List.filter_comm, h, hmatched, List.filter_comm]
  rw [scan_eq, scan_eq, List.map_map, List.map_map]
  apply List.map_congr_left
  intro hit _
  simp only [Function.comp_apply, Finding.hideKeys, hechoed]
  rfl

variable (filter : ScanFilter) (database : String)

theorem batchFindings_cons (ev : Event) (events : List Event) :
    batchFindings cr engine filter database (ev :: events) =
      batchFindings cr engine filter database [ev] ++
        batchFindings cr engine filter database events := by
  simp only [batchFindings, forwarded_getD, filterEvents, extractScanEvents,
    List.filterMap_cons, List.filterMap_nil]
  cases extractScanEvent database ev with
  | none => rfl
  | some e =>
    cases h : filter.matchesSchema e.schemaName && filter.matchesTable e.tableName <;>
      simp [h]

theorem batchFindings_singleton {ev : Event} {e : ScanEvent}
    (h : extractScanEvent database ev = some e) :
    batchFindings cr engine filter database [ev] =
      if filter.matchesSchema e.schemaName && filter.matchesTable e.tableName then
        scan cr engine
          { e with columns := e.columns.filter fun c => filter.shouldIncludeColumn c.name }
      else [] := by
  simp only [batchFindings, forwarded_getD, filterEvents, extractScanEvents,
    List.filterMap_cons, List.filterMap_nil, h]
  cases hm : filter.matchesSchema e.schemaName && filter.matchesTable e.tableName <;> simp [hm]

theorem EventsAgree.findings {ev ev' : Event}
    (h : EventsAgree filter.excludeColumns.isMatch ev ev') :
    (batchFindings cr engine filter database [ev]).map
        (Finding.hideKeys filter.excludeColumns.isMatch) =
      (batchFindings cr engine filter database [ev']).map
        (Finding.hideKeys filter.excludeColumns.isMatch) := by
  obtain ⟨e, e', he, he', hrest, hcolumns, hkeys⟩ := h.extracted database
  rw [batchFindings_singleton cr engine filter database he,
    batchFindings_singleton cr engine filter database he', ← hrest]
  split
  · have hsame := scan_hideKeys cr engine
      (e := { e with columns := e.columns.filter fun c => filter.shouldIncludeColumn c.name }) hkeys
    rw [hsame]
    simp only [ScanFilter.shouldIncludeColumn, hcolumns]
  · rfl

end Scanned

def Event.columnSchemas : Event → List ColumnSchema
  | .insert e => e.schema.columnSchemas
  | .update e => e.schema.columnSchemas
  | .other => []

theorem EventsAgree.columnSchemas {ev ev' : Event} (h : EventsAgree excluded ev ev') :
    ev'.columnSchemas = ev.columnSchemas := by
  cases h <;> rfl

theorem mem_extract_keys {pairs : List (ColumnSchema × Cell)} {key : String × String}
    (h : key ∈ (extract pairs).2) : ∃ p ∈ pairs, p.1.primaryKey = true ∧ p.1.name = key.1 := by
  induction pairs with
  | nil => cases h
  | cons p pairs ih =>
    rcases List.mem_append.mp h with h | h
    · split at h
      · obtain ⟨v, _, rfl⟩ := List.mem_map.mp h
        exact ⟨p, List.mem_cons_self, ‹_›, rfl⟩
      · cases h
    · obtain ⟨q, hq, hkey⟩ := ih h
      exact ⟨q, List.mem_cons_of_mem p hq, hkey⟩

theorem mem_presentColumns {schema : ReplicatedTableSchema} {row : UpdatedTableRow}
    {col : ColumnSchema} (h : col ∈ presentColumns schema row) : col ∈ schema.columnSchemas := by
  cases row with
  | full values => exact h
  | partialRow values missing =>
    obtain ⟨⟨c, i⟩, hmem, hc⟩ := List.mem_filterMap.mp h
    obtain ⟨_, heq⟩ := Option.ite_none_left_eq_some.mp hc
    cases heq
    exact List.fst_mem_of_mem_zipIdx hmem

theorem key_column_primary {ev : Event} {database : String} {e : ScanEvent}
    (h : extractScanEvent database ev = some e) {key : String × String}
    (hkey : key ∈ e.primaryKeys) :
    ∃ col ∈ ev.columnSchemas, col.primaryKey = true ∧ col.name = key.1 := by
  cases ev with
  | other => cases h
  | insert ie =>
    cases h
    obtain ⟨p, hp, hprim⟩ := mem_extract_keys hkey
    exact ⟨p.1, (List.of_mem_zip hp).1, hprim⟩
  | update ue =>
    cases h
    obtain ⟨p, hp, hprim⟩ := mem_extract_keys hkey
    exact ⟨p.1, mem_presentColumns (List.of_mem_zip hp).1, hprim⟩

end TwoRuns

section Batches
variable (cr : Crates) (engine : RuleEngine) (filter : ScanFilter) (database : String)

theorem finding_key_column {events : List Event} {f : Finding}
    (hf : f ∈ batchFindings cr engine filter database events) {key : String × String}
    (hkey : key ∈ f.primaryKeys) :
    ∃ ev ∈ events, ∃ col ∈ ev.columnSchemas, col.primaryKey = true ∧ col.name = key.1 := by
  unfold batchFindings at hf
  rw [forwarded_getD, List.mem_flatMap] at hf
  obtain ⟨e, he, hf⟩ := hf
  obtain ⟨e₀, he₀, rfl⟩ := List.mem_map.mp he
  obtain ⟨ev, hev, hext⟩ := List.mem_filterMap.mp (List.mem_filter.mp he₀).1
  rw [scan_eq] at hf
  obtain ⟨hit, _, rfl⟩ := List.mem_map.mp hf
  exact ⟨ev, hev, key_column_primary hext (List.mem_filter.mp hkey).1⟩

theorem hideKeys_eq_self {events : List Event}
    (hprimary : ∀ ev ∈ events, ∀ col ∈ ev.columnSchemas, col.primaryKey = true →
      filter.excludeColumns.isMatch col.name = false) :
    (batchFindings cr engine filter database events).map
        (Finding.hideKeys filter.excludeColumns.isMatch) =
      batchFindings cr engine filter database events := by
  refine (List.map_congr_left fun f hf => ?_).trans (List.map_id _)
  have hall : visibleKeys filter.excludeColumns.isMatch f.primaryKeys = f.primaryKeys := by
    refine List.filter_eq_self.mpr fun key hkey => ?_
    obtain ⟨ev, hev, col, hcol, hprim, hname⟩ :=
      finding_key_column cr engine filter database hf hkey
    rw [← hname, hprimary ev hev col hcol hprim]
    rfl
  show { f with primaryKeys := visibleKeys filter.excludeColumns.isMatch f.primaryKeys } = f
  rw [hall]

/-- Cells of excluded columns influence nothing but the echoed keys of these very
columns, and nothing at all when no excluded column is a key column. -/
theorem excluded_cells_reach_own_keys_only {events events' : List Event}
    (h : List.Forall₂ (EventsAgree filter.excludeColumns.isMatch) events events') :
    (batchFindings cr engine filter database events).map
        (Finding.hideKeys filter.excludeColumns.isMatch) =
      (batchFindings cr engine filter database events').map
        (Finding.hideKeys filter.excludeColumns.isMatch) ∧
    ((∀ ev ∈ events, ∀ col ∈ ev.columnSchemas, col.primaryKey = true →
        filter.excludeColumns.isMatch col.name = false) →
      batchFindings cr engine filter database events =
        batchFindings cr engine filter database events') := by
  have hhidden : (batchFindings cr engine filter database events).map
        (Finding.hideKeys filter.excludeColumns.isMatch) =
      (batchFindings cr engine filter database events').map
        (Finding.hideKeys filter.excludeColumns.isMatch) := by
    induction h with
    | nil => rfl
    | @cons ev ev' events events' hev _ ih =>
      rw [batchFindings_cons cr engine filter database ev,
        batchFindings_cons cr engine filter database ev', List.map_append, List.map_append, ih,
        hev.findings]
  refine ⟨hhidden, ?_⟩
  intro hprimary
  have hprimary' : ∀ ev ∈ events', ∀ col ∈ ev.columnSchemas, col.primaryKey = true →
      filter.excludeColumns.isMatch col.name = false := by
    intro ev' hev' col hcol hprim
    obtain ⟨i, hi, rfl⟩ := List.getElem_of_mem hev'
    have hi' : i < events.length := h.length_eq ▸ hi
    have hagree := h.get hi' hi
    rw [List.get_eq_getElem, List.get_eq_getElem] at hagree
    rw [hagree.columnSchemas] at hcol
    exact hprimary _ (List.getElem_mem hi') col hcol hprim
  rw [← hideKeys_eq_self cr engine filter database hprimary, hhidden,
    hideKeys_eq_self cr engine filter database hprimary']

end Batches

section Sample

def previousExcluded : ScanFilter := ⟨.empty, .empty, ⟨["previous_ssn"], [.exact "previous_ssn"]⟩⟩

def customerInsertOther : InsertEvent :=
  { customerInsert with tableRow := [.string "219-09-9999", .string "none"] }

theorem excluded_key_cell_shows :
    ∃ e, RuleEngine.new .sample sampleFiles [ssnRule] = .ok e ∧
      List.Forall₂ (EventsAgree previousExcluded.excludeColumns.isMatch)
        [.insert customerInsert] [.insert customerInsertOther] ∧
      batchFindings .sample e previousExcluded "db" [.insert customerInsert] ≠
        batchFindings .sample e previousExcluded "db" [.insert customerInsertOther] := by
  refine ⟨_, rfl, .cons (.insert customerInsert _ ?_) .nil, ?_⟩
  · exact ⟨.inl rfl, .inr (by decide), rfl⟩
  · decide +kernel

theorem excluded_cells_reach_own_keys_only_customers :
    ∃ e, RuleEngine.new .sample sampleFiles [ssnRule] = .ok e ∧
      (batchFindings .sample e previousExcluded "db" [.insert customerInsert]).map
          (Finding.hideKeys previousExcluded.excludeColumns.isMatch) =
        (batchFindings .sample e previousExcluded "db" [.insert customerInsertOther]).map
          (Finding.hideKeys previousExcluded.excludeColumns.isMatch) := by
  refine ⟨_, rfl, ?_⟩
  refine (excluded_cells_reach_own_keys_only .sample _ previousExcluded "db" ?_).1
  exact .cons (.insert customerInsert _ ⟨.inl rfl, .inr (by decide), rfl⟩) .nil

end Sample

end PgSense
