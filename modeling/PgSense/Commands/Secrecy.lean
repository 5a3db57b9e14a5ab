import PgSense.Commands.History
import PgSense.Commands.Supervision
import PgSense.Pipeline.Disguise
import Mathlib.Data.List.Forall2

/-! What excluded columns hold is no concern of the scanner: two runs that differ in
excluded cells only cannot be told apart, but for the keys that echo these very cells. -/

namespace PgSense
open Library
set_option autoImplicit false

/-- Is the column excluded by the filter of the database? -/
def excludedIn (databases : List (String × ScanFilter)) (database column : String) : Bool :=
  (databases.lookup database).any fun filter => filter.excludeColumns.isMatch column

def ScanEvent.hideKeys (excluded : String → Bool) (e : ScanEvent) : ScanEvent :=
  { e with primaryKeys := visibleKeys excluded e.primaryKeys }

section Hiding
variable (cr : Crates) {excluded : String → Bool}

theorem scan_hidden (engine : RuleEngine) (e : ScanEvent) :
    scan cr engine (e.hideKeys excluded) =
      (scan cr engine e).map (Finding.hideKeys excluded) := by
  have hechoed : echoedKeys cr engine (e.hideKeys excluded) =
      visibleKeys excluded (echoedKeys cr engine e) := by
    unfold echoedKeys visibleKeys
    rw [List.filter_comm]
    rfl
  rw [scan_eq, scan_eq, List.map_map, hechoed]
  rfl

/-- The keys of excluded columns, hidden in every event and every finding. -/
def hidingKeys (excluded : String → String → Bool) : Disguise cr where
  event e := e.hideKeys (excluded e.database)
  finding f := f.hideKeys (excluded f.database)
  scan_event engine e := by
    rw [scan_hidden]
    apply List.map_congr_left
    intro f hf
    rw [(ScanState.scan_place hf).1]
  dedupKey_finding f := rfl
  channels_finding f := rfl

end Hiding

/-- Two events that differ in excluded cells only. -/
def EventsMatch (excluded : String → Bool) (ev ev' : Event) : Prop :=
  ev = ev' ∨ EventsAgree excluded ev ev'

section Forwarding
variable {filter : ScanFilter} {database : String}

/-- What `write_events` makes of an event. -/
def forwardedEvent (filter : ScanFilter) (database : String) (ev : Event) : List ScanEvent :=
  filterEvents filter (extractScanEvents [ev] database)

theorem filterEvents_eq (events : List Event) :
    filterEvents filter (extractScanEvents events database) =
      events.flatMap (forwardedEvent filter database) := by
  induction events with
  | nil => rfl
  | cons ev events ih =>
    rw [List.flatMap_cons, ← ih]
    simp only [forwardedEvent, filterEvents, extractScanEvents, List.filterMap_cons,
      List.filterMap_nil]
    cases extractScanEvent database ev with
    | none => rfl
    | some e =>
      cases h : filter.matchesSchema e.schemaName && filter.matchesTable e.tableName <;> simp [h]

theorem forwardedEvent_eq {ev : Event} {e : ScanEvent} (h : extractScanEvent database ev = some e) :
    forwardedEvent filter database ev =
      if filter.matchesSchema e.schemaName && filter.matchesTable e.tableName then
        [{ e with columns := e.columns.filter fun c => filter.shouldIncludeColumn c.name }]
      else [] := by
  simp only [forwardedEvent, filterEvents, extractScanEvents, List.filterMap_cons,
    List.filterMap_nil, h]
  cases hm : filter.matchesSchema e.schemaName && filter.matchesTable e.tableName <;> simp [hm]

theorem forwardedEvent_hidden {ev ev' : Event}
    (h : EventsMatch filter.excludeColumns.isMatch ev ev') :
    (forwardedEvent filter database ev).map (ScanEvent.hideKeys filter.excludeColumns.isMatch) =
      (forwardedEvent filter database ev').map
        (ScanEvent.hideKeys filter.excludeColumns.isMatch) := by
  rcases h with rfl | h
  · rfl
  · obtain ⟨e, e', he, he', hrest, hcolumns, hkeys⟩ := h.extracted database
    rw [forwardedEvent_eq he, forwardedEvent_eq he', ← hrest]
    dsimp only
    split
    · simp only [List.map_cons, List.map_nil, ScanEvent.hideKeys, ScanFilter.shouldIncludeColumn,
        hcolumns, hkeys]
    · rfl

/-- What is queued of two batches that differ in excluded cells only differs in the keys
of excluded columns only. -/
theorem forwarded_hidden {events events' : List Event}
    (h : List.Forall₂ (EventsMatch filter.excludeColumns.isMatch) events events') :
    (forwarded filter database events).map
        (List.map (ScanEvent.hideKeys filter.excludeColumns.isMatch)) =
      (forwarded filter database events').map
        (List.map (ScanEvent.hideKeys filter.excludeColumns.isMatch)) := by
  have hall : (filterEvents filter (extractScanEvents events database)).map
        (ScanEvent.hideKeys filter.excludeColumns.isMatch) =
      (filterEvents filter (extractScanEvents events' database)).map
        (ScanEvent.hideKeys filter.excludeColumns.isMatch) := by
    rw [filterEvents_eq, filterEvents_eq]
    induction h with
    | nil => rfl
    | cons hev _ ih =>
      rw [List.flatMap_cons, List.flatMap_cons, List.map_append, List.map_append, ih,
        forwardedEvent_hidden hev]
  have hempty := congrArg List.isEmpty hall
  rw [List.isEmpty_map, List.isEmpty_map] at hempty
  simp only [forwarded, hempty]
  split
  · rfl
  · exact congrArg some hall

/-- No key column of the event is excluded. -/
def KeysVisible (excluded : String → Bool) (ev : Event) : Prop :=
  ∀ col ∈ ev.columnSchemas, col.primaryKey = true → excluded col.name = false

theorem EventsMatch.keysVisible {excluded : String → Bool} {ev ev' : Event}
    (h : EventsMatch excluded ev ev') (hkeys : KeysVisible excluded ev) :
    KeysVisible excluded ev' := by
  rcases h with rfl | h
  · exact hkeys
  · rw [KeysVisible, h.columnSchemas]
    exact hkeys

theorem forwarded_visible {events : List Event}
    (h : ∀ ev ∈ events, KeysVisible filter.excludeColumns.isMatch ev) :
    (forwarded filter database events).map
        (List.map (ScanEvent.hideKeys filter.excludeColumns.isMatch)) =
      forwarded filter database events := by
  cases hf : forwarded filter database events with
  | none => rfl
  | some batch =>
    have hself : ∀ e ∈ batch, e.hideKeys filter.excludeColumns.isMatch = e := by
      intro e he
      obtain ⟨ev, hev, extracted, hextracted, _, _, rfl⟩ :=
        ScanState.mem_forwarded hf he
      have hall : visibleKeys filter.excludeColumns.isMatch extracted.primaryKeys =
          extracted.primaryKeys := by
        apply List.filter_eq_self.mpr
        intro key hkey
        obtain ⟨col, hcol, hprimary, hname⟩ := key_column_primary hextracted hkey
        rw [← hname, h ev hev col hcol hprimary]
        rfl
      simp only [ScanEvent.hideKeys, hall]
    rw [Option.map_some, List.map_congr_left hself, List.map_id']

/-- Without excluded key columns the batches do not differ at all. -/
theorem forwarded_same {events events' : List Event}
    (h : List.Forall₂ (EventsMatch filter.excludeColumns.isMatch) events events')
    (hkeys : ∀ ev ∈ events, KeysVisible filter.excludeColumns.isMatch ev) :
    forwarded filter database events = forwarded filter database events' := by
  have hkeys' : ∀ ev ∈ events', KeysVisible filter.excludeColumns.isMatch ev := by
    induction h with
    | nil => exact fun ev hev => absurd hev List.not_mem_nil
    | cons hev _ ih =>
      rw [List.forall_mem_cons] at hkeys ⊢
      exact ⟨hev.keysVisible hkeys.1, ih hkeys.2⟩
  rw [← forwarded_visible hkeys, forwarded_hidden h, forwarded_visible hkeys']

end Forwarding

/-- The labels of two runs that differ in excluded cells only. -/
inductive LabelsMatch (databases : List (String × ScanFilter)) : ScanLabel → ScanLabel → Prop where
  | same (l : ScanLabel) : LabelsMatch databases l l
  | begin {u : Nat} {db : String × ScanFilter} {pipeline : Nat} {events events' : List Event}
      (hdb : databases[u]? = some db)
      (h : List.Forall₂ (EventsMatch db.2.excludeColumns.isMatch) events events') :
      LabelsMatch databases (.write u (.begin pipeline events)) (.write u (.begin pipeline events'))

/-- The rows that the label hands to a unit have no excluded key column. -/
def ScanLabel.KeysVisible (databases : List (String × ScanFilter)) : ScanLabel → Prop
  | .write u (.begin _ events) => ∀ db, databases[u]? = some db →
      ∀ ev ∈ events, PgSense.KeysVisible db.2.excludeColumns.isMatch ev
  | _ => True

namespace ScanState
variable {cr : Crates} {channels : List NamedChannel} {databases : List (String × ScanFilter)}

/-- The units keep the names and the filters they were started with. -/
def Configured (databases : List (String × ScanFilter)) (s : ScanState) : Prop :=
  ∀ (u : Nat) (unit : DatabaseUnit), s.units[u]? = some unit →
    databases[u]? = some (unit.database, unit.filter)

theorem start_configured (engine : RuleEngine) (window : Nat)
    (databases : List (String × ScanFilter)) : Configured databases (start engine window databases) := by
  intro u unit hu
  rw [start, List.getElem?_map, Option.map_eq_some_iff] at hu
  obtain ⟨db, hdb, rfl⟩ := hu
  exact hdb

theorem Configured.step {s t : ScanState} {l : ScanLabel} (hs : Configured databases s)
    (hstep : s.step cr channels l = some t) : Configured databases t := by
  refine step_forall hs ?_ hstep
  intro u unit v hunit hmoves
  cases hmoves with
  | keep => exact hunit
  | monitor m => exact hunit
  | write _ h =>
    obtain ⟨hdatabase, hfilter⟩ := DatabaseUnit.writeStep_keeps h
    rw [hdatabase, hfilter]
    exact hunit
  | loop _ h =>
    obtain ⟨hdatabase, hfilter, _⟩ := DatabaseUnit.loopStep_keeps h
    rw [hdatabase, hfilter]
    exact hunit

theorem excludedIn_unit (hnames : (databases.map Prod.fst).Nodup) {u : Nat} {name : String}
    {filter : ScanFilter} (hu : databases[u]? = some (name, filter)) :
    excludedIn databases name = filter.excludeColumns.isMatch := by
  have hlookup : databases.lookup name = some filter := by
    obtain ⟨hlt, hget⟩ := List.getElem?_eq_some_iff.mp hu
    rw [List.lookup_eq_some_iff]
    refine ⟨databases.take u, databases.drop (u + 1), ?_, ?_⟩
    · rw [← hget, ← List.drop_eq_getElem_cons hlt, List.take_append_drop]
    · intro db hdb
      rw [bne_iff_ne]
      intro heq
      obtain ⟨j, hj, rfl⟩ := List.mem_take_iff_getElem.mp hdb
      have hsame : (databases.map Prod.fst)[j]? = (databases.map Prod.fst)[u]? := by
        rw [List.getElem?_map, List.getElem?_map, hu, List.getElem?_eq_getElem (by omega),
          Option.map_some, Option.map_some, heq]
      have hju : j = u := (List.getElem?_inj (by rw [List.length_map]; omega) hnames).mp hsame
      omega
  funext column
  rw [excludedIn, hlookup]
  rfl

/-- Hiding the keys of a queued batch hides the columns that its own filter excludes. -/
theorem hidingKeys_forwarded (hnames : (databases.map Prod.fst).Nodup) {u : Nat} {name : String}
    {filter : ScanFilter} (hu : databases[u]? = some (name, filter)) (events : List Event) :
    (forwarded filter name events).map
        (List.map (hidingKeys cr (excludedIn databases)).event) =
      (forwarded filter name events).map
        (List.map (ScanEvent.hideKeys filter.excludeColumns.isMatch)) := by
  cases hf : forwarded filter name events with
  | none => rfl
  | some batch =>
    refine congrArg some (List.map_congr_left ?_)
    intro e he
    obtain ⟨_, _, extracted, hextracted, _, _, rfl⟩ := mem_forwarded hf he
    show ScanEvent.hideKeys (excludedIn databases extracted.database) _ = _
    rw [extractScanEvent_database hextracted, excludedIn_unit hnames hu]

/-- A call of `write_events` that begins is as hidden as its batch. -/
theorem begin_hidden (d : Disguise cr) {a b : DatabaseUnit} (hab : d.unit a = d.unit b)
    {events events' : List Event} (pipeline : Nat)
    (h : (forwarded a.filter a.database events).map (List.map d.event) =
      (forwarded b.filter b.database events').map (List.map d.event)) :
    (a.writeStep (.begin pipeline events)).map d.unit =
      (b.writeStep (.begin pipeline events')).map d.unit := by
  have hlive := congrArg (fun u => u.monitor.live) hab
  change a.monitor.live = b.monitor.live at hlive
  have happend : ∀ (u : DatabaseUnit) (w : Write),
      d.unit { u with writes := u.writes ++ [w] } =
        { d.unit u with writes := (d.unit u).writes ++ [d.write w] } := by
    intro u w
    simp only [Disguise.unit, List.map_append, List.map_cons, List.map_nil]
  simp only [DatabaseUnit.writeStep, hlive]
  split
  · simp only [Option.map_some, happend, hab, Disguise.write]
    generalize forwarded a.filter a.database events = batch at h
    generalize forwarded b.filter b.database events' = batch' at h
    cases batch with
    | none =>
      cases batch' with
      | none => rfl
      | some scanEvents' => cases h
    | some scanEvents =>
      cases batch' with
      | none => cases h
      | some scanEvents' =>
        have hsame : scanEvents.map d.event = scanEvents'.map d.event := Option.some.inj h
        simp only [Disguise.phase, hsame]
  · rfl

theorem begin_step_hidden (hnames : (databases.map Prod.fst).Nodup) {s t : ScanState}
    (hs : Configured databases s) (ht : Configured databases t)
    (hview : (hidingKeys cr (excludedIn databases)).state s =
      (hidingKeys cr (excludedIn databases)).state t) {u : Nat} (pipeline : Nat)
    {events events' : List Event} (h : ∀ db, databases[u]? = some db →
      List.Forall₂ (EventsMatch db.2.excludeColumns.isMatch) events events') :
    (s.step cr channels (.write u (.begin pipeline events))).map
        (hidingKeys cr (excludedIn databases)).state =
      (t.step cr channels (.write u (.begin pipeline events'))).map
        (hidingKeys cr (excludedIn databases)).state := by
  generalize hd : hidingKeys cr (excludedIn databases) = d at hview ⊢
  have hmain := congrArg ScanState.main hview
  change s.main = t.main at hmain
  have hunits : (s.units[u]?).map d.unit = (t.units[u]?).map d.unit := by
    rw [← d.units_state, ← d.units_state, hview]
  have hset : ∀ (s : ScanState) (o : Option DatabaseUnit),
      (o.map fun v => s.setUnit u v).map d.state =
        (o.map d.unit).map fun v => (d.state s).setUnit u v := by
    intro s o
    simp only [Option.map_map, Function.comp_def, d.state_setUnit]
  simp only [step, hmain]
  split
  · rfl
  · cases ha : s.units[u]? with
    | none =>
      rw [ha, Option.map_none, eq_comm, Option.map_eq_none_iff] at hunits
      rw [hunits]
      rfl
    | some a =>
      rw [ha, Option.map_some, eq_comm, Option.map_eq_some_iff] at hunits
      obtain ⟨b, hb, hab⟩ := hunits
      have hdb := hs u a ha
      have hsame := ht u b hb
      rw [hdb, Option.some.injEq, Prod.mk.injEq] at hsame
      have hforwarded : (forwarded a.filter a.database events).map (List.map d.event) =
          (forwarded b.filter b.database events').map (List.map d.event) := by
        rw [← hsame.1, ← hsame.2, ← hd, hidingKeys_forwarded hnames hdb,
          hidingKeys_forwarded hnames hdb]
        exact forwarded_hidden (h _ hdb)
      rw [hb, Option.bind_some, Option.bind_some, hset, hset, hview,
        begin_hidden d hab.symm pipeline hforwarded]

theorem step_hidden (hnames : (databases.map Prod.fst).Nodup) {s t : ScanState} {l l' : ScanLabel}
    (hs : Configured databases s) (ht : Configured databases t)
    (hview : (hidingKeys cr (excludedIn databases)).state s =
      (hidingKeys cr (excludedIn databases)).state t) (hl : LabelsMatch databases l l') :
    (s.step cr channels l).map (hidingKeys cr (excludedIn databases)).state =
      (t.step cr channels l').map (hidingKeys cr (excludedIn databases)).state := by
  cases hl with
  | same =>
    by_cases hbegins : ∀ u pipeline events, l ≠ .write u (.begin pipeline events)
    · rw [← Disguise.step_state _ channels s hbegins, ← Disguise.step_state _ channels t hbegins,
        hview]
    · simp only [not_forall, not_not] at hbegins
      obtain ⟨u, pipeline, events, rfl⟩ := hbegins
      apply begin_step_hidden hnames hs ht hview pipeline
      intro db _
      exact List.forall₂_same.mpr fun ev _ => .inl rfl
  | «begin» hdb h =>
    apply begin_step_hidden hnames hs ht hview
    intro db hdb'
    rw [hdb] at hdb'
    cases hdb'
    exact h

theorem step_same {s t : ScanState} {l l' : ScanLabel} (hs : Configured databases s) (hst : s = t)
    (hl : l.KeysVisible databases ∧ LabelsMatch databases l l') :
    s.step cr channels l = t.step cr channels l' := by
  subst hst
  obtain ⟨hvisible, hmatch⟩ := hl
  cases hmatch with
  | same => rfl
  | @«begin» u db pipeline events events' hdb h =>
    simp only [step]
    split
    · rfl
    · cases hu : s.units[u]? with
      | none => rfl
      | some unit =>
        have hunit := hs u unit hu
        have hsame : forwarded unit.filter unit.database events =
            forwarded unit.filter unit.database events' := by
          rw [hdb] at hunit
          cases hunit
          exact forwarded_same h (hvisible _ hdb)
        simp only [Option.bind_some, DatabaseUnit.writeStep, hsame]

theorem run_hidden (hnames : (databases.map Prod.fst).Nodup) {s t : ScanState}
    {ls ls' : List ScanLabel} (hs : Configured databases s) (ht : Configured databases t)
    (hview : (hidingKeys cr (excludedIn databases)).state s =
      (hidingKeys cr (excludedIn databases)).state t)
    (h : List.Forall₂ (LabelsMatch databases) ls ls') :
    ((scanMachine cr channels).run s ls).map (hidingKeys cr (excludedIn databases)).state =
      ((scanMachine cr channels).run t ls').map (hidingKeys cr (excludedIn databases)).state := by
  apply Machine.run_view ?_ (step_hidden hnames) hs ht hview h
  intro s l t hs hstep
  exact hs.step hstep

theorem run_same {s : ScanState} {ls ls' : List ScanLabel} (hs : Configured databases s)
    (hvisible : ∀ l ∈ ls, l.KeysVisible databases)
    (h : List.Forall₂ (LabelsMatch databases) ls ls') :
    (scanMachine cr channels).run s ls = (scanMachine cr channels).run s ls' := by
  have hviews : ((scanMachine cr channels).run s ls).map id =
      ((scanMachine cr channels).run s ls').map id := by
    apply Machine.run_view ?_ ?_ hs hs rfl ((List.forall₂_and_left _ _).mpr ⟨hvisible, h⟩)
    · intro s l t hs hstep
      exact Configured.step hs hstep
    · intro s t l l' hs _ hst hl
      rw [Option.map_id_fun, id, id]
      exact step_same hs hst hl
  rw [Option.map_id_fun, id, id] at hviews
  exact hviews

/-- Excluded columns stay private over whole runs: take any run and change in the
replicated rows whatever cells the filters exclude. Then the same steps can be taken, and
the two runs end in the same state but for the keys that echo excluded key columns: the
same findings alert, through the same channels at the same times, and every write is
acknowledged alike. Where no excluded column is a key column the states are equal. -/
theorem excluded_cells_unobservable (cr : Crates) (channels : List NamedChannel)
    (engine : RuleEngine) (window : Nat) {databases : List DatabaseConfig}
    (hvalid : databaseErrors databases = []) {ls ls' : List ScanLabel}
    (h : List.Forall₂ (LabelsMatch (databases.map DatabaseConfig.unit)) ls ls') {s : ScanState}
    (hrun : (scanMachine cr channels).run
      (start engine window (databases.map DatabaseConfig.unit)) ls = some s) :
    ∃ t, (scanMachine cr channels).run
        (start engine window (databases.map DatabaseConfig.unit)) ls' = some t ∧
      (hidingKeys cr (excludedIn (databases.map DatabaseConfig.unit))).state t =
        (hidingKeys cr (excludedIn (databases.map DatabaseConfig.unit))).state s ∧
      ((∀ l ∈ ls, l.KeysVisible (databases.map DatabaseConfig.unit)) → t = s) := by
  have hnames : ((databases.map DatabaseConfig.unit).map Prod.fst).Nodup := by
    rw [List.map_map]
    exact (databaseErrors_eq_nil.mp hvalid).2.1
  have hstart := start_configured engine window (databases.map DatabaseConfig.unit)
  have hviews : ((scanMachine cr channels).run _ ls).map _ =
      ((scanMachine cr channels).run _ ls').map _ := run_hidden hnames hstart hstart rfl h
  rw [hrun, Option.map_some, eq_comm, Option.map_eq_some_iff] at hviews
  obtain ⟨t, ht, hhidden⟩ := hviews
  refine ⟨t, ht, hhidden, ?_⟩
  intro hvisible
  rw [run_same hstart hvisible h, ht] at hrun
  exact Option.some.inj hrun

section Sample

def excludingDatabases : List DatabaseConfig :=
  [⟨"localhost", 5432, "shop", "postgres", "pgsense_pub", some previousExcluded⟩]

/-- The same steps over a row with another excluded cell. -/
def untilFoundOther : List ScanLabel :=
  .write 0 (.begin 0 [.insert customerInsertOther]) :: untilFound.tail

theorem excluded_cells_unobservable_other : databaseErrors excludingDatabases = [] ∧
    List.Forall₂ (LabelsMatch (excludingDatabases.map DatabaseConfig.unit)) untilFound
      untilFoundOther ∧
    ∃ s t, (scanMachine .sample logOnly).run
        (start ssnEngine 0 (excludingDatabases.map DatabaseConfig.unit)) untilFound = some s ∧
      (scanMachine .sample logOnly).run
        (start ssnEngine 0 (excludingDatabases.map DatabaseConfig.unit)) untilFoundOther =
          some t ∧
      (hidingKeys .sample (excludedIn (excludingDatabases.map DatabaseConfig.unit))).state t =
        (hidingKeys .sample (excludedIn (excludingDatabases.map DatabaseConfig.unit))).state s ∧
      ((∀ l ∈ untilFound, l.KeysVisible (excludingDatabases.map DatabaseConfig.unit)) →
        t = s) := by
  have hvalid : databaseErrors excludingDatabases = [] := by decide +kernel
  have hmatch : List.Forall₂ (LabelsMatch (excludingDatabases.map DatabaseConfig.unit)) untilFound
      untilFoundOther := by
    refine .cons (.begin rfl (.cons (.inr (.insert customerInsert _ ?_)) .nil)) ?_
    · exact ⟨.inl rfl, .inr (by decide), rfl⟩
    · exact List.forall₂_same.mpr fun l _ => .same l
  obtain ⟨s, hs⟩ : ∃ s, (scanMachine .sample logOnly).run
      (start ssnEngine 0 (excludingDatabases.map DatabaseConfig.unit)) untilFound = some s := by
    apply Option.isSome_iff_exists.mp
    decide +kernel
  obtain ⟨t, ht⟩ := excluded_cells_unobservable .sample logOnly ssnEngine 0 hvalid hmatch hs
  exact ⟨hvalid, hmatch, s, t, hs, ht⟩

end Sample

end ScanState

end PgSense
