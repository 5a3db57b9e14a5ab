import PgSense.Commands.Alerting
import PgSense.RuleSets

/-! No match is missed: what becomes of the texts that the rules find in the rows that
were acknowledged. -/

namespace PgSense
open Library
set_option autoImplicit false

namespace ScanState

section Acknowledged
variable {cr : Crates} {channels : List NamedChannel} {s : ScanState} {l : ScanLabel} {u : Nat}
  {unit v : DatabaseUnit}

theorem UnitMoves.inv (h : UnitMoves cr channels s l u unit v) (hunit : unit.Inv cr) :
    v.Inv cr := by
  cases h with
  | keep => exact hunit
  | monitor m => exact ⟨hunit.acked, hunit.queued, hunit.done, hunit.loop⟩
  | write _ h => exact DatabaseUnit.writeStep_inv hunit h
  | loop _ h => exact (DatabaseUnit.loopStep_moves h).inv hunit

theorem start_allInv (engine : RuleEngine) (window : Nat) (databases : List (String × ScanFilter)) :
    ∀ (u : Nat) unit, (start engine window databases).units[u]? = some unit → unit.Inv cr := by
  intro u unit hu
  obtain ⟨db, _, rfl⟩ := List.mem_map.mp (List.mem_of_getElem? hu)
  exact DatabaseUnit.start_inv cr db.1 db.2

variable (cr channels)

theorem run_allInv (engine : RuleEngine) (window : Nat) (databases : List (String × ScanFilter))
    {ls : List ScanLabel} {t : ScanState}
    (h : (scanMachine cr channels).run (start engine window databases) ls = some t) :
    ∀ (u : Nat) unit, t.units[u]? = some unit → unit.Inv cr := by
  apply Machine.run_invariant ?_ (start_allInv engine window databases) h
  intro s l t hs hstep
  exact step_forall (P := fun _ unit => unit.Inv cr) hs
    (fun _ _ _ hunit hmoves => hmoves.inv hunit) hstep

/-- What was acknowledged has been taken, once the unit has nothing left to do. -/
theorem acked_taken (engine : RuleEngine) (window : Nat) (databases : List (String × ScanFilter))
    {ls : List ScanLabel} {t : ScanState}
    (h : (scanMachine cr channels).run (start engine window databases) ls = some t)
    (hu : t.units[u]? = some unit) (hidle : unit.loop = .idle) (hqueue : unit.queue = [])
    {batch : Batch} (hbatch : batch ∈ unit.acked) :
    ∃ e ∈ engine :: ls.filterMap ScanLabel.published, (batch, e) ∈ unit.taken := by
  have hunit := run_allInv cr channels engine window databases h u unit hu
  obtain ⟨e, hdone, _⟩ := hunit.drained hqueue hidle hbatch
  have htaken : (batch, e) ∈ unit.taken := List.mem_append_left _ hdone
  exact ⟨e, taken_published cr channels engine window databases h hu _ htaken, htaken⟩

end Acknowledged

section Missed
variable (cr : Crates) (channels : List NamedChannel) (engine : RuleEngine) (window : Nat)
variable (databases : List (String × ScanFilter)) {ls : List ScanLabel} {t : ScanState}
  {j : Journal}

/-- No match is missed. Take any run on an ordered clock, with reloads wherever they fall,
and a unit that has worked off its queue: whatever a rule of all the published rule sets
finds alone in a cell of an acknowledged row that it is in scope of was decided on, under
the name, the place and the mask of the match; and it was sent to every channel of the
rule, unless an alert with its key had been let through less than the window before. -/
theorem matches_not_missed (laws : RegexSetLaws cr)
    (hclock : (ls.flatMap ScanLabel.readings).Pairwise (· ≤ ·))
    (h : (journalMachine cr channels).run (start engine window databases, .empty) ls =
      some (t, j))
    {u : Nat} {unit : DatabaseUnit} (hu : t.units[u]? = some unit) (hidle : unit.loop = .idle)
    (hqueue : unit.queue = []) {batch : Batch} (hbatch : batch ∈ unit.acked) {event : ScanEvent}
    (hevent : event ∈ batch.events) {col : ColumnValue} (hcol : col ∈ event.columns)
    (htype : isScannableType col.typeName = true) {value : String} (hvalue : col.value = some value)
    {rule : RuleConfig} (hscope : inScope event rule.metadata col.name = true) {text : String}
    (hrules : ∀ e ∈ engine :: ls.filterMap ScanLabel.published, FoundUnder cr e rule value text) :
    ∃ later d past, j.decisions = later ++ d :: past ∧ d.source = u ∧
      Place.Reported cr event (col.name, rule.metadata, text) d.item ∧
      (d.passed = true ∧ (∀ i ∈ routedChannels channels d.item, ⟨u, d.item, i⟩ ∈ j.deliveries) ∨
        d.passed = false ∧ ∃ earlier ∈ past, earlier.passed = true ∧
          dedupKey cr earlier.item = dedupKey cr d.item ∧ d.time - earlier.time < window) := by
  obtain ⟨hjustified, hunits⟩ := journal_sound cr channels engine window databases hclock h
  obtain ⟨hdecided, hdelivered⟩ := hunits u unit hu
  have hrun := run_of_journal cr channels engine window databases h
  obtain ⟨e, he, htaken⟩ :=
    acked_taken cr channels engine window databases hrun hu hidle hqueue hbatch
  have hplace : (col.name, rule.metadata, text) ∈ places event fun value =>
      (e.scanValue cr value).map RuleMatch.carried :=
    mem_places hcol htype hvalue ((hrules e he).carried laws) hscope
  obtain ⟨f, hf, hreported⟩ := place_reported hplace
  -- The loop is idle: it has nothing to decide on and nothing to send.
  have hundecided : DatabaseUnit.toDecide cr unit.loop = [] := by
    rw [hidle]
    rfl
  have hunsent : DatabaseUnit.toDeliver channels unit.loop = [] := by
    rw [hidle]
    rfl
  rw [hundecided, List.append_nil] at hdecided
  rw [hunsent, List.append_nil] at hdelivered
  have hitem : f ∈ Desk.decidedOf j.decisions u := by
    rw [hdecided]
    exact List.mem_flatMap.mpr ⟨(batch, e), htaken, List.mem_flatMap.mpr ⟨event, hevent, hf⟩⟩
  obtain ⟨d, hd, hsource, rfl⟩ := Desk.mem_decidedOf.mp hitem
  obtain ⟨later, past, hj⟩ := List.append_of_mem hd
  refine ⟨later, d, past, hj, hsource, hreported, ?_⟩
  rw [hj] at hjustified
  rcases hjustified.passed_or_recent with hpassed | hsuppressed
  · refine .inl ⟨hpassed, ?_⟩
    intro i hi
    rw [← Desk.mem_deliveredOf, hdelivered]
    have hlet : d.item ∈ Desk.decidedOf (j.decisions.filter Decision.passed) u :=
      Desk.mem_decidedOf.mpr ⟨d, List.mem_filter.mpr ⟨hd, hpassed⟩, hsource, rfl⟩
    exact List.mem_flatMap.mpr ⟨d.item, hlet, List.mem_map.mpr ⟨i, hi, rfl⟩⟩
  · exact .inr hsuppressed

end Missed

section Sample

def untilIdle : List ScanLabel :=
  untilAsked ++ ([.loop 0 (.ask 0 0), .loop 0 .visit, .loop 0 (.send 0), .loop 0 .visit] ++
    [.loop 0 .scanNext])

/-- After its last event the loop is done with a batch. -/
theorem run_completed {s : ScanState} (hmain : s.main = .selecting) {unit : DatabaseUnit}
    (hu : s.units[0]? = some unit) {batch : Batch} {engine : RuleEngine}
    (hl : unit.loop = .scanning batch engine []) :
    ∃ t, (scanMachine .sample logOnly).run s [.loop 0 .scanNext] = some t ∧
      t.units[0]? = some { unit with done := unit.done ++ [(batch, engine)], loop := .idle } := by
  obtain ⟨hlt, _⟩ := List.getElem?_eq_some_iff.mp hu
  have hloop : (DatabaseUnit.loopMachine .sample logOnly).run (unit, s.shared) [.scanNext] =
      some ({ unit with done := unit.done ++ [(batch, engine)], loop := .idle }, s.shared) := by
    rw [Machine.run_single]
    simp only [DatabaseUnit.loopMachine, DatabaseUnit.loopStep, hl]
  exact ⟨_, run_loop_alone (by simp [hmain]) hu hloop, List.getElem?_set_self hlt⟩

theorem untilIdle_run : ∃ t j unit batch,
    (journalMachine .sample logOnly).run (start ssnEngine 10 oneDatabase, .empty) untilIdle =
      some (t, j) ∧ t.units[0]? = some unit ∧ unit.loop = .idle ∧ unit.queue = [] ∧
      batch ∈ unit.acked ∧ fromInsert singleInsert "db" ∈ batch.events := by
  have hasked : ∃ s unit,
      (scanMachine .sample logOnly).run (start ssnEngine 10 oneDatabase) untilAsked = some s ∧
        s.main = .selecting ∧ s.shared.dedup = .new 10 ∧ s.units[0]? = some unit ∧
        ∃ batch engine finding, unit.queue = [] ∧ unit.acked = [batch] ∧
          batch.events = [fromInsert singleInsert "db"] ∧ finding.channels = none ∧
          unit.loop = .dispatching batch engine [] finding [] .asking :=
    ⟨_, _, rfl, rfl, rfl, rfl, _, _, _, rfl, rfl, rfl, rfl, rfl⟩
  obtain ⟨s, unit, hs, hmain, hdedup, hu, batch, engine, finding, hqueue, hacked, hevents, hrouted,
    hl⟩ := hasked
  obtain ⟨m, hm, hmain, hu⟩ := run_logged hmain hdedup hu hrouted hl
  obtain ⟨t, ht, hu⟩ := run_completed hmain hu rfl
  have hrun : (scanMachine .sample logOnly).run (start ssnEngine 10 oneDatabase) untilIdle =
      some t := by
    rw [untilIdle, Machine.run_append, hs, Option.bind_some, Machine.run_append, hm]
    exact ht
  obtain ⟨j, hj⟩ := exists_journal .sample logOnly ssnEngine 10 oneDatabase hrun
  refine ⟨t, j, _, batch, hj, hu, rfl, hqueue, ?_, ?_⟩
  · change batch ∈ unit.acked
    rw [hacked]
    exact List.mem_singleton.mpr rfl
  · rw [hevents]
    exact List.mem_singleton.mpr rfl

/-- Without regex rules nothing is left of the regex set. -/
theorem ssnEngine_new : RuleEngine.new .sample sampleFiles [ssnRule] = .ok ssnEngine := by
  have hnew : RuleEngine.new .sample sampleFiles [ssnRule] = .ok
      { ssnEngine with
        regexSet := ⟨fun value => if digitRegex.isMatch value then [] else []⟩ } := rfl
  simp only [hnew, ite_self]
  rfl

theorem matches_not_missed_ssn : ∃ t j unit,
    (journalMachine .sample logOnly).run (start ssnEngine 10 oneDatabase, .empty) untilIdle =
      some (t, j) ∧ t.units[0]? = some unit ∧ unit.loop = .idle ∧
      ∃ later d past, j.decisions = later ++ d :: past ∧ d.source = 0 ∧
        Place.Reported .sample (fromInsert singleInsert "db")
          ("ssn", ssnRule.metadata, "219-09-9999") d.item ∧
        (d.passed = true ∧ (∀ i ∈ routedChannels logOnly d.item, ⟨0, d.item, i⟩ ∈ j.deliveries) ∨
          d.passed = false ∧ ∃ earlier ∈ past, earlier.passed = true ∧
            dedupKey .sample earlier.item = dedupKey .sample d.item ∧
              d.time - earlier.time < 10) := by
  obtain ⟨t, j, unit, batch, hrun, hu, hidle, hqueue, hbatch, hevent⟩ := untilIdle_run
  refine ⟨t, j, unit, hrun, hu, hidle, ?_⟩
  have hclock : (untilIdle.flatMap ScanLabel.readings).Pairwise (· ≤ ·) := by
    simp [untilIdle, untilAsked, ScanLabel.readings]
  have hcol : ⟨"ssn", "text", some "219-09-9999"⟩ ∈ (fromInsert singleInsert "db").columns :=
    List.mem_singleton.mpr rfl
  refine matches_not_missed .sample logOnly ssnEngine 10 oneDatabase Crates.sample_laws hclock hrun
    hu hidle hqueue hbatch hevent hcol rfl rfl rfl ?_
  intro e he
  rw [List.mem_singleton.mp he]
  exact ⟨sampleFiles, [ssnRule], ssnEngine_new, List.mem_singleton.mpr rfl,
    List.mem_singleton.mpr rfl⟩

end Sample

end ScanState

end PgSense
