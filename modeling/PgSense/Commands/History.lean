import PgSense.Library.Observing
import PgSense.Pipeline.History
import PgSense.Commands.Shutdown

/-! The histories of the units in a run of the whole scanner: what they process, under
which rules, and where their findings come from. -/

namespace PgSense
open Library
set_option autoImplicit false

/-- The engine that a step publishes, if any. -/
def ScanLabel.published : ScanLabel → Option RuleEngine
  | .endReload engine => engine
  | _ => none

/-- The batch that a step hands to `write_events` of the unit at position `u`, if any. -/
def ScanLabel.offered (u : Nat) : ScanLabel → Option (List Event)
  | .write k (.begin _ events) => if k = u then some events else none
  | _ => none

/-- The loop of a unit on its own. -/
def DatabaseUnit.loopMachine (cr : Crates) (channels : List NamedChannel) :
    Machine (DatabaseUnit × Shared) DatabaseUnit.LoopLabel :=
  ⟨fun x l => x.1.loopStep cr channels x.2 l⟩

namespace ScanState

section Units
variable (cr : Crates) (channels : List NamedChannel)

/-- What a step of the scanner can do to the unit at position `u`. -/
inductive UnitMoves (s : ScanState) (l : ScanLabel) (u : Nat) : DatabaseUnit → DatabaseUnit → Prop
  | keep (unit : DatabaseUnit) : UnitMoves s l u unit unit
  | monitor (unit : DatabaseUnit) (m : Monitor) : UnitMoves s l u unit { unit with monitor := m }
  | write {unit v : DatabaseUnit} {wl : DatabaseUnit.WriteLabel} (hl : l = .write u wl)
      (h : unit.writeStep wl = some v) : UnitMoves s l u unit v
  | loop {unit v : DatabaseUnit} {sh : Shared} {ll : DatabaseUnit.LoopLabel} (hl : l = .loop u ll)
      (h : unit.loopStep cr channels s.shared ll = some (v, sh)) : UnitMoves s l u unit v

variable {cr channels} {s t : ScanState} {l : ScanLabel}

/-- The other units stay when one is set. -/
theorem unitMoves_setUnit {k u : Nat} {unit moved other : DatabaseUnit}
    (hk : s.units[k]? = some unit) (hmoves : UnitMoves cr channels s l k unit moved)
    (hu : s.units[u]? = some other) :
    ∃ v, (s.setUnit k moved).units[u]? = some v ∧ UnitMoves cr channels s l u other v := by
  by_cases hsame : k = u
  · subst hsame
    rw [hk] at hu
    cases hu
    obtain ⟨hlt, _⟩ := List.getElem?_eq_some_iff.mp hk
    exact ⟨moved, List.getElem?_set_self hlt, hmoves⟩
  · exact ⟨other, (List.getElem?_set_ne hsame).trans hu, .keep other⟩

theorem stepFlush_units (i now : Nat) : (s.stepFlush channels i now).units = s.units := by
  unfold stepFlush
  split
  · rfl
  · split <;> rfl

/-- A step keeps the units in their places, and moves at most one of them. -/
theorem step_units (h : s.step cr channels l = some t) :
    t.units.length = s.units.length ∧
      ∀ {u : Nat} {unit : DatabaseUnit}, s.units[u]? = some unit →
        ∃ v, t.units[u]? = some v ∧ UnitMoves cr channels s l u unit v := by
  cases step_acts h with
  | monitored hk => exact ⟨List.length_set, fun hu => unitMoves_setUnit hk (.monitor _ _) hu⟩
  | signalled hk => exact ⟨List.length_set, fun hu => unitMoves_setUnit hk (.monitor _ _) hu⟩
  | written hk hv => exact ⟨List.length_set, fun hu => unitMoves_setUnit hk (.write rfl hv) hu⟩
  | looped hk hv => exact ⟨List.length_set, fun hu => unitMoves_setUnit hk (.loop rfl hv) hu⟩
  | interrupted =>
    rw [requestShutdown, List.length_map]
    refine ⟨rfl, fun {u unit} hu => ⟨_, by rw [List.getElem?_map, hu]; rfl, .monitor unit _⟩⟩
  | flushed =>
    rw [stepFlush_units]
    exact ⟨rfl, fun {u unit} hu => ⟨unit, hu, .keep unit⟩⟩
  | timed | received | reloading | reloaded | posted =>
    exact ⟨rfl, fun {u unit} hu => ⟨unit, hu, .keep unit⟩⟩

theorem step_write {k : Nat} {wl : DatabaseUnit.WriteLabel}
    (h : s.step cr channels (.write k wl) = some t) :
    ∃ unit v, s.units[k]? = some unit ∧ unit.writeStep wl = some v ∧ t = s.setUnit k v := by
  cases step_acts h with
  | written hk hv => exact ⟨_, _, hk, hv, rfl⟩

theorem step_loop {k : Nat} {ll : DatabaseUnit.LoopLabel}
    (h : s.step cr channels (.loop k ll) = some t) :
    ∃ unit v sh, s.units[k]? = some unit ∧ unit.loopStep cr channels s.shared ll = some (v, sh) ∧
      t = { s.setUnit k v with shared := sh } := by
  cases step_acts h with
  | looped hk hv => exact ⟨_, _, _, hk, hv, rfl⟩

theorem step_loop_eq (hmain : s.main ≠ .returned) {u : Nat} {unit : DatabaseUnit}
    (hu : s.units[u]? = some unit) (ll : DatabaseUnit.LoopLabel) :
    s.step cr channels (.loop u ll) = (unit.loopStep cr channels s.shared ll).map fun r =>
      { s.setUnit u r.1 with shared := r.2 } := by
  unfold step
  rw [if_neg hmain]
  simp only [hu, Option.bind_some]

/-- While its loop alone moves, the scanner moves as the unit does. -/
theorem run_loop_alone (hmain : s.main ≠ .returned) {k : Nat} {unit v : DatabaseUnit}
    {sh : Shared} {lls : List DatabaseUnit.LoopLabel} (hk : s.units[k]? = some unit)
    (h : (DatabaseUnit.loopMachine cr channels).run (unit, s.shared) lls = some (v, sh)) :
    (scanMachine cr channels).run s (lls.map (ScanLabel.loop k)) =
      some { s.setUnit k v with shared := sh } := by
  obtain ⟨hlt, hget⟩ := List.getElem?_eq_some_iff.mp hk
  induction lls generalizing s unit with
  | nil =>
    cases h
    have hsame : s.units.set k v = s.units := by rw [← hget, List.set_getElem_self]
    simp only [List.map_nil, Machine.run_nil, setUnit]
    rw [hsame]
  | cons ll lls ih =>
    obtain ⟨⟨m, sh'⟩, hstep, hrest⟩ := (Machine.run_cons_eq_some _).mp h
    change unit.loopStep cr channels s.shared ll = some (m, sh') at hstep
    have hset : (s.setUnit k m).units[k]? = some m := List.getElem?_set_self hlt
    have hlt' : k < (s.setUnit k m).units.length := by
      rw [setUnit, List.length_set]
      exact hlt
    rw [List.map_cons, Machine.run_cons]
    simp only [scanMachine]
    rw [step_loop_eq hmain hk, hstep]
    have hrun := ih (s := { s.setUnit k m with shared := sh' }) hmain hset hrest hlt'
      (List.getElem_set_self hlt')
    simp only [setUnit, List.set_set] at hrun
    exact hrun

/-- What holds of every unit after a step, given what the moves of a unit do to it. -/
theorem step_forall {P Q : Nat → DatabaseUnit → Prop}
    (hs : ∀ u unit, s.units[u]? = some unit → P u unit)
    (hmoves : ∀ u unit v, P u unit → UnitMoves cr channels s l u unit v → Q u v)
    (h : s.step cr channels l = some t) : ∀ u v, t.units[u]? = some v → Q u v := by
  intro u v hv
  obtain ⟨hlength, hunits⟩ := step_units h
  obtain ⟨hlt, _⟩ := List.getElem?_eq_some_iff.mp hv
  have hu := List.getElem?_eq_getElem (hlength ▸ hlt)
  obtain ⟨v', hv', hmove⟩ := hunits hu
  rw [hv] at hv'
  cases hv'
  exact hmoves _ _ _ (hs _ _ hu) hmove

theorem loopStep_engine {u v : DatabaseUnit} {sh sh' : Shared} {ll : DatabaseUnit.LoopLabel}
    (h : u.loopStep cr channels sh ll = some (v, sh')) : sh'.engine = sh.engine := by
  cases DatabaseUnit.loopStep_acts h <;> rfl

theorem stepFlush_dedup (i now : Nat) :
    (s.stepFlush channels i now).shared.engine = s.shared.engine ∧
      (s.stepFlush channels i now).shared.dedup = s.shared.dedup := by
  unfold stepFlush
  split
  · exact ⟨rfl, rfl⟩
  · split <;> exact ⟨rfl, rfl⟩

/-- Only the end of a reload changes the active engine. -/
theorem step_engine (h : s.step cr channels l = some t) :
    t.shared.engine = l.published.getD s.shared.engine := by
  cases step_acts h with
  | looped hk hv => exact loopStep_engine hv
  | flushed => exact (stepFlush_dedup _ _).1
  | monitored | signalled | written | timed | received | reloading | reloaded | interrupted
    | posted => rfl

end Units

section Order
variable (cr : Crates) (channels : List NamedChannel)

theorem UnitMoves.inOrder {cr : Crates} {channels : List NamedChannel} {s : ScanState}
    {l : ScanLabel} {u : Nat} {unit v : DatabaseUnit} (h : UnitMoves cr channels s l u unit v)
    (hunit : unit.InOrder cr) : v.InOrder cr := by
  cases h with
  | keep => exact hunit
  | monitor m => exact ⟨hunit.tickets, hunit.log⟩
  | write hl h => exact hunit.writeStep h
  | loop hl h => exact hunit.loopStep h

/-- Every unit is in order. -/
def AllInOrder (s : ScanState) : Prop :=
  ∀ (u : Nat) (unit : DatabaseUnit), s.units[u]? = some unit → unit.InOrder cr

theorem run_allInOrder (engine : RuleEngine) (window : Nat) (databases : List (String × ScanFilter))
    {ls : List ScanLabel} {t : ScanState}
    (h : (scanMachine cr channels).run (start engine window databases) ls = some t) :
    t.AllInOrder cr := by
  have hstep : ∀ {s l t}, AllInOrder cr s → (scanMachine cr channels).step s l = some t →
      AllInOrder cr t :=
    fun hs hstep => step_forall hs (fun _ _ _ hunit hmoves => hmoves.inOrder hunit) hstep
  apply Machine.run_invariant hstep _ h
  intro u unit hu
  obtain ⟨db, _, rfl⟩ := List.mem_map.mp (List.mem_of_getElem? hu)
  exact DatabaseUnit.start_inOrder cr db.1 db.2

/-- In every run each unit takes its batches in the order in which they were queued, and
has dispatched the findings of what it took, each once and in order, up to those still
pending; an idle loop has none pending. -/
theorem processed_in_order (engine : RuleEngine) (window : Nat)
    (databases : List (String × ScanFilter)) {ls : List ScanLabel} {t : ScanState}
    (h : (scanMachine cr channels).run (start engine window databases) ls = some t) :
    ∀ unit ∈ t.units, unit.InOrder cr ∧
      (unit.loop = .idle → unit.dispatched = unit.done.flatMap (DatabaseUnit.batchLog cr)) := by
  intro unit hunit
  obtain ⟨u, hu⟩ := List.getElem?_of_mem hunit
  have horder := run_allInOrder cr channels engine window databases h u unit hu
  exact ⟨horder, horder.idle⟩

def untilFound : List ScanLabel :=
  [.write 0 (.begin 0 [.insert customerInsert]), .write 0 (.enqueue 0), .loop 0 .recv,
    .loop 0 .scanNext]

def logOnly : List NamedChannel := [⟨"log", .log⟩]

def untilLogged : List ScanLabel :=
  untilFound ++ [.loop 0 (.ask 0 0), .loop 0 .visit, .loop 0 (.send 0), .loop 0 .visit]

/-- A finding that passes a fresh deduplicator is sent to the log. -/
theorem run_logged {s : ScanState} (hmain : s.main = .selecting) {window : Nat}
    (hdedup : s.shared.dedup = .new window) {unit : DatabaseUnit} (hu : s.units[0]? = some unit)
    {batch : Batch} {engine : RuleEngine} {rest : List ScanEvent} {finding : Finding}
    {later : List Finding} (hrouted : finding.channels = none)
    (hl : unit.loop = .dispatching batch engine rest finding later .asking) :
    ∃ t, (scanMachine .sample logOnly).run s
      [.loop 0 (.ask 0 0), .loop 0 .visit, .loop 0 (.send 0), .loop 0 .visit] = some t ∧
        t.main = .selecting ∧ t.units[0]? = some (unit.returned batch engine rest finding later) := by
  obtain ⟨hlt, _⟩ := List.getElem?_eq_some_iff.mp hu
  have hloop : ∃ sh, (DatabaseUnit.loopMachine .sample logOnly).run (unit, s.shared)
      [.ask 0 0, .visit, .send 0, .visit] =
        some (unit.returned batch engine rest finding later, sh) := by
    simp [Machine.run_cons, DatabaseUnit.loopMachine, DatabaseUnit.loopStep, hl, hdedup,
      Deduplicator.new_shouldAlert, DatabaseUnit.dispatchAt, DatabaseUnit.returned, logOnly,
      NamedChannel.routed, hrouted]
  obtain ⟨sh, hloop⟩ := hloop
  exact ⟨_, run_loop_alone (by simp [hmain]) hu hloop, hmain, List.getElem?_set_self hlt⟩

theorem untilLogged_run : ∃ t unit f,
    (scanMachine .sample logOnly).run (start ssnEngine 10 oneDatabase) untilLogged = some t ∧
      t.units[0]? = some unit ∧ (0, f) ∈ unit.dispatched := by
  have hfound : ∃ s unit,
      (scanMachine .sample logOnly).run (start ssnEngine 10 oneDatabase) untilFound = some s ∧
        s.main = .selecting ∧ s.shared.dedup = .new 10 ∧ s.units[0]? = some unit ∧
        ∃ batch engine rest finding later, batch.ticket = 0 ∧ finding.channels = none ∧
          unit.loop = .dispatching batch engine rest finding later .asking :=
    ⟨_, _, rfl, rfl, rfl, rfl, _, _, _, _, _, rfl, rfl, rfl⟩
  obtain ⟨s, unit, hs, hmain, hdedup, hu, batch, engine, rest, finding, later, hticket, hrouted,
    hl⟩ := hfound
  obtain ⟨t, ht, _, hunit⟩ := run_logged hmain hdedup hu hrouted hl
  refine ⟨t, _, finding, ?_, hunit, ?_⟩
  · rw [untilLogged, Machine.run_append, hs]
    exact ht
  · rw [← hticket]
    exact List.mem_append_right _ (List.mem_singleton.mpr rfl)

theorem processed_in_order_ssn : ∃ t,
    (scanMachine .sample logOnly).run (start ssnEngine 10 oneDatabase) untilLogged = some t ∧
      ∀ unit ∈ t.units, unit.InOrder .sample ∧
        (unit.loop = .idle → unit.dispatched = unit.done.flatMap (DatabaseUnit.batchLog .sample)) := by
  obtain ⟨t, _, _, ht, _, _⟩ := untilLogged_run
  exact ⟨t, ht, processed_in_order .sample logOnly ssnEngine 10 oneDatabase ht⟩

end Order

section Versions
variable (cr : Crates) (channels : List NamedChannel)

/-- The batches a unit has taken since it was `unit`, against the engines published
since `active` was. -/
def TakenSince (unit : DatabaseUnit) (published : List RuleEngine) (v : DatabaseUnit) : Prop :=
  ∃ later, v.taken = unit.taken ++ later ∧ Drawn (later.map Prod.snd) published

theorem UnitMoves.takenSince {cr : Crates} {channels : List NamedChannel} {s : ScanState}
    {l : ScanLabel} {u : Nat} {first unit v : DatabaseUnit} {published : List RuleEngine}
    (h : UnitMoves cr channels s l u unit v) (htaken : TakenSince first published unit)
    (hactive : published.getLast? = some s.shared.engine) :
    TakenSince first (published ++ l.published.toList) v := by
  obtain ⟨later, hlater, hdrawn⟩ := htaken
  have hsame : v.taken = unit.taken → TakenSince first (published ++ l.published.toList) v :=
    fun hv => ⟨later, hv.trans hlater, hdrawn.publish _⟩
  cases h with
  | keep => exact hsame rfl
  | monitor m => exact hsame rfl
  | write hl h =>
    obtain ⟨hloop, hdone, _, _⟩ := DatabaseUnit.writeStep_queue h
    exact hsame (by rw [DatabaseUnit.taken, DatabaseUnit.taken, hdone, hloop])
  | loop hl h =>
    rcases DatabaseUnit.loopStep_taken h with ⟨hv, _⟩ | ⟨batch, hv, _⟩
    · exact hsame hv
    · refine ⟨later ++ [(batch, s.shared.engine)], ?_, ?_⟩
      · rw [hv, hlater, List.append_assoc]
      · rw [List.map_append]
        exact (hdrawn.read_latest hactive).publish _

/-- The engines published since `first`, against the active one and what the unit at
position `u` has taken. -/
structure PublishedSince (first : ScanState) (u : Nat) (unit : DatabaseUnit)
    (past : List ScanLabel) (s : ScanState) : Prop where
  active : (first.shared.engine :: past.filterMap ScanLabel.published).getLast? =
    some s.shared.engine
  taken : ∃ v, s.units[u]? = some v ∧
    TakenSince unit (first.shared.engine :: past.filterMap ScanLabel.published) v

theorem PublishedSince.start (s : ScanState) {u : Nat} {unit : DatabaseUnit}
    (hu : s.units[u]? = some unit) : PublishedSince s u unit [] s :=
  ⟨rfl, unit, hu, [], by rw [List.append_nil], .nil _⟩

theorem PublishedSince.step {cr : Crates} {channels : List NamedChannel} {first s t : ScanState}
    {u : Nat} {unit : DatabaseUnit} {past : List ScanLabel} {l : ScanLabel}
    (hs : PublishedSince first u unit past s) (h : s.step cr channels l = some t) :
    PublishedSince first u unit (past ++ [l]) t := by
  obtain ⟨hactive, v, hv, htaken⟩ := hs
  obtain ⟨v', hv', hmoves⟩ := (step_units h).2 hv
  have hpast : first.shared.engine :: (past ++ [l]).filterMap ScanLabel.published =
      (first.shared.engine :: past.filterMap ScanLabel.published) ++ l.published.toList := by
    rw [List.filterMap_append, ← List.cons_append]
    cases hl : l.published <;> simp [hl]
  constructor
  · rw [hpast, step_engine h]
    cases l.published with
    | none => simpa using hactive
    | some engine => exact List.getLast?_concat
  · rw [hpast]
    exact ⟨v', hv', hmoves.takenSince htaken hactive⟩

/-- Every batch is scanned under one engine. From any state on, the engines a unit takes
batches under are the active one and those published since, in the order of publication;
none that was replaced before is used again. -/
theorem reloads_in_order {s t : ScanState} {ls : List ScanLabel}
    (h : (scanMachine cr channels).run s ls = some t) {u : Nat} {unit : DatabaseUnit}
    (hu : s.units[u]? = some unit) :
    ∃ v, t.units[u]? = some v ∧
      TakenSince unit (s.shared.engine :: ls.filterMap ScanLabel.published) v :=
  (Machine.run_invariant_history (fun hs hstep => PublishedSince.step hs hstep)
    (PublishedSince.start s hu) h).taken

/-- The rules are reloaded while a batch is queued. -/
def reloadedBefore : List ScanLabel :=
  [.write 0 (.begin 0 [.insert customerInsert]), .write 0 (.enqueue 0), .startReload,
    .endReload (some ssnEngine), .loop 0 .recv]

theorem reloads_in_order_queued : ∃ t unit v,
    (scanMachine .sample []).run (start noRules 0 oneDatabase) reloadedBefore = some t ∧
      (start noRules 0 oneDatabase).units[0]? = some unit ∧ t.units[0]? = some v ∧
        TakenSince unit [noRules, ssnEngine] v := by
  have hrun : ∃ t,
      (scanMachine .sample []).run (start noRules 0 oneDatabase) reloadedBefore = some t :=
    ⟨_, rfl⟩
  obtain ⟨t, ht⟩ := hrun
  obtain ⟨v, hv, htaken⟩ := reloads_in_order .sample [] ht (u := 0) rfl
  exact ⟨t, _, v, ht, rfl, hv, htaken⟩

end Versions

section Sources
variable (cr : Crates) (channels : List NamedChannel)

/-- Every batch of a unit is what its filter leaves of a batch it was handed. -/
structure Sourced (database : String) (filter : ScanFilter) (handed : List (List Event))
    (unit : DatabaseUnit) : Prop where
  sameDatabase : unit.database = database
  sameFilter : unit.filter = filter
  sending : ∀ w ∈ unit.writes, ∀ batch, w.phase = .sending batch →
    ∃ events ∈ handed, forwarded filter database events = some batch
  accepted : ∀ batch ∈ unit.accepted,
    ∃ events ∈ handed, forwarded filter database events = some batch.events

variable {cr channels} {database : String} {filter : ScanFilter} {handed : List (List Event)}
  {unit v : DatabaseUnit}

theorem Sourced.mono (h : Sourced database filter handed unit) (more : List (List Event)) :
    Sourced database filter (handed ++ more) unit where
  sameDatabase := h.sameDatabase
  sameFilter := h.sameFilter
  sending := by
    intro w hw batch hphase
    obtain ⟨events, hevents, heq⟩ := h.sending w hw batch hphase
    exact ⟨events, List.mem_append_left more hevents, heq⟩
  accepted := by
    intro batch hbatch
    obtain ⟨events, hevents, heq⟩ := h.accepted batch hbatch
    exact ⟨events, List.mem_append_left more hevents, heq⟩

/-- A call in flight after a step was in flight before it, or has just begun, or no
longer sends. -/
theorem writeStep_writes {wl : DatabaseUnit.WriteLabel} (h : unit.writeStep wl = some v) :
    ∀ w ∈ v.writes, ∀ batch, w.phase = .sending batch → w ∈ unit.writes ∨
      ∃ pipeline events, wl = .begin pipeline events ∧
        forwarded unit.filter unit.database events = some batch := by
  intro w hw batch hphase
  cases DatabaseUnit.writeStep_acts h with
  | @forwards pipeline events scanEvents hlive hf =>
    rcases List.mem_append.mp hw with hw | hw
    · exact .inl hw
    · rw [List.mem_singleton.mp hw] at hphase
      cases hphase
      exact .inr ⟨pipeline, events, rfl, hf⟩
  | skips hlive hf =>
    rcases List.mem_append.mp hw with hw | hw
    · exact .inl hw
    · rw [List.mem_singleton.mp hw] at hphase
      cases hphase
  | enqueues hk hroom =>
    rcases List.mem_or_eq_of_mem_set hw with hw | rfl
    · exact .inl hw
    · cases hphase
  | acknowledges hk => exact .inl (List.mem_of_mem_eraseIdx hw)
  | dropped hlt => exact .inl (List.mem_of_mem_eraseIdx hw)

theorem Sourced.writeStep (hunit : Sourced database filter handed unit) {u : Nat}
    {wl : DatabaseUnit.WriteLabel} (h : unit.writeStep wl = some v) :
    Sourced database filter (handed ++ ((ScanLabel.write u wl).offered u).toList) v := by
  obtain ⟨hdatabase, hfilter⟩ := DatabaseUnit.writeStep_keeps h
  have hkept := hunit.mono ((ScanLabel.write u wl).offered u).toList
  refine ⟨hdatabase.trans hunit.sameDatabase, hfilter.trans hunit.sameFilter, ?_, ?_⟩
  · intro w hw batch hphase
    rcases writeStep_writes h w hw batch hphase with hw | ⟨pipeline, events, rfl, heq⟩
    · exact hkept.sending w hw batch hphase
    · rw [hunit.sameFilter, hunit.sameDatabase] at heq
      exact ⟨events, by simp [ScanLabel.offered], heq⟩
  · intro batch hbatch
    obtain ⟨hloop, hdone, _, hqueue⟩ := DatabaseUnit.writeStep_queue h
    have htaken : v.taken = unit.taken := by
      rw [DatabaseUnit.taken, DatabaseUnit.taken, hdone, hloop]
    rcases hqueue with ⟨hqueue, _⟩ | ⟨w, hw, events, hphase, hqueue, _⟩
    · apply hkept.accepted batch
      rwa [DatabaseUnit.accepted, htaken, hqueue] at hbatch
    · rw [DatabaseUnit.accepted, htaken, hqueue, ← List.append_assoc] at hbatch
      rcases List.mem_append.mp hbatch with hbatch | hbatch
      · exact hkept.accepted batch hbatch
      · rw [List.mem_singleton.mp hbatch]
        exact hkept.sending w hw events hphase

theorem UnitMoves.sourced {s : ScanState} {l : ScanLabel} {u : Nat}
    (h : UnitMoves cr channels s l u unit v) (hunit : Sourced database filter handed unit) :
    Sourced database filter (handed ++ (l.offered u).toList) v := by
  cases h with
  | keep => exact hunit.mono _
  | monitor m =>
    have hkept := hunit.mono (l.offered u).toList
    exact ⟨hkept.sameDatabase, hkept.sameFilter, hkept.sending, hkept.accepted⟩
  | write hl h =>
    subst hl
    exact hunit.writeStep h
  | loop hl h =>
    obtain ⟨hdatabase, hfilter, hwrites⟩ := DatabaseUnit.loopStep_keeps h
    have hkept := hunit.mono (l.offered u).toList
    refine ⟨hdatabase.trans hunit.sameDatabase, hfilter.trans hunit.sameFilter, ?_, ?_⟩
    · rw [hwrites]
      exact hkept.sending
    · intro batch hbatch
      exact hkept.accepted batch (DatabaseUnit.loopStep_queue h batch hbatch)

def AllSourced (databases : List (String × ScanFilter)) (past : List ScanLabel)
    (s : ScanState) : Prop :=
  ∀ (u : Nat) (unit : DatabaseUnit), s.units[u]? = some unit → ∃ db, databases[u]? = some db ∧
    Sourced db.1 db.2 (past.filterMap (ScanLabel.offered u)) unit

theorem start_allSourced (engine : RuleEngine) (window : Nat)
    (databases : List (String × ScanFilter)) :
    AllSourced databases [] (start engine window databases) := by
  intro u unit hu
  rw [start, List.getElem?_map, Option.map_eq_some_iff] at hu
  obtain ⟨db, hdb, rfl⟩ := hu
  refine ⟨db, hdb, rfl, rfl, ?_, ?_⟩
  · intro w hw
    cases hw
  · intro batch hbatch
    cases hbatch

theorem AllSourced.step {databases : List (String × ScanFilter)} {past : List ScanLabel}
    {s t : ScanState} {l : ScanLabel} (hs : AllSourced databases past s)
    (hstep : s.step cr channels l = some t) : AllSourced databases (past ++ [l]) t := by
  refine step_forall hs ?_ hstep
  intro u unit v hunit hmoves
  obtain ⟨db, hdb, hunit⟩ := hunit
  refine ⟨db, hdb, ?_⟩
  have hnew : [l].filterMap (ScanLabel.offered u) = (l.offered u).toList := by
    cases hl : l.offered u <;> simp [hl]
  rw [List.filterMap_append, hnew]
  exact hmoves.sourced hunit

/-- A forwarded event is a replicated insert or update that the filter lets through,
less its excluded columns. -/
theorem mem_forwarded {events : List Event} {batch : List ScanEvent}
    (h : forwarded filter database events = some batch) {event : ScanEvent}
    (hevent : event ∈ batch) :
    ∃ replicated ∈ events, ∃ extracted, extractScanEvent database replicated = some extracted ∧
      filter.matchesSchema extracted.schemaName = true ∧
      filter.matchesTable extracted.tableName = true ∧
      event = { extracted with
        columns := extracted.columns.filter fun c => filter.shouldIncludeColumn c.name } := by
  have hmem : event ∈ filterEvents filter (extractScanEvents events database) := by
    rw [← forwarded_getD, h]
    exact hevent
  obtain ⟨extracted, hextracted, rfl⟩ := List.mem_map.mp hmem
  obtain ⟨hextracted, hmatches⟩ := List.mem_filter.mp hextracted
  obtain ⟨replicated, hreplicated, heq⟩ := List.mem_filterMap.mp hextracted
  obtain ⟨hschema, htable⟩ := (Bool.and_eq_true_iff).mp hmatches
  exact ⟨replicated, hreplicated, extracted, heq, hschema, htable, rfl⟩

theorem extractScanEvent_database {replicated : Event} {extracted : ScanEvent}
    (h : extractScanEvent database replicated = some extracted) : extracted.database = database := by
  cases replicated with
  | insert event =>
    cases h
    rfl
  | update event =>
    cases h
    rfl
  | other => cases h

/-- Where a finding stands. -/
theorem scan_place {engine : RuleEngine} {event : ScanEvent} {f : Finding}
    (h : f ∈ scan cr engine event) :
    f.database = event.database ∧ f.schemaName = event.schemaName ∧
      f.tableName = event.tableName ∧ ∃ col ∈ event.columns, col.name = f.columnName := by
  rw [scan_eq] at h
  obtain ⟨hit, hhit, rfl⟩ := List.mem_map.mp h
  refine ⟨rfl, rfl, rfl, ?_⟩
  obtain ⟨col, hcol, hname, _⟩ := exists_hit_iff.mp ⟨hit, hhit, rfl, rfl⟩
  exact ⟨col, hcol, hname⟩

/-- A finding comes from a row of one of the handed batches that the filter lets through,
found there by one of the engines. -/
def Founded (cr : Crates) (database : String) (filter : ScanFilter) (handed : List (List Event))
    (engines : List RuleEngine) (f : Finding) : Prop :=
  ∃ events ∈ handed, ∃ replicated ∈ events, ∃ extracted,
    extractScanEvent database replicated = some extracted ∧
      filter.matchesSchema extracted.schemaName = true ∧
      filter.matchesTable extracted.tableName = true ∧
      ∃ engine ∈ engines, f ∈ scan cr engine { extracted with
        columns := extracted.columns.filter fun c => filter.shouldIncludeColumn c.name }

theorem Sourced.founded {handed : List (List Event)} {unit : DatabaseUnit}
    (hunit : Sourced database filter handed unit) (horder : unit.InOrder cr)
    {engines : List RuleEngine} (hengines : ∀ b ∈ unit.taken, b.2 ∈ engines) {ticket : Nat}
    {f : Finding} (hf : (ticket, f) ∈ unit.dispatched) :
    Founded cr database filter handed engines f := by
  have hlog : (ticket, f) ∈ unit.taken.flatMap (DatabaseUnit.batchLog cr) := by
    rw [← horder.log]
    exact List.mem_append_left _ hf
  obtain ⟨b, hb, hf⟩ := List.mem_flatMap.mp hlog
  obtain ⟨found, hfound, heq⟩ := List.mem_map.mp hf
  cases heq
  obtain ⟨event, hevent, hscan⟩ := List.mem_flatMap.mp hfound
  have haccepted : b.1 ∈ unit.accepted :=
    List.mem_append_left _ (List.mem_map.mpr ⟨b, hb, rfl⟩)
  obtain ⟨events, hevents, hforwarded⟩ := hunit.accepted b.1 haccepted
  obtain ⟨replicated, hreplicated, extracted, hextracted, hschema, htable, rfl⟩ :=
    mem_forwarded hforwarded hevent
  exact ⟨events, hevents, replicated, hreplicated, extracted, hextracted, hschema, htable, b.2,
    hengines b hb, hscan⟩

/-- What a founded finding says of its place. -/
theorem Founded.place {handed : List (List Event)} {engines : List RuleEngine} {f : Finding}
    (h : Founded cr database filter handed engines f) :
    f.database = database ∧ filter.matchesSchema f.schemaName = true ∧
      filter.matchesTable f.tableName = true ∧ filter.shouldIncludeColumn f.columnName = true := by
  obtain ⟨_, _, _, _, extracted, hextracted, hschema, htable, engine, _, hscan⟩ := h
  obtain ⟨hdatabase, hschemaName, htableName, col, hcol, hname⟩ := scan_place hscan
  have hevent : extracted.database = database := extractScanEvent_database hextracted
  refine ⟨hdatabase.trans hevent, ?_, ?_, ?_⟩
  · rw [hschemaName]
    exact hschema
  · rw [htableName]
    exact htable
  · rw [← hname]
    exact (List.mem_filter.mp hcol).2

variable (cr channels)

theorem run_allSourced (engine : RuleEngine) (window : Nat)
    (databases : List (String × ScanFilter)) {ls : List ScanLabel} {t : ScanState}
    (h : (scanMachine cr channels).run (start engine window databases) ls = some t) :
    AllSourced databases ls t :=
  Machine.run_invariant_history (fun hs hstep => hs.step hstep)
    (start_allSourced engine window databases) h

/-- No batch is taken under an engine that was not published. -/
theorem taken_published (engine : RuleEngine) (window : Nat)
    (databases : List (String × ScanFilter)) {ls : List ScanLabel} {t : ScanState}
    (h : (scanMachine cr channels).run (start engine window databases) ls = some t) {u : Nat}
    {unit : DatabaseUnit} (hu : t.units[u]? = some unit) :
    ∀ b ∈ unit.taken, b.2 ∈ engine :: ls.filterMap ScanLabel.published := by
  obtain ⟨db, hdb, _⟩ := run_allSourced cr channels engine window databases h u unit hu
  have hstart : (start engine window databases).units[u]? = some (.start db.1 db.2) := by
    simp [start, hdb]
  obtain ⟨v, hv, later, htaken, hdrawn⟩ := (Machine.run_invariant_history
    (fun hs hstep => PublishedSince.step hs hstep) (PublishedSince.start _ hstart) h).taken
  rw [hu] at hv
  cases hv
  intro b hb
  rw [htaken] at hb
  exact hdrawn.mem (List.mem_map.mpr ⟨b, hb, rfl⟩)

/-- No finding is made up, misattributed or out of bounds: in every run, whatever a unit
has dispatched was found by a published engine in a row that was handed to this very
unit, and names the unit's database and a schema, table and column that its filter lets
through. -/
theorem findings_are_founded (engine : RuleEngine) (window : Nat)
    (databases : List (String × ScanFilter)) {ls : List ScanLabel} {t : ScanState}
    (h : (scanMachine cr channels).run (start engine window databases) ls = some t) {u : Nat}
    {unit : DatabaseUnit} (hu : t.units[u]? = some unit) {ticket : Nat} {f : Finding}
    (hf : (ticket, f) ∈ unit.dispatched) :
    ∃ db, databases[u]? = some db ∧
      Founded cr db.1 db.2 (ls.filterMap (ScanLabel.offered u))
        (engine :: ls.filterMap ScanLabel.published) f ∧
      f.database = db.1 ∧ db.2.matchesSchema f.schemaName = true ∧
      db.2.matchesTable f.tableName = true ∧ db.2.shouldIncludeColumn f.columnName = true := by
  obtain ⟨db, hdb, hunit⟩ := run_allSourced cr channels engine window databases h u unit hu
  have horder := run_allInOrder cr channels engine window databases h u unit hu
  have hengines := taken_published cr channels engine window databases h hu
  have hfounded := hunit.founded horder hengines hf
  exact ⟨db, hdb, hfounded, hfounded.place⟩

theorem findings_are_founded_ssn : ∃ t unit f db,
    (scanMachine .sample logOnly).run (start ssnEngine 10 oneDatabase) untilLogged = some t ∧
      t.units[0]? = some unit ∧ (0, f) ∈ unit.dispatched ∧ oneDatabase[0]? = some db ∧
      Founded .sample db.1 db.2 (untilLogged.filterMap (ScanLabel.offered 0))
        (ssnEngine :: untilLogged.filterMap ScanLabel.published) f ∧
      f.database = db.1 ∧ db.2.matchesSchema f.schemaName = true ∧
      db.2.matchesTable f.tableName = true ∧ db.2.shouldIncludeColumn f.columnName = true := by
  obtain ⟨t, unit, f, ht, hunit, hf⟩ := untilLogged_run
  obtain ⟨db, hdb, hfounded⟩ :=
    findings_are_founded .sample logOnly ssnEngine 10 oneDatabase ht hunit hf
  exact ⟨t, unit, f, db, ht, hunit, hf, hdb, hfounded⟩

end Sources

end ScanState

end PgSense
