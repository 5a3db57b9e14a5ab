import PgSense.Library.Versions
import PgSense.Pipeline.Unit

/-! The exact history of a database unit: which batches its loop has taken, in which
order and under which rules, and what it has dispatched of them. -/

namespace PgSense
open Library
set_option autoImplicit false

namespace DatabaseUnit

section Log
variable (cr : Crates)

/-- What the events of a batch add to the log of dispatched findings. -/
def eventsLog (ticket : Nat) (engine : RuleEngine) (events : List ScanEvent) :
    List (Nat × Finding) :=
  (events.flatMap (scan cr engine)).map fun finding => (ticket, finding)

def batchLog (b : Batch × RuleEngine) : List (Nat × Finding) :=
  eventsLog cr b.1.ticket b.2 b.1.events

/-- What is still to be dispatched of the batch the loop works on. -/
def pending : LoopPc → List (Nat × Finding)
  | .idle => []
  | .scanning batch engine rest => eventsLog cr batch.ticket engine rest
  | .dispatching batch engine rest finding later _ =>
    ((finding :: later).map fun f => (batch.ticket, f)) ++ eventsLog cr batch.ticket engine rest

end Log

/-- The batch the loop works on, with the rules it loaded for it. -/
def working : LoopPc → List (Batch × RuleEngine)
  | .idle => []
  | .scanning batch engine _ => [(batch, engine)]
  | .dispatching batch engine _ _ _ _ => [(batch, engine)]

def taken (u : DatabaseUnit) : List (Batch × RuleEngine) := u.done ++ working u.loop

/-- Every batch the queue has accepted, in the order of the queue. -/
def accepted (u : DatabaseUnit) : List Batch := u.taken.map Prod.fst ++ u.queue

section Order
variable (cr : Crates)

/-- Batches are taken as they were queued, and their findings dispatched as they were
found: nothing is left out, repeated or overtaken. -/
structure InOrder (u : DatabaseUnit) : Prop where
  tickets : u.accepted.map Batch.ticket = List.range u.nextTicket
  log : u.dispatched ++ pending cr u.loop = u.taken.flatMap (batchLog cr)

theorem start_inOrder (database : String) (filter : ScanFilter) :
    (start database filter).InOrder cr := ⟨rfl, rfl⟩

variable {cr}

theorem eventsLog_cons (ticket : Nat) (engine : RuleEngine) (event : ScanEvent)
    (rest : List ScanEvent) : eventsLog cr ticket engine (event :: rest) =
      ((scan cr engine event).map fun f => (ticket, f)) ++ eventsLog cr ticket engine rest := by
  rw [eventsLog, List.flatMap_cons, List.map_append]
  rfl

theorem LoopMoves.accepted {u v : DatabaseUnit} (h : LoopMoves cr u v) :
    v.accepted = u.accepted ∧ v.nextTicket = u.nextTicket := by
  unfold DatabaseUnit.accepted taken
  cases h with
  | received batch queue engine hl hq => simp [working, hl, hq]
  | completed batch engine hl => simp [working, hl]
  | nothingFound batch engine event rest hl hs => simp [working, hl]
  | found batch engine event rest finding later hl hs => simp [working, hl, dispatchAt]
  | within batch engine rest finding later pc pc' hl => simp [working, hl, dispatchAt]
  | dispatchReturned batch engine rest finding later pc hl =>
    cases later <;> simp [working, hl, returned]

theorem LoopMoves.log {u v : DatabaseUnit} (h : LoopMoves cr u v)
    (hlog : u.dispatched ++ pending cr u.loop = u.taken.flatMap (batchLog cr)) :
    v.dispatched ++ pending cr v.loop = v.taken.flatMap (batchLog cr) := by
  unfold taken at hlog ⊢
  cases h with
  | received batch queue engine hl hq =>
    rw [hl] at hlog
    simp only [pending, working, List.append_nil] at hlog
    simp only [pending, working, List.flatMap_append, List.flatMap_singleton, ← hlog]
    rfl
  | completed batch engine hl =>
    rw [hl] at hlog
    simp only [working] at hlog
    simpa [pending, working, eventsLog] using hlog
  | nothingFound batch engine event rest hl hs =>
    rw [hl] at hlog
    simpa only [pending, working, eventsLog_cons, hs, List.map_nil, List.nil_append] using hlog
  | found batch engine event rest finding later hl hs =>
    rw [hl] at hlog
    simpa only [pending, working, eventsLog_cons, hs, dispatchAt] using hlog
  | within batch engine rest finding later pc pc' hl =>
    rw [hl] at hlog
    exact hlog
  | dispatchReturned batch engine rest finding later pc hl =>
    rw [hl] at hlog
    cases later with
    | nil =>
      simp only [pending, working, List.map_cons, List.map_nil] at hlog
      simpa only [pending, working, returned, List.append_assoc] using hlog
    | cons next later =>
      rw [pending, List.map_cons] at hlog
      simpa only [pending, working, returned, List.append_assoc, List.cons_append,
        List.nil_append] using hlog

theorem InOrder.loopStep {channels : List NamedChannel} {u v : DatabaseUnit} {sh sh' : Shared}
    {l : LoopLabel} (hu : u.InOrder cr) (h : u.loopStep cr channels sh l = some (v, sh')) :
    v.InOrder cr := by
  have hmoves := loopStep_moves h
  obtain ⟨haccepted, hnext⟩ := hmoves.accepted
  refine ⟨?_, hmoves.log hu.log⟩
  rw [haccepted, hnext]
  exact hu.tickets

/-- What `write_events` does to a unit, apart from its own calls: it queues a batch of a
blocked call under the next ticket, or it leaves the unit alone. -/
theorem writeStep_queue {u v : DatabaseUnit} {l : WriteLabel} (h : u.writeStep l = some v) :
    v.loop = u.loop ∧ v.done = u.done ∧ v.dispatched = u.dispatched ∧
      ((v.queue = u.queue ∧ v.nextTicket = u.nextTicket) ∨
        ∃ w ∈ u.writes, ∃ events, w.phase = .sending events ∧
          v.queue = u.queue ++ [⟨u.nextTicket, events⟩] ∧ v.nextTicket = u.nextTicket + 1) := by
  cases writeStep_acts h with
  | enqueues hk hroom =>
    exact ⟨rfl, rfl, rfl, .inr ⟨_, List.mem_of_getElem? hk, _, rfl, rfl, rfl⟩⟩
  | forwards | skips | acknowledges | dropped => exact ⟨rfl, rfl, rfl, .inl ⟨rfl, rfl⟩⟩

theorem InOrder.writeStep {u v : DatabaseUnit} {l : WriteLabel} (hu : u.InOrder cr)
    (h : u.writeStep l = some v) : v.InOrder cr := by
  obtain ⟨hloop, hdone, hdispatched, hqueue⟩ := writeStep_queue h
  have htaken : v.taken = u.taken := by rw [taken, taken, hdone, hloop]
  refine ⟨?_, by rw [hdispatched, hloop, htaken]; exact hu.log⟩
  unfold accepted
  rw [htaken]
  rcases hqueue with ⟨hqueue, hnext⟩ | ⟨w, _, events, _, hqueue, hnext⟩
  · rw [hqueue, hnext]
    exact hu.tickets
  · rw [hqueue, hnext, ← List.append_assoc, List.map_append, List.range_succ]
    exact congrArg (· ++ [u.nextTicket]) hu.tickets

/-- An idle loop has dispatched what it has scanned, to the last finding. -/
theorem InOrder.idle {u : DatabaseUnit} (hu : u.InOrder cr) (hl : u.loop = .idle) :
    u.dispatched = u.done.flatMap (batchLog cr) := by
  have hlog := hu.log
  unfold taken at hlog
  rw [hl] at hlog
  simpa only [pending, working, List.append_nil] using hlog

end Order

section Versions
variable {cr : Crates} {channels : List NamedChannel}

section Taken
variable {u : DatabaseUnit} {batch : Batch} {engine : RuleEngine} {rest : List ScanEvent}
  {finding : Finding} {later : List Finding} {pc : DispatchPc}

theorem taken_returned (hl : u.loop = .dispatching batch engine rest finding later pc) :
    (u.returned batch engine rest finding later).taken = u.taken := by
  unfold taken
  rw [hl]
  cases later <;> rfl

theorem taken_dispatchAt (pc' : DispatchPc)
    (hl : u.loop = .dispatching batch engine rest finding later pc) :
    (u.dispatchAt batch engine rest finding later pc').taken = u.taken := by
  unfold taken
  rw [hl]
  rfl

end Taken

/-- A step of the loop takes no batch, or the next one, under the active rules. -/
theorem loopStep_taken {u v : DatabaseUnit} {sh sh' : Shared} {l : LoopLabel}
    (h : u.loopStep cr channels sh l = some (v, sh')) :
    (v.taken = u.taken ∧ v.queue = u.queue) ∨
      ∃ batch, v.taken = u.taken ++ [(batch, sh.engine)] ∧ u.queue = batch :: v.queue := by
  cases loopStep_acts h with
  | received hl hq => exact .inr ⟨_, by simp [taken, hl, working], hq⟩
  | completed hl | nothingFound hl => exact .inl ⟨by simp [taken, hl, working], rfl⟩
  | found hl => exact .inl ⟨by simp [taken, hl, working, dispatchAt], rfl⟩
  | suppressed hl => exact .inl ⟨taken_returned hl, rfl⟩
  | finished hl => exact .inl ⟨taken_returned hl, rfl⟩
  | passed hl | routed hl | skipped hl | delivered hl | buffered hl | filled hl | drained hl
    | emptied hl | posted hl => exact .inl ⟨taken_dispatchAt _ hl, rfl⟩

theorem loopStep_keeps {u v : DatabaseUnit} {sh sh' : Shared} {l : LoopLabel}
    (h : u.loopStep cr channels sh l = some (v, sh')) :
    v.database = u.database ∧ v.filter = u.filter ∧ v.writes = u.writes := by
  obtain hmoves := loopStep_moves h
  refine ⟨?_, ?_, hmoves.writes.2.1⟩
  · cases hmoves <;> rfl
  · cases hmoves <;> rfl

theorem loopStep_queue {u v : DatabaseUnit} {sh sh' : Shared} {l : LoopLabel}
    (h : u.loopStep cr channels sh l = some (v, sh')) :
    ∀ batch ∈ v.accepted, batch ∈ u.accepted := by
  rw [(loopStep_moves h).accepted.1]
  exact fun _ hb => hb

theorem writeStep_keeps {u v : DatabaseUnit} {l : WriteLabel} (h : u.writeStep l = some v) :
    v.database = u.database ∧ v.filter = u.filter := by
  cases writeStep_acts h <;> exact ⟨rfl, rfl⟩

end Versions

end DatabaseUnit

end PgSense
