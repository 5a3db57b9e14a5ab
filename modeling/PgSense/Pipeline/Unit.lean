import PgSense.Alerts.Routing
import PgSense.Alerts.Slack
import PgSense.Pipeline.Destination
import PgSense.Pipeline.Monitor

/-! A database unit at work: `write_events` calls that queue batches and
acknowledge them, and the `scan_loop` task that receives, scans and dispatches. -/

namespace PgSense
open Library
set_option autoImplicit false

def queueCapacity : Nat := 256

/-- A queued batch. The ticket numbers the batches of a unit. -/
structure Batch where
  ticket : Nat
  events : List ScanEvent
  deriving DecidableEq

/-- A call of `write_events`: blocked in `send`, or about to acknowledge. -/
inductive WritePhase where
  | sending (events : List ScanEvent)
  | acknowledging (batch : Option Batch)
  deriving DecidableEq

structure Write where
  pipeline : Nat
  phase : WritePhase
  deriving DecidableEq

inductive DispatchPc where
  | asking
  | visiting (channel : Nat)
  | sending (channel : Nat)
  /-- a Slack buffer is full: in `flush(true)` -/
  | flushing (channel : Nat)
  | posting (channel : Nat)
  deriving DecidableEq

/-- Where the `scan_loop` task stands: in `recv`, about to scan the next event of a
batch, or dispatching the findings of an event. -/
inductive LoopPc where
  | idle
  | scanning (batch : Batch) (engine : RuleEngine) (rest : List ScanEvent)
  | dispatching (batch : Batch) (engine : RuleEngine) (rest : List ScanEvent) (finding : Finding)
      (later : List Finding) (pc : DispatchPc)

structure DatabaseUnit where
  database : String
  filter : ScanFilter
  monitor : Monitor
  queue : List Batch
  nextTicket : Nat
  writes : List Write
  loop : LoopPc
  /-- history: acknowledged batches, completed batches, and the findings of each
  ticket whose dispatch has returned -/
  acked : List Batch
  done : List (Batch × RuleEngine)
  dispatched : List (Nat × Finding)

/-- What the loops of all units share. -/
structure Shared where
  engine : RuleEngine
  dedup : Deduplicator
  /-- the Slack buffers, by channel position -/
  buffers : Nat → BufferState

def Shared.setBuffer (sh : Shared) (i : Nat) (buf : BufferState) : Shared :=
  { sh with buffers := fun j => if j = i then buf else sh.buffers j }

namespace DatabaseUnit

def start (database : String) (filter : ScanFilter) : DatabaseUnit where
  database := database
  filter := filter
  monitor := .start
  queue := []
  nextTicket := 0
  writes := []
  loop := .idle
  acked := []
  done := []
  dispatched := []

inductive WriteLabel where
  | begin (pipeline : Nat) (events : List Event)
  | enqueue (k : Nat)
  | ack (k : Nat)
  /-- the pipeline drops the call -/
  | cancel (k : Nat)

/-- `write_events`, at its await points. -/
def writeStep (u : DatabaseUnit) : WriteLabel → Option DatabaseUnit
  | .begin pipeline events =>
    if u.monitor.live pipeline then
      let phase := match forwarded u.filter u.database events with
        | some scanEvents => .sending scanEvents
        | none => .acknowledging none
      some { u with writes := u.writes ++ [⟨pipeline, phase⟩] }
    else none
  | .enqueue k =>
    match u.writes[k]? with
    | some ⟨pipeline, .sending events⟩ =>
      if u.queue.length < queueCapacity then
        some { u with
          queue := u.queue ++ [⟨u.nextTicket, events⟩]
          nextTicket := u.nextTicket + 1
          writes := u.writes.set k ⟨pipeline, .acknowledging (some ⟨u.nextTicket, events⟩)⟩ }
      else none
    | _ => none
  | .ack k =>
    match u.writes[k]? with
    | some ⟨_, .acknowledging batch⟩ =>
      some { u with acked := u.acked ++ batch.toList, writes := u.writes.eraseIdx k }
    | _ => none
  | .cancel k =>
    if k < u.writes.length then some { u with writes := u.writes.eraseIdx k } else none

/-- What a step of `write_events` does to the unit, with a case for each way it can go. -/
inductive WriteActs (u : DatabaseUnit) : WriteLabel → DatabaseUnit → Prop
  | forwards {pipeline : Nat} {events : List Event} {scanEvents : List ScanEvent}
      (hlive : u.monitor.live pipeline = true)
      (hf : forwarded u.filter u.database events = some scanEvents) :
      WriteActs u (.begin pipeline events)
        { u with writes := u.writes ++ [⟨pipeline, .sending scanEvents⟩] }
  | skips {pipeline : Nat} {events : List Event} (hlive : u.monitor.live pipeline = true)
      (hf : forwarded u.filter u.database events = none) :
      WriteActs u (.begin pipeline events)
        { u with writes := u.writes ++ [⟨pipeline, .acknowledging none⟩] }
  | enqueues {k pipeline : Nat} {events : List ScanEvent}
      (hk : u.writes[k]? = some ⟨pipeline, .sending events⟩)
      (hroom : u.queue.length < queueCapacity) :
      WriteActs u (.enqueue k) { u with
        queue := u.queue ++ [⟨u.nextTicket, events⟩]
        nextTicket := u.nextTicket + 1
        writes := u.writes.set k ⟨pipeline, .acknowledging (some ⟨u.nextTicket, events⟩)⟩ }
  | acknowledges {k pipeline : Nat} {batch : Option Batch}
      (hk : u.writes[k]? = some ⟨pipeline, .acknowledging batch⟩) :
      WriteActs u (.ack k)
        { u with acked := u.acked ++ batch.toList, writes := u.writes.eraseIdx k }
  | dropped {k : Nat} (hlt : k < u.writes.length) :
      WriteActs u (.cancel k) { u with writes := u.writes.eraseIdx k }

/-- The inversion of a step; what `write_events` does is a case split on this. -/
theorem writeStep_acts {u v : DatabaseUnit} {l : WriteLabel} (h : u.writeStep l = some v) :
    WriteActs u l v := by
  cases l with
  | begin pipeline events =>
    simp only [writeStep] at h
    split at h
    · next hlive =>
      cases hf : forwarded u.filter u.database events with
      | none =>
        rw [hf] at h
        cases h
        exact .skips hlive hf
      | some scanEvents =>
        rw [hf] at h
        cases h
        exact .forwards hlive hf
    · cases h
  | enqueue k =>
    simp only [writeStep] at h
    split at h
    · next hk =>
      split at h
      · next hroom =>
        cases h
        exact .enqueues hk hroom
      · cases h
    · cases h
  | ack k =>
    simp only [writeStep] at h
    split at h
    · next hk =>
      cases h
      exact .acknowledges hk
    · cases h
  | cancel k =>
    simp only [writeStep] at h
    split at h
    · next hlt =>
      cases h
      exact .dropped hlt
    · cases h

inductive LoopLabel where
  | recv
  | scanNext
  | ask (sweepNow now : Nat)
  | visit
  | send (now : Nat)
  | drain (now : Nat)
  | posted

def dispatchAt (u : DatabaseUnit) (batch : Batch) (engine : RuleEngine) (rest : List ScanEvent)
    (finding : Finding) (later : List Finding) (pc : DispatchPc) : DatabaseUnit :=
  { u with loop := .dispatching batch engine rest finding later pc }

/-- A call of `dispatch` returns: the next finding of the event, or the next event. -/
def returned (u : DatabaseUnit) (batch : Batch) (engine : RuleEngine) (rest : List ScanEvent)
    (finding : Finding) (later : List Finding) : DatabaseUnit :=
  { u with
    dispatched := u.dispatched ++ [(batch.ticket, finding)]
    loop := match later with
      | [] => .scanning batch engine rest
      | next :: later => .dispatching batch engine rest next later .asking }

section Loop
variable (cr : Crates) (channels : List NamedChannel)

/-- `scan_loop`, at its await points. -/
def loopStep (u : DatabaseUnit) (sh : Shared) : LoopLabel → Option (DatabaseUnit × Shared)
  | .recv =>
    match u.loop, u.queue with
    | .idle, batch :: queue =>
      some ({ u with queue, loop := .scanning batch sh.engine batch.events }, sh)
    | _, _ => none
  | .scanNext =>
    match u.loop with
    | .scanning batch engine [] =>
      some ({ u with done := u.done ++ [(batch, engine)], loop := .idle }, sh)
    | .scanning batch engine (event :: rest) =>
      match scan cr engine event with
      | [] => some ({ u with loop := .scanning batch engine rest }, sh)
      | finding :: later => some (u.dispatchAt batch engine rest finding later .asking, sh)
    | _ => none
  | .ask sweepNow now =>
    match u.loop with
    | .dispatching batch engine rest finding later .asking =>
      let (answer, dedup) := sh.dedup.shouldAlert cr finding sweepNow now
      if answer then
        some (u.dispatchAt batch engine rest finding later (.visiting 0), { sh with dedup })
      else some (u.returned batch engine rest finding later, { sh with dedup })
    | _ => none
  | .visit =>
    match u.loop with
    | .dispatching batch engine rest finding later (.visiting i) =>
      match channels[i]? with
      | none => some (u.returned batch engine rest finding later, sh)
      | some nc =>
        if nc.routed finding.channels then
          some (u.dispatchAt batch engine rest finding later (.sending i), sh)
        else some (u.dispatchAt batch engine rest finding later (.visiting (i + 1)), sh)
    | _ => none
  | .send now =>
    match u.loop with
    | .dispatching batch engine rest finding later (.sending i) =>
      match (channels[i]?).map NamedChannel.channel with
      | some (.slack config) =>
        let buf := (sh.buffers i).push finding now
        let pc := if buf.full config then DispatchPc.flushing i else .visiting (i + 1)
        some (u.dispatchAt batch engine rest finding later pc, sh.setBuffer i buf)
      -- the other channels deliver or fail; neither is propagated
      | _ => some (u.dispatchAt batch engine rest finding later (.visiting (i + 1)), sh)
    | _ => none
  | .drain now =>
    match u.loop with
    | .dispatching batch engine rest finding later (.flushing i) =>
      match (channels[i]?).map NamedChannel.channel with
      | some (.slack config) =>
        let (drained, buf) := (sh.buffers i).drain config true now
        let pc := if drained.isSome then DispatchPc.posting i else .visiting (i + 1)
        some (u.dispatchAt batch engine rest finding later pc, sh.setBuffer i buf)
      | _ => none
    | _ => none
  | .posted =>
    match u.loop with
    | .dispatching batch engine rest finding later (.posting i) =>
      some (u.dispatchAt batch engine rest finding later (.visiting (i + 1)), sh)
    | _ => none

/-- What a step of the loop does to the unit and to what the loops share, with a case for
each way it can go. -/
inductive LoopActs (u : DatabaseUnit) (sh : Shared) : LoopLabel → DatabaseUnit → Shared → Prop
  | received {batch : Batch} {queue : List Batch} (hl : u.loop = .idle)
      (hq : u.queue = batch :: queue) :
      LoopActs u sh .recv { u with queue, loop := .scanning batch sh.engine batch.events } sh
  | completed {batch : Batch} {engine : RuleEngine} (hl : u.loop = .scanning batch engine []) :
      LoopActs u sh .scanNext { u with done := u.done ++ [(batch, engine)], loop := .idle } sh
  | nothingFound {batch : Batch} {engine : RuleEngine} {event : ScanEvent} {rest : List ScanEvent}
      (hl : u.loop = .scanning batch engine (event :: rest)) (hs : scan cr engine event = []) :
      LoopActs u sh .scanNext { u with loop := .scanning batch engine rest } sh
  | found {batch : Batch} {engine : RuleEngine} {event : ScanEvent} {rest : List ScanEvent}
      {finding : Finding} {later : List Finding}
      (hl : u.loop = .scanning batch engine (event :: rest))
      (hs : scan cr engine event = finding :: later) :
      LoopActs u sh .scanNext (u.dispatchAt batch engine rest finding later .asking) sh
  | passed {batch : Batch} {engine : RuleEngine} {rest : List ScanEvent} {finding : Finding}
      {later : List Finding} {sweepNow now : Nat}
      (hl : u.loop = .dispatching batch engine rest finding later .asking)
      (hanswer : (sh.dedup.shouldAlert cr finding sweepNow now).1 = true) :
      LoopActs u sh (.ask sweepNow now)
        (u.dispatchAt batch engine rest finding later (.visiting 0))
        { sh with dedup := (sh.dedup.shouldAlert cr finding sweepNow now).2 }
  | suppressed {batch : Batch} {engine : RuleEngine} {rest : List ScanEvent} {finding : Finding}
      {later : List Finding} {sweepNow now : Nat}
      (hl : u.loop = .dispatching batch engine rest finding later .asking)
      (hanswer : (sh.dedup.shouldAlert cr finding sweepNow now).1 = false) :
      LoopActs u sh (.ask sweepNow now) (u.returned batch engine rest finding later)
        { sh with dedup := (sh.dedup.shouldAlert cr finding sweepNow now).2 }
  | finished {batch : Batch} {engine : RuleEngine} {rest : List ScanEvent} {finding : Finding}
      {later : List Finding} {i : Nat}
      (hl : u.loop = .dispatching batch engine rest finding later (.visiting i))
      (hi : channels[i]? = none) :
      LoopActs u sh .visit (u.returned batch engine rest finding later) sh
  | routed {batch : Batch} {engine : RuleEngine} {rest : List ScanEvent} {finding : Finding}
      {later : List Finding} {i : Nat} {nc : NamedChannel}
      (hl : u.loop = .dispatching batch engine rest finding later (.visiting i))
      (hi : channels[i]? = some nc) (hrouted : nc.routed finding.channels = true) :
      LoopActs u sh .visit (u.dispatchAt batch engine rest finding later (.sending i)) sh
  | skipped {batch : Batch} {engine : RuleEngine} {rest : List ScanEvent} {finding : Finding}
      {later : List Finding} {i : Nat} {nc : NamedChannel}
      (hl : u.loop = .dispatching batch engine rest finding later (.visiting i))
      (hi : channels[i]? = some nc) (hrouted : nc.routed finding.channels = false) :
      LoopActs u sh .visit (u.dispatchAt batch engine rest finding later (.visiting (i + 1))) sh
  | delivered {batch : Batch} {engine : RuleEngine} {rest : List ScanEvent} {finding : Finding}
      {later : List Finding} {i now : Nat}
      (hl : u.loop = .dispatching batch engine rest finding later (.sending i))
      (hother : ∀ config, (channels[i]?).map NamedChannel.channel ≠ some (.slack config)) :
      LoopActs u sh (.send now) (u.dispatchAt batch engine rest finding later (.visiting (i + 1))) sh
  | buffered {batch : Batch} {engine : RuleEngine} {rest : List ScanEvent} {finding : Finding}
      {later : List Finding} {i now : Nat} {config : SlackConfig}
      (hl : u.loop = .dispatching batch engine rest finding later (.sending i))
      (hi : (channels[i]?).map NamedChannel.channel = some (.slack config))
      (hroom : ((sh.buffers i).push finding now).full config = false) :
      LoopActs u sh (.send now) (u.dispatchAt batch engine rest finding later (.visiting (i + 1)))
        (sh.setBuffer i ((sh.buffers i).push finding now))
  | filled {batch : Batch} {engine : RuleEngine} {rest : List ScanEvent} {finding : Finding}
      {later : List Finding} {i now : Nat} {config : SlackConfig}
      (hl : u.loop = .dispatching batch engine rest finding later (.sending i))
      (hi : (channels[i]?).map NamedChannel.channel = some (.slack config))
      (hfull : ((sh.buffers i).push finding now).full config = true) :
      LoopActs u sh (.send now) (u.dispatchAt batch engine rest finding later (.flushing i))
        (sh.setBuffer i ((sh.buffers i).push finding now))
  | drained {batch : Batch} {engine : RuleEngine} {rest : List ScanEvent} {finding : Finding}
      {later : List Finding} {i now : Nat} {config : SlackConfig}
      (hl : u.loop = .dispatching batch engine rest finding later (.flushing i))
      (hi : (channels[i]?).map NamedChannel.channel = some (.slack config))
      (hdrained : ((sh.buffers i).drain config true now).1.isSome = true) :
      LoopActs u sh (.drain now) (u.dispatchAt batch engine rest finding later (.posting i))
        (sh.setBuffer i ((sh.buffers i).drain config true now).2)
  /-- another task has drained the buffer first -/
  | emptied {batch : Batch} {engine : RuleEngine} {rest : List ScanEvent} {finding : Finding}
      {later : List Finding} {i now : Nat} {config : SlackConfig}
      (hl : u.loop = .dispatching batch engine rest finding later (.flushing i))
      (hi : (channels[i]?).map NamedChannel.channel = some (.slack config))
      (hdrained : ((sh.buffers i).drain config true now).1.isSome = false) :
      LoopActs u sh (.drain now) (u.dispatchAt batch engine rest finding later (.visiting (i + 1)))
        (sh.setBuffer i ((sh.buffers i).drain config true now).2)
  | posted {batch : Batch} {engine : RuleEngine} {rest : List ScanEvent} {finding : Finding}
      {later : List Finding} {i : Nat}
      (hl : u.loop = .dispatching batch engine rest finding later (.posting i)) :
      LoopActs u sh .posted (u.dispatchAt batch engine rest finding later (.visiting (i + 1))) sh

end Loop

section Dispatch
variable {cr : Crates} {channels : List NamedChannel}

/-- The inversion of a step; what the loops do is a case split on this. -/
theorem loopStep_acts {u v : DatabaseUnit} {sh sh' : Shared} {l : LoopLabel}
    (h : u.loopStep cr channels sh l = some (v, sh')) : LoopActs cr channels u sh l v sh' := by
  cases l with
  | recv =>
    simp only [loopStep] at h
    split at h
    · next hl hq =>
      cases h
      exact .received hl hq
    · cases h
  | scanNext =>
    simp only [loopStep] at h
    split at h
    · next hl =>
      cases h
      exact .completed hl
    · next hl =>
      split at h
      · next hs =>
        cases h
        exact .nothingFound hl hs
      · next hs =>
        cases h
        exact .found hl hs
    · cases h
  | ask sweepNow now =>
    simp only [loopStep] at h
    split at h
    · next hl =>
      split at h
      · next hanswer =>
        cases h
        exact .passed hl hanswer
      · next hanswer =>
        cases h
        exact .suppressed hl (Bool.eq_false_iff.mpr hanswer)
    · cases h
  | visit =>
    simp only [loopStep] at h
    split at h
    · next hl =>
      split at h
      · next hi =>
        cases h
        exact .finished hl hi
      · next hi =>
        split at h
        · next hrouted =>
          cases h
          exact .routed hl hi hrouted
        · next hrouted =>
          cases h
          exact .skipped hl hi (Bool.eq_false_iff.mpr hrouted)
    · cases h
  | send now =>
    simp only [loopStep] at h
    split at h
    · next i hl =>
      split at h
      · next config hi =>
        cases hfull : ((sh.buffers i).push _ now).full config with
        | true =>
          rw [hfull, if_pos rfl] at h
          cases h
          exact .filled hl hi hfull
        | false =>
          rw [hfull, if_neg Bool.false_ne_true] at h
          cases h
          exact .buffered hl hi hfull
      · next hother =>
        cases h
        exact .delivered hl hother
    · cases h
  | drain now =>
    simp only [loopStep] at h
    split at h
    · next i hl =>
      split at h
      · next config hi =>
        cases hdrained : ((sh.buffers i).drain config true now).1.isSome with
        | true =>
          rw [hdrained, if_pos rfl] at h
          cases h
          exact .drained hl hi hdrained
        | false =>
          rw [hdrained, if_neg Bool.false_ne_true] at h
          cases h
          exact .emptied hl hi hdrained
      · cases h
    · cases h
  | posted =>
    simp only [loopStep] at h
    split at h
    · next hl =>
      cases h
      exact .posted hl
    · cases h

def DispatchPc.progress : DispatchPc → Progress
  | .asking => .called
  | .visiting i => .visiting i
  | .sending i => .sending i
  | .flushing i => .sending i
  | .posting i => .sending i

/-- The call of `dispatch` a loop is in, without the sections of a Slack send. -/
def dispatchCall (finding : Finding) (pc : DispatchPc) : DispatchCall :=
  ⟨finding, if pc = .asking then none else some true, DispatchPc.progress pc⟩

/-- A loop that dispatches moves as its call of `dispatch` does, or stays inside a send. -/
theorem LoopActs.dispatches {u v : DatabaseUnit} {sh sh' : Shared} {l : LoopLabel} {batch : Batch}
    {engine : RuleEngine} {rest : List ScanEvent} {finding : Finding} {later : List Finding}
    {pc : DispatchPc} (h : LoopActs cr channels u sh l v sh')
    (hpc : u.loop = .dispatching batch engine rest finding later pc) :
    (∃ pc', v = u.dispatchAt batch engine rest finding later pc' ∧
      (dispatchCall finding pc' = dispatchCall finding pc ∨
        ∃ new, (dispatchCall finding pc).Moves channels new (dispatchCall finding pc'))) ∨
    (v = u.returned batch engine rest finding later ∧
      ∃ passed, (dispatchCall finding pc).Moves channels [] ⟨finding, passed, .returned⟩) := by
  cases h with
  | received hl | completed hl | nothingFound hl | found hl =>
    rw [hpc] at hl
    cases hl
  | passed hl hanswer =>
    rw [hpc] at hl
    cases hl
    exact .inl ⟨_, rfl, .inr ⟨_, .answered finding none true⟩⟩
  | suppressed hl hanswer =>
    rw [hpc] at hl
    cases hl
    exact .inr ⟨rfl, _, .answered finding none false⟩
  | finished hl hi =>
    rw [hpc] at hl
    cases hl
    exact .inr ⟨rfl, _, .finished finding (some true) _ hi⟩
  | routed hl hi hrouted =>
    rw [hpc] at hl
    cases hl
    exact .inl ⟨_, rfl, .inr ⟨_, .sent finding (some true) _ _ hi hrouted⟩⟩
  | skipped hl hi hrouted =>
    rw [hpc] at hl
    cases hl
    exact .inl ⟨_, rfl, .inr ⟨_, .skipped finding (some true) _ _ hi hrouted⟩⟩
  | delivered hl | buffered hl | emptied hl | posted hl =>
    rw [hpc] at hl
    cases hl
    exact .inl ⟨_, rfl, .inr ⟨_, .completed finding (some true) _⟩⟩
  | filled hl | drained hl =>
    rw [hpc] at hl
    cases hl
    exact .inl ⟨_, rfl, .inl rfl⟩

end Dispatch

section History
variable (cr : Crates)

/-- Every finding of the events has been dispatched under the ticket. -/
def AllDispatched (log : List (Nat × Finding)) (ticket : Nat) (engine : RuleEngine)
    (events : List ScanEvent) : Prop :=
  ∀ event ∈ events, ∀ finding ∈ scan cr engine event, (ticket, finding) ∈ log

def Handled (u : DatabaseUnit) (batch : Batch) : Prop :=
  ∃ engine, (batch, engine) ∈ u.done ∧
    AllDispatched cr u.dispatched batch.ticket engine batch.events

/-- What the loop has dispatched of the batch it works on. -/
def LoopSound (log : List (Nat × Finding)) : LoopPc → Prop
  | .idle => True
  | .scanning batch engine rest =>
    ∃ past, batch.events = past ++ rest ∧ AllDispatched cr log batch.ticket engine past
  | .dispatching batch engine rest finding later _ =>
    ∃ past event front, batch.events = past ++ event :: rest ∧
      AllDispatched cr log batch.ticket engine past ∧
        scan cr engine event = front ++ finding :: later ∧
          ∀ f ∈ front, (batch.ticket, f) ∈ log

def current : LoopPc → Option Batch
  | .idle => none
  | .scanning batch _ _ => some batch
  | .dispatching batch _ _ _ _ _ => some batch

def Located (u : DatabaseUnit) (batch : Batch) : Prop :=
  batch ∈ u.queue ∨ current u.loop = some batch ∨ ∃ engine, (batch, engine) ∈ u.done

structure Inv (u : DatabaseUnit) : Prop where
  acked : ∀ batch ∈ u.acked, u.Located batch
  queued : ∀ w ∈ u.writes, ∀ batch, w.phase = .acknowledging (some batch) → u.Located batch
  done : ∀ batch engine, (batch, engine) ∈ u.done →
    AllDispatched cr u.dispatched batch.ticket engine batch.events
  loop : LoopSound cr u.dispatched u.loop

theorem start_inv (database : String) (filter : ScanFilter) : (start database filter).Inv cr where
  acked := fun _ h => by cases h
  queued := fun _ h => by cases h
  done := fun _ _ h => by cases h
  loop := trivial

/-- The moves of the loop, as far as batches and dispatched findings go. -/
inductive LoopMoves : DatabaseUnit → DatabaseUnit → Prop
  | received (u : DatabaseUnit) (batch : Batch) (queue : List Batch) (engine : RuleEngine)
      (hl : u.loop = .idle) (hq : u.queue = batch :: queue) :
      LoopMoves u { u with queue, loop := .scanning batch engine batch.events }
  | completed (u : DatabaseUnit) (batch : Batch) (engine : RuleEngine)
      (hl : u.loop = .scanning batch engine []) :
      LoopMoves u { u with done := u.done ++ [(batch, engine)], loop := .idle }
  | nothingFound (u : DatabaseUnit) (batch : Batch) (engine : RuleEngine) (event : ScanEvent)
      (rest : List ScanEvent) (hl : u.loop = .scanning batch engine (event :: rest))
      (hs : scan cr engine event = []) :
      LoopMoves u { u with loop := .scanning batch engine rest }
  | found (u : DatabaseUnit) (batch : Batch) (engine : RuleEngine) (event : ScanEvent)
      (rest : List ScanEvent) (finding : Finding) (later : List Finding)
      (hl : u.loop = .scanning batch engine (event :: rest))
      (hs : scan cr engine event = finding :: later) :
      LoopMoves u (u.dispatchAt batch engine rest finding later .asking)
  | within (u : DatabaseUnit) (batch : Batch) (engine : RuleEngine) (rest : List ScanEvent)
      (finding : Finding) (later : List Finding) (pc pc' : DispatchPc)
      (hl : u.loop = .dispatching batch engine rest finding later pc) :
      LoopMoves u (u.dispatchAt batch engine rest finding later pc')
  | dispatchReturned (u : DatabaseUnit) (batch : Batch) (engine : RuleEngine)
      (rest : List ScanEvent) (finding : Finding) (later : List Finding) (pc : DispatchPc)
      (hl : u.loop = .dispatching batch engine rest finding later pc) :
      LoopMoves u (u.returned batch engine rest finding later)

variable {cr}

theorem AllDispatched.mono {log log' : List (Nat × Finding)} {ticket : Nat} {engine : RuleEngine}
    {events : List ScanEvent} (h : AllDispatched cr log ticket engine events) (hlog : log ⊆ log') :
    AllDispatched cr log' ticket engine events :=
  fun event hevent finding hfinding => hlog (h event hevent finding hfinding)

theorem AllDispatched.snoc {log : List (Nat × Finding)} {ticket : Nat} {engine : RuleEngine}
    {past : List ScanEvent} {event : ScanEvent} (h : AllDispatched cr log ticket engine past)
    (hlast : ∀ finding ∈ scan cr engine event, (ticket, finding) ∈ log) :
    AllDispatched cr log ticket engine (past ++ [event]) := by
  intro e he
  rcases List.mem_append.mp he with he | he
  · exact h e he
  · rw [List.mem_singleton] at he
    exact he ▸ hlast

theorem Inv.drained {u : DatabaseUnit} (h : u.Inv cr) (hqueue : u.queue = [])
    (hidle : u.loop = .idle) {batch : Batch} (hb : batch ∈ u.acked) : u.Handled cr batch := by
  rcases h.acked batch hb with hmem | hcur | ⟨engine, hdone⟩
  · rw [hqueue] at hmem
    cases hmem
  · rw [hidle] at hcur
    cases hcur
  · exact ⟨engine, hdone, h.done batch engine hdone⟩

theorem LoopActs.moves {channels : List NamedChannel} {u v : DatabaseUnit} {sh sh' : Shared}
    {l : LoopLabel} (h : LoopActs cr channels u sh l v sh') : LoopMoves cr u v := by
  cases h with
  | received hl hq => exact .received u _ _ _ hl hq
  | completed hl => exact .completed u _ _ hl
  | nothingFound hl hs => exact .nothingFound u _ _ _ _ hl hs
  | found hl hs => exact .found u _ _ _ _ _ _ hl hs
  | suppressed hl => exact .dispatchReturned u _ _ _ _ _ _ hl
  | finished hl => exact .dispatchReturned u _ _ _ _ _ _ hl
  | passed hl | routed hl | skipped hl | delivered hl | buffered hl | filled hl | drained hl
    | emptied hl | posted hl => exact .within u _ _ _ _ _ _ _ hl

theorem loopStep_moves {channels : List NamedChannel} {u v : DatabaseUnit} {sh sh' : Shared}
    {l : LoopLabel} (h : u.loopStep cr channels sh l = some (v, sh')) : LoopMoves cr u v :=
  (loopStep_acts h).moves

theorem Located.keep {u v : DatabaseUnit} {b : Batch} (h : u.Located b) (hqueue : v.queue = u.queue)
    (hcurrent : current v.loop = current u.loop) (hdone : v.done = u.done) : v.Located b := by
  unfold Located at h ⊢
  rw [hqueue, hcurrent, hdone]
  exact h

theorem LoopMoves.located {u v : DatabaseUnit} (h : LoopMoves cr u v) {b : Batch}
    (hb : u.Located b) : v.Located b := by
  cases h with
  | received batch queue engine hl hq =>
    rcases hb with hmem | hcur | hdone
    · rw [hq] at hmem
      rcases List.mem_cons.mp hmem with rfl | hmem
      · exact .inr (.inl rfl)
      · exact .inl hmem
    · rw [hl] at hcur
      cases hcur
    · exact .inr (.inr hdone)
  | completed batch engine hl =>
    rcases hb with hmem | hcur | ⟨engine', hdone⟩
    · exact .inl hmem
    · rw [hl] at hcur
      cases hcur
      exact .inr (.inr ⟨engine, List.mem_append_right _ (List.mem_singleton.mpr rfl)⟩)
    · exact .inr (.inr ⟨engine', List.mem_append_left _ hdone⟩)
  | nothingFound batch engine event rest hl hs =>
    exact hb.keep rfl (by rw [hl]; rfl) rfl
  | found batch engine event rest finding later hl hs =>
    exact hb.keep rfl (by rw [hl]; rfl) rfl
  | within batch engine rest finding later pc pc' hl =>
    exact hb.keep rfl (by rw [hl]; rfl) rfl
  | dispatchReturned batch engine rest finding later pc hl =>
    refine hb.keep rfl ?_ rfl
    rw [hl]
    cases later with
    | nil => rfl
    | cons next later => rfl

theorem LoopMoves.writes {u v : DatabaseUnit} (h : LoopMoves cr u v) :
    v.acked = u.acked ∧ v.writes = u.writes ∧ u.dispatched ⊆ v.dispatched := by
  cases h with
  | dispatchReturned batch engine rest finding later pc hl =>
    exact ⟨rfl, rfl, List.subset_append_left _ _⟩
  | _ => exact ⟨rfl, rfl, List.Subset.refl _⟩

theorem LoopMoves.monitor {u v : DatabaseUnit} (h : LoopMoves cr u v) : v.monitor = u.monitor := by
  cases h <;> rfl

theorem writeStep_monitor {u v : DatabaseUnit} {l : WriteLabel} (h : u.writeStep l = some v) :
    v.monitor = u.monitor := by
  cases writeStep_acts h <;> rfl

theorem LoopMoves.done {u v : DatabaseUnit} (hu : u.Inv cr) (h : LoopMoves cr u v) :
    ∀ batch engine, (batch, engine) ∈ v.done →
      AllDispatched cr v.dispatched batch.ticket engine batch.events := by
  intro b engine' hdone
  obtain ⟨_, _, hlog⟩ := h.writes
  have hold : (b, engine') ∈ u.done →
      AllDispatched cr v.dispatched b.ticket engine' b.events :=
    fun h => (hu.done b engine' h).mono hlog
  cases h with
  | completed batch engine hl =>
    rcases List.mem_append.mp hdone with hdone | hdone
    · exact hold hdone
    · cases List.mem_singleton.mp hdone
      have hloop := hu.loop
      rw [hl] at hloop
      obtain ⟨past, hevents, hpast⟩ := hloop
      rw [hevents, List.append_nil]
      exact hpast
  | _ => exact hold hdone

theorem LoopMoves.loop {u v : DatabaseUnit} (hu : u.Inv cr) (h : LoopMoves cr u v) :
    LoopSound cr v.dispatched v.loop := by
  have hloop := hu.loop
  cases h with
  | received batch queue engine hl hq =>
    exact ⟨[], rfl, fun _ he => by cases he⟩
  | completed batch engine hl => trivial
  | nothingFound batch engine event rest hl hs =>
    rw [hl] at hloop
    obtain ⟨past, hevents, hpast⟩ := hloop
    refine ⟨past ++ [event], by rw [hevents, List.append_assoc]; rfl, hpast.snoc ?_⟩
    rw [hs]
    exact fun _ hf => by cases hf
  | found batch engine event rest finding later hl hs =>
    rw [hl] at hloop
    obtain ⟨past, hevents, hpast⟩ := hloop
    exact ⟨past, event, [], hevents, hpast, hs, fun _ hf => by cases hf⟩
  | within batch engine rest finding later pc pc' hl =>
    rw [hl] at hloop
    exact hloop
  | dispatchReturned batch engine rest finding later pc hl =>
    rw [hl] at hloop
    obtain ⟨past, event, front, hevents, hpast, hscan, hfront⟩ := hloop
    have hpast' : AllDispatched cr (u.dispatched ++ [(batch.ticket, finding)]) batch.ticket engine
        past := hpast.mono (List.subset_append_left _ _)
    have hfront' : ∀ f ∈ front ++ [finding],
        (batch.ticket, f) ∈ u.dispatched ++ [(batch.ticket, finding)] := by
      intro f hf
      rcases List.mem_append.mp hf with hf | hf
      · exact List.mem_append_left _ (hfront f hf)
      · rw [List.mem_singleton.mp hf]
        exact List.mem_append_right _ (List.mem_singleton.mpr rfl)
    cases later with
    | nil =>
      refine ⟨past ++ [event], by rw [hevents, List.append_assoc]; rfl, hpast'.snoc ?_⟩
      rw [hscan]
      exact hfront'
    | cons next later =>
      exact ⟨past, event, front ++ [finding], hevents, hpast',
        by rw [hscan, List.append_assoc]; rfl, hfront'⟩

theorem LoopMoves.inv {u v : DatabaseUnit} (hu : u.Inv cr) (h : LoopMoves cr u v) :
    v.Inv cr := by
  obtain ⟨hacked, hwrites, _⟩ := h.writes
  refine ⟨?_, ?_, h.done hu, h.loop hu⟩
  · intro b hb
    rw [hacked] at hb
    exact h.located (hu.acked b hb)
  · intro w hw b hphase
    rw [hwrites] at hw
    exact h.located (hu.queued w hw b hphase)

/-- A call that has nothing to acknowledge may begin. -/
theorem Inv.begin {u : DatabaseUnit} (hu : u.Inv cr) {w : Write}
    (hw : ∀ batch, w.phase ≠ .acknowledging (some batch)) :
    Inv cr { u with writes := u.writes ++ [w] } := by
  refine ⟨hu.acked, ?_, hu.done, hu.loop⟩
  intro w' hw' b hphase
  rcases List.mem_append.mp hw' with hw' | hw'
  · exact hu.queued w' hw' b hphase
  · rw [List.mem_singleton.mp hw'] at hphase
    exact absurd hphase (hw b)

theorem writeStep_inv {u v : DatabaseUnit} {l : WriteLabel} (hu : u.Inv cr)
    (h : u.writeStep l = some v) : v.Inv cr := by
  cases writeStep_acts h with
  | forwards hlive hf => exact hu.begin (by simp)
  | skips hlive hf => exact hu.begin (by simp)
  | @enqueues k pipeline events hk hroom =>
    have hkeep : ∀ b, u.Located b → Located { u with
        queue := u.queue ++ [⟨u.nextTicket, events⟩]
        nextTicket := u.nextTicket + 1
        writes := u.writes.set k ⟨pipeline, .acknowledging (some ⟨u.nextTicket, events⟩)⟩ } b := by
      intro b hb
      rcases hb with hmem | hrest
      · exact .inl (List.mem_append_left _ hmem)
      · exact .inr hrest
    refine ⟨fun b hb => hkeep b (hu.acked b hb), ?_, hu.done, hu.loop⟩
    intro w hw b hphase
    rcases List.mem_or_eq_of_mem_set hw with hw | rfl
    · exact hkeep b (hu.queued w hw b hphase)
    · cases hphase
      exact .inl (List.mem_append_right _ (List.mem_singleton.mpr rfl))
  | @acknowledges k pipeline batch hk =>
    refine ⟨?_, ?_, hu.done, hu.loop⟩
    · intro b hb
      rcases List.mem_append.mp hb with hb | hb
      · exact hu.acked b hb
      · have hbatch : batch = some b := Option.mem_toList.mp hb
        exact hu.queued _ (List.mem_of_getElem? hk) b (by rw [hbatch])
    · intro w hw b hphase
      exact hu.queued w (List.mem_of_mem_eraseIdx hw) b hphase
  | dropped hlt =>
    exact ⟨hu.acked, fun w hw => hu.queued w (List.mem_of_mem_eraseIdx hw), hu.done, hu.loop⟩

end History
end DatabaseUnit

end PgSense
