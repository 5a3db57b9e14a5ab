import PgSense.Commands.Shutdown
import Mathlib.Data.List.InsertIdx

/-! Disguises: changes of events and findings that scanning, deduplication and routing do
not notice. The scanner then does not notice them either. -/

namespace PgSense
open Library
set_option autoImplicit false

structure Disguise (cr : Crates) where
  event : ScanEvent → ScanEvent
  finding : Finding → Finding
  scan_event : ∀ engine e, scan cr engine (event e) = (scan cr engine e).map finding
  dedupKey_finding : ∀ f, dedupKey cr (finding f) = dedupKey cr f
  channels_finding : ∀ f, (finding f).channels = f.channels

namespace Disguise
variable {cr : Crates} (d : Disguise cr)

def batch (b : Batch) : Batch := ⟨b.ticket, b.events.map d.event⟩

def phase : WritePhase → WritePhase
  | .sending events => .sending (events.map d.event)
  | .acknowledging batch => .acknowledging (batch.map d.batch)

def write (w : Write) : Write := ⟨w.pipeline, d.phase w.phase⟩

def loop : LoopPc → LoopPc
  | .idle => .idle
  | .scanning batch engine rest => .scanning (d.batch batch) engine (rest.map d.event)
  | .dispatching batch engine rest finding later pc =>
    .dispatching (d.batch batch) engine (rest.map d.event) (d.finding finding)
      (later.map d.finding) pc

def unit (u : DatabaseUnit) : DatabaseUnit :=
  { u with
    queue := u.queue.map d.batch
    writes := u.writes.map d.write
    loop := d.loop u.loop
    acked := u.acked.map d.batch
    done := u.done.map fun b => (d.batch b.1, b.2)
    dispatched := u.dispatched.map fun f => (f.1, d.finding f.2) }

def buffer (buf : BufferState) : BufferState := ⟨buf.findings.map d.finding, buf.firstBufferedAt⟩

def shared (sh : Shared) : Shared := { sh with buffers := fun i => d.buffer (sh.buffers i) }

def state (s : ScanState) : ScanState :=
  { s with units := s.units.map d.unit, shared := d.shared s.shared }

/-! What each part of the scanner does to a disguised state is what it does to the state. -/

theorem shouldAlert_finding (dedup : Deduplicator) (f : Finding) (sweepNow now : Nat) :
    dedup.shouldAlert cr (d.finding f) sweepNow now = dedup.shouldAlert cr f sweepNow now := by
  rw [Deduplicator.shouldAlert, Deduplicator.shouldAlert, d.dedupKey_finding]

theorem buffer_push (buf : BufferState) (f : Finding) (now : Nat) :
    (d.buffer buf).push (d.finding f) now = d.buffer (buf.push f now) := by
  simp [buffer, BufferState.push]

theorem full_buffer (buf : BufferState) (config : SlackConfig) :
    (d.buffer buf).full config = buf.full config := by
  simp [buffer, BufferState.full]

theorem drain_buffer (buf : BufferState) (config : SlackConfig) (force : Bool) (now : Nat) :
    (d.buffer buf).drain config force now =
      ((buf.drain config force now).1.map (List.map d.finding),
        d.buffer (buf.drain config force now).2) := by
  have hdrain : (d.buffer buf).shouldDrain config force now = buf.shouldDrain config force now := by
    simp [buffer, BufferState.shouldDrain]
  rw [BufferState.drain, BufferState.drain, hdrain]
  split
  · rfl
  · rfl

theorem shared_setBuffer (sh : Shared) (i : Nat) (buf : BufferState) :
    (d.shared sh).setBuffer i (d.buffer buf) = d.shared (sh.setBuffer i buf) := by
  simp only [shared, Shared.setBuffer, Shared.mk.injEq, true_and]
  funext j
  split <;> rfl

theorem unit_returned (u : DatabaseUnit) (batch : Batch) (engine : RuleEngine)
    (rest : List ScanEvent) (finding : Finding) (later : List Finding) :
    (d.unit u).returned (d.batch batch) engine (rest.map d.event) (d.finding finding)
        (later.map d.finding) =
      d.unit (u.returned batch engine rest finding later) := by
  cases later <;> simp [DatabaseUnit.returned, unit, loop, Disguise.batch]

section Steps
variable (channels : List NamedChannel)

theorem loopStep_unit (u : DatabaseUnit) (sh : Shared) (l : DatabaseUnit.LoopLabel) :
    (d.unit u).loopStep cr channels (d.shared sh) l =
      (u.loopStep cr channels sh l).map fun r => (d.unit r.1, d.shared r.2) := by
  have hloop : (d.unit u).loop = d.loop u.loop := rfl
  cases l with
  | recv =>
    have hqueue : (d.unit u).queue = u.queue.map d.batch := rfl
    simp only [DatabaseUnit.loopStep, hloop, hqueue]
    cases hl : u.loop with
    | idle =>
      cases hq : u.queue with
      | nil => rfl
      | cons batch queue => rfl
    | scanning batch engine rest => rfl
    | dispatching batch engine rest finding later pc => rfl
  | scanNext =>
    simp only [DatabaseUnit.loopStep, hloop]
    cases hl : u.loop with
    | idle => rfl
    | scanning batch engine rest =>
      cases rest with
      | nil =>
        simp only [loop, List.map_nil, Option.map_some, unit, List.map_append, List.map_cons]
      | cons event rest =>
        simp only [loop, List.map_cons, d.scan_event]
        cases scan cr engine event with
        | nil => rfl
        | cons finding later => rfl
    | dispatching batch engine rest finding later pc => rfl
  | ask sweepNow now =>
    simp only [DatabaseUnit.loopStep, hloop]
    cases hl : u.loop with
    | idle => rfl
    | scanning batch engine rest => rfl
    | dispatching batch engine rest finding later pc =>
      cases pc with
      | asking =>
        have hdedup : (d.shared sh).dedup = sh.dedup := rfl
        simp only [loop, hdedup, d.shouldAlert_finding]
        cases (sh.dedup.shouldAlert cr finding sweepNow now).1 with
        | true => rfl
        | false =>
          simp only [d.unit_returned, Bool.false_eq_true, if_false, Option.map_some]
          rfl
      | visiting i => rfl
      | sending i => rfl
      | flushing i => rfl
      | posting i => rfl
  | visit =>
    simp only [DatabaseUnit.loopStep, hloop]
    cases hl : u.loop with
    | idle => rfl
    | scanning batch engine rest => rfl
    | dispatching batch engine rest finding later pc =>
      cases pc with
      | visiting i =>
        simp only [loop, d.channels_finding]
        cases channels[i]? with
        | none => simp only [d.unit_returned, Option.map_some]
        | some nc =>
          dsimp only
          cases nc.routed finding.channels with
          | true => rfl
          | false => rfl
      | asking => rfl
      | sending i => rfl
      | flushing i => rfl
      | posting i => rfl
  | send now =>
    simp only [DatabaseUnit.loopStep, hloop]
    cases hl : u.loop with
    | idle => rfl
    | scanning batch engine rest => rfl
    | dispatching batch engine rest finding later pc =>
      cases pc with
      | sending i =>
        have hbuffer : (d.shared sh).buffers i = d.buffer (sh.buffers i) := rfl
        simp only [loop, hbuffer, d.buffer_push, d.full_buffer, d.shared_setBuffer]
        cases (channels[i]?).map NamedChannel.channel with
        | none => rfl
        | some channel => cases channel <;> rfl
      | asking => rfl
      | visiting i => rfl
      | flushing i => rfl
      | posting i => rfl
  | drain now =>
    simp only [DatabaseUnit.loopStep, hloop]
    cases hl : u.loop with
    | idle => rfl
    | scanning batch engine rest => rfl
    | dispatching batch engine rest finding later pc =>
      cases pc with
      | flushing i =>
        have hbuffer : (d.shared sh).buffers i = d.buffer (sh.buffers i) := rfl
        simp only [loop, hbuffer, d.drain_buffer, d.shared_setBuffer, Option.isSome_map]
        cases (channels[i]?).map NamedChannel.channel with
        | none => rfl
        | some channel => cases channel <;> rfl
      | asking => rfl
      | visiting i => rfl
      | sending i => rfl
      | posting i => rfl
  | posted =>
    simp only [DatabaseUnit.loopStep, hloop]
    cases hl : u.loop with
    | idle => rfl
    | scanning batch engine rest => rfl
    | dispatching batch engine rest finding later pc => cases pc <;> rfl

theorem writeStep_unit (u : DatabaseUnit) {l : DatabaseUnit.WriteLabel}
    (hl : ∀ pipeline events, l ≠ .begin pipeline events) :
    (d.unit u).writeStep l = (u.writeStep l).map d.unit := by
  have hwrites : ∀ k : Nat, (d.unit u).writes[k]? = (u.writes[k]?).map d.write :=
    fun k => List.getElem?_map
  have hqueue : (d.unit u).queue.length = u.queue.length := List.length_map _
  cases l with
  | «begin» pipeline events => exact absurd rfl (hl pipeline events)
  | enqueue k =>
    simp only [DatabaseUnit.writeStep, hwrites, hqueue]
    cases u.writes[k]? with
    | none => rfl
    | some w =>
      obtain ⟨pipeline, phase⟩ := w
      cases phase with
      | sending events =>
        simp only [Option.map_some, write, Disguise.phase]
        split
        · simp only [Option.map_some, unit, List.map_append, List.map_cons, List.map_nil,
            List.map_set, write, Disguise.phase, batch]
        · rfl
      | acknowledging batch => rfl
  | ack k =>
    simp only [DatabaseUnit.writeStep, hwrites]
    cases u.writes[k]? with
    | none => rfl
    | some w =>
      obtain ⟨pipeline, phase⟩ := w
      cases phase with
      | sending events => rfl
      | acknowledging batch =>
        simp only [Option.map_some, write, Disguise.phase, unit, List.map_append,
          List.eraseIdx_map, Option.toList_map]
  | cancel k =>
    have hlength : (d.unit u).writes.length = u.writes.length := List.length_map _
    simp only [DatabaseUnit.writeStep, hlength]
    split
    · simp only [Option.map_some, unit, List.eraseIdx_map]
    · rfl

theorem state_setUnit (s : ScanState) (u : Nat) (unit : DatabaseUnit) :
    (d.state s).setUnit u (d.unit unit) = d.state (s.setUnit u unit) := by
  simp only [state, ScanState.setUnit, List.map_set]

theorem localMove_unit (u : DatabaseUnit) (l : MonitorLabel) :
    ScanState.localMove (d.unit u) l = ScanState.localMove u l := by
  cases l with
  | finish pipeline ok =>
    simp only [ScanState.localMove, unit, List.all_map]
    rfl
  | _ => rfl

theorem units_state (s : ScanState) (u : Nat) :
    (d.state s).units[u]? = (s.units[u]?).map d.unit :=
  List.getElem?_map

theorem stepMonitor_state (s : ScanState) (u : Nat) (l : MonitorLabel) :
    (d.state s).stepMonitor u l = (s.stepMonitor u l).map d.state := by
  have hexits : (d.state s).exits = s.exits := rfl
  have hcapacity : (d.state s).exitCapacity = s.exitCapacity := by
    simp [ScanState.exitCapacity, state]
  have hset : ∀ (unit : DatabaseUnit) (m : Monitor),
      (d.state s).setUnit u { d.unit unit with monitor := m } =
        d.state (s.setUnit u { unit with monitor := m }) :=
    fun unit m => d.state_setUnit s u { unit with monitor := m }
  simp only [ScanState.stepMonitor, d.units_state, hexits, hcapacity]
  cases s.units[u]? with
  | none => rfl
  | some unit =>
    have hmonitor : (d.unit unit).monitor = unit.monitor := rfl
    simp only [Option.map_some, hmonitor, d.localMove_unit, hset]
    split
    · split
      · cases unit.monitor.step .sendExit <;> rfl
      · rfl
    · split
      · simp only [Option.map_map]
        rfl
      · rfl

theorem stepFlush_state (s : ScanState) (i now : Nat) :
    (d.state s).stepFlush channels i now = d.state (s.stepFlush channels i now) := by
  have hshared : (d.state s).shared = d.shared s.shared := rfl
  have hbuffer : (d.shared s.shared).buffers i = d.buffer (s.shared.buffers i) := rfl
  simp only [ScanState.stepFlush, hshared, hbuffer, d.drain_buffer, d.shared_setBuffer,
    Option.isSome_map]
  cases channels[i]? with
  | none => rfl
  | some nc =>
    dsimp only
    cases nc.channel <;> rfl

theorem stepMain_state (s : ScanState) (l : ScanLabel) :
    (d.state s).stepMain channels l = (s.stepMain channels l).map d.state := by
  have hmain : (d.state s).main = s.main := rfl
  have hexits : (d.state s).exits = s.exits := rfl
  have hall : (d.state s).allTerminated = s.allTerminated := by
    simp only [ScanState.allTerminated, state, List.all_map]
    rfl
  have hrequest : (d.state s).requestShutdown = d.state s.requestShutdown := by
    simp only [ScanState.requestShutdown, state, List.map_map]
    rfl
  cases l with
  | recvExit =>
    simp only [ScanState.stepMain, hmain, hexits, hall]
    split <;> rfl
  | startReload =>
    simp only [ScanState.stepMain, hmain]
    split <;> rfl
  | endReload engine =>
    simp only [ScanState.stepMain, hmain]
    split <;> rfl
  | ctrlC =>
    simp only [ScanState.stepMain, hmain, hrequest]
    split <;> rfl
  | flush now =>
    simp only [ScanState.stepMain, hmain, d.stepFlush_state]
    split <;> rfl
  | posted =>
    simp only [ScanState.stepMain, hmain]
    split <;> rfl
  | monitor u l => rfl
  | write u l => rfl
  | loop u l => rfl
  | timer i now => rfl

/-- A step that brings no new events into the scanner does not notice the disguise. -/
theorem step_state (s : ScanState) {l : ScanLabel}
    (hl : ∀ u pipeline events, l ≠ .write u (.begin pipeline events)) :
    (d.state s).step cr channels l = (s.step cr channels l).map d.state := by
  have hmain : (d.state s).main = s.main := rfl
  by_cases hreturned : s.main = .returned
  · simp [ScanState.step, hmain, hreturned]
  · simp only [ScanState.step, hmain, if_neg hreturned]
    cases l with
    | monitor u l => exact d.stepMonitor_state s u l
    | write u l =>
      have hwrite : ∀ pipeline events, l ≠ .begin pipeline events := by
        intro pipeline events heq
        exact hl u pipeline events (congrArg _ heq)
      simp only [d.units_state]
      cases s.units[u]? with
      | none => rfl
      | some unit =>
        simp only [Option.map_some, Option.bind_some, d.writeStep_unit unit hwrite,
          Option.map_map, Function.comp_def, d.state_setUnit]
    | loop u l =>
      have hshared : (d.state s).shared = d.shared s.shared := rfl
      simp only [d.units_state, hshared]
      cases s.units[u]? with
      | none => rfl
      | some unit =>
        simp only [Option.map_some, Option.bind_some, d.loopStep_unit, Option.map_map,
          Function.comp_def, d.state_setUnit]
        rfl
    | timer i now =>
      have hshared : (d.state s).shared = d.shared s.shared := rfl
      have hbuffer : (d.shared s.shared).buffers i = d.buffer (s.shared.buffers i) := rfl
      simp only [hshared, hbuffer, d.drain_buffer, d.shared_setBuffer]
      split <;> rfl
    | recvExit => exact d.stepMain_state channels s .recvExit
    | startReload => exact d.stepMain_state channels s .startReload
    | endReload engine => exact d.stepMain_state channels s (.endReload engine)
    | ctrlC => exact d.stepMain_state channels s .ctrlC
    | flush now => exact d.stepMain_state channels s (.flush now)
    | posted => exact d.stepMain_state channels s .posted

end Steps

end Disguise

end PgSense
