import PgSense.Pipeline.Unit

/-! The whole scanner: the database units, the main loop of `scan` and its final
flush. A run ends when the main function returns, whatever the other tasks do. -/

namespace PgSense
open Library
set_option autoImplicit false

inductive MainPc where
  | selecting
  /-- the reload arm, up to the store or the warning -/
  | reloading
  /-- `dispatcher.flush`, at a channel -/
  | flushing (channel : Nat)
  | posting (channel : Nat)
  | returned
  deriving DecidableEq

structure ScanState where
  main : MainPc
  units : List DatabaseUnit
  shared : Shared
  /-- the exit channel: unit and result -/
  exits : List (Nat × Bool)

inductive ScanLabel where
  | monitor (u : Nat) (l : MonitorLabel)
  | write (u : Nat) (l : DatabaseUnit.WriteLabel)
  | loop (u : Nat) (l : DatabaseUnit.LoopLabel)
  /-- the flush task of the Slack channel at a position -/
  | timer (channel now : Nat)
  | recvExit
  | startReload
  | endReload (engine : Option RuleEngine)
  | ctrlC
  | flush (now : Nat)
  | posted

namespace ScanState

def start (engine : RuleEngine) (window : Nat) (databases : List (String × ScanFilter)) :
    ScanState where
  main := .selecting
  units := databases.map fun db => .start db.1 db.2
  shared := ⟨engine, .new window, fun _ => .empty⟩
  exits := []

variable (s : ScanState)

def setUnit (u : Nat) (unit : DatabaseUnit) : ScanState := { s with units := s.units.set u unit }

def exitCapacity : Nat := max s.units.length 1

def allTerminated : Bool := s.units.all fun unit => unit.monitor.status != .running

/-- The moves of a monitor that involve no other task. A pipeline stops once its
`write_events` calls are over. -/
def localMove (unit : DatabaseUnit) : MonitorLabel → Bool
  | .request => false
  | .dropSender => false
  | .sendExit => false
  | .finish pipeline _ => unit.writes.all fun w => w.pipeline != pipeline
  | _ => true

def stepMonitor (u : Nat) (l : MonitorLabel) : Option ScanState :=
  match s.units[u]? with
  | none => none
  | some unit =>
    match l, unit.monitor.pc with
    | .sendExit, .exiting ok =>
      if s.exits.length < s.exitCapacity then
        (unit.monitor.step .sendExit).map fun m =>
          { s.setUnit u { unit with monitor := m } with exits := s.exits ++ [(u, ok)] }
      else none
    | l, _ =>
      if localMove unit l then
        (unit.monitor.step l).map fun m => s.setUnit u { unit with monitor := m }
      else none

/-- `supervisor.shutdown()` -/
def requestShutdown : ScanState :=
  { s with units := s.units.map fun unit =>
      { unit with monitor := { unit.monitor with requested := true } } }

section Step
variable (cr : Crates) (channels : List NamedChannel)

/-- One call of `flush` on the channel at position `i`. -/
def stepFlush (i now : Nat) : ScanState :=
  match channels[i]? with
  | none => { s with main := .returned }
  | some nc =>
    match nc.channel with
    | .slack config =>
      let (drained, buf) := (s.shared.buffers i).drain config true now
      { s with
        main := if drained.isSome then .posting i else .flushing (i + 1)
        shared := s.shared.setBuffer i buf }
    | _ => { s with main := .flushing (i + 1) }

def stepMain : ScanLabel → Option ScanState
  | .recvExit =>
    match s.main, s.exits with
    | .selecting, _ :: exits =>
      some { s with exits, main := if s.allTerminated then .flushing 0 else .selecting }
    | _, _ => none
  | .startReload => if s.main = .selecting then some { s with main := .reloading } else none
  | .endReload engine =>
    if s.main = .reloading then
      some { s with
        main := .selecting
        shared := { s.shared with engine := engine.getD s.shared.engine } }
    else none
  | .ctrlC => if s.main = .selecting then some s.requestShutdown else none
  | .flush now =>
    match s.main with
    | .flushing i => some (s.stepFlush channels i now)
    | _ => none
  | .posted =>
    match s.main with
    | .posting i => some { s with main := .flushing (i + 1) }
    | _ => none
  | _ => none

/-- The process is over when the main function has returned. -/
def step (l : ScanLabel) : Option ScanState :=
  if s.main = .returned then none
  else match l with
    | .monitor u l => s.stepMonitor u l
    | .write u l => (s.units[u]?).bind fun unit => (unit.writeStep l).map fun v => s.setUnit u v
    | .loop u l => (s.units[u]?).bind fun unit =>
        (unit.loopStep cr channels s.shared l).map fun r =>
          { s.setUnit u r.1 with shared := r.2 }
    | .timer i now =>
      match (channels[i]?).map NamedChannel.channel with
      | some (.slack config) =>
        some { s with
          shared := s.shared.setBuffer i ((s.shared.buffers i).drain config false now).2 }
      | _ => none
    | l => s.stepMain channels l

end Step
end ScanState

def scanMachine (cr : Crates) (channels : List NamedChannel) : Machine ScanState ScanLabel :=
  ⟨fun s l => s.step cr channels l⟩

namespace ScanState
variable (cr : Crates) (channels : List NamedChannel)

/-- What a step does to the scanner, with a case for each way it can go. -/
inductive Acts (s : ScanState) : ScanLabel → ScanState → Prop
  | monitored {u : Nat} {unit : DatabaseUnit} {l : MonitorLabel} {m : Monitor}
      (hu : s.units[u]? = some unit) (hlocal : localMove unit l = true)
      (hm : unit.monitor.step l = some m) :
      Acts s (.monitor u l) (s.setUnit u { unit with monitor := m })
  | signalled {u : Nat} {unit : DatabaseUnit} {ok : Bool} {m : Monitor}
      (hu : s.units[u]? = some unit) (hpc : unit.monitor.pc = .exiting ok)
      (hroom : s.exits.length < s.exitCapacity) (hm : unit.monitor.step .sendExit = some m) :
      Acts s (.monitor u .sendExit)
        { s.setUnit u { unit with monitor := m } with exits := s.exits ++ [(u, ok)] }
  | written {u : Nat} {unit v : DatabaseUnit} {l : DatabaseUnit.WriteLabel}
      (hu : s.units[u]? = some unit) (hv : unit.writeStep l = some v) :
      Acts s (.write u l) (s.setUnit u v)
  | looped {u : Nat} {unit v : DatabaseUnit} {sh : Shared} {l : DatabaseUnit.LoopLabel}
      (hu : s.units[u]? = some unit)
      (hv : unit.loopStep cr channels s.shared l = some (v, sh)) :
      Acts s (.loop u l) { s.setUnit u v with shared := sh }
  | timed {i now : Nat} {config : SlackConfig}
      (hi : (channels[i]?).map NamedChannel.channel = some (.slack config)) :
      Acts s (.timer i now) { s with
        shared := s.shared.setBuffer i ((s.shared.buffers i).drain config false now).2 }
  | received {exit : Nat × Bool} {exits : List (Nat × Bool)} (hmain : s.main = .selecting)
      (hexits : s.exits = exit :: exits) :
      Acts s .recvExit
        { s with exits, main := if s.allTerminated then .flushing 0 else .selecting }
  | reloading (hmain : s.main = .selecting) : Acts s .startReload { s with main := .reloading }
  | reloaded {engine : Option RuleEngine} (hmain : s.main = .reloading) :
      Acts s (.endReload engine) { s with
        main := .selecting
        shared := { s.shared with engine := engine.getD s.shared.engine } }
  | interrupted (hmain : s.main = .selecting) : Acts s .ctrlC s.requestShutdown
  | flushed {i now : Nat} (hmain : s.main = .flushing i) :
      Acts s (.flush now) (s.stepFlush channels i now)
  | posted {i : Nat} (hmain : s.main = .posting i) :
      Acts s .posted { s with main := .flushing (i + 1) }

section Inversion
variable {cr channels} {s t : ScanState}

theorem stepMonitor_acts {u : Nat} {l : MonitorLabel} (h : s.stepMonitor u l = some t) :
    Acts cr channels s (.monitor u l) t := by
  unfold stepMonitor at h
  split at h
  · cases h
  · next unit hu =>
    split at h
    · next ok hpc =>
      split at h
      · next hroom =>
        obtain ⟨m, hm, rfl⟩ := Option.map_eq_some_iff.mp h
        exact .signalled hu hpc hroom hm
      · cases h
    · split at h
      · next hlocal =>
        obtain ⟨m, hm, rfl⟩ := Option.map_eq_some_iff.mp h
        exact .monitored hu hlocal hm
      · cases h

theorem stepMain_acts {l : ScanLabel} (h : s.stepMain channels l = some t) :
    Acts cr channels s l t := by
  cases l with
  | recvExit =>
    simp only [stepMain] at h
    split at h
    · next hmain hexits =>
      cases h
      exact .received hmain hexits
    · cases h
  | startReload =>
    simp only [stepMain] at h
    split at h
    · next hmain =>
      cases h
      exact .reloading hmain
    · cases h
  | endReload engine =>
    simp only [stepMain] at h
    split at h
    · next hmain =>
      cases h
      exact .reloaded hmain
    · cases h
  | ctrlC =>
    simp only [stepMain] at h
    split at h
    · next hmain =>
      cases h
      exact .interrupted hmain
    · cases h
  | flush now =>
    simp only [stepMain] at h
    split at h
    · next hmain =>
      cases h
      exact .flushed hmain
    · cases h
  | posted =>
    simp only [stepMain] at h
    split at h
    · next hmain =>
      cases h
      exact .posted hmain
    · cases h
  | monitor u l => cases h
  | write u l => cases h
  | loop u l => cases h
  | timer i now => cases h

/-- The inversion of a step; what the scanner does is a case split on this. -/
theorem step_acts {l : ScanLabel} (h : s.step cr channels l = some t) :
    Acts cr channels s l t := by
  unfold step at h
  split at h
  · cases h
  · cases l with
    | monitor u l => exact stepMonitor_acts h
    | write u l =>
      obtain ⟨unit, hu, h⟩ := Option.bind_eq_some_iff.mp h
      obtain ⟨v, hv, rfl⟩ := Option.map_eq_some_iff.mp h
      exact .written hu hv
    | loop u l =>
      obtain ⟨unit, hu, h⟩ := Option.bind_eq_some_iff.mp h
      obtain ⟨⟨v, sh⟩, hv, rfl⟩ := Option.map_eq_some_iff.mp h
      exact .looped hu hv
    | timer i now =>
      dsimp only at h
      split at h
      · next hi =>
        cases h
        exact .timed hi
      · cases h
    | recvExit => exact stepMain_acts h
    | startReload => exact stepMain_acts h
    | endReload engine => exact stepMain_acts h
    | ctrlC => exact stepMain_acts h
    | flush now => exact stepMain_acts h
    | posted => exact stepMain_acts h

end Inversion

def Quiet (s : ScanState) : Prop :=
  ∀ unit ∈ s.units, unit.queue = [] ∧ unit.loop = .idle ∧ unit.writes = []

def FlushedBelow (s : ScanState) (n : Nat) : Prop :=
  ∀ j < n, ∀ config, (channels[j]?).map NamedChannel.channel = some (.slack config) →
    (s.shared.buffers j).findings = []

/-- Every acknowledged batch was received, scanned and dispatched, and no Slack
buffer holds a finding. -/
def Drained (s : ScanState) : Prop :=
  (∀ unit ∈ s.units, ∀ batch ∈ unit.acked, unit.Handled cr batch) ∧
    ∀ j config, (channels[j]?).map NamedChannel.channel = some (.slack config) →
      (s.shared.buffers j).findings = []

/-- The main loop breaks only when nothing is in flight, and no `write_events` call
begins after it has broken. -/
def QuietShutdown (s : ScanState) (l : ScanLabel) : Prop :=
  (l = .recvExit → s.allTerminated = true → s.Quiet) ∧
    ∀ u pipeline events, l = .write u (.begin pipeline events) →
      s.main = .selecting ∨ s.main = .reloading

theorem quietShutdown_of_other {l : ScanLabel} (hexit : l ≠ .recvExit)
    (hbegin : ∀ u pipeline events, l ≠ .write u (.begin pipeline events)) (s : ScanState) :
    s.QuietShutdown l := by
  constructor
  · intro h
    exact absurd h hexit
  · intro u pipeline events h
    exact absurd h (hbegin u pipeline events)

/-- After the break the system is quiet, and the flush has emptied the buffers it
has passed. -/
def MainSound (s : ScanState) : Prop :=
  match s.main with
  | .selecting => True
  | .reloading => True
  | .flushing i => s.Quiet ∧ s.FlushedBelow channels i
  | .posting i => s.Quiet ∧ s.FlushedBelow channels (i + 1)
  | .returned => s.Quiet ∧ s.FlushedBelow channels channels.length

structure Inv (s : ScanState) : Prop where
  units : ∀ unit ∈ s.units, unit.Inv cr
  main : s.MainSound channels

variable {cr channels}

theorem MainSound.quiet {s : ScanState} (h : s.MainSound channels) :
    s.main = .selecting ∨ s.main = .reloading ∨ s.Quiet := by
  unfold MainSound at h
  cases hm : s.main with
  | selecting => exact .inl rfl
  | reloading => exact .inr (.inl rfl)
  | flushing i =>
    rw [hm] at h
    exact .inr (.inr h.1)
  | posting i =>
    rw [hm] at h
    exact .inr (.inr h.1)
  | returned =>
    rw [hm] at h
    exact .inr (.inr h.1)

theorem MainSound.keep {s t : ScanState} (h : s.MainSound channels) (hmain : t.main = s.main)
    (hquiet : s.Quiet → t.Quiet)
    (hflushed : ∀ n, s.FlushedBelow channels n → t.FlushedBelow channels n) :
    t.MainSound channels := by
  unfold MainSound at h ⊢
  rw [hmain]
  cases hm : s.main with
  | selecting => trivial
  | reloading => trivial
  | flushing i =>
    rw [hm] at h
    exact ⟨hquiet h.1, hflushed _ h.2⟩
  | posting i =>
    rw [hm] at h
    exact ⟨hquiet h.1, hflushed _ h.2⟩
  | returned =>
    rw [hm] at h
    exact ⟨hquiet h.1, hflushed _ h.2⟩

/-- While a unit has something in flight the main loop has not broken. -/
theorem MainSound.busy {s : ScanState} (h : s.MainSound channels) {unit : DatabaseUnit}
    (hunit : unit ∈ s.units)
    (hactive : unit.queue = [] → unit.loop = .idle → unit.writes = [] →
      s.main = .selecting ∨ s.main = .reloading) :
    s.main = .selecting ∨ s.main = .reloading := by
  rcases h.quiet with hsel | hrel | hquiet
  · exact .inl hsel
  · exact .inr hrel
  · obtain ⟨hqueue, hloop, hwrites⟩ := hquiet unit hunit
    exact hactive hqueue hloop hwrites

theorem MainSound.of_busy {s : ScanState} (h : s.main = .selecting ∨ s.main = .reloading) :
    s.MainSound channels := by
  unfold MainSound
  rcases h with h | h <;> rw [h] <;> trivial

theorem FlushedBelow.drain {s : ScanState} {n : Nat} (h : s.FlushedBelow channels n) (i now : Nat)
    (config : SlackConfig) (force : Bool) (main : MainPc) :
    ({ s with
        main
        shared := s.shared.setBuffer i ((s.shared.buffers i).drain config force now).2 } :
      ScanState).FlushedBelow channels n := by
  intro j hj config' hslack
  show (if j = i then ((s.shared.buffers i).drain config force now).2
    else s.shared.buffers j).findings = []
  split
  · next heq =>
    subst heq
    exact BufferState.drain_of_nil (h j hj config' hslack) config force now
  · exact h j hj config' hslack

theorem stepFlush_inv {s : ScanState} {i : Nat} (hm : s.main = .flushing i) (h : s.Inv cr channels)
    (now : Nat) : (s.stepFlush channels i now).Inv cr channels := by
  have hsound := h.main
  unfold MainSound at hsound
  rw [hm] at hsound
  obtain ⟨hquiet, hflushed⟩ := hsound
  unfold stepFlush
  split
  · next hnone =>
    refine ⟨h.units, hquiet, fun j hj => hflushed j ?_⟩
    have := List.getElem?_eq_none_iff.mp hnone
    omega
  · next nc hnc =>
    split
    · next config hslack =>
      have hbelow : ∀ main, ({ s with
          main
          shared := s.shared.setBuffer i ((s.shared.buffers i).drain config true now).2 } :
            ScanState).FlushedBelow channels (i + 1) := by
        intro main j hj config' hslack'
        rcases Nat.lt_or_eq_of_le (Nat.lt_succ_iff.mp hj) with hlt | rfl
        · exact hflushed.drain i now config true main j hlt config' hslack'
        · show (if j = j then ((s.shared.buffers j).drain config true now).2
            else s.shared.buffers j).findings = []
          rw [if_pos rfl]
          exact BufferState.drain_forced _ config now
      refine ⟨h.units, ?_⟩
      unfold MainSound
      dsimp only
      split
      · next hpc => split at hpc <;> cases hpc
      · next hpc => split at hpc <;> cases hpc
      · next hpc =>
        split at hpc <;> cases hpc
        exact ⟨hquiet, hbelow _⟩
      · next hpc =>
        split at hpc <;> cases hpc
        exact ⟨hquiet, hbelow _⟩
      · next hpc => split at hpc <;> cases hpc
    · next hother =>
      refine ⟨h.units, hquiet, ?_⟩
      intro j hj config hslack
      rcases Nat.lt_or_eq_of_le (Nat.lt_succ_iff.mp hj) with hlt | rfl
      · exact hflushed j hlt config hslack
      · rw [hnc] at hslack
        exact absurd (Option.some.inj hslack) (hother config)

theorem setUnit_units {s : ScanState} (h : ∀ unit ∈ s.units, unit.Inv cr) (u : Nat)
    {v : DatabaseUnit} (hv : v.Inv cr) : ∀ unit ∈ (s.setUnit u v).units, unit.Inv cr := by
  intro unit hunit
  rcases List.mem_or_eq_of_mem_set hunit with hunit | rfl
  · exact h unit hunit
  · exact hv

theorem setMonitor_inv {s : ScanState} (h : s.Inv cr channels) {u : Nat} {unit : DatabaseUnit}
    (hu : s.units[u]? = some unit) (m : Monitor) (exits : List (Nat × Bool)) :
    ({ s.setUnit u { unit with monitor := m } with exits } : ScanState).Inv cr channels := by
  have hmem := List.mem_of_getElem? hu
  have hunit := h.units unit hmem
  refine ⟨setUnit_units h.units u ⟨hunit.acked, hunit.queued, hunit.done, hunit.loop⟩,
    h.main.keep rfl (fun hquiet v hv => ?_) fun _ hf => hf⟩
  rcases List.mem_or_eq_of_mem_set hv with hv | rfl
  · exact hquiet v hv
  · exact hquiet unit hmem

theorem writeStep_quiet {unit v : DatabaseUnit} (hw : unit.writes = [])
    {l : DatabaseUnit.WriteLabel} (h : unit.writeStep l = some v) :
    ∃ pipeline events, l = .begin pipeline events := by
  cases DatabaseUnit.writeStep_acts h with
  | forwards => exact ⟨_, _, rfl⟩
  | skips => exact ⟨_, _, rfl⟩
  | enqueues hk => simp [hw] at hk
  | acknowledges hk => simp [hw] at hk
  | dropped hlt => simp [hw] at hlt

theorem loopStep_quiet {unit : DatabaseUnit} (hq : unit.queue = []) (hl : unit.loop = .idle)
    (sh : Shared) (l : DatabaseUnit.LoopLabel) : unit.loopStep cr channels sh l = none := by
  cases l <;> simp [DatabaseUnit.loopStep, hq, hl]

theorem write_inv {s : ScanState} (h : s.Inv cr channels) {u : Nat} {unit v : DatabaseUnit}
    {l : DatabaseUnit.WriteLabel} (hc : s.QuietShutdown (.write u l))
    (hu : s.units[u]? = some unit) (hv : unit.writeStep l = some v) :
    (s.setUnit u v).Inv cr channels := by
  have hmem := List.mem_of_getElem? hu
  have hbusy : s.main = .selecting ∨ s.main = .reloading := by
    apply h.main.busy hmem
    intro _ _ hw
    obtain ⟨pipeline, events, rfl⟩ := writeStep_quiet hw hv
    exact hc.2 u pipeline events rfl
  exact ⟨setUnit_units h.units u (DatabaseUnit.writeStep_inv (h.units unit hmem) hv),
    MainSound.of_busy hbusy⟩

theorem loop_inv {s : ScanState} (h : s.Inv cr channels) {u : Nat} {unit v : DatabaseUnit}
    {sh : Shared} {l : DatabaseUnit.LoopLabel} (hu : s.units[u]? = some unit)
    (hv : unit.loopStep cr channels s.shared l = some (v, sh)) :
    ({ s.setUnit u v with shared := sh } : ScanState).Inv cr channels := by
  have hmem := List.mem_of_getElem? hu
  have hbusy : s.main = .selecting ∨ s.main = .reloading := by
    apply h.main.busy hmem
    intro hq hl _
    rw [loopStep_quiet hq hl] at hv
    cases hv
  exact ⟨setUnit_units h.units u ((DatabaseUnit.loopStep_moves hv).inv (h.units unit hmem)),
    MainSound.of_busy hbusy⟩

theorem requestShutdown_inv {s : ScanState} (h : s.Inv cr channels) (hm : s.main = .selecting) :
    s.requestShutdown.Inv cr channels := by
  refine ⟨?_, MainSound.of_busy (.inl hm)⟩
  intro unit hunit
  obtain ⟨v, hv, rfl⟩ := List.mem_map.mp hunit
  have hv := h.units v hv
  exact ⟨hv.acked, hv.queued, hv.done, hv.loop⟩

theorem step_inv {s t : ScanState} {l : ScanLabel} (h : s.Inv cr channels)
    (hc : s.QuietShutdown l) (hstep : s.step cr channels l = some t) : t.Inv cr channels := by
  cases step_acts hstep with
  | monitored hu => exact setMonitor_inv h hu _ s.exits
  | signalled hu => exact setMonitor_inv h hu _ _
  | written hu hv => exact write_inv h hc hu hv
  | looped hu hv => exact loop_inv h hu hv
  | timed => exact ⟨h.units, h.main.keep rfl id fun n hf => hf.drain _ _ _ false s.main⟩
  | received =>
    refine ⟨h.units, ?_⟩
    cases hall : s.allTerminated with
    | false => exact MainSound.of_busy (.inl rfl)
    | true => exact ⟨hc.1 rfl hall, fun j hj => absurd hj (Nat.not_lt_zero j)⟩
  | reloading => exact ⟨h.units, MainSound.of_busy (.inr rfl)⟩
  | reloaded => exact ⟨h.units, MainSound.of_busy (.inl rfl)⟩
  | interrupted hmain => exact requestShutdown_inv h hmain
  | flushed hmain => exact stepFlush_inv hmain h _
  | posted hmain =>
    have hsound := h.main
    unfold MainSound at hsound
    rw [hmain] at hsound
    exact ⟨h.units, hsound⟩

theorem start_inv (engine : RuleEngine) (window : Nat) (databases : List (String × ScanFilter)) :
    (start engine window databases).Inv cr channels := by
  refine ⟨?_, MainSound.of_busy (.inl rfl)⟩
  intro unit hunit
  obtain ⟨db, _, rfl⟩ := List.mem_map.mp hunit
  exact DatabaseUnit.start_inv cr db.1 db.2

variable (cr channels)

/-- When the scanner returns, everything acknowledged was scanned and dispatched and
the Slack buffers are empty, in every run whose main loop breaks in a quiet system
and after whose break no `write_events` call begins. -/
theorem drained_at_return (engine : RuleEngine) (window : Nat)
    (databases : List (String × ScanFilter)) {ls : List ScanLabel} {s : ScanState}
    (h : (scanMachine cr channels).run (start engine window databases) ls = some s)
    (hquiet : (scanMachine cr channels).Along QuietShutdown (start engine window databases) ls)
    (hreturned : s.main = .returned) : s.Drained cr channels := by
  have hkeep : ∀ {s l t}, Inv cr channels s → QuietShutdown s l →
      (scanMachine cr channels).step s l = some t → Inv cr channels t :=
    fun hs hl hstep => step_inv hs hl hstep
  have hinv := Machine.run_invariant_along hkeep (start_inv engine window databases) hquiet h
  have hsound := hinv.main
  unfold MainSound at hsound
  rw [hreturned] at hsound
  obtain ⟨hq, hflushed⟩ := hsound
  refine ⟨?_, ?_⟩
  · intro unit hunit batch hbatch
    obtain ⟨hqueue, hidle, _⟩ := hq unit hunit
    exact (hinv.units unit hunit).drained hqueue hidle hbatch
  · intro j config hslack
    refine hflushed j ?_ config hslack
    by_contra hge
    rw [List.getElem?_eq_none (Nat.le_of_not_lt hge)] at hslack
    cases hslack

end ScanState

section Sample
open ScanState

def noRules : RuleEngine := ⟨[], ⟨fun _ => []⟩, [], [], []⟩

def oneDatabase : List (String × ScanFilter) := [("db", ⟨.empty, .empty, .empty⟩)]

/-- A batch is queued and acknowledged, then Ctrl+C stops the pipeline and with it
the main loop, before the scan loop has run. -/
def stoppedAtOnce : List ScanLabel :=
  [.write 0 (.begin 0 [.insert customerInsert]), .write 0 (.enqueue 0), .write 0 (.ack 0), .ctrlC,
    .monitor 0 .pollShutdown, .monitor 0 (.finish 0 true), .monitor 0 .pollDrain,
    .monitor 0 .sendExit, .recvExit, .flush 0]

theorem acknowledged_batch_lost :
    ∃ s, (scanMachine .sample []).run (start noRules 0 oneDatabase) stoppedAtOnce = some s ∧
      s.main = .returned ∧ ¬ s.Drained .sample [] ∧
      ∃ unit ∈ s.units, ∃ batch ∈ unit.acked, batch ∈ unit.queue ∧ unit.done = [] := by
  refine ⟨_, rfl, rfl, fun hdrained => ?_, _, List.mem_singleton.mpr rfl, _,
    List.mem_singleton.mpr rfl, List.mem_singleton.mpr rfl, rfl⟩
  obtain ⟨engine, hdone, _⟩ := hdrained.1 _ (List.mem_singleton.mpr rfl) _
    (List.mem_singleton.mpr rfl)
  cases hdone

def ssnEngine : RuleEngine :=
  ⟨[⟨ssnRule.metadata, .builtin .ssn, none⟩], ⟨fun _ => []⟩, [], [0], []⟩

def singleInsert : InsertEvent :=
  { customerInsert with
    schema := { customers with columnSchemas := [⟨"ssn", "text", true⟩] }
    tableRow := [.string "219-09-9999"] }

/-- A row is acknowledged, and the scan loop comes to its finding. -/
def untilAsked : List ScanLabel :=
  [.write 0 (.begin 0 [.insert singleInsert]), .write 0 (.enqueue 0), .write 0 (.ack 0),
    .loop 0 .recv, .loop 0 .scanNext]

/-- A Slack channel that one finding does not fill. -/
def slackBatched : List NamedChannel :=
  [⟨"slack", .slack ⟨none, "xoxb", "#alerts", none, none, 5000, 8, 2000, 3⟩⟩]

/-- The finding is buffered, the loop goes back to `recv`, and the pipeline ends. -/
def untilExit : List ScanLabel :=
  [.loop 0 .visit, .loop 0 (.send 0), .loop 0 .visit, .loop 0 .scanNext,
    .monitor 0 (.finish 0 true), .monitor 0 .pollWait, .monitor 0 .sendExit]

def flushedLast : List ScanLabel := [.recvExit, .flush 0, .posted, .flush 0]

def scannedFirst : List ScanLabel := untilAsked ++ .loop 0 (.ask 0 0) :: untilExit ++ flushedLast

/-- A finding passes a fresh deduplicator. -/
theorem step_passed {s : ScanState} (hmain : s.main = .selecting) {window : Nat}
    (hdedup : s.shared.dedup = .new window) {unit : DatabaseUnit} (hu : s.units[0]? = some unit)
    {batch : Batch} {engine : RuleEngine} {rest : List ScanEvent} {finding : Finding}
    {later : List Finding}
    (hl : unit.loop = .dispatching batch engine rest finding later .asking) :
    ∃ dedup, (scanMachine .sample slackBatched).step s (.loop 0 (.ask 0 0)) = some
      { s.setUnit 0 (unit.dispatchAt batch engine rest finding later (.visiting 0)) with
        shared := { s.shared with dedup } } := by
  simp [scanMachine, step, hmain, hu, DatabaseUnit.loopStep, hl, hdedup,
    Deduplicator.new_shouldAlert]

/-- Before the main loop breaks nothing is in flight, and the finding is in the buffer. -/
theorem scannedFirst_run : ∃ t,
    (scanMachine .sample slackBatched).run (start ssnEngine 10 oneDatabase)
        (untilAsked ++ .loop 0 (.ask 0 0) :: untilExit) = some t ∧
      t.Quiet ∧ (t.shared.buffers 0).findings ≠ [] ∧
      ∃ s, (scanMachine .sample slackBatched).run t flushedLast = some s ∧ s.main = .returned ∧
        ∃ unit ∈ s.units, unit.acked ≠ [] ∧ unit.dispatched ≠ [] := by
  -- what follows the decision does not look at the deduplicator
  have hasked : ∃ s unit batch engine rest finding later,
      (scanMachine .sample slackBatched).run (start ssnEngine 10 oneDatabase) untilAsked = some s ∧
        s.main = .selecting ∧ s.shared.dedup = .new 10 ∧ s.units[0]? = some unit ∧
        unit.loop = .dispatching batch engine rest finding later .asking ∧
        ∀ dedup, ∃ t, (scanMachine .sample slackBatched).run
            { s.setUnit 0 (unit.dispatchAt batch engine rest finding later (.visiting 0)) with
              shared := { s.shared with dedup } } untilExit = some t ∧
          t.Quiet ∧ (t.shared.buffers 0).findings ≠ [] ∧
          ∃ s', (scanMachine .sample slackBatched).run t flushedLast = some s' ∧
            s'.main = .returned ∧ ∃ unit ∈ s'.units, unit.acked ≠ [] ∧ unit.dispatched ≠ [] := by
    refine ⟨_, _, _, _, _, _, _, rfl, rfl, rfl, rfl, rfl, fun dedup => ⟨_, rfl, ?_, nofun, _, rfl,
      rfl, _, List.mem_singleton.mpr rfl, nofun, nofun⟩⟩
    intro unit hunit
    rw [List.mem_singleton.mp hunit]
    exact ⟨rfl, rfl, rfl⟩
  obtain ⟨s, unit, batch, engine, rest, finding, later, hs, hmain, hdedup, hu, hl, hrest⟩ := hasked
  obtain ⟨dedup, hpassed⟩ := step_passed hmain hdedup hu hl
  obtain ⟨t, ht, hlast⟩ := hrest dedup
  refine ⟨t, ?_, hlast⟩
  rw [Machine.run_append, hs, Option.bind_some, Machine.run_cons, hpassed]
  exact ht

theorem scannedFirst_quiet :
    (scanMachine .sample slackBatched).Along QuietShutdown (start ssnEngine 10 oneDatabase)
      scannedFirst := by
  obtain ⟨t, ht, hquiet, _⟩ := scannedFirst_run
  have hbefore : ∀ l ∈ untilAsked.tail ++ .loop 0 (.ask 0 0) :: untilExit, l ≠ .recvExit ∧
      ∀ u pipeline events, l ≠ .write u (.begin pipeline events) := by
    simp [untilAsked, untilExit]
  have hafter : ∀ l ∈ flushedLast.tail, l ≠ .recvExit ∧
      ∀ u pipeline events, l ≠ .write u (.begin pipeline events) := by
    simp [flushedLast]
  rw [scannedFirst, Machine.along_append _ _ ht]
  constructor
  · apply (Machine.along_cons _ _ rfl).mpr
    constructor
    · exact ⟨nofun, fun _ _ _ _ => .inl rfl⟩
    · apply Machine.along_of_forall
      intro l hl s
      obtain ⟨hexit, hbegin⟩ := hbefore l hl
      exact quietShutdown_of_other hexit hbegin s
  · constructor
    · exact ⟨fun _ _ => hquiet, nofun⟩
    · intro s _
      apply Machine.along_of_forall
      intro l hl s
      obtain ⟨hexit, hbegin⟩ := hafter l hl
      exact quietShutdown_of_other hexit hbegin s

theorem drained_at_return_scanned_first :
    ∃ s, (scanMachine .sample slackBatched).run (start ssnEngine 10 oneDatabase) scannedFirst =
        some s ∧
      s.main = .returned ∧ (∃ unit ∈ s.units, unit.acked ≠ [] ∧ unit.dispatched ≠ []) ∧
      s.Drained .sample slackBatched := by
  obtain ⟨t, ht, _, _, s, hs, hreturned, hunit⟩ := scannedFirst_run
  have hrun : (scanMachine .sample slackBatched).run (start ssnEngine 10 oneDatabase) scannedFirst =
      some s := by
    rw [scannedFirst, Machine.run_append, ht]
    exact hs
  exact ⟨s, hrun, hreturned, hunit,
    drained_at_return .sample slackBatched ssnEngine 10 oneDatabase hrun scannedFirst_quiet hreturned⟩

end Sample

end PgSense
