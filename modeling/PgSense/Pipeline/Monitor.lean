import PgSense.Library.Machine

/-! The monitor task of a database unit. The pipeline being watched sits in the
runner until `wait()` is first polled, which moves it into the pending future;
when `select!` takes another branch, that future is dropped with what it holds. -/

namespace PgSense
open Library
set_option autoImplicit false

inductive PipelineStatus where
  | exited
  | running
  | failed
  deriving DecidableEq, Repr

/-- A future of `runner.wait()`: not polled yet, or holding the pipeline it took. -/
inductive WaitFuture where
  | fresh
  | holding (pipeline : Nat)
  deriving DecidableEq, Repr

inductive MonitorPc where
  | selecting (future : WaitFuture)
  | reconnecting
  | sleeping (until_ : Nat)
  /-- after `signal_shutdown`, in `timeout(30 s, runner.wait())` -/
  | draining (future : WaitFuture) (deadline : Nat)
  /-- status stored, about to send the exit signal -/
  | exiting (ok : Bool)
  | ended
  deriving DecidableEq, Repr

/-- Pipelines are numbered in the order in which they are started. -/
structure Monitor where
  pc : MonitorPc
  /-- `runner.pipeline` -/
  slot : Option Nat
  nextPipeline : Nat
  /-- the pipelines whose workers have stopped, with their result -/
  finished : List (Nat × Bool)
  /-- the shutdown channel: an unseen request, and a dropped sender -/
  requested : Bool
  senderDropped : Bool
  status : PipelineStatus
  now : Nat
  /-- the exit signals sent -/
  sent : List Bool
  /-- the pipelines `shutdown()` was called on -/
  invoked : List Nat
  /-- history: the live pipeline, and the time, when the shutdown branch was taken -/
  target : Option Nat
  takenAt : Nat
  deriving DecidableEq, Repr

inductive ReconnectOutcome where
  | ok
  | buildFailed
  | startFailed
  deriving DecidableEq, Repr

inductive MonitorLabel where
  | pollWait
  | pollShutdown
  | reconnect (outcome : ReconnectOutcome)
  | wake
  | pollDrain
  | sendExit
  | finish (pipeline : Nat) (ok : Bool)
  | request
  | dropSender
  | tick (d : Nat)
  deriving DecidableEq, Repr

namespace Monitor

def start : Monitor where
  pc := .selecting .fresh
  slot := some 0
  nextPipeline := 1
  finished := []
  requested := false
  senderDropped := false
  status := .running
  now := 0
  sent := []
  invoked := []
  target := none
  takenAt := 0

variable (s : Monitor)

def result? (pipeline : Nat) : Option Bool :=
  (s.finished.find? fun f => f.1 == pipeline).map Prod.snd

/-- The pipeline that a `wait()` future watches once it is polled. -/
def watched : WaitFuture → Option Nat
  | .fresh => s.slot
  | .holding p => some p

def live (pipeline : Nat) : Bool := pipeline < s.nextPipeline && (s.result? pipeline).isNone

/-- `signal_shutdown`: it reaches the pipeline in the runner, if there is one. -/
def signalShutdown : Monitor := { s with invoked := s.invoked ++ s.slot.toList }

/-- The rest of the shutdown branch once the inner `wait()` or the timeout is done. -/
def shutDown : Monitor := { s with slot := none, status := .exited, pc := .exiting true }

def step : MonitorLabel → Option Monitor
  | .pollWait =>
    match s.pc with
    | .selecting future =>
      match s.watched future with
      -- "pipeline already consumed"
      | none => some { s with pc := .reconnecting }
      | some p =>
        match s.result? p with
        | none => some { s with slot := none, pc := .selecting (.holding p) }
        | some true => some { s with slot := none, status := .exited, pc := .exiting true }
        | some false => some { s with slot := none, pc := .reconnecting }
    | _ => none
  | .pollShutdown =>
    match s.pc with
    | .selecting future =>
      if s.requested then
        some ({ s with
          requested := false
          target := (s.watched future).filter fun p => s.live p
          takenAt := s.now
          pc := .draining .fresh (s.now + 30000) }.signalShutdown)
      else if s.senderDropped then some { s with status := .exited, pc := .ended }
      else none
    | _ => none
  | .reconnect outcome =>
    match s.pc with
    | .reconnecting =>
      match outcome with
      | .ok =>
        some { s with
          slot := some s.nextPipeline
          nextPipeline := s.nextPipeline + 1
          pc := .sleeping (s.now + 1000) }
      | .buildFailed => some { s with status := .failed, pc := .exiting false }
      -- a pipeline was built but is not running
      | .startFailed =>
        some { s with slot := some s.nextPipeline, status := .failed, pc := .exiting false }
    | _ => none
  | .wake =>
    match s.pc with
    | .sleeping t => if t ≤ s.now then some { s with pc := .selecting .fresh } else none
    | _ => none
  | .pollDrain =>
    match s.pc with
    | .draining future deadline =>
      match s.watched future with
      -- "pipeline already consumed"
      | none => some s.shutDown
      | some p =>
        match s.result? p with
        | some _ => some s.shutDown
        | none =>
          if deadline ≤ s.now then some s.shutDown
          else some { s with slot := none, pc := .draining (.holding p) deadline }
    | _ => none
  | .sendExit =>
    match s.pc with
    | .exiting ok => some { s with sent := s.sent ++ [ok], pc := .ended }
    | _ => none
  | .finish p ok => if s.live p then some { s with finished := s.finished ++ [(p, ok)] } else none
  | .request => some { s with requested := true }
  | .dropSender => some { s with senderDropped := true }
  | .tick d => some { s with now := s.now + d }

end Monitor

def monitorMachine : Machine Monitor MonitorLabel := ⟨Monitor.step⟩

namespace Monitor

/-- What a step does to the monitor, with a case for each way it can go. -/
inductive Acts (s : Monitor) : MonitorLabel → Monitor → Prop
  | consumed {future : WaitFuture} (hpc : s.pc = .selecting future)
      (hw : s.watched future = none) : Acts s .pollWait { s with pc := .reconnecting }
  | pending {future : WaitFuture} {p : Nat} (hpc : s.pc = .selecting future)
      (hw : s.watched future = some p) (hr : s.result? p = none) :
      Acts s .pollWait { s with slot := none, pc := .selecting (.holding p) }
  | succeeded {future : WaitFuture} {p : Nat} (hpc : s.pc = .selecting future)
      (hw : s.watched future = some p) (hr : s.result? p = some true) :
      Acts s .pollWait { s with slot := none, status := .exited, pc := .exiting true }
  | failed {future : WaitFuture} {p : Nat} (hpc : s.pc = .selecting future)
      (hw : s.watched future = some p) (hr : s.result? p = some false) :
      Acts s .pollWait { s with slot := none, pc := .reconnecting }
  | asked {future : WaitFuture} (hpc : s.pc = .selecting future) (hr : s.requested = true) :
      Acts s .pollShutdown ({ s with
        requested := false
        target := (s.watched future).filter fun p => s.live p
        takenAt := s.now
        pc := .draining .fresh (s.now + 30000) } : Monitor).signalShutdown
  | orphaned {future : WaitFuture} (hpc : s.pc = .selecting future) (hr : s.requested = false)
      (hd : s.senderDropped = true) :
      Acts s .pollShutdown { s with status := .exited, pc := .ended }
  | reconnected (hpc : s.pc = .reconnecting) :
      Acts s (.reconnect .ok) { s with
        slot := some s.nextPipeline
        nextPipeline := s.nextPipeline + 1
        pc := .sleeping (s.now + 1000) }
  | unbuilt (hpc : s.pc = .reconnecting) :
      Acts s (.reconnect .buildFailed) { s with status := .failed, pc := .exiting false }
  | unstarted (hpc : s.pc = .reconnecting) :
      Acts s (.reconnect .startFailed)
        { s with slot := some s.nextPipeline, status := .failed, pc := .exiting false }
  | woken {t : Nat} (hpc : s.pc = .sleeping t) (ht : t ≤ s.now) :
      Acts s .wake { s with pc := .selecting .fresh }
  /-- the watched pipeline has stopped, or the time is over -/
  | drained {future : WaitFuture} {deadline : Nat} (hpc : s.pc = .draining future deadline)
      (hover : ∀ p, s.watched future = some p →
        (s.result? p).isSome = true ∨ deadline ≤ s.now) : Acts s .pollDrain s.shutDown
  | draining {future : WaitFuture} {deadline p : Nat} (hpc : s.pc = .draining future deadline)
      (hw : s.watched future = some p) (hr : s.result? p = none) :
      Acts s .pollDrain { s with slot := none, pc := .draining (.holding p) deadline }
  | signalled {ok : Bool} (hpc : s.pc = .exiting ok) :
      Acts s .sendExit { s with sent := s.sent ++ [ok], pc := .ended }
  | finished {p : Nat} {ok : Bool} (hlive : s.live p = true) :
      Acts s (.finish p ok) { s with finished := s.finished ++ [(p, ok)] }
  | requested : Acts s .request { s with requested := true }
  | senderDropped : Acts s .dropSender { s with senderDropped := true }
  | ticked {d : Nat} : Acts s (.tick d) { s with now := s.now + d }

/-- The inversion of a step; what the monitor does is a case split on this. -/
theorem step_acts {s t : Monitor} {l : MonitorLabel} (h : s.step l = some t) : s.Acts l t := by
  cases l with
  | pollWait =>
    simp only [step] at h
    split at h
    · next hpc =>
      split at h
      · next hw =>
        cases h
        exact .consumed hpc hw
      · next hw =>
        split at h
        · next hr =>
          cases h
          exact .pending hpc hw hr
        · next hr =>
          cases h
          exact .succeeded hpc hw hr
        · next hr =>
          cases h
          exact .failed hpc hw hr
    · cases h
  | pollShutdown =>
    simp only [step] at h
    split at h
    · next hpc =>
      split at h
      · next hr =>
        cases h
        exact .asked hpc hr
      · next hr =>
        split at h
        · next hd =>
          cases h
          exact .orphaned hpc (Bool.eq_false_iff.mpr hr) hd
        · cases h
    · cases h
  | reconnect outcome =>
    simp only [step] at h
    split at h
    · next hpc =>
      cases outcome with
      | ok =>
        cases h
        exact .reconnected hpc
      | buildFailed =>
        cases h
        exact .unbuilt hpc
      | startFailed =>
        cases h
        exact .unstarted hpc
    · cases h
  | wake =>
    simp only [step] at h
    split at h
    · next hpc =>
      split at h
      · next ht =>
        cases h
        exact .woken hpc ht
      · cases h
    · cases h
  | pollDrain =>
    simp only [step] at h
    split at h
    · next hpc =>
      split at h
      · next hw =>
        cases h
        exact .drained hpc fun p hp => by rw [hw] at hp; cases hp
      · next hw =>
        split at h
        · next hr =>
          cases h
          refine .drained hpc fun p hp => .inl ?_
          rw [hw] at hp
          cases hp
          rw [hr]
          rfl
        · next hr =>
          split at h
          · next ht =>
            cases h
            exact .drained hpc fun _ _ => .inr ht
          · cases h
            exact .draining hpc hw hr
    · cases h
  | sendExit =>
    simp only [step] at h
    split at h
    · next hpc =>
      cases h
      exact .signalled hpc
    · cases h
  | finish p ok =>
    simp only [step] at h
    split at h
    · next hlive =>
      cases h
      exact .finished hlive
    · cases h
  | request =>
    cases h
    exact .requested
  | dropSender =>
    cases h
    exact .senderDropped
  | tick d =>
    cases h
    exact .ticked

/-- The shutdown branch served the pipeline that was live when it was taken:
`shutdown()` was called on it, and the status is not `Exited` before it stopped or
30 seconds have passed. -/
def Served (s : Monitor) : Prop :=
  ∀ p, s.target = some p → p ∈ s.invoked ∧
    (s.status = .exited → (s.result? p).isSome = true ∨ s.takenAt + 30000 ≤ s.now)

/-- The shutdown branch is not taken while `wait()` holds a live pipeline. -/
def UnpolledAtShutdown (s : Monitor) (l : MonitorLabel) : Prop :=
  l = .pollShutdown → s.requested = true →
    ∀ p, s.pc = .selecting (.holding p) → s.live p = false

/-- Before the shutdown branch: nothing was signalled, and the task owns the
pipeline through the runner or through the pending future. -/
structure Watching (s : Monitor) : Prop where
  status : s.status = .running
  target : s.target = none
  invoked : s.invoked = []

def Inv (s : Monitor) : Prop :=
  match s.pc with
  | .selecting .fresh => s.Watching ∧ s.slot.isSome = true
  | .selecting (.holding _) => s.Watching ∧ s.slot = none
  | .reconnecting => s.Watching
  | .sleeping _ => s.Watching ∧ s.slot.isSome = true
  | .draining future deadline =>
    s.status = .running ∧ deadline = s.takenAt + 30000 ∧
      ∀ p, s.target = some p → s.watched future = some p ∧ p ∈ s.invoked
  | .exiting _ => s.Served
  | .ended => s.Served

theorem served_of_target {s : Monitor} (h : s.target = none) : s.Served := by
  intro p hp
  rw [h] at hp
  cases hp

theorem Watching.served {s : Monitor} (h : s.Watching) : s.Served := served_of_target h.target

theorem Inv.served {s : Monitor} (h : s.Inv) : s.Served := by
  unfold Inv at h
  cases hpc : s.pc with
  | selecting future =>
    rw [hpc] at h
    cases future with
    | fresh => exact h.1.served
    | holding p => exact h.1.served
  | reconnecting =>
    rw [hpc] at h
    exact h.served
  | sleeping t =>
    rw [hpc] at h
    exact h.1.served
  | draining future deadline =>
    rw [hpc] at h
    obtain ⟨hstatus, _, htarget⟩ := h
    intro p hp
    refine ⟨(htarget p hp).2, ?_⟩
    intro hexited
    rw [hstatus] at hexited
    cases hexited
  | exiting ok =>
    rw [hpc] at h
    exact h
  | ended =>
    rw [hpc] at h
    exact h

theorem result?_append {s : Monitor} {p : Nat} (h : (s.result? p).isSome = true)
    (more : List (Nat × Bool)) :
    (({ s with finished := s.finished ++ more } : Monitor).result? p).isSome = true := by
  unfold result? at h ⊢
  rw [List.find?_append]
  cases hf : s.finished.find? fun f => f.1 == p with
  | none =>
    rw [hf] at h
    cases h
  | some f => rfl

/-- What the environment's moves leave to the task. -/
structure Later (s t : Monitor) : Prop where
  pc : t.pc = s.pc
  slot : t.slot = s.slot
  status : t.status = s.status
  invoked : t.invoked = s.invoked
  target : t.target = s.target
  takenAt : t.takenAt = s.takenAt
  now : s.now ≤ t.now
  finished : ∀ p, (s.result? p).isSome = true → (t.result? p).isSome = true

theorem Served.later {s t : Monitor} (h : s.Served) (hl : Later s t) : t.Served := by
  intro p hp
  rw [hl.target] at hp
  obtain ⟨hinvoked, hwaited⟩ := h p hp
  rw [hl.invoked, hl.status, hl.takenAt]
  refine ⟨hinvoked, ?_⟩
  intro hexited
  rcases hwaited hexited with hstopped | htime
  · exact .inl (hl.finished p hstopped)
  · exact .inr (Nat.le_trans htime hl.now)

theorem Watching.later {s t : Monitor} (h : s.Watching) (hl : Later s t) : t.Watching :=
  ⟨hl.status.trans h.status, hl.target.trans h.target, hl.invoked.trans h.invoked⟩

theorem Inv.later {s t : Monitor} (h : s.Inv) (hl : Later s t) : t.Inv := by
  unfold Inv at h ⊢
  rw [hl.pc]
  cases hpc : s.pc with
  | selecting future =>
    rw [hpc] at h
    cases future with
    | fresh => exact ⟨h.1.later hl, hl.slot ▸ h.2⟩
    | holding p => exact ⟨h.1.later hl, hl.slot ▸ h.2⟩
  | reconnecting =>
    rw [hpc] at h
    exact Watching.later h hl
  | sleeping t =>
    rw [hpc] at h
    exact ⟨h.1.later hl, hl.slot ▸ h.2⟩
  | draining future deadline =>
    rw [hpc] at h
    obtain ⟨hstatus, hdeadline, htarget⟩ := h
    refine ⟨hl.status.trans hstatus, by rw [hl.takenAt]; exact hdeadline, ?_⟩
    intro p hp
    rw [hl.target] at hp
    rw [hl.invoked]
    have hwatched : t.watched future = s.watched future := by
      cases future with
      | fresh => exact hl.slot
      | holding q => rfl
    exact hwatched ▸ htarget p hp
  | exiting ok =>
    rw [hpc] at h
    exact Served.later h hl
  | ended =>
    rw [hpc] at h
    exact Served.later h hl

theorem start_inv : start.Inv := ⟨⟨rfl, rfl, rfl⟩, rfl⟩

theorem Inv.selecting {s : Monitor} (hs : s.Inv) {future : WaitFuture}
    (hpc : s.pc = .selecting future) : s.Watching := by
  unfold Inv at hs
  rw [hpc] at hs
  cases future with
  | fresh => exact hs.1
  | holding p => exact hs.1

theorem Inv.reconnecting {s : Monitor} (hs : s.Inv) (hpc : s.pc = .reconnecting) :
    s.Watching := by
  unfold Inv at hs
  rwa [hpc] at hs

theorem asked_inv {s : Monitor} (hs : s.Inv) {future : WaitFuture}
    (hpc : s.pc = .selecting future)
    (hunpolled : ∀ p, s.pc = .selecting (.holding p) → s.live p = false) :
    ({ s with
        requested := false
        target := (s.watched future).filter fun p => s.live p
        takenAt := s.now
        pc := .draining .fresh (s.now + 30000) } : Monitor).signalShutdown.Inv := by
  refine ⟨(hs.selecting hpc).status, rfl, ?_⟩
  intro p hp
  have hp : (s.watched future).filter (fun p => s.live p) = some p := hp
  obtain ⟨hwatched, hlive⟩ := Option.filter_eq_some_iff.mp hp
  cases future with
  | fresh =>
    have hslot : s.slot = some p := hwatched
    exact ⟨hslot, by simp [signalShutdown, hslot]⟩
  | holding q =>
    cases hwatched
    rw [hunpolled _ hpc] at hlive
    cases hlive

theorem step_inv {s t : Monitor} {l : MonitorLabel} (hs : s.Inv) (hl : s.UnpolledAtShutdown l)
    (h : s.step l = some t) : t.Inv := by
  cases step_acts h with
  | consumed hpc =>
    have hwatching := hs.selecting hpc
    exact ⟨hwatching.status, hwatching.target, hwatching.invoked⟩
  | pending hpc =>
    have hwatching := hs.selecting hpc
    exact ⟨⟨hwatching.status, hwatching.target, hwatching.invoked⟩, rfl⟩
  | succeeded hpc => exact served_of_target (hs.selecting hpc).target
  | failed hpc =>
    have hwatching := hs.selecting hpc
    exact ⟨hwatching.status, hwatching.target, hwatching.invoked⟩
  | asked hpc hr => exact asked_inv hs hpc (hl rfl hr)
  | orphaned hpc => exact served_of_target (hs.selecting hpc).target
  | reconnected hpc =>
    have hwatching := hs.reconnecting hpc
    exact ⟨⟨hwatching.status, hwatching.target, hwatching.invoked⟩, rfl⟩
  | unbuilt hpc => exact served_of_target (hs.reconnecting hpc).target
  | unstarted hpc => exact served_of_target (hs.reconnecting hpc).target
  | woken hpc =>
    unfold Inv at hs
    rw [hpc] at hs
    exact ⟨⟨hs.1.status, hs.1.target, hs.1.invoked⟩, hs.2⟩
  | drained hpc hover =>
    unfold Inv at hs
    rw [hpc] at hs
    obtain ⟨_, hdeadline, htarget⟩ := hs
    intro p hp
    obtain ⟨hwatched, hinvoked⟩ := htarget p hp
    refine ⟨hinvoked, fun _ => ?_⟩
    rw [hdeadline] at hover
    exact hover p hwatched
  | draining hpc hw =>
    unfold Inv at hs
    rw [hpc] at hs
    obtain ⟨hstatus, hdeadline, htarget⟩ := hs
    refine ⟨hstatus, hdeadline, ?_⟩
    intro p hp
    obtain ⟨hwatched, hinvoked⟩ := htarget p hp
    exact ⟨hw.symm.trans hwatched, hinvoked⟩
  | signalled => exact fun p hp => hs.served p hp
  | finished =>
    exact hs.later ⟨rfl, rfl, rfl, rfl, rfl, rfl, Nat.le_refl _, fun _ hp => result?_append hp _⟩
  | requested | senderDropped =>
    exact hs.later ⟨rfl, rfl, rfl, rfl, rfl, rfl, Nat.le_refl _, fun _ hp => hp⟩
  | ticked =>
    exact hs.later ⟨rfl, rfl, rfl, rfl, rfl, rfl, Nat.le_add_right _ _, fun _ hp => hp⟩

/-- Taking the shutdown branch while `wait()` holds a live pipeline loses it: it is
dropped with the future, and `shutdown()` is called on nothing. -/
theorem polled_not_served {s t : Monitor} {l : MonitorLabel} (hs : s.Inv)
    (hl : ¬ s.UnpolledAtShutdown l) (h : s.step l = some t) : ¬ t.Served := by
  unfold UnpolledAtShutdown at hl
  push Not at hl
  obtain ⟨rfl, hrequested, p, hpc, hlive⟩ := hl
  unfold Inv at hs
  rw [hpc] at hs
  obtain ⟨hwatching, hslot⟩ := hs
  simp only [step, hpc, hrequested, if_true, Option.some.injEq] at h
  subst h
  intro hserved
  have htarget : (s.watched (.holding p)).filter (fun q => s.live q) = some p :=
    Option.filter_eq_some_iff.mpr ⟨rfl, by simpa using hlive⟩
  obtain ⟨hinvoked, _⟩ := hserved p htarget
  simp [signalShutdown, hslot, hwatching.invoked] at hinvoked

/-- In a run of the monitor task the shutdown request is served in every state
exactly when the shutdown branch is never taken while `wait()` has been polled and
holds a live pipeline. -/
theorem shutdown_served_iff {ls : List MonitorLabel} {s : Monitor}
    (h : monitorMachine.run start ls = some s) :
    monitorMachine.Throughout Served start ls ↔
      monitorMachine.Along UnpolledAtShutdown start ls :=
  Machine.throughout_iff_along (M := monitorMachine) (fun hs hl hstep => step_inv hs hl hstep)
    (fun hs => hs.served) (fun hs hl hstep => polled_not_served hs hl hstep) start_inv h

/-- The ordinary order: `wait()` is polled, then Ctrl+C arrives. -/
def polledThenShutdown : List MonitorLabel := [.pollWait, .request, .pollShutdown, .pollDrain]

theorem shutdown_misses_polled_pipeline :
    ∃ s, monitorMachine.run start polledThenShutdown = some s ∧ s.target = some 0 ∧
      s.live 0 = true ∧ 0 ∉ s.invoked ∧ s.status = .exited ∧ s.now = s.takenAt := by
  refine ⟨_, rfl, rfl, rfl, ?_, rfl, rfl⟩
  decide

theorem shutdown_served_iff_unpolled :
    monitorMachine.Throughout Served start
        [.request, .pollShutdown, .pollDrain, .finish 0 true, .pollDrain, .sendExit] ↔
      monitorMachine.Along UnpolledAtShutdown start
        [.request, .pollShutdown, .pollDrain, .finish 0 true, .pollDrain, .sendExit] :=
  shutdown_served_iff rfl

end Monitor
end PgSense
