import PgSense.Library.Desk
import PgSense.Commands.History
import PgSense.Library.Observing

/-! What the scanner is for: it is a desk that decides on the findings of several
databases. Where the tasks wait and how they interleave, what the deduplicator forgets
and when a reload falls is not to be seen from there. -/

namespace PgSense
open Library Library.Window
set_option autoImplicit false

/-- The positions, from `i` on, of the channels that a finding is routed to. -/
def routesFrom (channels : List NamedChannel) (finding : Finding) (i : Nat) : List Nat :=
  (List.range' i (channels.length - i)).filter fun k =>
    (channels[k]?).any fun nc => nc.routed finding.channels

/-- The scanner as a desk: a batch is examined under an engine, findings are told apart by
their deduplication keys, and the sinks are the positions of the channels. -/
def alerting (cr : Crates) (channels : List NamedChannel) (window : Nat) :
    Desk (List ScanEvent) RuleEngine Finding UInt64 Nat where
  examine engine events := events.flatMap (scan cr engine)
  key := dedupKey cr
  window := window
  routes finding := routedChannels channels finding

section Routes
variable {channels : List NamedChannel} {finding : Finding} {i : Nat}

theorem routesFrom_zero : routesFrom channels finding 0 = routedChannels channels finding := by
  rw [routesFrom, Nat.sub_zero, ← List.range_eq_range']
  rfl

theorem routesFrom_end (h : channels[i]? = none) : routesFrom channels finding i = [] := by
  rw [routesFrom, Nat.sub_eq_zero_of_le (List.getElem?_eq_none_iff.mp h)]
  rfl

theorem routesFrom_visit {nc : NamedChannel} (h : channels[i]? = some nc) :
    routesFrom channels finding i =
      if nc.routed finding.channels then i :: routesFrom channels finding (i + 1)
      else routesFrom channels finding (i + 1) := by
  obtain ⟨hlt, _⟩ := List.getElem?_eq_some_iff.mp h
  obtain ⟨n, hn⟩ := Nat.exists_eq_add_of_lt hlt
  have hlength : channels.length - i = n + 1 := by omega
  have hrest : channels.length - (i + 1) = n := by omega
  rw [routesFrom, routesFrom, hlength, hrest, List.range'_succ, List.filter_cons, h,
    Option.any_some]

end Routes

namespace DatabaseUnit
variable (cr : Crates)

/-- The findings of the batch in work that are still to be decided on. -/
def toDecide : LoopPc → List Finding
  | .idle => []
  | .scanning _ engine rest => rest.flatMap (scan cr engine)
  | .dispatching _ engine rest finding later pc =>
    (if pc = .asking then finding :: later else later) ++ rest.flatMap (scan cr engine)

/-- The channels that a call of `dispatch` still has to send to. -/
def callRoutes (channels : List NamedChannel) (finding : Finding) : DispatchPc → List Nat
  | .asking => []
  | .visiting i => routesFrom channels finding i
  | .sending i => i :: routesFrom channels finding (i + 1)
  | .flushing i => routesFrom channels finding (i + 1)
  | .posting i => routesFrom channels finding (i + 1)

def toDeliver (channels : List NamedChannel) : LoopPc → List (Finding × Nat)
  | .dispatching _ _ _ finding _ pc => (callRoutes channels finding pc).map fun i => (finding, i)
  | _ => []

variable {cr} {channels : List NamedChannel} {u v : DatabaseUnit} {sh sh' : Shared} {l : LoopLabel}

theorem toDeliver_returned (batch : Batch) (engine : RuleEngine) (rest : List ScanEvent)
    (finding : Finding) (later : List Finding) :
    toDeliver channels (u.returned batch engine rest finding later).loop = [] := by
  cases later <;> rfl

theorem toDecide_returned (batch : Batch) (engine : RuleEngine) (rest : List ScanEvent)
    (finding : Finding) (later : List Finding) :
    toDecide cr (u.returned batch engine rest finding later).loop =
      later ++ rest.flatMap (scan cr engine) := by
  cases later <;> rfl

/-- What a decision of the loop does. -/
theorem ask_decides {sweepNow now : Nat}
    (h : u.loopStep cr channels sh (.ask sweepNow now) = some (v, sh')) :
    ∃ batch engine rest finding later,
      u.loop = .dispatching batch engine rest finding later .asking ∧
      v.taken = u.taken ∧ v.queue = u.queue ∧
      toDecide cr v.loop = later ++ rest.flatMap (scan cr engine) ∧
      toDeliver channels v.loop = (alerting cr channels sh.dedup.window).dispatch
        (sh.dedup.shouldAlert cr finding sweepNow now).1 finding ∧
      sh' = { sh with dedup := (sh.dedup.shouldAlert cr finding sweepNow now).2 } := by
  cases loopStep_acts h with
  | passed hl hanswer =>
    refine ⟨_, _, _, _, _, hl, taken_dispatchAt _ hl, rfl, rfl, ?_, rfl⟩
    simp only [dispatchAt, toDeliver, callRoutes, routesFrom_zero, hanswer]
    rfl
  | suppressed hl hanswer =>
    refine ⟨_, _, _, _, _, hl, taken_returned hl, rfl, toDecide_returned .., ?_, rfl⟩
    rw [toDeliver_returned, hanswer]
    rfl

/-- What a send does: it works off the next channel of the call. -/
theorem send_delivers {now : Nat} (h : u.loopStep cr channels sh (.send now) = some (v, sh')) :
    ∃ batch engine rest finding later i,
      u.loop = .dispatching batch engine rest finding later (.sending i) ∧
      v.taken = u.taken ∧ v.queue = u.queue ∧ toDecide cr v.loop = toDecide cr u.loop ∧
      toDeliver channels u.loop = (finding, i) :: toDeliver channels v.loop ∧
      sh'.dedup = sh.dedup := by
  cases loopStep_acts h with
  | delivered hl | buffered hl | filled hl =>
    refine ⟨_, _, _, _, _, _, hl, taken_dispatchAt _ hl, rfl, ?_, ?_, rfl⟩
    · rw [hl]
      rfl
    · rw [hl]
      rfl

/-- A step that decides and sends nothing, seen from the desk: it takes the next batch, or
it is not seen at all. -/
inductive Unseen (cr : Crates) (channels : List NamedChannel) (u : DatabaseUnit)
    (engine : RuleEngine) : DatabaseUnit → Prop
  | taken (batch : Batch) (queue : List Batch) (hl : u.loop = .idle)
      (hq : u.queue = batch :: queue) :
      Unseen cr channels u engine { u with queue, loop := .scanning batch engine batch.events }
  | same (v : DatabaseUnit) (htaken : v.taken = u.taken) (hqueue : v.queue = u.queue)
      (hdecide : toDecide cr v.loop = toDecide cr u.loop)
      (hdeliver : toDeliver channels v.loop = toDeliver channels u.loop) :
      Unseen cr channels u engine v

theorem Unseen.within {engine : RuleEngine} {batch : Batch} {working : RuleEngine}
    {rest : List ScanEvent} {finding : Finding} {later : List Finding} {pc pc' : DispatchPc}
    (hl : u.loop = .dispatching batch working rest finding later pc) (hpc : pc ≠ .asking)
    (hpc' : pc' ≠ .asking)
    (hroutes : callRoutes channels finding pc' = callRoutes channels finding pc) :
    Unseen cr channels u engine (u.dispatchAt batch working rest finding later pc') := by
  apply Unseen.same _ (taken_dispatchAt pc' hl) rfl
  · rw [hl]
    simp only [dispatchAt, toDecide, if_neg hpc, if_neg hpc']
  · rw [hl]
    simp only [dispatchAt, toDeliver, hroutes]

theorem Unseen.returned {engine : RuleEngine} {batch : Batch} {working : RuleEngine}
    {rest : List ScanEvent} {finding : Finding} {later : List Finding} {pc : DispatchPc}
    (hl : u.loop = .dispatching batch working rest finding later pc) (hpc : pc ≠ .asking)
    (hroutes : callRoutes channels finding pc = []) :
    Unseen cr channels u engine (u.returned batch working rest finding later) := by
  apply Unseen.same _ (taken_returned hl) rfl
  · rw [toDecide_returned, hl]
    simp only [toDecide, if_neg hpc]
  · rw [toDeliver_returned, hl]
    simp only [toDeliver, hroutes, List.map_nil]

theorem loopStep_unseen (hask : ∀ sweepNow now, l ≠ .ask sweepNow now)
    (hsend : ∀ now, l ≠ .send now) (h : u.loopStep cr channels sh l = some (v, sh')) :
    Unseen cr channels u sh.engine v ∧ sh'.dedup = sh.dedup := by
  cases loopStep_acts h with
  | received hl hq => exact ⟨.taken _ _ hl hq, rfl⟩
  | completed hl =>
    refine ⟨.same _ ?_ rfl ?_ ?_, rfl⟩
    · simp [taken, working, hl]
    · simp [toDecide, hl]
    · simp [toDeliver, hl]
  | nothingFound hl hs =>
    refine ⟨.same _ ?_ rfl ?_ ?_, rfl⟩
    · simp [taken, working, hl]
    · simp [toDecide, hl, hs]
    · simp [toDeliver, hl]
  | found hl hs =>
    refine ⟨.same _ ?_ rfl ?_ ?_, rfl⟩
    · simp [taken, working, hl, dispatchAt]
    · simp [toDecide, hl, hs, dispatchAt]
    · simp [toDeliver, callRoutes, hl, dispatchAt]
  | passed => exact absurd rfl (hask _ _)
  | suppressed => exact absurd rfl (hask _ _)
  | finished hl hi => exact ⟨.returned hl (by simp) (routesFrom_end hi), rfl⟩
  | @routed _ _ _ finding _ i _ hl hi hrouted =>
    have hroutes : routesFrom channels finding i = _ := routesFrom_visit hi
    rw [if_pos hrouted] at hroutes
    exact ⟨.within hl (by simp) (by simp) hroutes.symm, rfl⟩
  | @skipped _ _ _ finding _ i _ hl hi hrouted =>
    have hroutes : routesFrom channels finding i = _ := routesFrom_visit hi
    rw [if_neg (Bool.eq_false_iff.mp hrouted)] at hroutes
    exact ⟨.within hl (by simp) (by simp) hroutes.symm, rfl⟩
  | delivered | buffered | filled => exact absurd rfl (hsend _)
  | drained hl | emptied hl | posted hl => exact ⟨.within hl (by simp) (by simp) rfl, rfl⟩

end DatabaseUnit

/-- The clock readings of a step for the deduplicator. -/
def ScanLabel.readings : ScanLabel → List Nat
  | .loop _ (.ask sweepNow now) => [sweepNow, now]
  | _ => []

/-- What was decided and what was sent, the latest first. -/
structure Journal where
  decisions : List (Decision Finding)
  deliveries : List (Delivery Finding Nat)

def Journal.empty : Journal := ⟨[], []⟩

namespace ScanState

section Journal
variable (cr : Crates)

/-- The decision that a step makes about a finding, if any. -/
def decision (s : ScanState) : ScanLabel → Option (Decision Finding)
  | .loop u (.ask sweepNow now) =>
    match (s.units[u]?).map DatabaseUnit.loop with
    | some (.dispatching _ _ _ finding _ .asking) =>
      some ⟨u, finding, now, (s.shared.dedup.shouldAlert cr finding sweepNow now).1⟩
    | _ => none
  | _ => none

/-- The channel that a step sends a finding to, if any. -/
def delivery (s : ScanState) : ScanLabel → Option (Delivery Finding Nat)
  | .loop u (.send _) =>
    match (s.units[u]?).map DatabaseUnit.loop with
    | some (.dispatching _ _ _ finding _ (.sending i)) => some ⟨u, finding, i⟩
    | _ => none
  | _ => none

def journal (j : Journal) (s : ScanState) (l : ScanLabel) (_ : ScanState) : Journal where
  decisions := (s.decision cr l).toList ++ j.decisions
  deliveries := (s.delivery l).toList ++ j.deliveries

/-- The latest clock reading of a decision. -/
def clock (decisions : List (Decision Finding)) : Nat := (decisions.head?).elim 0 Decision.time

/-- The clock does not run backwards from the decisions so far to the next one. -/
def Clocked (s : ScanState × Journal) (l : ScanLabel) : Prop :=
  ∀ u sweepNow now, l = .loop u (.ask sweepNow now) →
    clock s.2.decisions ≤ sweepNow ∧ sweepNow ≤ now

end Journal

end ScanState

/-- The scanner with a journal. -/
def journalMachine (cr : Crates) (channels : List NamedChannel) :
    Machine (ScanState × Journal) ScanLabel :=
  (scanMachine cr channels).observed id (ScanState.journal cr)

namespace ScanState

section Steps
variable {cr : Crates} {channels : List NamedChannel} {s t : ScanState} {l : ScanLabel}

theorem decision_eq_none (hl : ∀ u sweepNow now, l ≠ .loop u (.ask sweepNow now)) :
    s.decision cr l = none := by
  cases l with
  | loop u ll =>
    cases ll with
    | ask sweepNow now => exact absurd rfl (hl u sweepNow now)
    | _ => rfl
  | _ => rfl

theorem delivery_eq_none (hl : ∀ u now, l ≠ .loop u (.send now)) : s.delivery l = none := by
  cases l with
  | loop u ll =>
    cases ll with
    | send now => exact absurd rfl (hl u now)
    | _ => rfl
  | _ => rfl

/-- Apart from the loops no task asks the deduplicator. -/
theorem step_dedup (hl : ∀ u ll, l ≠ .loop u ll) (h : s.step cr channels l = some t) :
    t.shared.dedup = s.shared.dedup := by
  cases step_acts h with
  | looped => exact absurd rfl (hl _ _)
  | flushed => exact (stepFlush_dedup _ _).2
  | monitored | signalled | written | timed | received | reloading | reloaded | interrupted
    | posted => rfl

/-- The state of the desk. -/
abbrev AlertingState := DeskState (List ScanEvent) RuleEngine Finding Nat

/-- What the desk shows of a unit. -/
structure UnitShown (cr : Crates) (channels : List NamedChannel) (a : AlertingState) (u : Nat)
    (unit : DatabaseUnit) : Prop where
  taken : a.taken u = unit.taken.map fun b => (b.2, b.1.events)
  queued : a.queued u = unit.queue.map Batch.events
  pending : a.pending u = DatabaseUnit.toDecide cr unit.loop
  outgoing : a.outgoing u = DatabaseUnit.toDeliver channels unit.loop

/-- What the desk shows of the scanner: its rules, its units and its journal, and that the
deduplicator answers as the journal does. -/
structure Shown (cr : Crates) (channels : List NamedChannel) (window : Nat)
    (s : ScanState × Journal) (a : AlertingState) : Prop where
  rules : a.rules = s.1.shared.engine
  decisions : a.decisions = s.2.decisions
  deliveries : a.deliveries = s.2.deliveries
  units : ∀ u unit, s.1.units[u]? = some unit → UnitShown cr channels a u unit
  sameWindow : s.1.shared.dedup.window = window
  remembers : Remembers window s.1.shared.dedup.memory
    ((alerting cr channels window).passed s.2.decisions) (clock s.2.decisions)

variable {window : Nat} {j : Journal} {a b : AlertingState}

theorem start_shown (cr : Crates) (channels : List NamedChannel) (engine : RuleEngine) (window : Nat)
    (databases : List (String × ScanFilter)) :
    Shown cr channels window (start engine window databases, .empty) (.start engine) := by
  refine ⟨rfl, rfl, rfl, ?_, rfl, Deduplicator.new_remembers window 0⟩
  intro u unit hu
  obtain ⟨db, _, rfl⟩ := List.mem_map.mp (List.mem_of_getElem? hu)
  exact ⟨rfl, rfl, rfl, rfl⟩

/-- The units after one of them has moved. -/
theorem UnitShown.set {k : Nat} {v : DatabaseUnit}
    (hs : ∀ u unit, s.units[u]? = some unit → UnitShown cr channels a u unit)
    (hk : UnitShown cr channels b k v) (hother : ∀ u ≠ k, b.taken u = a.taken u ∧
      b.queued u = a.queued u ∧ b.pending u = a.pending u ∧ b.outgoing u = a.outgoing u) :
    ∀ u unit, (s.setUnit k v).units[u]? = some unit → UnitShown cr channels b u unit := by
  intro u unit hu
  change (s.units.set k v)[u]? = some unit at hu
  by_cases hsame : u = k
  · subst hsame
    obtain ⟨hlt, _⟩ := List.getElem?_eq_some_iff.mp hu
    rw [List.length_set] at hlt
    rw [List.getElem?_set_self hlt] at hu
    cases hu
    exact hk
  · rw [List.getElem?_set_ne (Ne.symm hsame)] at hu
    obtain ⟨htaken, hqueued, hpending, houtgoing⟩ := hother u hsame
    have hshown := hs u unit hu
    exact ⟨htaken.trans hshown.taken, hqueued.trans hshown.queued,
      hpending.trans hshown.pending, houtgoing.trans hshown.outgoing⟩

theorem Shown.write (hs : Shown cr channels window (s, j) a) {k : Nat}
    {wl : DatabaseUnit.WriteLabel} (h : s.step cr channels (.write k wl) = some t) :
    ∃ acts b, (alerting cr channels window).machine.run a acts = some b ∧
      Shown cr channels window (t, j) b := by
  obtain ⟨unit, v, hk, hv, rfl⟩ := step_write h
  obtain ⟨hloop, hdone, _, hqueue⟩ := DatabaseUnit.writeStep_queue hv
  have hshown := hs.units k unit hk
  have htaken : v.taken = unit.taken := by rw [DatabaseUnit.taken, DatabaseUnit.taken, hdone, hloop]
  have hpending : a.pending k = DatabaseUnit.toDecide cr v.loop := by rw [hloop, hshown.pending]
  have houtgoing : a.outgoing k = DatabaseUnit.toDeliver channels v.loop := by
    rw [hloop, hshown.outgoing]
  rcases hqueue with ⟨hqueue, _⟩ | ⟨w, _, events, _, hqueue, _⟩
  · refine ⟨[], a, rfl, hs.rules, hs.decisions, hs.deliveries, ?_, hs.sameWindow, hs.remembers⟩
    apply UnitShown.set hs.units ⟨?_, ?_, hpending, houtgoing⟩ fun u _ => ⟨rfl, rfl, rfl, rfl⟩
    · rw [htaken, hshown.taken]
    · rw [hqueue, hshown.queued]
  · refine ⟨[.accept k events], _, rfl, hs.rules, hs.decisions, hs.deliveries, ?_, hs.sameWindow,
      hs.remembers⟩
    refine UnitShown.set hs.units ⟨?_, ?_, hpending, houtgoing⟩ ?_
    · rw [htaken, ← hshown.taken]
    · dsimp only
      rw [Function.update_self, hqueue, hshown.queued, List.map_append]
      rfl
    · intro u hu
      exact ⟨rfl, Function.update_of_ne hu .., rfl, rfl⟩

theorem Shown.loop (hs : Shown cr channels window (s, j) a) {k : Nat} {ll : DatabaseUnit.LoopLabel}
    (hask : ∀ sweepNow now, ll ≠ .ask sweepNow now) (hsend : ∀ now, ll ≠ .send now)
    (h : s.step cr channels (.loop k ll) = some t) :
    ∃ acts b, (alerting cr channels window).machine.run a acts = some b ∧
      Shown cr channels window (t, j) b := by
  obtain ⟨unit, v, sh, hk, hv, rfl⟩ := step_loop h
  obtain ⟨hunseen, hdedup⟩ := DatabaseUnit.loopStep_unseen hask hsend hv
  have hshown := hs.units k unit hk
  have hrules : a.rules = sh.engine := by rw [loopStep_engine hv, hs.rules]
  have hwindow : sh.dedup.window = window := by
    rw [hdedup]
    exact hs.sameWindow
  have hremembers : Remembers window sh.dedup.memory
      ((alerting cr channels window).passed j.decisions) (clock j.decisions) := by
    rw [hdedup]
    exact hs.remembers
  cases hunseen with
  | same _ htaken hqueue hdecide hdeliver =>
    refine ⟨[], a, rfl, hrules, hs.decisions, hs.deliveries, ?_, hwindow, hremembers⟩
    apply UnitShown.set hs.units ⟨?_, ?_, ?_, ?_⟩ fun u _ => ⟨rfl, rfl, rfl, rfl⟩
    · rw [htaken, hshown.taken]
    · rw [hqueue, hshown.queued]
    · rw [hdecide, hshown.pending]
    · rw [hdeliver, hshown.outgoing]
  | taken batch queue hl hq =>
    have hpending : a.pending k = [] := by
      rw [hshown.pending, hl]
      rfl
    have hqueued : a.queued k = batch.events :: queue.map Batch.events := by
      rw [hshown.queued, hq]
      rfl
    refine ⟨[.take k], _, (alerting cr channels window).run_take hpending hqueued, hrules,
      hs.decisions, hs.deliveries, ?_, hwindow, hremembers⟩
    refine UnitShown.set hs.units ⟨?_, ?_, ?_, ?_⟩ ?_
    · dsimp only
      rw [Function.update_self, hshown.taken, hs.rules]
      simp [DatabaseUnit.taken, DatabaseUnit.working, hl]
    · exact Function.update_self ..
    · dsimp only
      rw [Function.update_self, hs.rules]
      rfl
    · rw [hshown.outgoing, hl]
      rfl
    · intro u hu
      exact ⟨Function.update_of_ne hu .., Function.update_of_ne hu .., Function.update_of_ne hu ..,
        rfl⟩

/-- The deduplicator answers what the desk would: what it has forgotten does not show. -/
theorem Shown.ask (hs : Shown cr channels window (s, j) a) {k sweepNow now : Nat}
    (hclock : clock j.decisions ≤ sweepNow ∧ sweepNow ≤ now)
    (h : s.step cr channels (.loop k (.ask sweepNow now)) = some t) :
    ∃ acts b, (alerting cr channels window).machine.run a acts = some b ∧
      Shown cr channels window (t, journal cr j s (.loop k (.ask sweepNow now)) t) b := by
  obtain ⟨unit, v, sh, hk, hv, rfl⟩ := step_loop h
  obtain ⟨batch, engine, rest, finding, later, hl, htaken, hqueue, hdecide, hdeliver, rfl⟩ :=
    DatabaseUnit.ask_decides hv
  have hshown := hs.units k unit hk
  have hpending : a.pending k = finding :: (later ++ rest.flatMap (scan cr engine)) := by
    rw [hshown.pending, hl]
    rfl
  have houtgoing : a.outgoing k = [] := by
    rw [hshown.outgoing, hl]
    rfl
  have hdecision : s.decision cr (.loop k (.ask sweepNow now)) =
      some ⟨k, finding, now, (s.shared.dedup.shouldAlert cr finding sweepNow now).1⟩ := by
    simp only [decision, hk, Option.map_some, hl]
  have hwindow : s.shared.dedup.window = window := hs.sameWindow
  have hremembers := hs.remembers
  dsimp only at hremembers
  rw [← hwindow] at hremembers
  obtain ⟨answer, dedup, heq, hsame, hanswer, hnext⟩ :=
    Deduplicator.shouldAlert_spec cr hremembers finding hclock.1 hclock.2
  rw [hwindow] at hanswer hnext
  have hpassed : answer = !(alerting cr channels window).suppressed a.decisions finding now := by
    rw [Bool.eq_iff_iff, hanswer, Bool.not_eq_true', ← Bool.not_eq_true, Desk.suppressed_iff,
      hs.decisions]
    rfl
  rw [heq] at hdecision hdeliver
  simp only [journal, hdecision, heq]
  refine ⟨[.decide k now], _, (alerting cr channels window).run_decide hpending hpassed, hs.rules,
    congrArg _ hs.decisions, hs.deliveries, ?_, hsame.trans hwindow, ?_⟩
  · refine UnitShown.set hs.units ⟨?_, ?_, ?_, ?_⟩ ?_
    · rw [htaken, ← hshown.taken]
    · rw [hqueue, ← hshown.queued]
    · rw [hdecide]
      exact Function.update_self ..
    · dsimp only
      rw [hdeliver, Function.update_self, houtgoing, List.nil_append]
      rfl
    · intro u hu
      exact ⟨rfl, rfl, Function.update_of_ne hu .., Function.update_of_ne hu ..⟩
  · show Remembers window dedup.memory
      ((alerting cr channels window).passed (⟨k, finding, now, answer⟩ :: j.decisions)) now
    rw [Desk.passed_cons]
    exact hnext

theorem Shown.send (hs : Shown cr channels window (s, j) a) {k now : Nat}
    (h : s.step cr channels (.loop k (.send now)) = some t) :
    ∃ acts b, (alerting cr channels window).machine.run a acts = some b ∧
      Shown cr channels window (t, journal cr j s (.loop k (.send now)) t) b := by
  obtain ⟨unit, v, sh, hk, hv, rfl⟩ := step_loop h
  obtain ⟨batch, engine, rest, finding, later, i, hl, htaken, hqueue, hdecide, hdeliver, hdedup⟩ :=
    DatabaseUnit.send_delivers hv
  have hshown := hs.units k unit hk
  have houtgoing : a.outgoing k = (finding, i) :: DatabaseUnit.toDeliver channels v.loop := by
    rw [hshown.outgoing, hdeliver]
  have hdelivery : s.delivery (.loop k (.send now)) = some ⟨k, finding, i⟩ := by
    simp only [delivery, hk, Option.map_some, hl]
  have hrules : a.rules = sh.engine := by rw [loopStep_engine hv, hs.rules]
  simp only [journal, hdelivery]
  refine ⟨[.deliver k], _, (alerting cr channels window).run_deliver houtgoing, hrules,
    hs.decisions, congrArg _ hs.deliveries, ?_, ?_, ?_⟩
  · refine UnitShown.set hs.units ⟨?_, ?_, ?_, ?_⟩ ?_
    · rw [htaken, ← hshown.taken]
    · rw [hqueue, ← hshown.queued]
    · rw [hdecide, ← hshown.pending]
    · exact Function.update_self ..
    · intro u hu
      exact ⟨rfl, rfl, rfl, Function.update_of_ne hu ..⟩
  · dsimp only
    rw [hdedup]
    exact hs.sameWindow
  · dsimp only
    rw [hdedup]
    exact hs.remembers

/-- The other tasks touch what the desk shows only where a reload publishes its rules. -/
theorem Shown.other (hs : Shown cr channels window (s, j) a) (hwrite : ∀ u wl, l ≠ .write u wl)
    (hloop : ∀ u ll, l ≠ .loop u ll) (h : s.step cr channels l = some t) :
    ∃ acts b, (alerting cr channels window).machine.run a acts = some b ∧
      Shown cr channels window (t, j) b := by
  have hdedup := step_dedup hloop h
  have hengine := step_engine h
  have hunits : ∀ u v, t.units[u]? = some v → UnitShown cr channels a u v := by
    refine step_forall (Q := UnitShown cr channels a) hs.units ?_ h
    intro u unit v hshown hmoves
    cases hmoves with
    | keep => exact hshown
    | monitor m => exact ⟨hshown.taken, hshown.queued, hshown.pending, hshown.outgoing⟩
    | write hl _ => exact absurd hl (hwrite _ _)
    | loop hl _ => exact absurd hl (hloop _ _)
  have hwindow : t.shared.dedup.window = window := by
    rw [hdedup]
    exact hs.sameWindow
  have hremembers : Remembers window t.shared.dedup.memory
      ((alerting cr channels window).passed j.decisions) (clock j.decisions) := by
    rw [hdedup]
    exact hs.remembers
  cases hpublished : l.published with
  | none =>
    rw [hpublished, Option.getD_none] at hengine
    exact ⟨[], a, rfl, hs.rules.trans hengine.symm, hs.decisions, hs.deliveries, hunits, hwindow,
      hremembers⟩
  | some engine =>
    rw [hpublished, Option.getD_some] at hengine
    refine ⟨[.publish engine], _, rfl, hengine.symm, hs.decisions, hs.deliveries, ?_, hwindow,
      hremembers⟩
    intro u v hv
    have hshown := hunits u v hv
    exact ⟨hshown.taken, hshown.queued, hshown.pending, hshown.outgoing⟩

theorem step_shown {s t : ScanState × Journal} (hs : Shown cr channels window s a)
    (hclock : Clocked s l) (h : (journalMachine cr channels).step s l = some t) :
    ∃ acts b, (alerting cr channels window).machine.run a acts = some b ∧
      Shown cr channels window t b := by
  obtain ⟨s, j⟩ := s
  obtain ⟨t, j'⟩ := t
  obtain ⟨hstep, hjournal⟩ := (Machine.observed_eq_some ..).mp h
  change s.step cr channels l = some t at hstep
  change j' = journal cr j s l t at hjournal
  subst hjournal
  by_cases hask : ∃ u sweepNow now, l = .loop u (.ask sweepNow now)
  · obtain ⟨u, sweepNow, now, rfl⟩ := hask
    exact hs.ask (hclock u sweepNow now rfl) hstep
  · by_cases hsend : ∃ u now, l = .loop u (.send now)
    · obtain ⟨u, now, rfl⟩ := hsend
      exact hs.send hstep
    · simp only [not_exists] at hask hsend
      have hsame : journal cr j s l t = j := by
        rw [journal, decision_eq_none hask, delivery_eq_none hsend]
        rfl
      rw [hsame]
      by_cases hwrite : ∃ u wl, l = .write u wl
      · obtain ⟨u, wl, rfl⟩ := hwrite
        exact hs.write hstep
      · by_cases hloop : ∃ u ll, l = .loop u ll
        · obtain ⟨u, ll, rfl⟩ := hloop
          apply hs.loop ?_ ?_ hstep
          · rintro sweepNow now rfl
            exact hask u sweepNow now rfl
          · rintro now rfl
            exact hsend u now rfl
        · simp only [not_exists] at hwrite hloop
          exact hs.other hwrite hloop hstep

theorem decision_time {d : Decision Finding} (h : s.decision cr l = some d) :
    d.time ∈ l.readings := by
  cases l with
  | loop u ll =>
    cases ll with
    | ask sweepNow now =>
      simp only [decision] at h
      split at h
      · cases h
        exact List.mem_cons_of_mem _ List.mem_cons_self
      · cases h
    | _ => cases h
  | _ => cases h

/-- Ordered readings order the decisions of every run. -/
theorem along_clocked {ls : List ScanLabel} {s : ScanState × Journal}
    (hclock : (ls.flatMap ScanLabel.readings).Pairwise (· ≤ ·))
    (hs : ∀ r ∈ ls.flatMap ScanLabel.readings, clock s.2.decisions ≤ r) :
    (journalMachine cr channels).Along Clocked s ls := by
  induction ls generalizing s with
  | nil => trivial
  | cons l ls ih =>
    rw [List.flatMap_cons] at hclock hs
    obtain ⟨hown, hrest, hacross⟩ := List.pairwise_append.mp hclock
    constructor
    · rintro u sweepNow now rfl
      refine ⟨hs _ (List.mem_append_left _ List.mem_cons_self), ?_⟩
      exact List.rel_of_pairwise_cons hown List.mem_cons_self
    · intro t ht
      apply ih hrest
      intro r hr
      obtain ⟨_, hjournal⟩ := (Machine.observed_eq_some ..).mp ht
      rw [hjournal, journal]
      cases hd : s.1.decision cr l with
      | none => exact hs r (List.mem_append_right _ hr)
      | some d => exact hacross _ (decision_time hd) r hr

end Steps

section Runs
variable (cr : Crates) (channels : List NamedChannel) (engine : RuleEngine) (window : Nat)
variable (databases : List (String × ScanFilter)) {ls : List ScanLabel}

theorem run_shown {t : ScanState × Journal}
    (hclock : (ls.flatMap ScanLabel.readings).Pairwise (· ≤ ·))
    (h : (journalMachine cr channels).run (start engine window databases, .empty) ls = some t) :
    ∃ acts a, (alerting cr channels window).machine.run (.start engine) acts = some a ∧
      Shown cr channels window t a := by
  apply Machine.run_simulated (fun hs hl hstep => step_shown hs hl hstep)
    (start_shown cr channels engine window databases) ?_ h
  exact along_clocked hclock fun _ _ => Nat.zero_le _

variable {t : ScanState} {j : Journal}

theorem run_of_journal
    (h : (journalMachine cr channels).run (start engine window databases, .empty) ls =
      some (t, j)) :
    (scanMachine cr channels).run (start engine window databases) ls = some t := by
  have hrun := Machine.run_of_observed h
  rwa [List.map_id] at hrun

/-- Every run can be taken with a journal. -/
theorem exists_journal
    (h : (scanMachine cr channels).run (start engine window databases) ls = some t) :
    ∃ j, (journalMachine cr channels).run (start engine window databases, .empty) ls =
      some (t, j) := by
  apply Machine.exists_observed
  rwa [List.map_id]

/-- What the journal of a run says: each decision is right in view of those before it, and
each unit has decided on what it has taken and sent what has passed. -/
theorem journal_sound (hclock : (ls.flatMap ScanLabel.readings).Pairwise (· ≤ ·))
    (h : (journalMachine cr channels).run (start engine window databases, .empty) ls =
      some (t, j)) :
    (alerting cr channels window).Justified j.decisions ∧
    ∀ u unit, t.units[u]? = some unit →
      Desk.decidedOf j.decisions u ++ DatabaseUnit.toDecide cr unit.loop =
        (unit.taken.flatMap fun b => b.1.events.flatMap (scan cr b.2)) ∧
      Desk.deliveredOf j.deliveries u ++ DatabaseUnit.toDeliver channels unit.loop =
        (Desk.decidedOf (j.decisions.filter Decision.passed) u).flatMap fun finding =>
          (routedChannels channels finding).map fun i => (finding, i) := by
  obtain ⟨acts, a, hrun, hshown⟩ := run_shown cr channels engine window databases hclock h
  have hsound := Desk.run_sound (Desk.start_sound engine) hrun
  have hdecisions : a.decisions = j.decisions := hshown.decisions
  have hdeliveries : a.deliveries = j.deliveries := hshown.deliveries
  rw [← hdecisions, ← hdeliveries]
  refine ⟨hsound.justified, ?_⟩
  intro u unit hu
  have hunit := hshown.units u unit hu
  constructor
  · have hdecided := hsound.decided u
    rw [hunit.pending, hunit.taken, List.flatMap_map] at hdecided
    exact hdecided
  · have hdelivered := hsound.delivered u
    rw [hunit.outgoing] at hdelivered
    exact hdelivered

end Runs

section Sample

theorem untilLogged_journal : ∃ t j, (journalMachine .sample logOnly).run
    (start ssnEngine 10 oneDatabase, .empty) untilLogged = some (t, j) := by
  obtain ⟨t, _, _, ht, _, _⟩ := untilLogged_run
  exact ⟨t, exists_journal .sample logOnly ssnEngine 10 oneDatabase ht⟩

theorem untilLogged_readings : (untilLogged.flatMap ScanLabel.readings).Pairwise (· ≤ ·) := by
  simp [untilLogged, untilFound, ScanLabel.readings]

end Sample

section Results
variable (cr : Crates) (channels : List NamedChannel) (engine : RuleEngine) (window : Nat)
variable (databases : List (String × ScanFilter)) {ls : List ScanLabel}
variable {t : ScanState} {j : Journal}

/-- The scanner does what it is for: every run of its tasks is a run of the desk, which
takes up the same batches under the same rules, decides alike on the same findings in the
same order, and sends them to the same channels in the same order. -/
theorem refines_alerting (hclock : (ls.flatMap ScanLabel.readings).Pairwise (· ≤ ·))
    (h : (journalMachine cr channels).run (start engine window databases, .empty) ls =
      some (t, j)) :
    ∃ acts a, (alerting cr channels window).machine.run (.start engine) acts = some a ∧
      a.decisions = j.decisions ∧ a.deliveries = j.deliveries ∧ a.rules = t.shared.engine ∧
        ∀ u unit, t.units[u]? = some unit → UnitShown cr channels a u unit := by
  obtain ⟨acts, a, hrun, hshown⟩ := run_shown cr channels engine window databases hclock h
  exact ⟨acts, a, hrun, hshown.decisions, hshown.deliveries, hshown.rules, hshown.units⟩

theorem refines_alerting_logged : (untilLogged.flatMap ScanLabel.readings).Pairwise (· ≤ ·) ∧
    ∃ t j, (journalMachine .sample logOnly).run (start ssnEngine 10 oneDatabase, .empty)
        untilLogged = some (t, j) ∧
      ∃ acts a, (alerting .sample logOnly 10).machine.run (.start ssnEngine) acts = some a ∧
        a.decisions = j.decisions ∧ a.deliveries = j.deliveries ∧ a.rules = t.shared.engine ∧
          ∀ u unit, t.units[u]? = some unit → UnitShown .sample logOnly a u unit := by
  obtain ⟨t, j, h⟩ := untilLogged_journal
  exact ⟨untilLogged_readings, t, j, h,
    refines_alerting .sample logOnly ssnEngine 10 oneDatabase untilLogged_readings h⟩

/-- In every run, whichever databases its findings come from: a finding passes exactly if
none with its key has passed less than the window before; and each unit has decided on the
findings of the batches it has taken, each once and in order, up to those to come. -/
theorem decisions_exact (hclock : (ls.flatMap ScanLabel.readings).Pairwise (· ≤ ·))
    (h : (journalMachine cr channels).run (start engine window databases, .empty) ls =
      some (t, j)) :
    (∀ later d past, j.decisions = later ++ d :: past →
      (d.passed = true ↔ ¬ ∃ earlier ∈ past, earlier.passed = true ∧
        dedupKey cr earlier.item = dedupKey cr d.item ∧ d.time - earlier.time < window)) ∧
    ∀ u unit, t.units[u]? = some unit →
      Desk.decidedOf j.decisions u ++ DatabaseUnit.toDecide cr unit.loop =
        unit.taken.flatMap fun b => b.1.events.flatMap (scan cr b.2) := by
  obtain ⟨hjustified, hunits⟩ := journal_sound cr channels engine window databases hclock h
  constructor
  · intro later d past hj
    rw [hj] at hjustified
    exact hjustified.passed_iff
  · intro u unit hu
    exact (hunits u unit hu).1

theorem decisions_exact_logged : (untilLogged.flatMap ScanLabel.readings).Pairwise (· ≤ ·) ∧
    ∃ t j, (journalMachine .sample logOnly).run (start ssnEngine 10 oneDatabase, .empty)
        untilLogged = some (t, j) ∧
      (∀ later d past, j.decisions = later ++ d :: past →
        (d.passed = true ↔ ¬ ∃ earlier ∈ past, earlier.passed = true ∧
          dedupKey .sample earlier.item = dedupKey .sample d.item ∧ d.time - earlier.time < 10)) ∧
      ∀ u unit, t.units[u]? = some unit →
        Desk.decidedOf j.decisions u ++ DatabaseUnit.toDecide .sample unit.loop =
          unit.taken.flatMap fun b => b.1.events.flatMap (scan .sample b.2) := by
  obtain ⟨t, j, h⟩ := untilLogged_journal
  exact ⟨untilLogged_readings, t, j, h,
    decisions_exact .sample logOnly ssnEngine 10 oneDatabase untilLogged_readings h⟩

/-- In every run on a clock that never runs backwards each unit has sent what passed, in the
order in which it passed, to the channels it is routed to, in their order and once to each, up
to the sends to come. -/
theorem deliveries_exact (hclock : (ls.flatMap ScanLabel.readings).Pairwise (· ≤ ·))
    (h : (journalMachine cr channels).run (start engine window databases, .empty) ls =
      some (t, j)) :
    ∀ u unit, t.units[u]? = some unit →
      Desk.deliveredOf j.deliveries u ++ DatabaseUnit.toDeliver channels unit.loop =
        (Desk.decidedOf (j.decisions.filter Decision.passed) u).flatMap fun finding =>
          (routedChannels channels finding).map fun i => (finding, i) := by
  intro u unit hu
  obtain ⟨_, hunits⟩ := journal_sound cr channels engine window databases hclock h
  exact (hunits u unit hu).2

theorem deliveries_exact_logged : (untilLogged.flatMap ScanLabel.readings).Pairwise (· ≤ ·) ∧
    ∃ t j, (journalMachine .sample logOnly).run (start ssnEngine 10 oneDatabase, .empty)
        untilLogged = some (t, j) ∧
      ∀ u unit, t.units[u]? = some unit →
        Desk.deliveredOf j.deliveries u ++ DatabaseUnit.toDeliver logOnly unit.loop =
          (Desk.decidedOf (j.decisions.filter Decision.passed) u).flatMap fun finding =>
            (routedChannels logOnly finding).map fun i => (finding, i) := by
  obtain ⟨t, j, h⟩ := untilLogged_journal
  exact ⟨untilLogged_readings, t, j, h,
    deliveries_exact .sample logOnly ssnEngine 10 oneDatabase untilLogged_readings h⟩

end Results

end ScanState

end PgSense
