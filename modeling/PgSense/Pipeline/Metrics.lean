import PgSense.Library.Counters
import PgSense.Library.Tally
import PgSense.Pipeline.History

/-! The metrics of the scanner, and what the tasks of a database unit do to them. -/

namespace PgSense
open Library
set_option autoImplicit false

/-- A gauge with labels. -/
abbrev GaugeVec := String → Nat

def GaugeVec.set (g : GaugeVec) (label : String) (value : Nat) : GaugeVec :=
  fun l => if l = label then value else g l

theorem GaugeVec.set_same (g : GaugeVec) (label : String) (value : Nat) :
    g.set label value label = value := if_pos rfl

theorem GaugeVec.set_other (g : GaugeVec) {label other : String} (h : other ≠ label)
    (value : Nat) : g.set label value other = g other := if_neg h

/-- The registered counters and gauges. -/
structure Metrics where
  /-- by database -/
  eventsTotal : CounterVec String
  /-- by database and reason -/
  eventsSkipped : CounterVec (String × String)
  /-- by database, category and severity -/
  findingsTotal : CounterVec (String × String × String)
  /-- by database and outcome -/
  dedupTotal : CounterVec (String × String)
  /-- by channel and status -/
  alertsTotal : CounterVec (String × String)
  pipelineReconnects : CounterVec String
  pipelineConnected : GaugeVec
  queueDepth : GaugeVec
  /-- by status -/
  configReloads : CounterVec String
  rulesLoaded : Nat

/-- The metrics, next to what they are measured against: the events handed to
`write_events`, those lost with a dropped call, and the findings that were let through. -/
structure Accounts where
  metrics : Metrics
  offered : CounterVec String
  cancelled : CounterVec String
  passed : List Finding

def alertStatus (ok : Bool) : String := if ok then "ok" else "error"

namespace Accounts
variable (r : Accounts)

/-- The counts of the scan of an event. -/
def countScan (event : ScanEvent) (findings : List Finding) : Accounts :=
  { r with metrics := { r.metrics with
      eventsTotal := r.metrics.eventsTotal.inc event.database
      findingsTotal := r.metrics.findingsTotal.incEach
        (findings.map fun f => (f.database, f.category, f.severity.display)) } }

def countPassed (finding : Finding) : Accounts :=
  { r with
    metrics := { r.metrics with
      dedupTotal := r.metrics.dedupTotal.inc (finding.database, "passed") }
    passed := r.passed ++ [finding] }

def countSuppressed (finding : Finding) : Accounts :=
  { r with metrics := { r.metrics with
      dedupTotal := r.metrics.dedupTotal.inc (finding.database, "suppressed") } }

def countAlert (channel : String) (ok : Bool) : Accounts :=
  { r with metrics := { r.metrics with
      alertsTotal := r.metrics.alertsTotal.inc (channel, alertStatus ok) } }

def setConnected (database : String) (value : Nat) : Accounts :=
  { r with metrics := { r.metrics with
      pipelineConnected := r.metrics.pipelineConnected.set database value } }

def countReconnect (database : String) : Accounts :=
  { r with metrics := { r.metrics with
      pipelineReconnects := r.metrics.pipelineReconnects.inc database } }

end Accounts

/-- The reason under which `write_events` skips an event, if it does. -/
def skipReason (filter : ScanFilter) (event : ScanEvent) : Option String :=
  if !filter.matchesSchema event.schemaName then some "schema_excluded"
  else if !filter.matchesTable event.tableName then some "table_excluded"
  else none

/-- What `pipeline_connected` reports of a monitor. -/
def MonitorPc.connected : MonitorPc → Nat
  | .selecting _ => 1
  | .reconnecting => 0
  | .sleeping _ => 1
  | .draining _ _ => 1
  | .exiting _ => 0
  | .ended => 0

/-- Inside a send: the channel is being called, flushed or posted to. -/
def DispatchPc.SendingAt (pc : DispatchPc) (i : Nat) : Prop :=
  pc = .sending i ∨ pc = .flushing i ∨ pc = .posting i

namespace DatabaseUnit

section Meters
variable (u : DatabaseUnit) (r : Accounts)

/-- The counts of a `write_events` call; the depth is read before the acknowledgement. -/
def meterWrite : WriteLabel → Accounts
  | .begin _ events =>
    let scanEvents := extractScanEvents events u.database
    { r with
      metrics := { r.metrics with
        eventsSkipped := r.metrics.eventsSkipped.incEach
          ((scanEvents.filterMap (skipReason u.filter)).map fun reason => (u.database, reason)) }
      offered := r.offered.incEach (scanEvents.map ScanEvent.database) }
  | .ack _ =>
    { r with metrics := { r.metrics with
        queueDepth := r.metrics.queueDepth.set u.database u.queue.length } }
  | .cancel k =>
    match u.writes[k]? with
    | some ⟨_, .sending events⟩ =>
      { r with cancelled := r.cancelled.incEach (events.map ScanEvent.database) }
    | _ => r
  | .enqueue _ => r

/-- The counts of `scan_loop` and `dispatch`; `ok` is the result of a send that returns. -/
def meterLoop (cr : Crates) (channels : List NamedChannel) (sh : Shared) (ok : Bool) :
    LoopLabel → Accounts
  | .scanNext =>
    match u.loop with
    | .scanning _ engine (event :: _) => r.countScan event (scan cr engine event)
    | _ => r
  | .ask sweepNow now =>
    match u.loop with
    | .dispatching _ _ _ finding _ .asking =>
      if (sh.dedup.shouldAlert cr finding sweepNow now).1 then r.countPassed finding
      else r.countSuppressed finding
    | _ => r
  | .send now =>
    match u.loop with
    | .dispatching _ _ _ finding _ (.sending i) =>
      match channels[i]? with
      | some ⟨name, .slack config⟩ =>
        -- a full buffer is flushed before the send returns
        if ((sh.buffers i).push finding now).full config then r else r.countAlert name true
      | some nc => r.countAlert nc.name ok
      | none => r
    | _ => r
  | .drain now =>
    match u.loop with
    | .dispatching _ _ _ _ _ (.flushing i) =>
      match channels[i]? with
      | some ⟨name, .slack config⟩ =>
        if ((sh.buffers i).drain config true now).1.isSome then r else r.countAlert name true
      | _ => r
    | _ => r
  | .posted =>
    match u.loop with
    | .dispatching _ _ _ _ _ (.posting i) =>
      match channels[i]? with
      | some nc => r.countAlert nc.name ok
      | none => r
    | _ => r
  | .recv => r
  | .visit => r

/-- What the monitor task counts on its way. -/
def meterMonitor : MonitorLabel → Accounts
  | .pollWait =>
    match u.monitor.pc with
    | .selecting future =>
      match u.monitor.watched future with
      | none => (r.setConnected u.database 0).countReconnect u.database
      | some p =>
        match u.monitor.result? p with
        | none => r
        | some true => r.setConnected u.database 0
        | some false => (r.setConnected u.database 0).countReconnect u.database
    | _ => r
  | .pollShutdown => if u.monitor.requested then r else r.setConnected u.database 0
  | .reconnect .ok => r.setConnected u.database 1
  | .pollDrain =>
    match u.monitor.step .pollDrain with
    | some m => if m.pc = .exiting true then r.setConnected u.database 0 else r
    | none => r
  | _ => r

end Meters

/-- A quantity that comes in, is settled, or is still with a unit. -/
structure Balance where
  income : Accounts → Nat
  settled : Accounts → Nat
  pending : DatabaseUnit → Nat

/-- A step of a unit from `u` to `v` keeps the balance. -/
def Balance.Kept (b : Balance) (r : Accounts) (u : DatabaseUnit) (r' : Accounts)
    (v : DatabaseUnit) : Prop :=
  b.income r' + b.settled r + b.pending u = b.income r + b.settled r' + b.pending v

section Balances

def eventsOf (d : String) (events : List ScanEvent) : Nat := events.countP fun e => e.database = d

def sendingEvents (d : String) (w : Write) : Nat :=
  match w.phase with
  | .sending events => eventsOf d events
  | .acknowledging _ => 0

def loopEvents (d : String) : LoopPc → Nat
  | .idle => 0
  | .scanning _ _ rest => eventsOf d rest
  | .dispatching _ _ rest _ _ _ => eventsOf d rest

/-- The events of a database: handed over, against skipped, scanned or lost with a
dropped call; the rest wait in calls, in the queue or in the loop. -/
def eventBalance (d : String) : Balance where
  income r := r.offered.value d
  settled r := r.metrics.eventsSkipped.value (d, "schema_excluded") +
    r.metrics.eventsSkipped.value (d, "table_excluded") + r.metrics.eventsTotal.value d +
    r.cancelled.value d
  pending u := tally (sendingEvents d) u.writes + tally (fun b => eventsOf d b.events) u.queue +
    loopEvents d u.loop

def findingsOf (d : String) (findings : List Finding) : Nat :=
  findings.countP fun f => f.database = d

/-- The findings that the deduplicator has not been asked about. -/
def awaiting : LoopPc → List Finding
  | .idle => []
  | .scanning _ _ _ => []
  | .dispatching _ _ _ finding later .asking => finding :: later
  | .dispatching _ _ _ _ later _ => later

/-- The findings of a database, against the decisions about them. -/
def findingBalance (d : String) : Balance where
  income r := r.metrics.findingsTotal.sum fun label => label.1 = d
  settled r := r.metrics.dedupTotal.value (d, "passed") +
    r.metrics.dedupTotal.value (d, "suppressed")
  pending u := findingsOf d (awaiting u.loop)

/-- The findings let through, against the decisions to let through. -/
def passedBalance (d : String) : Balance where
  income r := findingsOf d r.passed
  settled r := r.metrics.dedupTotal.value (d, "passed")
  pending _ := 0

/-- The channels of a name that a finding is routed to. -/
def routedNamed (name : String) (finding : Finding) (channels : List NamedChannel) : Nat :=
  channels.countP fun nc => nc.name = name && nc.routed finding.channels

def namedAt (channels : List NamedChannel) (name : String) (i : Nat) : Nat :=
  ((channels[i]?).toList).countP fun nc => nc.name = name

/-- The sends of a name that a call of `dispatch` has not finished. -/
def owedAt (channels : List NamedChannel) (name : String) (finding : Finding) : DispatchPc → Nat
  | .asking => 0
  | .visiting i => routedNamed name finding (channels.drop i)
  | .sending i => namedAt channels name i + routedNamed name finding (channels.drop (i + 1))
  | .flushing i => namedAt channels name i + routedNamed name finding (channels.drop (i + 1))
  | .posting i => namedAt channels name i + routedNamed name finding (channels.drop (i + 1))

def owed (channels : List NamedChannel) (name : String) : LoopPc → Nat
  | .idle => 0
  | .scanning _ _ _ => 0
  | .dispatching _ _ _ finding _ pc => owedAt channels name finding pc

/-- The sends that the findings let through are routed to, by channel name, against
the sends counted as delivered or failed. -/
def alertBalance (channels : List NamedChannel) (name : String) : Balance where
  income r := tally (fun f => routedNamed name f channels) r.passed
  settled r := r.metrics.alertsTotal.value (name, "ok") +
    r.metrics.alertsTotal.value (name, "error")
  pending u := owed channels name u.loop

end Balances

section Writes

theorem eventsOf_cons (d : String) (event : ScanEvent) (rest : List ScanEvent) :
    eventsOf d (event :: rest) = eventsOf d rest + if event.database = d then 1 else 0 := by
  simp [eventsOf, List.countP_cons]

theorem extractScanEvents_database (events : List Event) (database : String) :
    ∀ e ∈ extractScanEvents events database, e.database = database := by
  intro e he
  obtain ⟨event, _, heq⟩ := List.mem_filterMap.mp he
  cases event with
  | insert event =>
    cases heq
    rfl
  | update event =>
    cases heq
    rfl
  | other => cases heq

theorem eventsOf_eq (d : String) (events : List ScanEvent) :
    ((events.map ScanEvent.database).countP fun l => l = d) = eventsOf d events :=
  List.countP_map

/-- Every event is skipped for one reason or kept. -/
theorem skipped_or_kept (filter : ScanFilter) (database d : String) {scanEvents : List ScanEvent}
    (h : ∀ e ∈ scanEvents, e.database = database) :
    eventsOf d scanEvents =
      (((scanEvents.filterMap (skipReason filter)).map fun reason => (database, reason)).countP
          fun l => l = (d, "schema_excluded")) +
        (((scanEvents.filterMap (skipReason filter)).map fun reason => (database, reason)).countP
          fun l => l = (d, "table_excluded")) +
        eventsOf d (filterEvents filter scanEvents) := by
  induction scanEvents with
  | nil => rfl
  | cons e rest ih =>
    obtain ⟨he, hrest⟩ := List.forall_mem_cons.mp h
    have ih := ih hrest
    unfold filterEvents at ih ⊢
    rw [eventsOf_cons, ih, List.filterMap_cons, he]
    cases hschema : filter.matchesSchema e.schemaName with
    | false =>
      simp [skipReason, hschema, List.countP_cons]
      omega
    | true =>
      cases htable : filter.matchesTable e.tableName with
      | false =>
        simp [skipReason, hschema, htable, List.countP_cons]
        omega
      | true =>
        simp [skipReason, hschema, htable, eventsOf_cons, he]
        omega

theorem writeStep_events {u v : DatabaseUnit} {l : WriteLabel} (h : u.writeStep l = some v)
    (r : Accounts) (d : String) : (eventBalance d).Kept r u (u.meterWrite r l) v := by
  cases writeStep_acts h with
  | @forwards pipeline events kept hlive hforwarded =>
    have hsplit := skipped_or_kept u.filter u.database d
      (extractScanEvents_database events u.database)
    rw [← forwarded_getD, hforwarded, Option.getD_some] at hsplit
    simp only [Balance.Kept, eventBalance, meterWrite, CounterVec.value_incEach, tally_append,
      tally_cons, tally_nil, sendingEvents, eventsOf_eq]
    omega
  | @skips pipeline events hlive hforwarded =>
    have hsplit := skipped_or_kept u.filter u.database d
      (extractScanEvents_database events u.database)
    rw [← forwarded_getD, hforwarded, Option.getD_none] at hsplit
    have hnothing : eventsOf d [] = 0 := rfl
    simp only [Balance.Kept, eventBalance, meterWrite, CounterVec.value_incEach, tally_append,
      tally_cons, tally_nil, sendingEvents, eventsOf_eq]
    omega
  | @enqueues k pipeline events hk hroom =>
    have hset := tally_set (sendingEvents d) hk
      ⟨pipeline, .acknowledging (some ⟨u.nextTicket, events⟩)⟩
    simp only [sendingEvents] at hset
    simp only [Balance.Kept, eventBalance, meterWrite, tally_append, tally_cons, tally_nil]
    omega
  | acknowledges hk =>
    have herase := tally_eraseIdx (sendingEvents d) hk
    simp only [sendingEvents] at herase
    simp only [Balance.Kept, eventBalance, meterWrite]
    omega
  | @dropped k hlt =>
    have hk := List.getElem?_eq_getElem hlt
    have herase := tally_eraseIdx (sendingEvents d) hk
    generalize u.writes[k] = w at hk herase
    obtain ⟨pipeline, phase⟩ := w
    cases phase with
    | sending events =>
      simp only [sendingEvents] at herase
      simp only [Balance.Kept, eventBalance, meterWrite, hk, CounterVec.value_incEach, eventsOf_eq]
      omega
    | acknowledging batch =>
      simp only [sendingEvents] at herase
      simp only [Balance.Kept, eventBalance, meterWrite, hk]
      omega

end Writes

section Loop
variable (channels : List NamedChannel)

/-- What a step of the loop does to the unit and, at the same time, to the accounts. -/
inductive Metered (u : DatabaseUnit) (r : Accounts) : DatabaseUnit → Accounts → Prop
  | received (batch : Batch) (queue : List Batch) (engine : RuleEngine) (hl : u.loop = .idle)
      (hq : u.queue = batch :: queue) :
      Metered u r { u with queue, loop := .scanning batch engine batch.events } r
  | completed (batch : Batch) (engine : RuleEngine) (hl : u.loop = .scanning batch engine []) :
      Metered u r { u with done := u.done ++ [(batch, engine)], loop := .idle } r
  | nothingFound (batch : Batch) (engine : RuleEngine) (event : ScanEvent) (rest : List ScanEvent)
      (hl : u.loop = .scanning batch engine (event :: rest)) :
      Metered u r { u with loop := .scanning batch engine rest } (r.countScan event [])
  | found (batch : Batch) (engine : RuleEngine) (event : ScanEvent) (rest : List ScanEvent)
      (finding : Finding) (later : List Finding)
      (hl : u.loop = .scanning batch engine (event :: rest)) :
      Metered u r (u.dispatchAt batch engine rest finding later .asking)
        (r.countScan event (finding :: later))
  | suppressed (batch : Batch) (engine : RuleEngine) (rest : List ScanEvent) (finding : Finding)
      (later : List Finding) (hl : u.loop = .dispatching batch engine rest finding later .asking) :
      Metered u r (u.returned batch engine rest finding later) (r.countSuppressed finding)
  | passed (batch : Batch) (engine : RuleEngine) (rest : List ScanEvent) (finding : Finding)
      (later : List Finding) (hl : u.loop = .dispatching batch engine rest finding later .asking) :
      Metered u r (u.dispatchAt batch engine rest finding later (.visiting 0))
        (r.countPassed finding)
  | finished (batch : Batch) (engine : RuleEngine) (rest : List ScanEvent) (finding : Finding)
      (later : List Finding) (i : Nat) (hnone : channels[i]? = none)
      (hl : u.loop = .dispatching batch engine rest finding later (.visiting i)) :
      Metered u r (u.returned batch engine rest finding later) r
  | visited (batch : Batch) (engine : RuleEngine) (rest : List ScanEvent) (finding : Finding)
      (later : List Finding) (i : Nat) (nc : NamedChannel) (hnc : channels[i]? = some nc)
      (hl : u.loop = .dispatching batch engine rest finding later (.visiting i)) :
      Metered u r (u.dispatchAt batch engine rest finding later
        (if nc.routed finding.channels then .sending i else .visiting (i + 1))) r
  /-- a Slack send goes on to flush, or a flush to post -/
  | within (batch : Batch) (engine : RuleEngine) (rest : List ScanEvent) (finding : Finding)
      (later : List Finding) (i : Nat) (pc pc' : DispatchPc) (hpc : pc.SendingAt i)
      (hpc' : pc'.SendingAt i) (hl : u.loop = .dispatching batch engine rest finding later pc) :
      Metered u r (u.dispatchAt batch engine rest finding later pc') r
  | sent (batch : Batch) (engine : RuleEngine) (rest : List ScanEvent) (finding : Finding)
      (later : List Finding) (i : Nat) (pc : DispatchPc) (ok : Bool) (hpc : pc.SendingAt i)
      (hl : u.loop = .dispatching batch engine rest finding later pc) :
      Metered u r (u.dispatchAt batch engine rest finding later (.visiting (i + 1)))
        (match channels[i]? with
          | some nc => r.countAlert nc.name ok
          | none => r)

variable {cr : Crates} {channels}

theorem exists_slack {i : Nat} {config : SlackConfig}
    (hi : (channels[i]?).map NamedChannel.channel = some (.slack config)) :
    ∃ name, channels[i]? = some ⟨name, .slack config⟩ := by
  obtain ⟨⟨name, channel⟩, hnc, rfl⟩ := Option.map_eq_some_iff.mp hi
  exact ⟨name, hnc⟩

theorem loopStep_metered {u v : DatabaseUnit} {sh sh' : Shared} {l : LoopLabel}
    (h : u.loopStep cr channels sh l = some (v, sh')) (r : Accounts) (ok : Bool) :
    Metered channels u r v (u.meterLoop r cr channels sh ok l) := by
  cases loopStep_acts h with
  | received hl hq => exact .received _ _ _ hl hq
  | completed hl =>
    simp only [meterLoop, hl]
    exact .completed _ _ hl
  | nothingFound hl hs =>
    simp only [meterLoop, hl, hs]
    exact .nothingFound _ _ _ _ hl
  | found hl hs =>
    simp only [meterLoop, hl, hs]
    exact .found _ _ _ _ _ _ hl
  | passed hl hanswer =>
    simp only [meterLoop, hl, hanswer, if_true]
    exact .passed _ _ _ _ _ hl
  | suppressed hl hanswer =>
    simp only [meterLoop, hl, hanswer, if_neg Bool.false_ne_true]
    exact .suppressed _ _ _ _ _ hl
  | finished hl hi => exact .finished _ _ _ _ _ _ hi hl
  | routed hl hi hrouted =>
    have hvisited := Metered.visited (r := r) _ _ _ _ _ _ _ hi hl
    rwa [if_pos hrouted] at hvisited
  | skipped hl hi hrouted =>
    have hvisited := Metered.visited (r := r) _ _ _ _ _ _ _ hi hl
    rwa [if_neg (Bool.eq_false_iff.mp hrouted)] at hvisited
  | @delivered _ _ _ _ _ i _ hl hother =>
    have hsent : Metered channels u r _ _ := .sent _ _ _ _ _ i _ ok (.inl rfl) hl
    simp only [meterLoop, hl]
    cases hi : channels[i]? with
    | none =>
      rw [hi] at hsent
      exact hsent
    | some nc =>
      obtain ⟨name, channel⟩ := nc
      rw [hi] at hsent hother
      cases channel with
      | slack config => exact absurd rfl (hother config)
      | log | stdout | jsonl | webhook | postgres => exact hsent
  | @buffered _ _ _ _ _ i _ config hl hi hroom =>
    obtain ⟨name, hnc⟩ := exists_slack hi
    have hsent : Metered channels u r _ _ := .sent _ _ _ _ _ i _ true (.inl rfl) hl
    rw [hnc] at hsent
    simp only [meterLoop, hl, hnc, hroom, if_neg Bool.false_ne_true]
    exact hsent
  | filled hl hi hfull =>
    obtain ⟨name, hnc⟩ := exists_slack hi
    simp only [meterLoop, hl, hnc, hfull, if_true]
    exact .within _ _ _ _ _ _ _ _ (.inl rfl) (.inr (.inl rfl)) hl
  | drained hl hi hdrained =>
    obtain ⟨name, hnc⟩ := exists_slack hi
    simp only [meterLoop, hl, hnc, hdrained, if_true]
    exact .within _ _ _ _ _ _ _ _ (.inr (.inl rfl)) (.inr (.inr rfl)) hl
  | @emptied _ _ _ _ _ i _ config hl hi hdrained =>
    obtain ⟨name, hnc⟩ := exists_slack hi
    have hsent : Metered channels u r _ _ := .sent _ _ _ _ _ i _ true (.inr (.inl rfl)) hl
    rw [hnc] at hsent
    simp only [meterLoop, hl, hnc, hdrained, if_neg Bool.false_ne_true]
    exact hsent
  | posted hl =>
    simp only [meterLoop, hl]
    exact .sent _ _ _ _ _ _ _ ok (.inr (.inr rfl)) hl

theorem findingsOf_cons (d : String) (finding : Finding) (later : List Finding) :
    findingsOf d (finding :: later) =
      findingsOf d later + if finding.database = d then 1 else 0 := by
  simp [findingsOf, List.countP_cons]

theorem findingsOf_labels (d : String) (findings : List Finding) :
    ((findings.map fun f => (f.database, f.category, f.severity.display)).countP
      fun label => label.1 = d) = findingsOf d findings :=
  List.countP_map

/-- What is still owed of a unit after its call of `dispatch` has returned. -/
theorem returned_owes (channels : List NamedChannel) (d name : String) (u : DatabaseUnit) (batch : Batch) (engine : RuleEngine)
    (rest : List ScanEvent) (finding : Finding) (later : List Finding) :
    let loop := (u.returned batch engine rest finding later).loop
    loopEvents d loop = eventsOf d rest ∧ awaiting loop = later ∧ owed channels name loop = 0 := by
  cases later with
  | nil => exact ⟨rfl, rfl, rfl⟩
  | cons next later => exact ⟨rfl, rfl, rfl⟩

theorem awaiting_asking (batch : Batch) (engine : RuleEngine) (rest : List ScanEvent)
    (finding : Finding) (later : List Finding) :
    awaiting (.dispatching batch engine rest finding later .asking) = finding :: later := rfl

theorem awaiting_sending {pc : DispatchPc} {i : Nat} (hpc : pc.SendingAt i) (batch : Batch)
    (engine : RuleEngine) (rest : List ScanEvent) (finding : Finding) (later : List Finding) :
    awaiting (.dispatching batch engine rest finding later pc) = later := by
  rcases hpc with rfl | rfl | rfl <;> rfl

theorem owed_sending {pc : DispatchPc} {i : Nat} (hpc : pc.SendingAt i) (name : String)
    (finding : Finding) : owedAt channels name finding pc =
      namedAt channels name i + routedNamed name finding (channels.drop (i + 1)) := by
  rcases hpc with rfl | rfl | rfl <;> rfl

/-- A counted send is settled under the name of its channel. -/
theorem sent_settled (channels : List NamedChannel) (r : Accounts) (name : String) (i : Nat) (ok : Bool) :
    (alertBalance channels name).settled (match channels[i]? with
        | some nc => r.countAlert nc.name ok
        | none => r) =
      (alertBalance channels name).settled r + namedAt channels name i := by
  cases hi : channels[i]? with
  | none => simp [namedAt, hi]
  | some nc =>
    have hname : namedAt channels name i = if nc.name = name then 1 else 0 := by
      simp [namedAt, hi]
    rw [hname]
    cases ok with
    | true =>
      simp [alertBalance, Accounts.countAlert, alertStatus]
      omega
    | false =>
      simp [alertBalance, Accounts.countAlert, alertStatus]
      omega

theorem Metered.events {u v : DatabaseUnit} {r r' : Accounts} (h : Metered channels u r v r')
    (d : String) : (eventBalance d).Kept r u r' v := by
  unfold Balance.Kept
  cases h with
  | received batch queue engine hl hq =>
    simp only [eventBalance, hl, hq, loopEvents, tally_cons]
    omega
  | completed batch engine hl =>
    simp only [eventBalance, hl, loopEvents, eventsOf, List.countP_nil]
  | nothingFound batch engine event rest hl =>
    simp only [eventBalance, hl, loopEvents, Accounts.countScan, CounterVec.value_inc, eventsOf_cons]
    omega
  | found batch engine event rest finding later hl =>
    simp only [eventBalance, hl, loopEvents, Accounts.countScan, CounterVec.value_inc, eventsOf_cons,
      dispatchAt]
    omega
  | suppressed batch engine rest finding later hl =>
    have howes := (returned_owes channels d "" u batch engine rest finding later).1
    simp only [eventBalance, howes, hl]
    rfl
  | passed batch engine rest finding later hl =>
    simp only [eventBalance, hl]
    rfl
  | finished batch engine rest finding later i hnone hl =>
    have howes := (returned_owes channels d "" u batch engine rest finding later).1
    simp only [eventBalance, howes, hl]
    rfl
  | visited batch engine rest finding later i nc hnc hl =>
    simp only [eventBalance, hl]
    rfl
  | within batch engine rest finding later i pc pc' hpc hpc' hl =>
    simp only [eventBalance, hl]
    rfl
  | sent batch engine rest finding later i pc ok hpc hl =>
    simp only [eventBalance, hl]
    cases channels[i]? <;> rfl

theorem Metered.findings {u v : DatabaseUnit} {r r' : Accounts} (h : Metered channels u r v r')
    (d : String) : (findingBalance d).Kept r u r' v := by
  unfold Balance.Kept
  cases h with
  | received batch queue engine hl hq =>
    simp only [findingBalance, hl]
    rfl
  | completed batch engine hl =>
    simp only [findingBalance, hl]
    rfl
  | nothingFound batch engine event rest hl =>
    simp only [findingBalance, hl, Accounts.countScan, CounterVec.sum_incEach]
    rfl
  | found batch engine event rest finding later hl =>
    have hbefore : findingsOf d (awaiting (.scanning batch engine (event :: rest))) = 0 := rfl
    simp only [findingBalance, hl, dispatchAt, hbefore, awaiting_asking, Accounts.countScan,
      CounterVec.sum_incEach, findingsOf_labels]
    omega
  | suppressed batch engine rest finding later hl =>
    have howes := (returned_owes channels d "" u batch engine rest finding later).2.1
    simp only [findingBalance, howes, hl, awaiting_asking, findingsOf_cons]
    simp [Accounts.countSuppressed]
    omega
  | passed batch engine rest finding later hl =>
    have hlater : awaiting (.dispatching batch engine rest finding later (.visiting 0)) = later := rfl
    simp only [findingBalance, hl, dispatchAt, awaiting_asking, findingsOf_cons, hlater]
    simp [Accounts.countPassed]
    omega
  | finished batch engine rest finding later i hnone hl =>
    have howes := (returned_owes channels d "" u batch engine rest finding later).2.1
    simp only [findingBalance, howes, hl]
    rfl
  | visited batch engine rest finding later i nc hnc hl =>
    simp only [findingBalance, hl, dispatchAt]
    split <;> rfl
  | within batch engine rest finding later i pc pc' hpc hpc' hl =>
    simp only [findingBalance, hl, dispatchAt, awaiting_sending hpc, awaiting_sending hpc']
  | sent batch engine rest finding later i pc ok hpc hl =>
    simp only [findingBalance, hl, awaiting_sending hpc]
    cases channels[i]? <;> rfl

theorem Metered.decided {u v : DatabaseUnit} {r r' : Accounts} (h : Metered channels u r v r')
    (d : String) : (passedBalance d).Kept r u r' v := by
  unfold Balance.Kept
  cases h with
  | passed batch engine rest finding later hl =>
    simp [passedBalance, Accounts.countPassed, findingsOf]
    omega
  | suppressed batch engine rest finding later hl =>
    simp [passedBalance, Accounts.countSuppressed]
  | sent batch engine rest finding later i pc ok hpc hl =>
    cases channels[i]? <;> rfl
  | received | completed | nothingFound | found | finished | visited | within => rfl

/-- The channels from a position on are the one there and the rest. -/
theorem routedNamed_drop (name : String) (finding : Finding) {i : Nat} {nc : NamedChannel}
    (h : channels[i]? = some nc) : routedNamed name finding (channels.drop i) =
      (if nc.routed finding.channels then namedAt channels name i else 0) +
        routedNamed name finding (channels.drop (i + 1)) := by
  obtain ⟨hlt, hget⟩ := List.getElem?_eq_some_iff.mp h
  rw [List.drop_eq_getElem_cons hlt, hget]
  cases hrouted : nc.routed finding.channels <;>
    simp [routedNamed, namedAt, h, hrouted, List.countP_cons]
  omega

theorem Metered.alerts {u v : DatabaseUnit} {r r' : Accounts} (h : Metered channels u r v r')
    (name : String) : (alertBalance channels name).Kept r u r' v := by
  unfold Balance.Kept
  cases h with
  | received batch queue engine hl hq =>
    simp only [alertBalance, hl]
    rfl
  | completed batch engine hl =>
    simp only [alertBalance, hl]
    rfl
  | nothingFound batch engine event rest hl =>
    simp only [alertBalance, hl]
    rfl
  | found batch engine event rest finding later hl =>
    simp only [alertBalance, hl]
    rfl
  | suppressed batch engine rest finding later hl =>
    have howes := (returned_owes channels "" name u batch engine rest finding later).2.2
    simp only [alertBalance, howes, hl]
    rfl
  | passed batch engine rest finding later hl =>
    have hbefore : owed channels name (.dispatching batch engine rest finding later .asking) = 0 := rfl
    have hafter : owed channels name (.dispatching batch engine rest finding later (.visiting 0)) =
        routedNamed name finding channels := rfl
    simp only [alertBalance, hl, dispatchAt, hbefore, hafter, Accounts.countPassed, tally_append,
      tally_cons, tally_nil]
    omega
  | finished batch engine rest finding later i hnone hl =>
    have howes := (returned_owes channels "" name u batch engine rest finding later).2.2
    have hbefore : owed channels name (.dispatching batch engine rest finding later (.visiting i)) =
        0 := by
      simp only [owed, owedAt, List.drop_eq_nil_of_le (List.getElem?_eq_none_iff.mp hnone)]
      rfl
    simp only [alertBalance, howes, hl, hbefore]
  | visited batch engine rest finding later i nc hnc hl =>
    simp only [alertBalance, hl, dispatchAt, owed]
    have hdrop := routedNamed_drop name finding hnc
    cases hrouted : nc.routed finding.channels with
    | true =>
      rw [hrouted, if_pos rfl] at hdrop
      rw [if_pos rfl, owedAt, owedAt, hdrop]
    | false =>
      rw [hrouted, if_neg Bool.false_ne_true, Nat.zero_add] at hdrop
      rw [if_neg Bool.false_ne_true, owedAt, owedAt, hdrop]
  | within batch engine rest finding later i pc pc' hpc hpc' hl =>
    simp only [alertBalance, hl, dispatchAt, owed, owed_sending hpc, owed_sending hpc']
  | sent batch engine rest finding later i pc ok hpc hl =>
    have hsettled := sent_settled channels r name i ok
    have hincome : (alertBalance channels name).income (match channels[i]? with
        | some nc => r.countAlert nc.name ok
        | none => r) = (alertBalance channels name).income r := by
      cases channels[i]? <;> rfl
    have hbefore : (alertBalance channels name).pending u =
        namedAt channels name i + routedNamed name finding (channels.drop (i + 1)) := by
      simp only [alertBalance, hl, owed, owed_sending hpc]
    have hafter : (alertBalance channels name).pending
        (u.dispatchAt batch engine rest finding later (.visiting (i + 1))) =
          routedNamed name finding (channels.drop (i + 1)) := rfl
    omega

end Loop

section Laws
variable (channels : List NamedChannel)

/-- Two accounts that differ in gauges, reconnects and reloads at most. -/
structure SameFlows (r r' : Accounts) : Prop where
  eventsTotal : r'.metrics.eventsTotal = r.metrics.eventsTotal
  eventsSkipped : r'.metrics.eventsSkipped = r.metrics.eventsSkipped
  findingsTotal : r'.metrics.findingsTotal = r.metrics.findingsTotal
  dedupTotal : r'.metrics.dedupTotal = r.metrics.dedupTotal
  alertsTotal : r'.metrics.alertsTotal = r.metrics.alertsTotal
  offered : r'.offered = r.offered
  cancelled : r'.cancelled = r.cancelled
  passed : r'.passed = r.passed

theorem SameFlows.refl (r : Accounts) : SameFlows r r := ⟨rfl, rfl, rfl, rfl, rfl, rfl, rfl, rfl⟩

theorem meterMonitor_flows (u : DatabaseUnit) (r : Accounts) (l : MonitorLabel) :
    SameFlows r (u.meterMonitor r l) := by
  cases l with
  | pollWait =>
    simp only [meterMonitor]
    split
    · split
      · exact ⟨rfl, rfl, rfl, rfl, rfl, rfl, rfl, rfl⟩
      · split <;> exact ⟨rfl, rfl, rfl, rfl, rfl, rfl, rfl, rfl⟩
    · exact .refl r
  | pollShutdown =>
    simp only [meterMonitor]
    split <;> exact ⟨rfl, rfl, rfl, rfl, rfl, rfl, rfl, rfl⟩
  | reconnect outcome =>
    cases outcome <;> exact ⟨rfl, rfl, rfl, rfl, rfl, rfl, rfl, rfl⟩
  | pollDrain =>
    simp only [meterMonitor]
    split
    · split <;> exact ⟨rfl, rfl, rfl, rfl, rfl, rfl, rfl, rfl⟩
    · exact .refl r
  | wake | sendExit | finish | request | dropSender | tick => exact .refl r

/-- What keeps a balance through every step of a unit. -/
structure Balance.Lawful (b : Balance) : Prop where
  write : ∀ {u v : DatabaseUnit} {l : WriteLabel} (r : Accounts), u.writeStep l = some v →
    b.Kept r u (u.meterWrite r l) v
  loop : ∀ {u v : DatabaseUnit} {r r' : Accounts}, Metered channels u r v r' → b.Kept r u r' v
  monitor : ∀ (u : DatabaseUnit) (m : Monitor), b.pending { u with monitor := m } = b.pending u
  flows : ∀ {r r' : Accounts}, SameFlows r r' → b.income r' = b.income r ∧
    b.settled r' = b.settled r

/-- `write_events` handles events only. -/
theorem writeStep_dispatches {u v : DatabaseUnit} {l : WriteLabel} (h : u.writeStep l = some v)
    (r : Accounts) : v.loop = u.loop ∧ (u.meterWrite r l).passed = r.passed ∧
      (u.meterWrite r l).metrics.findingsTotal = r.metrics.findingsTotal ∧
      (u.meterWrite r l).metrics.dedupTotal = r.metrics.dedupTotal ∧
      (u.meterWrite r l).metrics.alertsTotal = r.metrics.alertsTotal := by
  refine ⟨(writeStep_queue h).1, ?_⟩
  cases l with
  | cancel k =>
    simp only [meterWrite]
    split <;> exact ⟨rfl, rfl, rfl, rfl⟩
  | begin | enqueue | ack => exact ⟨rfl, rfl, rfl, rfl⟩

theorem eventBalance_lawful (d : String) : (eventBalance d).Lawful channels where
  write r h := writeStep_events h r d
  loop h := h.events d
  monitor _ _ := rfl
  flows h := by
    simp only [eventBalance, h.eventsTotal, h.eventsSkipped, h.offered, h.cancelled, and_self]

theorem findingBalance_lawful (d : String) : (findingBalance d).Lawful channels where
  write r h := by
    obtain ⟨hloop, _, hfindings, hdedup, _⟩ := writeStep_dispatches h r
    simp only [Balance.Kept, findingBalance, hloop, hfindings, hdedup]
  loop h := h.findings d
  monitor _ _ := rfl
  flows h := by simp only [findingBalance, h.findingsTotal, h.dedupTotal, and_self]

theorem passedBalance_lawful (d : String) : (passedBalance d).Lawful channels where
  write r h := by
    obtain ⟨_, hpassed, _, hdedup, _⟩ := writeStep_dispatches h r
    simp only [Balance.Kept, passedBalance, hpassed, hdedup]
  loop h := h.decided d
  monitor _ _ := rfl
  flows h := by simp only [passedBalance, h.passed, h.dedupTotal, and_self]

theorem alertBalance_lawful (name : String) : (alertBalance channels name).Lawful channels where
  write r h := by
    obtain ⟨hloop, hpassed, _, _, halerts⟩ := writeStep_dispatches h r
    simp only [Balance.Kept, alertBalance, hloop, hpassed, halerts]
  loop h := h.alerts name
  monitor _ _ := rfl
  flows h := by simp only [alertBalance, h.passed, h.alertsTotal, and_self]

end Laws

section Gauges

/-- The attempts to reconnect: those that started a pipeline, and the last one if it is
still going on or has failed. -/
def attempts (m : Monitor) : Nat :=
  m.nextPipeline - 1 + if m.pc = .reconnecting ∨ m.status = .failed then 1 else 0

/-- The unit is over: its monitor is about to report, or has. -/
def terminating (m : Monitor) : Prop := (∃ ok, m.pc = .exiting ok) ∨ m.pc = .ended

structure Gauged (u : DatabaseUnit) (r : Accounts) : Prop where
  connected : r.metrics.pipelineConnected u.database = u.monitor.pc.connected
  reconnects : r.metrics.pipelineReconnects.value u.database = attempts u.monitor
  depth : r.metrics.queueDepth u.database ≤ queueCapacity
  queue : u.queue.length ≤ queueCapacity
  started : 1 ≤ u.monitor.nextPipeline
  running : ¬ terminating u.monitor → u.monitor.status = .running

variable {u v : DatabaseUnit} {r r' : Accounts}

theorem not_terminating {m : Monitor} (hexiting : ∀ ok, m.pc ≠ .exiting ok) (hended : m.pc ≠ .ended) :
    ¬ terminating m := by
  rintro (⟨ok, hok⟩ | hok)
  · exact hexiting ok hok
  · exact hended hok

theorem terminating_exiting {m : Monitor} {ok : Bool} (hpc : m.pc = .exiting ok) : terminating m :=
  .inl ⟨ok, hpc⟩

section Monitors
variable {m : Monitor}

/-- The gauges and counters stay when the monitor shows the same. -/
theorem Gauged.stay (h : u.Gauged r) (hconnected : m.pc.connected = u.monitor.pc.connected)
    (hattempts : attempts m = attempts u.monitor) (hstarted : 1 ≤ m.nextPipeline)
    (hrunning : ¬ terminating m → m.status = .running) :
    ({ u with monitor := m } : DatabaseUnit).Gauged r where
  connected := h.connected.trans hconnected.symm
  reconnects := h.reconnects.trans hattempts.symm
  depth := h.depth
  queue := h.queue
  started := hstarted
  running := hrunning

theorem Gauged.connect (h : u.Gauged r) (hattempts : attempts m = attempts u.monitor)
    (hstarted : 1 ≤ m.nextPipeline) (hrunning : ¬ terminating m → m.status = .running) :
    ({ u with monitor := m } : DatabaseUnit).Gauged (r.setConnected u.database m.pc.connected) where
  connected := GaugeVec.set_same ..
  reconnects := h.reconnects.trans hattempts.symm
  depth := h.depth
  queue := h.queue
  started := hstarted
  running := hrunning

theorem Gauged.retry (h : u.Gauged r) (hpc : m.pc = .reconnecting)
    (hattempts : attempts m = attempts u.monitor + 1) (hstarted : 1 ≤ m.nextPipeline)
    (hstatus : m.status = .running) :
    ({ u with monitor := m } : DatabaseUnit).Gauged
      ((r.setConnected u.database 0).countReconnect u.database) := by
  refine ⟨?_, ?_, h.depth, h.queue, hstarted, fun _ => hstatus⟩
  · rw [hpc]
    exact GaugeVec.set_same ..
  · rw [hattempts, ← h.reconnects]
    simp [Accounts.countReconnect, Accounts.setConnected]

theorem Gauged.working (h : u.Gauged r) {pc : MonitorPc} (hpc : u.monitor.pc = pc)
    (hexiting : ∀ ok, pc ≠ .exiting ok) (hended : pc ≠ .ended) : u.monitor.status = .running := by
  apply h.running
  apply not_terminating
  · rwa [hpc]
  · rwa [hpc]

theorem Gauged.pollWait (h : u.Gauged r) (hstep : u.monitor.step .pollWait = some m) :
    ({ u with monitor := m } : DatabaseUnit).Gauged (u.meterMonitor r .pollWait) := by
  cases Monitor.step_acts hstep with
  | consumed hpc hw =>
    have hstatus := h.working hpc (by simp) (by simp)
    simp only [meterMonitor, hpc, hw]
    exact h.retry rfl (by simp [attempts, hpc, hstatus]) h.started hstatus
  | pending hpc hw hr =>
    have hstatus := h.working hpc (by simp) (by simp)
    simp only [meterMonitor, hpc, hw, hr]
    exact h.stay (by rw [hpc]; rfl) (by simp [attempts, hpc]) h.started fun _ => hstatus
  | succeeded hpc hw hr =>
    have hstatus := h.working hpc (by simp) (by simp)
    simp only [meterMonitor, hpc, hw, hr]
    exact h.connect (by simp [attempts, hpc, hstatus]) h.started
      fun hrunning => absurd (terminating_exiting rfl) hrunning
  | failed hpc hw hr =>
    have hstatus := h.working hpc (by simp) (by simp)
    simp only [meterMonitor, hpc, hw, hr]
    exact h.retry rfl (by simp [attempts, hpc, hstatus]) h.started hstatus

theorem Gauged.pollShutdown (h : u.Gauged r) (hstep : u.monitor.step .pollShutdown = some m) :
    ({ u with monitor := m } : DatabaseUnit).Gauged (u.meterMonitor r .pollShutdown) := by
  cases Monitor.step_acts hstep with
  | asked hpc hr =>
    have hstatus := h.working hpc (by simp) (by simp)
    simp only [meterMonitor, hr, if_true]
    exact h.stay (by rw [hpc]; rfl) (by simp [attempts, hpc, Monitor.signalShutdown]) h.started
      fun _ => hstatus
  | orphaned hpc hr =>
    have hstatus := h.working hpc (by simp) (by simp)
    simp only [meterMonitor, hr, if_neg Bool.false_ne_true]
    exact h.connect (by simp [attempts, hpc, hstatus]) h.started
      fun hrunning => absurd (.inr rfl) hrunning

theorem Gauged.reconnect (h : u.Gauged r) {outcome : ReconnectOutcome}
    (hstep : u.monitor.step (.reconnect outcome) = some m) :
    ({ u with monitor := m } : DatabaseUnit).Gauged (u.meterMonitor r (.reconnect outcome)) := by
  cases Monitor.step_acts hstep with
  | reconnected hpc =>
    have hstatus := h.working hpc (by simp) (by simp)
    have hstarted := h.started
    refine h.connect ?_ (Nat.le_add_left 1 _) fun _ => hstatus
    simp [attempts, hpc, hstatus]
    omega
  | unbuilt hpc =>
    exact h.stay (by rw [hpc]; rfl) (by simp [attempts, hpc]) h.started
      fun hrunning => absurd (terminating_exiting rfl) hrunning
  | unstarted hpc =>
    exact h.stay (by rw [hpc]; rfl) (by simp [attempts, hpc]) h.started
      fun hrunning => absurd (terminating_exiting rfl) hrunning

theorem Gauged.pollDrain (h : u.Gauged r) (hstep : u.monitor.step .pollDrain = some m) :
    ({ u with monitor := m } : DatabaseUnit).Gauged (u.meterMonitor r .pollDrain) := by
  have hmeter : u.meterMonitor r .pollDrain =
      if m.pc = .exiting true then r.setConnected u.database 0 else r := by
    simp only [meterMonitor, hstep]
  rw [hmeter]
  cases Monitor.step_acts hstep with
  | drained hpc =>
    have hstatus := h.working hpc (by simp) (by simp)
    exact h.connect (by simp [attempts, hpc, hstatus, Monitor.shutDown]) h.started
      fun hrunning => absurd (terminating_exiting rfl) hrunning
  | draining hpc =>
    have hstatus := h.working hpc (by simp) (by simp)
    exact h.stay (by rw [hpc]; rfl) (by simp [attempts, hpc]) h.started fun _ => hstatus

/-- The gauges of the unit stay right when its monitor moves. -/
theorem Gauged.monitor (h : u.Gauged r) {l : MonitorLabel} (hstep : u.monitor.step l = some m) :
    ({ u with monitor := m } : DatabaseUnit).Gauged (u.meterMonitor r l) := by
  cases l with
  | pollWait => exact h.pollWait hstep
  | pollShutdown => exact h.pollShutdown hstep
  | reconnect outcome => exact h.reconnect hstep
  | pollDrain => exact h.pollDrain hstep
  | wake =>
    cases Monitor.step_acts hstep with
    | woken hpc =>
      have hstatus := h.working hpc (by simp) (by simp)
      exact h.stay (by rw [hpc]; rfl) (by simp [attempts, hpc]) h.started fun _ => hstatus
  | sendExit =>
    cases Monitor.step_acts hstep with
    | signalled hpc =>
      exact h.stay (by rw [hpc]; rfl) (by simp [attempts, hpc]) h.started
        fun hrunning => absurd (.inr rfl) hrunning
  | finish | request | dropSender | tick =>
    cases Monitor.step_acts hstep
    exact h.stay rfl rfl h.started h.running

end Monitors

theorem Gauged.write (h : u.Gauged r) {l : WriteLabel} (hstep : u.writeStep l = some v) :
    v.Gauged (u.meterWrite r l) := by
  obtain ⟨hconnected, hreconnects, hdepth, hqueue, hstarted, hrunning⟩ := h
  cases writeStep_acts hstep with
  | forwards | skips => exact ⟨hconnected, hreconnects, hdepth, hqueue, hstarted, hrunning⟩
  | enqueues hk hroom =>
    refine ⟨hconnected, hreconnects, hdepth, ?_, hstarted, hrunning⟩
    rw [List.length_append]
    exact hroom
  | acknowledges hk =>
    refine ⟨hconnected, hreconnects, ?_, hqueue, hstarted, hrunning⟩
    exact Nat.le_trans (Nat.le_of_eq (GaugeVec.set_same ..)) hqueue
  | dropped hlt =>
    simp only [meterWrite]
    split <;> exact ⟨hconnected, hreconnects, hdepth, hqueue, hstarted, hrunning⟩

/-- The gauges of one database, and its reconnects, are the same. -/
structure SameGauges (d : String) (r r' : Accounts) : Prop where
  connected : r'.metrics.pipelineConnected d = r.metrics.pipelineConnected d
  reconnects : r'.metrics.pipelineReconnects.value d = r.metrics.pipelineReconnects.value d
  depth : r'.metrics.queueDepth d = r.metrics.queueDepth d

theorem SameGauges.refl (d : String) (r : Accounts) : SameGauges d r r := ⟨rfl, rfl, rfl⟩

theorem SameGauges.setConnected {d database : String} (h : d ≠ database) (value : Nat) :
    SameGauges d r (r.setConnected database value) := ⟨GaugeVec.set_other _ h _, rfl, rfl⟩

theorem SameGauges.countReconnect {d database : String} (h : d ≠ database)
    (hr : SameGauges d r r') : SameGauges d r (r'.countReconnect database) := by
  refine ⟨hr.connected, ?_, hr.depth⟩
  rw [← hr.reconnects]
  simp [Accounts.countReconnect, Ne.symm h]

theorem Gauged.frame (h : u.Gauged r) (hsame : SameGauges u.database r r') : u.Gauged r' := by
  obtain ⟨hconnected, hreconnects, hdepth⟩ := hsame
  refine ⟨?_, ?_, ?_, h.queue, h.started, h.running⟩
  · rw [hconnected]
    exact h.connected
  · rw [hreconnects]
    exact h.reconnects
  · rw [hdepth]
    exact h.depth

theorem meterMonitor_frame (u : DatabaseUnit) (r : Accounts) (l : MonitorLabel) {d : String}
    (hd : d ≠ u.database) : SameGauges d r (u.meterMonitor r l) := by
  have hset := fun value => SameGauges.setConnected (r := r) hd value
  cases l with
  | pollWait =>
    simp only [meterMonitor]
    split
    · split
      · exact (hset 0).countReconnect hd
      · split
        · exact .refl d r
        · exact hset 0
        · exact (hset 0).countReconnect hd
    · exact .refl d r
  | pollShutdown =>
    simp only [meterMonitor]
    split
    · exact .refl d r
    · exact hset 0
  | reconnect outcome =>
    cases outcome with
    | ok => exact hset 1
    | buildFailed | startFailed => exact .refl d r
  | pollDrain =>
    simp only [meterMonitor]
    split
    · split
      · exact hset 0
      · exact .refl d r
    · exact .refl d r
  | wake | sendExit | finish | request | dropSender | tick => exact .refl d r

theorem meterWrite_frame (u : DatabaseUnit) (r : Accounts) (l : WriteLabel) {d : String}
    (hd : d ≠ u.database) : SameGauges d r (u.meterWrite r l) := by
  cases l with
  | ack k => exact ⟨rfl, rfl, GaugeVec.set_other _ hd _⟩
  | cancel k =>
    simp only [meterWrite]
    split <;> exact ⟨rfl, rfl, rfl⟩
  | begin | enqueue => exact ⟨rfl, rfl, rfl⟩

theorem Metered.frame {channels : List NamedChannel} (h : Metered channels u r v r') (d : String) :
    SameGauges d r r' := by
  cases h with
  | sent => split <;> exact ⟨rfl, rfl, rfl⟩
  | received | completed | nothingFound | found | suppressed | passed | finished | visited
    | within => exact ⟨rfl, rfl, rfl⟩

/-- The loop leaves the monitor alone and only takes from the queue. -/
theorem Gauged.loop {channels : List NamedChannel} (h : u.Gauged r)
    (hmetered : Metered channels u r v r') : v.Gauged r' := by
  have hframe := h.frame (hmetered.frame u.database)
  cases hmetered with
  | received batch queue engine hl hq =>
    refine ⟨h.connected, h.reconnects, h.depth, ?_, h.started, h.running⟩
    have hqueue := h.queue
    rw [hq, List.length_cons] at hqueue
    exact Nat.le_of_succ_le hqueue
  | completed | nothingFound | found | suppressed | passed | finished | visited | within | sent =>
    exact ⟨hframe.connected, hframe.reconnects, hframe.depth, hframe.queue, hframe.started,
      hframe.running⟩

end Gauges

section Moves
variable {channels : List NamedChannel} {u v : DatabaseUnit} {r r' : Accounts}

/-- A step of one of the tasks of a unit, with its accounts. -/
inductive Accounted (channels : List NamedChannel) (u : DatabaseUnit) (r : Accounts) :
    DatabaseUnit → Accounts → Prop
  | monitor (l : MonitorLabel) (m : Monitor) (h : u.monitor.step l = some m) :
      Accounted channels u r { u with monitor := m } (u.meterMonitor r l)
  | write (l : WriteLabel) (v : DatabaseUnit) (h : u.writeStep l = some v) :
      Accounted channels u r v (u.meterWrite r l)
  | loop (v : DatabaseUnit) (r' : Accounts) (h : Metered channels u r v r') :
      Accounted channels u r v r'

theorem Balance.Lawful.kept {b : Balance} (hb : b.Lawful channels)
    (h : Accounted channels u r v r') : b.Kept r u r' v := by
  cases h with
  | monitor l m h =>
    obtain ⟨hincome, hsettled⟩ := hb.flows (meterMonitor_flows u r l)
    have hpending := hb.monitor u m
    unfold Balance.Kept
    omega
  | write l v h => exact hb.write r h
  | loop v r' h => exact hb.loop h

theorem Gauged.accounted (hu : u.Gauged r) (h : Accounted channels u r v r') : v.Gauged r' := by
  cases h with
  | monitor l m h => exact hu.monitor h
  | write l v h => exact hu.write h
  | loop v r' h => exact hu.loop h

theorem Accounted.frame (h : Accounted channels u r v r') {d : String} (hd : d ≠ u.database) :
    SameGauges d r r' := by
  cases h with
  | monitor l m h => exact meterMonitor_frame u r l hd
  | write l v h => exact meterWrite_frame u r l hd
  | loop v r' h => exact h.frame d

/-- The tasks of a unit count no reload. -/
theorem Accounted.reloads (h : Accounted channels u r v r') :
    r'.metrics.rulesLoaded = r.metrics.rulesLoaded ∧
      r'.metrics.configReloads = r.metrics.configReloads := by
  cases h with
  | monitor l m h =>
    cases l with
    | pollWait =>
      simp only [meterMonitor]
      split
      · split
        · exact ⟨rfl, rfl⟩
        · split <;> exact ⟨rfl, rfl⟩
      · exact ⟨rfl, rfl⟩
    | pollShutdown =>
      simp only [meterMonitor]
      split <;> exact ⟨rfl, rfl⟩
    | reconnect outcome => cases outcome <;> exact ⟨rfl, rfl⟩
    | pollDrain =>
      simp only [meterMonitor]
      split
      · split <;> exact ⟨rfl, rfl⟩
      · exact ⟨rfl, rfl⟩
    | wake | sendExit | finish | request | dropSender | tick => exact ⟨rfl, rfl⟩
  | write l v h =>
    cases l with
    | cancel k =>
      simp only [meterWrite]
      split <;> exact ⟨rfl, rfl⟩
    | begin | enqueue | ack => exact ⟨rfl, rfl⟩
  | loop v r' h =>
    cases h with
    | sent => split <;> exact ⟨rfl, rfl⟩
    | received | completed | nothingFound | found | suppressed | passed | finished | visited
      | within => exact ⟨rfl, rfl⟩

theorem Accounted.database (h : Accounted channels u r v r') : v.database = u.database := by
  cases h with
  | monitor l m h => rfl
  | write l v h => exact (writeStep_keeps h).1
  | loop v r' h => cases h <;> rfl

end Moves

end DatabaseUnit

end PgSense
