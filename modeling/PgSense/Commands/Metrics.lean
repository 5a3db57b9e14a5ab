import PgSense.Commands.History
import PgSense.Commands.Supervision
import PgSense.Pipeline.Metrics

/-! The metrics of the whole scanner: nothing that comes in leaves the books. -/

namespace PgSense
open Library
set_option autoImplicit false

/-- The result that the end of a reload is counted under. -/
def ScanLabel.reloaded : ScanLabel → Option Bool
  | .endReload engine => some engine.isSome
  | _ => none

/-- The metrics when the scanner has started. -/
def Accounts.start (engine : RuleEngine) (databases : List (String × ScanFilter)) : Accounts where
  metrics := {
    eventsTotal := .zero
    eventsSkipped := .zero
    findingsTotal := .zero
    dedupTotal := .zero
    alertsTotal := .zero
    pipelineReconnects := .zero
    pipelineConnected := fun d => if d ∈ databases.map Prod.fst then 1 else 0
    queueDepth := fun _ => 0
    configReloads := .zero
    rulesLoaded := engine.rules.length }
  offered := .zero
  cancelled := .zero
  passed := []

namespace ScanState

section Meter
variable (cr : Crates) (channels : List NamedChannel)

/-- The counts of the main task: those of a reload. -/
def meterMain (r : Accounts) : ScanLabel → Accounts
  | .endReload (some engine) =>
    { r with metrics := { r.metrics with
        rulesLoaded := engine.rules.length
        configReloads := r.metrics.configReloads.inc "ok" } }
  | .endReload none =>
    { r with metrics := { r.metrics with configReloads := r.metrics.configReloads.inc "error" } }
  | _ => r

/-- The counts of a step; `ok` is the result of a send that returns. -/
def meter (r : Accounts) (s : ScanState) (input : ScanLabel × Bool) (_ : ScanState) : Accounts :=
  match input with
  | (.monitor u l, _) => (s.units[u]?).elim r fun unit => unit.meterMonitor r l
  | (.write u l, _) => (s.units[u]?).elim r fun unit => unit.meterWrite r l
  | (.loop u l, ok) => (s.units[u]?).elim r fun unit => unit.meterLoop r cr channels s.shared ok l
  | (l, _) => meterMain r l

end Meter

end ScanState

/-- The scanner with its metrics. -/
def meteredMachine (cr : Crates) (channels : List NamedChannel) :
    Machine (ScanState × Accounts) (ScanLabel × Bool) :=
  (scanMachine cr channels).observed Prod.fst (ScanState.meter cr channels)

namespace ScanState

section Steps
variable {cr : Crates} {channels : List NamedChannel} {s t : ScanState} {l : ScanLabel}

/-- A step moves one unit, or it is one of the main task or of a flush task. -/
theorem step_accounted (h : s.step cr channels l = some t) (r : Accounts) (ok : Bool) :
    (∃ (k : Nat) (unit v : DatabaseUnit), s.units[k]? = some unit ∧ t.units = s.units.set k v ∧
      DatabaseUnit.Accounted channels unit r v (meter cr channels r s (l, ok) t) ∧
      l.published = none ∧ l.reloaded = none) ∨
    ((t.units = s.units ∨ t.units = s.requestShutdown.units) ∧
      meter cr channels r s (l, ok) t = meterMain r l) := by
  cases step_acts h with
  | monitored hk hlocal hm =>
    simp only [meter, hk, Option.elim_some]
    exact .inl ⟨_, _, _, hk, rfl, .monitor _ _ hm, rfl, rfl⟩
  | signalled hk hpc hroom hm =>
    simp only [meter, hk, Option.elim_some]
    exact .inl ⟨_, _, _, hk, rfl, .monitor _ _ hm, rfl, rfl⟩
  | written hk hv =>
    simp only [meter, hk, Option.elim_some]
    exact .inl ⟨_, _, _, hk, rfl, .write _ _ hv, rfl, rfl⟩
  | looped hk hv =>
    simp only [meter, hk, Option.elim_some]
    exact .inl ⟨_, _, _, hk, rfl, .loop _ _ (DatabaseUnit.loopStep_metered hv r ok), rfl, rfl⟩
  | interrupted => exact .inr ⟨.inr rfl, rfl⟩
  | flushed => exact .inr ⟨.inl (stepFlush_units _ _), rfl⟩
  | timed | received | reloading | reloaded | posted => exact .inr ⟨.inl rfl, rfl⟩

theorem meterMain_flows (r : Accounts) (l : ScanLabel) : DatabaseUnit.SameFlows r (meterMain r l) := by
  unfold meterMain
  split <;> exact ⟨rfl, rfl, rfl, rfl, rfl, rfl, rfl, rfl⟩

theorem meterMain_gauges (d : String) (r : Accounts) (l : ScanLabel) :
    DatabaseUnit.SameGauges d r (meterMain r l) := by
  unfold meterMain
  split <;> exact ⟨rfl, rfl, rfl⟩

end Steps

section Balances
variable {cr : Crates} {channels : List NamedChannel}

/-- What has come in is settled or still with a unit. -/
def Balanced (b : DatabaseUnit.Balance) (s : ScanState × Accounts) : Prop :=
  b.income s.2 = b.settled s.2 + tally b.pending s.1.units

theorem Balanced.step {b : DatabaseUnit.Balance} (hb : b.Lawful channels)
    {s t : ScanState × Accounts} {i : ScanLabel × Bool} (hs : Balanced b s)
    (h : (meteredMachine cr channels).step s i = some t) : Balanced b t := by
  obtain ⟨l, ok⟩ := i
  obtain ⟨hstep, haccounts⟩ := (Machine.observed_eq_some _ _ _).mp h
  have hcases := step_accounted (l := l) hstep s.2 ok
  unfold Balanced at hs ⊢
  rw [haccounts]
  rcases hcases with ⟨k, unit, v, hk, hunits, hmoves, _⟩ | ⟨hunits, hmeter⟩
  · have hkept := hb.kept hmoves
    have hset := tally_set b.pending hk v
    rw [hunits]
    unfold DatabaseUnit.Balance.Kept at hkept
    omega
  · obtain ⟨hincome, hsettled⟩ := hb.flows (meterMain_flows s.2 l)
    have hpending : tally b.pending t.1.units = tally b.pending s.1.units := by
      rcases hunits with hunits | hunits
      · rw [hunits]
      · rw [hunits]
        exact tally_map (fun unit => hb.monitor unit _) s.1.units
    rw [hmeter, hincome, hsettled, hpending]
    exact hs

/-- A lawful balance that starts at nothing is kept by every run. -/
theorem run_balanced {b : DatabaseUnit.Balance} (hb : b.Lawful channels) (engine : RuleEngine)
    (window : Nat) (databases : List (String × ScanFilter))
    (hincome : b.income (.start engine databases) = 0)
    (hsettled : b.settled (.start engine databases) = 0)
    (hpending : ∀ d filter, b.pending (.start d filter) = 0)
    {is : List (ScanLabel × Bool)} {t : ScanState × Accounts}
    (h : (meteredMachine cr channels).run (start engine window databases, .start engine databases)
      is = some t) : Balanced b t := by
  refine Machine.run_invariant (fun hs hstep => Balanced.step hb hs hstep) ?_ h
  have hunits : tally b.pending (start engine window databases).units = 0 := by
    refine tally_eq_zero.mpr ?_
    intro unit hunit
    obtain ⟨db, _, rfl⟩ := List.mem_map.mp hunit
    exact hpending db.1 db.2
  rw [Balanced, hincome, hsettled, hunits]

theorem quiet_pending {s : ScanState} (hquiet : s.Quiet) {b : DatabaseUnit.Balance}
    (hb : ∀ u : DatabaseUnit, u.queue = [] → u.loop = .idle → u.writes = [] → b.pending u = 0) :
    tally b.pending s.units = 0 := by
  refine tally_eq_zero.mpr ?_
  intro unit hunit
  obtain ⟨hqueue, hloop, hwrites⟩ := hquiet unit hunit
  exact hb unit hqueue hloop hwrites

variable (cr channels)

/-- No event is lost from the books: in every run, the inserts and updates of a database that
were handed to `write_events` are those skipped by a filter, those scanned, those lost with a
dropped call, and those that still wait in a call, in the queue or in the loop. Once
nothing is in flight, none waits. Deletes and other events are passed over and counted
nowhere. -/
theorem events_accounted (engine : RuleEngine) (window : Nat)
    (databases : List (String × ScanFilter)) {is : List (ScanLabel × Bool)} {t : ScanState}
    {r : Accounts}
    (h : (meteredMachine cr channels).run (start engine window databases, .start engine databases)
      is = some (t, r)) (d : String) :
    let closed := r.metrics.eventsSkipped.value (d, "schema_excluded") +
      r.metrics.eventsSkipped.value (d, "table_excluded") + r.metrics.eventsTotal.value d +
        r.cancelled.value d
    r.offered.value d = closed + tally (DatabaseUnit.eventBalance d).pending t.units ∧
      (t.Quiet → r.offered.value d = closed) := by
  have hbalanced := run_balanced (DatabaseUnit.eventBalance_lawful channels d) engine window databases
    rfl rfl (fun _ _ => rfl) h
  refine ⟨hbalanced, ?_⟩
  intro hquiet
  have hpending := quiet_pending hquiet (b := DatabaseUnit.eventBalance d)
    fun u hqueue hloop hwrites => by
      simp [DatabaseUnit.eventBalance, hqueue, hloop, hwrites, DatabaseUnit.loopEvents]
  exact hbalanced.trans (by rw [hpending]; rfl)

/-- Every run of the scanner is a run with its metrics, whatever its sends return. -/
theorem exists_metered {s t : ScanState} {ls : List ScanLabel}
    (h : (scanMachine cr channels).run s ls = some t) (accounts : Accounts) (ok : Bool) :
    ∃ r, (meteredMachine cr channels).run (s, accounts) (ls.map fun l => (l, ok)) = some (t, r) := by
  have hlabels : (ls.map fun l => (l, ok)).map Prod.fst = ls := by
    rw [List.map_map]
    exact List.map_id ls
  rw [← hlabels] at h
  exact Machine.exists_observed h accounts

theorem events_accounted_ssn : ∃ t r,
    (meteredMachine .sample logOnly).run
        (start ssnEngine 10 oneDatabase, .start ssnEngine oneDatabase)
        (untilLogged.map fun l => (l, true)) = some (t, r) ∧
    let closed := r.metrics.eventsSkipped.value ("db", "schema_excluded") +
      r.metrics.eventsSkipped.value ("db", "table_excluded") + r.metrics.eventsTotal.value "db" +
        r.cancelled.value "db"
    r.offered.value "db" = closed + tally (DatabaseUnit.eventBalance "db").pending t.units ∧
      (t.Quiet → r.offered.value "db" = closed) := by
  obtain ⟨t, _, _, ht, _, _⟩ := untilLogged_run
  obtain ⟨r, hr⟩ := exists_metered .sample logOnly ht (.start ssnEngine oneDatabase) true
  exact ⟨t, r, hr, events_accounted .sample logOnly ssnEngine 10 oneDatabase hr "db"⟩

/-- No finding and no alert is lost from the books: in every run, the findings of a
database are those let through, those suppressed and those not asked about yet; those let
through are the ones counted so; and the sends they are routed to by a channel name are
those counted as delivered or failed under it, and those still to be made. -/
theorem findings_accounted (engine : RuleEngine) (window : Nat)
    (databases : List (String × ScanFilter)) {is : List (ScanLabel × Bool)} {t : ScanState}
    {r : Accounts}
    (h : (meteredMachine cr channels).run (start engine window databases, .start engine databases)
      is = some (t, r)) (d name : String) :
    let found := r.metrics.findingsTotal.sum fun label => label.1 = d
    let decided := r.metrics.dedupTotal.value (d, "passed") +
      r.metrics.dedupTotal.value (d, "suppressed")
    let routed := tally (fun f => DatabaseUnit.routedNamed name f channels) r.passed
    let sent := r.metrics.alertsTotal.value (name, "ok") +
      r.metrics.alertsTotal.value (name, "error")
    found = decided + tally (fun u => DatabaseUnit.findingsOf d (DatabaseUnit.awaiting u.loop)) t.units ∧
      DatabaseUnit.findingsOf d r.passed = r.metrics.dedupTotal.value (d, "passed") ∧
      routed = sent + tally (fun u => DatabaseUnit.owed channels name u.loop) t.units ∧
      (t.Quiet → found = decided ∧ routed = sent) := by
  have hfindings := run_balanced (DatabaseUnit.findingBalance_lawful channels d) engine window
    databases rfl rfl (fun _ _ => rfl) h
  have hpassed := run_balanced (DatabaseUnit.passedBalance_lawful channels d) engine window databases
    rfl rfl (fun _ _ => rfl) h
  have halerts := run_balanced (DatabaseUnit.alertBalance_lawful channels name) engine window
    databases rfl rfl (fun _ _ => rfl) h
  refine ⟨hfindings, ?_, halerts, ?_⟩
  · have hnone : tally (DatabaseUnit.passedBalance d).pending t.units = 0 :=
      tally_eq_zero.mpr fun _ _ => rfl
    exact hpassed.trans (by rw [hnone]; rfl)
  · intro hquiet
    have hwaiting := quiet_pending hquiet (b := DatabaseUnit.findingBalance d) fun u _ hloop _ => by
      simp [DatabaseUnit.findingBalance, hloop, DatabaseUnit.awaiting, DatabaseUnit.findingsOf]
    have howed := quiet_pending hquiet (b := DatabaseUnit.alertBalance channels name)
      fun u _ hloop _ => by simp [DatabaseUnit.alertBalance, hloop, DatabaseUnit.owed]
    exact ⟨hfindings.trans (by rw [hwaiting]; rfl), halerts.trans (by rw [howed]; rfl)⟩

theorem findings_accounted_ssn : ∃ t r,
    (meteredMachine .sample logOnly).run
        (start ssnEngine 10 oneDatabase, .start ssnEngine oneDatabase)
        (untilLogged.map fun l => (l, true)) = some (t, r) ∧
    let found := r.metrics.findingsTotal.sum fun label => label.1 = "db"
    let decided := r.metrics.dedupTotal.value ("db", "passed") +
      r.metrics.dedupTotal.value ("db", "suppressed")
    let routed := tally (fun f => DatabaseUnit.routedNamed "log" f logOnly) r.passed
    let sent := r.metrics.alertsTotal.value ("log", "ok") +
      r.metrics.alertsTotal.value ("log", "error")
    found = decided +
        tally (fun u => DatabaseUnit.findingsOf "db" (DatabaseUnit.awaiting u.loop)) t.units ∧
      DatabaseUnit.findingsOf "db" r.passed = r.metrics.dedupTotal.value ("db", "passed") ∧
      routed = sent + tally (fun u => DatabaseUnit.owed logOnly "log" u.loop) t.units ∧
      (t.Quiet → found = decided ∧ routed = sent) := by
  obtain ⟨t, _, _, ht, _, _⟩ := untilLogged_run
  obtain ⟨r, hr⟩ := exists_metered .sample logOnly ht (.start ssnEngine oneDatabase) true
  exact ⟨t, r, hr, findings_accounted .sample logOnly ssnEngine 10 oneDatabase hr "db" "log"⟩

end Balances

section Gauges
variable {cr : Crates} {channels : List NamedChannel}

/-- The gauges, against what they report; `past` is what has happened. -/
structure AllGauged (databases : List (String × ScanFilter)) (past : List (ScanLabel × Bool))
    (s : ScanState × Accounts) : Prop where
  names : s.1.units.map DatabaseUnit.database = databases.map Prod.fst
  units : ∀ unit ∈ s.1.units, unit.Gauged s.2
  rules : s.2.metrics.rulesLoaded = s.1.shared.engine.rules.length
  reloads : ∀ ok, s.2.metrics.configReloads.value (alertStatus ok) =
    past.countP fun i => i.1.reloaded = some ok

/-- Units at different positions have different names. -/
theorem name_ne {s : ScanState} {j k : Nat} {other unit : DatabaseUnit}
    (hnames : (s.units.map DatabaseUnit.database).Nodup) (hj : s.units[j]? = some other)
    (hk : s.units[k]? = some unit) (hjk : j ≠ k) : other.database ≠ unit.database := by
  intro heq
  obtain ⟨hlt, _⟩ := List.getElem?_eq_some_iff.mp hj
  apply hjk
  apply (List.getElem?_inj (by rwa [List.length_map]) hnames).mp
  rw [List.getElem?_map, List.getElem?_map, hj, hk, Option.map_some, Option.map_some, heq]

/-- A step of a unit that keeps its name, and its place among names of their own, keeps
the gauges of the others. -/
theorem gauged_set {s : ScanState} {r r' : Accounts} {k : Nat} {unit v : DatabaseUnit}
    (hnames : (s.units.map DatabaseUnit.database).Nodup) (hgauged : ∀ w ∈ s.units, w.Gauged r)
    (hk : s.units[k]? = some unit) (hmoves : DatabaseUnit.Accounted channels unit r v r') :
    ∀ w ∈ s.units.set k v, w.Gauged r' := by
  intro w hw
  obtain ⟨j, hj⟩ := List.getElem?_of_mem hw
  by_cases hjk : j = k
  · subst hjk
    obtain ⟨hlt, _⟩ := List.getElem?_eq_some_iff.mp hk
    rw [List.getElem?_set_self hlt] at hj
    cases hj
    exact (hgauged unit (List.mem_of_getElem? hk)).accounted hmoves
  · rw [List.getElem?_set_ne (Ne.symm hjk)] at hj
    exact (hgauged w (List.mem_of_getElem? hj)).frame (hmoves.frame (name_ne hnames hj hk hjk))

theorem meterMain_reloads (r : Accounts) (l : ScanLabel) (ok : Bool) :
    (meterMain r l).metrics.rulesLoaded =
        (l.published.map fun engine => engine.rules.length).getD r.metrics.rulesLoaded ∧
      (meterMain r l).metrics.configReloads.value (alertStatus ok) =
        r.metrics.configReloads.value (alertStatus ok) +
          if l.reloaded = some ok then 1 else 0 := by
  cases l with
  | endReload engine =>
    cases engine <;> cases ok <;>
      simp [meterMain, ScanLabel.published, ScanLabel.reloaded, alertStatus]
  | monitor | write | loop | timer | recvExit | startReload | ctrlC | flush | posted =>
    exact ⟨rfl, rfl⟩

theorem requestShutdown_gauged {s : ScanState} {r : Accounts}
    (h : ∀ unit ∈ s.units, unit.Gauged r) : ∀ unit ∈ s.requestShutdown.units, unit.Gauged r := by
  intro unit hunit
  obtain ⟨before, hbefore, rfl⟩ := List.mem_map.mp hunit
  exact (h before hbefore).monitor (l := .request) rfl

theorem AllGauged.step {databases : List (String × ScanFilter)}
    (hdatabases : (databases.map Prod.fst).Nodup) {past : List (ScanLabel × Bool)}
    {s t : ScanState × Accounts} {i : ScanLabel × Bool} (hs : AllGauged databases past s)
    (h : (meteredMachine cr channels).step s i = some t) : AllGauged databases (past ++ [i]) t := by
  obtain ⟨l, ok⟩ := i
  obtain ⟨hstep, haccounts⟩ := (Machine.observed_eq_some _ _ _).mp h
  have hengine := step_engine hstep
  have hcases := step_accounted (l := l) hstep s.2 ok
  rw [← haccounts] at hcases
  rcases hcases with
    ⟨k, unit, v, hk, hunits, hmoves, hpublished, hreloaded⟩ | ⟨hunits, hmeter⟩
  · obtain ⟨hrules, hreloads⟩ := hmoves.reloads
    refine ⟨?_, ?_, ?_, ?_⟩
    · have hname : (s.1.units.map DatabaseUnit.database)[k]? = some v.database := by
        rw [List.getElem?_map, hk, hmoves.database]
        rfl
      obtain ⟨hlt, hget⟩ := List.getElem?_eq_some_iff.mp hname
      rw [hunits, List.map_set, ← hs.names, ← hget]
      exact List.set_getElem_self hlt
    · rw [hunits]
      exact gauged_set (by rw [hs.names]; exact hdatabases) hs.units hk hmoves
    · rw [hrules, hengine, hpublished]
      exact hs.rules
    · intro ok'
      rw [hreloads, hs.reloads ok', List.countP_append, List.countP_singleton, hreloaded]
      rfl
  · have hgauges := fun d => meterMain_gauges d s.2 l
    rw [← hmeter] at hgauges
    refine ⟨?_, ?_, ?_, ?_⟩
    · rw [← hs.names]
      rcases hunits with hunits | hunits
      · rw [hunits]
      · rw [hunits, requestShutdown, List.map_map]
        rfl
    · have hsame : ∀ unit ∈ s.1.units, unit.Gauged t.2 :=
        fun unit hunit => (hs.units unit hunit).frame (hgauges unit.database)
      rcases hunits with hunits | hunits
      · rwa [hunits]
      · rw [hunits]
        exact requestShutdown_gauged hsame
    · rw [hmeter, (meterMain_reloads s.2 l ok).1, hengine, hs.rules]
      cases l.published <;> rfl
    · intro ok'
      rw [hmeter, (meterMain_reloads s.2 l ok').2, hs.reloads ok', List.countP_append,
        List.countP_singleton]
      simp only [decide_eq_true_eq]

theorem start_allGauged (engine : RuleEngine) (window : Nat)
    (databases : List (String × ScanFilter)) :
    AllGauged databases [] (start engine window databases, .start engine databases) := by
  refine ⟨?_, ?_, rfl, ?_⟩
  · simp [start, DatabaseUnit.start]
  · intro unit hunit
    obtain ⟨db, hdb, rfl⟩ := List.mem_map.mp hunit
    refine ⟨if_pos (List.mem_map_of_mem hdb), rfl, Nat.zero_le _, Nat.zero_le _, Nat.le_refl 1, ?_⟩
    exact fun _ => rfl
  · intro ok
    rfl

variable (cr channels)

/-- The gauges tell the truth: in every run over databases that pass the checks of the
configuration, `pipeline_connected` is 1 exactly while the monitor of a database watches,
waits after a reconnect or shuts down its pipeline, and then its status is running;
`pipeline_reconnects_total` is the number of attempts; `queue_depth` is within the
capacity; `rules_loaded` is the size of the active rule set; and
`config_reloads_total` counts the reloads by their result. -/
theorem gauges_right (engine : RuleEngine) (window : Nat) {databases : List DatabaseConfig}
    (hvalid : databaseErrors databases = []) {is : List (ScanLabel × Bool)} {t : ScanState}
    {r : Accounts}
    (h : (meteredMachine cr channels).run
      (start engine window (databases.map DatabaseConfig.unit),
        .start engine (databases.map DatabaseConfig.unit)) is = some (t, r)) :
    (∀ unit ∈ t.units,
      r.metrics.pipelineConnected unit.database = unit.monitor.pc.connected ∧
      (r.metrics.pipelineConnected unit.database = 1 → unit.monitor.status = .running) ∧
      r.metrics.pipelineReconnects.value unit.database = DatabaseUnit.attempts unit.monitor ∧
      r.metrics.queueDepth unit.database ≤ queueCapacity) ∧
    r.metrics.rulesLoaded = t.shared.engine.rules.length ∧
    ∀ ok, r.metrics.configReloads.value (alertStatus ok) =
      is.countP fun i => i.1.reloaded = some ok := by
  have hnames : ((databases.map DatabaseConfig.unit).map Prod.fst).Nodup := by
    rw [List.map_map]
    exact (databaseErrors_eq_nil.mp hvalid).2.1
  have hall := Machine.run_invariant_history (fun hs hstep => AllGauged.step hnames hs hstep)
    (start_allGauged engine window (databases.map DatabaseConfig.unit)) h
  refine ⟨?_, hall.rules, hall.reloads⟩
  intro unit hunit
  have hgauged := hall.units unit hunit
  refine ⟨hgauged.connected, ?_, hgauged.reconnects, hgauged.depth⟩
  intro hone
  apply hgauged.running
  rw [hgauged.connected] at hone
  rintro (⟨ok, hpc⟩ | hpc)
  · rw [hpc] at hone
    cases hone
  · rw [hpc] at hone
    cases hone

theorem gauges_right_two : databaseErrors twoDatabases = [] ∧ ∃ t r,
    (meteredMachine .sample []).run
      (start noRules 0 (twoDatabases.map DatabaseConfig.unit),
        .start noRules (twoDatabases.map DatabaseConfig.unit))
      (bothEnd.map fun l => (l, true)) = some (t, r) ∧
    (∀ unit ∈ t.units,
      r.metrics.pipelineConnected unit.database = unit.monitor.pc.connected ∧
      (r.metrics.pipelineConnected unit.database = 1 → unit.monitor.status = .running) ∧
      r.metrics.pipelineReconnects.value unit.database = DatabaseUnit.attempts unit.monitor ∧
      r.metrics.queueDepth unit.database ≤ queueCapacity) ∧
    r.metrics.rulesLoaded = t.shared.engine.rules.length ∧
    ∀ ok, r.metrics.configReloads.value (alertStatus ok) =
      (bothEnd.map fun l => (l, true)).countP fun i => i.1.reloaded = some ok := by
  have hvalid : databaseErrors twoDatabases = [] := by decide +kernel
  have ht : (scanMachine .sample []).run
      (start noRules 0 (twoDatabases.map DatabaseConfig.unit)) bothEnd = some _ := rfl
  obtain ⟨r, hr⟩ := exists_metered .sample [] ht
    (.start noRules (twoDatabases.map DatabaseConfig.unit)) true
  exact ⟨hvalid, _, r, hr, gauges_right .sample [] noRules 0 hvalid hr⟩

end Gauges

end ScanState

end PgSense
