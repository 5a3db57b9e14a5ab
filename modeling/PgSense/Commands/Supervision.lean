import PgSense.Commands.Shutdown
import Mathlib.Data.List.Perm.Subperm

/-! How the monitor tasks, the exit channel and the main loop end together: what of
the scanner's state the protocol depends on, and the moves it makes there. -/

namespace PgSense
open Library
set_option autoImplicit false

/-- Unicode `White_Space`, as in `char::is_whitespace`. -/
def isWhiteSpace (c : Char) : Bool :=
  let n := c.toNat
  (9 ≤ n && n ≤ 13) || n == 32 || n == 0x85 || n == 0xA0 || n == 0x1680 ||
    (0x2000 ≤ n && n ≤ 0x200A) || n == 0x2028 || n == 0x2029 || n == 0x202F || n == 0x205F ||
    n == 0x3000

/-- `s.trim().is_empty()` -/
def trimsToEmpty (s : String) : Bool := s.toList.all isWhiteSpace

structure DatabaseConfig where
  host : String
  port : Nat
  dbname : String
  username : String
  publication : String
  scan : Option ScanFilter

namespace DatabaseConfig
variable (config : DatabaseConfig)

def databaseId : String := s!"{config.host}/{config.dbname}"

def validate (name : String) : List String :=
  (if trimsToEmpty config.host then [s!"database '{name}': host is empty"] else []) ++
  (if config.port = 0 then [s!"database '{name}': port must not be 0"] else []) ++
  (if trimsToEmpty config.dbname then [s!"database '{name}': dbname is empty"] else []) ++
  (if trimsToEmpty config.username then [s!"database '{name}': username is empty"] else []) ++
  if trimsToEmpty config.publication then [s!"database '{name}': publication is empty"] else []

def unit : String × ScanFilter :=
  (config.databaseId, config.scan.getD ⟨.empty, .empty, .empty⟩)

end DatabaseConfig

/-- The database loop of `Config::validate`, over the ids seen so far. -/
def databaseLoop (seen : List String) : List DatabaseConfig → List String
  | [] => []
  | db :: rest =>
    let id := db.databaseId
    (if seen.contains id then
      [s!"duplicate database '{id}' — each host/dbname combination must be unique"] else []) ++
      db.validate id ++ databaseLoop (id :: seen) rest

/-- What `Config::validate` says about the databases. -/
def databaseErrors (databases : List DatabaseConfig) : List String :=
  (if databases.isEmpty then
    ["no databases configured — add at least one [[databases]] entry to your config file"]
    else []) ++ databaseLoop [] databases

theorem databaseErrors_nonempty {databases : List DatabaseConfig}
    (h : databaseErrors databases = []) : databases ≠ [] := by
  intro hnil
  rw [hnil] at h
  cases h

theorem databaseLoop_eq_nil {databases : List DatabaseConfig} (seen : List String) :
    databaseLoop seen databases = [] ↔
      (databases.map DatabaseConfig.databaseId).Nodup ∧
        ∀ db ∈ databases, db.databaseId ∉ seen ∧ db.validate db.databaseId = [] := by
  induction databases generalizing seen with
  | nil => simp [databaseLoop]
  | cons db rest ih =>
    rw [databaseLoop, List.forall_mem_cons]
    simp only [List.append_eq_nil_iff, ih, ite_eq_right_iff, reduceCtorEq, imp_false,
      List.contains_eq_mem, decide_eq_true_eq, List.map_cons, List.nodup_cons, List.mem_map,
      List.mem_cons, not_or, not_exists, not_and]
    constructor
    · intro h
      obtain ⟨⟨hseen, hfields⟩, hnodup, hrest⟩ := h
      refine ⟨⟨fun other hother => (hrest other hother).1.1, hnodup⟩, ⟨hseen, hfields⟩, ?_⟩
      exact fun other hother => ⟨(hrest other hother).1.2, (hrest other hother).2⟩
    · intro h
      obtain ⟨⟨hfresh, hnodup⟩, ⟨hseen, hfields⟩, hrest⟩ := h
      refine ⟨⟨hseen, hfields⟩, hnodup, ?_⟩
      intro other hother
      exact ⟨⟨hfresh other hother, (hrest other hother).1⟩, (hrest other hother).2⟩

/-- The databases that pass are some, with ids of their own and no bad field. -/
theorem databaseErrors_eq_nil {databases : List DatabaseConfig} :
    databaseErrors databases = [] ↔
      databases ≠ [] ∧ (databases.map DatabaseConfig.databaseId).Nodup ∧
        ∀ db ∈ databases, db.validate db.databaseId = [] := by
  rw [databaseErrors, List.append_eq_nil_iff, databaseLoop_eq_nil]
  cases databases <;> simp

/-- The status stored before an exit signal with the given result. -/
def exitStatus : Bool → PipelineStatus
  | true => .exited
  | false => .failed

theorem exitStatus_ne_running (ok : Bool) : exitStatus ok ≠ .running := by
  cases ok <;> nofun

def MonitorPc.working : MonitorPc → Bool
  | .exiting _ => false
  | .ended => false
  | _ => true

/-- What the supervision protocol depends on in a monitor. -/
structure Control where
  pc : MonitorPc
  status : PipelineStatus
  sent : List Bool
  senderDropped : Bool
  deriving DecidableEq

namespace Control

/-- The task runs and is `Running`, or its terminal status is stored and its one
signal is about to be sent, or was. -/
def Signalled (c : Control) : Prop :=
  c.senderDropped = false ∧
    match c.pc with
    | .exiting ok => c.sent = [] ∧ c.status = exitStatus ok
    | .ended => ∃ ok, c.sent = [ok] ∧ c.status = exitStatus ok
    | _ => c.sent = [] ∧ c.status = .running

theorem signalled_working {c : Control} (h : c.pc.working = true) :
    c.Signalled ↔ c.senderDropped = false ∧ c.sent = [] ∧ c.status = .running := by
  unfold Signalled
  cases hpc : c.pc with
  | exiting ok =>
    rw [hpc] at h
    cases h
  | ended =>
    rw [hpc] at h
    cases h
  | _ => exact Iff.rfl

theorem Signalled.terminal {c : Control} (h : c.Signalled) (hstatus : c.status ≠ .running) :
    (∃ ok, c.pc = .exiting ok) ∨ c.pc = .ended := by
  cases hpc : c.pc with
  | exiting ok => exact .inl ⟨ok, rfl⟩
  | ended => exact .inr rfl
  | _ =>
    have hworking : c.pc.working = true := by
      rw [hpc]
      rfl
    exact absurd ((signalled_working hworking).mp h).2.2 hstatus

theorem Signalled.ended_status {c : Control} (h : c.Signalled) (hpc : c.pc = .ended) :
    c.status ≠ .running := by
  obtain ⟨_, hstate⟩ := h
  rw [hpc] at hstate
  obtain ⟨ok, _, hstatus⟩ := hstate
  rw [hstatus]
  exact exitStatus_ne_running ok

end Control

def Monitor.control (m : Monitor) : Control := ⟨m.pc, m.status, m.sent, m.senderDropped⟩

/-- What a monitor's own steps do to the protocol: most leave it running, an exit
stores the status first, and the signal is the last step. -/
inductive ControlMoves : Control → MonitorLabel → Control → Prop where
  | keep (c : Control) (l : MonitorLabel) : ControlMoves c l c
  | work {c : Control} {l : MonitorLabel} {pc : MonitorPc}
    (hbefore : c.pc.working = true) (hafter : pc.working = true) : ControlMoves c l { c with pc }
  | exit {c : Control} {l : MonitorLabel} (ok : Bool) (hbefore : c.pc.working = true) :
    ControlMoves c l { c with pc := .exiting ok, status := exitStatus ok }
  | signal {c : Control} {ok : Bool} (h : c.pc = .exiting ok) :
    ControlMoves c .sendExit { c with pc := .ended, sent := c.sent ++ [ok] }

namespace Monitor
variable {m n : Monitor} {l : MonitorLabel}

theorem working_at {pc : MonitorPc} (hpc : m.pc = pc) (h : pc.working = true) :
    m.control.pc.working = true := by
  have hcontrol : m.control.pc = pc := hpc
  rw [hcontrol]
  exact h

theorem step_control (hl : l ≠ .dropSender) (hdropped : m.senderDropped = false)
    (h : m.step l = some n) : ControlMoves m.control l n.control := by
  cases step_acts h with
  | consumed hpc | pending hpc | failed hpc | asked hpc =>
    exact .work (working_at hpc rfl) rfl
  | succeeded hpc => exact .exit true (working_at hpc rfl)
  | orphaned hpc hr hd =>
    rw [hdropped] at hd
    cases hd
  | reconnected hpc => exact .work (working_at hpc rfl) rfl
  | unbuilt hpc => exact .exit false (working_at hpc rfl)
  | unstarted hpc => exact .exit false (working_at hpc rfl)
  | woken hpc => exact .work (working_at hpc rfl) rfl
  | drained hpc => exact .exit true (working_at hpc rfl)
  | draining hpc => exact .work (working_at hpc rfl) rfl
  | signalled hpc => exact .signal hpc
  | finished | requested | ticked => exact .keep _ _
  | senderDropped => exact absurd rfl hl

end Monitor

namespace ControlMoves
variable {c d : Control} {l : MonitorLabel}

theorem signalled (h : ControlMoves c l d) (hc : c.Signalled) : d.Signalled := by
  cases h with
  | keep => exact hc
  | work hbefore hafter =>
    apply (Control.signalled_working hafter).mpr
    exact (Control.signalled_working hbefore).mp hc
  | exit ok hbefore =>
    obtain ⟨hdropped, hsent, _⟩ := (Control.signalled_working hbefore).mp hc
    exact ⟨hdropped, hsent, rfl⟩
  | @signal ok hpc =>
    obtain ⟨hdropped, hstate⟩ := hc
    rw [hpc] at hstate
    obtain ⟨hsent, hstatus⟩ := hstate
    refine ⟨hdropped, ok, ?_, hstatus⟩
    rw [hsent, List.nil_append]

/-- A terminal status is final. -/
theorem status (h : ControlMoves c l d) (hc : c.Signalled) (hstatus : c.status ≠ .running) :
    d.status = c.status := by
  cases h with
  | keep => rfl
  | work hbefore hafter => rfl
  | exit ok hbefore =>
    exact absurd ((Control.signalled_working hbefore).mp hc).2.2 hstatus
  | signal hpc => rfl

/-- Only the signal ends a task. -/
theorem ended (h : ControlMoves c l d) (hl : l ≠ .sendExit) (hd : d.pc = .ended) :
    c.pc = .ended := by
  cases h with
  | keep => exact hd
  | work hbefore hafter =>
    dsimp only at hd
    rw [hd] at hafter
    cases hafter
  | exit ok hbefore => cases hd
  | signal hpc => exact absurd rfl hl

theorem of_ended (h : ControlMoves c l d) (hc : c.pc = .ended) : d = c := by
  cases h with
  | keep => rfl
  | work hbefore hafter =>
    rw [hc] at hbefore
    cases hbefore
  | exit ok hbefore =>
    rw [hc] at hbefore
    cases hbefore
  | signal hpc =>
    rw [hc] at hpc
    cases hpc

end ControlMoves

namespace ScanState

def controls (s : ScanState) : List Control := s.units.map fun unit => unit.monitor.control

/-- The main loop has not broken. -/
def looping (s : ScanState) : Bool := s.main == .selecting || s.main == .reloading

theorem allTerminated_eq (s : ScanState) :
    s.allTerminated = s.controls.all fun c => c.status != .running := by
  simp only [allTerminated, controls, List.all_map]
  rfl

theorem controls_at {s : ScanState} {u : Nat} {unit : DatabaseUnit} (hu : s.units[u]? = some unit) :
    s.controls[u]? = some unit.monitor.control := by
  unfold controls
  rw [List.getElem?_map, hu]
  rfl

theorem controls_setUnit {s : ScanState} {u : Nat} {unit : DatabaseUnit} (v : DatabaseUnit)
    (hu : s.units[u]? = some unit) (hmonitor : v.monitor.control = unit.monitor.control) :
    (s.setUnit u v).controls = s.controls := by
  obtain ⟨hlt, heq⟩ := List.getElem?_eq_some_iff.mp (controls_at hu)
  unfold controls setUnit
  rw [List.map_set, hmonitor, ← heq]
  exact List.set_getElem_self hlt

/-- The moves of the protocol, over the controls, the exit channel and the loop. -/
inductive Supervises (s t : ScanState) : Prop where
  | idle (hcontrols : t.controls = s.controls) (hexits : t.exits = s.exits)
    (hlooping : t.looping = s.looping)
  | monitor {u : Nat} {c d : Control} {l : MonitorLabel} (hu : s.controls[u]? = some c)
    (hmove : ControlMoves c l d) (hl : l ≠ .sendExit) (hcontrols : t.controls = s.controls.set u d)
    (hexits : t.exits = s.exits) (hlooping : t.looping = s.looping)
  | signal {u : Nat} {c : Control} {ok : Bool} (hu : s.controls[u]? = some c)
    (hpc : c.pc = .exiting ok)
    (hcontrols : t.controls = s.controls.set u { c with pc := .ended, sent := c.sent ++ [ok] })
    (hexits : t.exits = s.exits ++ [(u, ok)]) (hlooping : t.looping = s.looping)
  | receive {exit : Nat × Bool} (hcontrols : t.controls = s.controls)
    (hexits : s.exits = exit :: t.exits) (hlooping : t.looping = !s.allTerminated)

section Moves
variable {cr : Crates} {channels : List NamedChannel} {s t : ScanState}

theorem monitor_supervises (hs : ∀ c ∈ s.controls, c.Signalled) {u : Nat} {unit : DatabaseUnit}
    {l : MonitorLabel} {m : Monitor} (hu : s.units[u]? = some unit)
    (hlocal : localMove unit l = true) (hm : unit.monitor.step l = some m) :
    s.Supervises (s.setUnit u { unit with monitor := m }) := by
  have hc := controls_at hu
  have hdropped : unit.monitor.senderDropped = false := (hs _ (List.mem_of_getElem? hc)).1
  have hl : l ≠ .dropSender ∧ l ≠ .sendExit := by
    constructor
    · rintro rfl
      cases hlocal
    · rintro rfl
      cases hlocal
  refine .monitor hc (Monitor.step_control hl.1 hdropped hm) hl.2 ?_ rfl rfl
  simp only [controls, setUnit, List.map_set]

theorem signal_supervises {u : Nat} {unit : DatabaseUnit} {ok : Bool} {m : Monitor}
    (hu : s.units[u]? = some unit) (hpc : unit.monitor.pc = .exiting ok)
    (hm : unit.monitor.step .sendExit = some m) :
    s.Supervises
      { s.setUnit u { unit with monitor := m } with exits := s.exits ++ [(u, ok)] } := by
  simp only [Monitor.step, hpc, Option.some.injEq] at hm
  subst hm
  refine .signal (controls_at hu) hpc ?_ rfl rfl
  simp only [controls, setUnit, List.map_set]
  rfl

variable (channels s) in
theorem stepFlush_frame (i now : Nat) : (s.stepFlush channels i now).units = s.units ∧
    (s.stepFlush channels i now).exits = s.exits ∧
    (s.stepFlush channels i now).looping = false := by
  unfold stepFlush
  split
  · exact ⟨rfl, rfl, rfl⟩
  · split
    · refine ⟨rfl, rfl, ?_⟩
      simp only [looping]
      split <;> rfl
    · exact ⟨rfl, rfl, rfl⟩

theorem step_supervises (hs : ∀ c ∈ s.controls, c.Signalled) {l : ScanLabel}
    (h : s.step cr channels l = some t) : s.Supervises t := by
  cases step_acts h with
  | monitored hu hlocal hm => exact monitor_supervises hs hu hlocal hm
  | signalled hu hpc hroom hm => exact signal_supervises hu hpc hm
  | written hu hv =>
    refine .idle (controls_setUnit _ hu ?_) rfl rfl
    rw [DatabaseUnit.writeStep_monitor hv]
  | looped hu hv =>
    refine .idle (controls_setUnit _ hu ?_) rfl rfl
    rw [(DatabaseUnit.loopStep_moves hv).monitor]
  | timed => exact .idle rfl rfl rfl
  | received hmain hexits =>
    refine .receive rfl hexits ?_
    cases hall : s.allTerminated <;> rfl
  | reloading hmain => exact .idle rfl rfl (by simp [looping, hmain])
  | reloaded hmain => exact .idle rfl rfl (by simp [looping, hmain])
  | interrupted =>
    refine .idle ?_ rfl rfl
    simp only [controls, requestShutdown, List.map_map]
    rfl
  | flushed hmain =>
    obtain ⟨hunits, hexits, hlooping⟩ := stepFlush_frame channels s _ _
    refine .idle (by rw [controls, hunits, controls]) hexits ?_
    rw [hlooping]
    simp [looping, hmain]
  | posted hmain =>
    refine .idle rfl rfl ?_
    rw [looping, looping, hmain]
    rfl

end Moves

/-- The joint invariant of the monitors, the exit channel and the main loop. -/
structure Supervised (count : Nat) (s : ScanState) : Prop where
  length : s.controls.length = count
  signalled : ∀ c ∈ s.controls, c.Signalled
  distinct : (s.exits.map Prod.fst).Nodup
  ended : ∀ exit ∈ s.exits, ∃ c, s.controls[exit.1]? = some c ∧ c.pc = .ended
  broken : s.looping = false → s.allTerminated = true
  /-- the loop that waits has a signal to wait for -/
  awaited : s.looping = true → s.allTerminated = true →
    s.exits ≠ [] ∨ ∃ c ∈ s.controls, ∃ ok, c.pc = .exiting ok

section Invariant
variable {s t : ScanState} {count : Nat}

theorem forall_mem_set {P : Control → Prop} {cs : List Control} (h : ∀ c ∈ cs, P c) (u : Nat)
    {d : Control} (hd : P d) : ∀ c ∈ cs.set u d, P c := by
  intro c hc
  rcases List.mem_or_eq_of_mem_set hc with hc | rfl
  · exact h c hc
  · exact hd

theorem allTerminated_iff : s.allTerminated = true ↔ ∀ c ∈ s.controls, c.status ≠ .running := by
  simp [allTerminated_eq]

theorem allTerminated_set {u : Nat} {c d : Control} (hu : s.controls[u]? = some c)
    (hcontrols : t.controls = s.controls.set u d)
    (hstatus : c.status ≠ .running → d.status ≠ .running) (h : s.allTerminated = true) :
    t.allTerminated = true := by
  rw [allTerminated_iff] at h ⊢
  rw [hcontrols]
  exact forall_mem_set h u (hstatus (h c (List.mem_of_getElem? hu)))

/-- The units whose signal is in the channel stay ended when another unit moves. -/
theorem Supervised.ended_set (hs : s.Supervised count) {u : Nat} {c d : Control}
    (hu : s.controls[u]? = some c) (hc : c.pc ≠ .ended) :
    ∀ exit ∈ s.exits, ∃ c', (s.controls.set u d)[exit.1]? = some c' ∧ c'.pc = .ended := by
  intro exit hexit
  obtain ⟨c', hc', hended⟩ := hs.ended exit hexit
  have hne : u ≠ exit.1 := by
    intro heq
    rw [← heq, hu] at hc'
    cases hc'
    exact hc hended
  refine ⟨c', ?_, hended⟩
  rw [List.getElem?_set_ne hne]
  exact hc'

theorem Supervised.idle (hs : s.Supervised count) (hcontrols : t.controls = s.controls)
    (hexits : t.exits = s.exits) (hlooping : t.looping = s.looping) : t.Supervised count := by
  have hall : t.allTerminated = s.allTerminated := by
    rw [allTerminated_eq, allTerminated_eq, hcontrols]
  constructor
  · rw [hcontrols]
    exact hs.length
  · rw [hcontrols]
    exact hs.signalled
  · rw [hexits]
    exact hs.distinct
  · rw [hexits, hcontrols]
    exact hs.ended
  · rw [hlooping, hall]
    exact hs.broken
  · rw [hlooping, hall, hexits, hcontrols]
    exact hs.awaited

theorem Supervised.monitor (hs : s.Supervised count) {u : Nat} {c d : Control} {l : MonitorLabel}
    (hu : s.controls[u]? = some c) (hmove : ControlMoves c l d) (hl : l ≠ .sendExit)
    (hcontrols : t.controls = s.controls.set u d) (hexits : t.exits = s.exits)
    (hlooping : t.looping = s.looping) : t.Supervised count := by
  have hc : c.Signalled := hs.signalled c (List.mem_of_getElem? hu)
  have hd : d.Signalled := hmove.signalled hc
  by_cases hended : c.pc = .ended
  · apply hs.idle ?_ hexits hlooping
    obtain ⟨hlt, heq⟩ := List.getElem?_eq_some_iff.mp hu
    rw [hcontrols, hmove.of_ended hended, ← heq]
    exact List.set_getElem_self hlt
  · constructor
    · rw [hcontrols, List.length_set]
      exact hs.length
    · rw [hcontrols]
      exact forall_mem_set hs.signalled u hd
    · rw [hexits]
      exact hs.distinct
    · rw [hexits, hcontrols]
      exact hs.ended_set hu hended
    · intro hbroken
      rw [hlooping] at hbroken
      apply allTerminated_set hu hcontrols ?_ (hs.broken hbroken)
      intro hstatus
      rw [hmove.status hc hstatus]
      exact hstatus
    · -- a unit that has just become terminal is about to signal
      intro _ hall
      have hmem : d ∈ t.controls := by
        rw [hcontrols]
        exact List.mem_set (List.getElem?_eq_some_iff.mp hu).1 d
      rcases hd.terminal (allTerminated_iff.mp hall d hmem) with hexiting | hdone
      · exact .inr ⟨d, hmem, hexiting⟩
      · exact absurd (hmove.ended hl hdone) hended

theorem Supervised.signal (hs : s.Supervised count) {u : Nat} {c : Control} {ok : Bool}
    (hu : s.controls[u]? = some c) (hpc : c.pc = .exiting ok)
    (hcontrols : t.controls = s.controls.set u { c with pc := .ended, sent := c.sent ++ [ok] })
    (hexits : t.exits = s.exits ++ [(u, ok)]) (hlooping : t.looping = s.looping) :
    t.Supervised count := by
  have hc : c.Signalled := hs.signalled c (List.mem_of_getElem? hu)
  have hended : c.pc ≠ .ended := by
    rw [hpc]
    nofun
  constructor
  · rw [hcontrols, List.length_set]
    exact hs.length
  · rw [hcontrols]
    exact forall_mem_set hs.signalled u ((ControlMoves.signal hpc).signalled hc)
  · rw [hexits, List.map_append, List.nodup_append]
    refine ⟨hs.distinct, List.nodup_singleton u, ?_⟩
    intro v hv w hw heq
    obtain ⟨exit, hexit, rfl⟩ := List.mem_map.mp hv
    obtain ⟨c', hc', hended'⟩ := hs.ended exit hexit
    rw [heq, List.mem_singleton.mp hw, hu] at hc'
    cases hc'
    exact hended hended'
  · intro exit hexit
    rw [hexits] at hexit
    rw [hcontrols]
    rcases List.mem_append.mp hexit with hexit | hexit
    · exact hs.ended_set hu hended exit hexit
    · rw [List.mem_singleton.mp hexit]
      refine ⟨_, List.getElem?_set_self (List.getElem?_eq_some_iff.mp hu).1, rfl⟩
  · intro hbroken
    rw [hlooping] at hbroken
    exact allTerminated_set hu hcontrols id (hs.broken hbroken)
  · intro _ _
    rw [hexits]
    exact .inl (by simp)

theorem Supervised.receive (hs : s.Supervised count) {exit : Nat × Bool}
    (hcontrols : t.controls = s.controls) (hexits : s.exits = exit :: t.exits)
    (hlooping : t.looping = !s.allTerminated) : t.Supervised count := by
  have hall : t.allTerminated = s.allTerminated := by
    rw [allTerminated_eq, allTerminated_eq, hcontrols]
  have hdistinct := hs.distinct
  rw [hexits, List.map_cons, List.nodup_cons] at hdistinct
  constructor
  · rw [hcontrols]
    exact hs.length
  · rw [hcontrols]
    exact hs.signalled
  · exact hdistinct.2
  · intro other hother
    rw [hcontrols]
    apply hs.ended
    rw [hexits]
    exact List.mem_cons_of_mem exit hother
  · intro hbroken
    rw [hlooping] at hbroken
    rw [hall]
    simpa using hbroken
  · intro hloops hterminated
    rw [hlooping, ← hall, hterminated] at hloops
    cases hloops

theorem Supervises.supervised (h : s.Supervises t) (hs : s.Supervised count) :
    t.Supervised count := by
  cases h with
  | idle hcontrols hexits hlooping => exact hs.idle hcontrols hexits hlooping
  | monitor hu hmove hl hcontrols hexits hlooping =>
    exact hs.monitor hu hmove hl hcontrols hexits hlooping
  | signal hu hpc hcontrols hexits hlooping => exact hs.signal hu hpc hcontrols hexits hlooping
  | receive hcontrols hexits hlooping => exact hs.receive hcontrols hexits hlooping

/-- A terminal status outlasts every move. -/
theorem Supervises.status (h : s.Supervises t) (hs : s.Supervised count) {u : Nat} {c : Control}
    (hu : s.controls[u]? = some c) (hstatus : c.status ≠ .running) :
    ∃ d, t.controls[u]? = some d ∧ d.status = c.status := by
  have hset : ∀ {v : Nat} {c' d : Control}, s.controls[v]? = some c' →
      t.controls = s.controls.set v d → (c'.status ≠ .running → d.status = c'.status) →
        ∃ d, t.controls[u]? = some d ∧ d.status = c.status := by
    intro v c' d hv hcontrols hkeep
    rw [hcontrols]
    by_cases heq : v = u
    · subst heq
      rw [hu] at hv
      cases hv
      exact ⟨d, List.getElem?_set_self (List.getElem?_eq_some_iff.mp hu).1, hkeep hstatus⟩
    · refine ⟨c, ?_, rfl⟩
      rw [List.getElem?_set_ne heq]
      exact hu
  cases h with
  | idle hcontrols hexits hlooping => exact ⟨c, hcontrols ▸ hu, rfl⟩
  | monitor hv hmove hl hcontrols hexits hlooping =>
    exact hset hv hcontrols (hmove.status (hs.signalled _ (List.mem_of_getElem? hv)))
  | signal hv hpc hcontrols hexits hlooping => exact hset hv hcontrols fun _ => rfl
  | receive hcontrols hexits hlooping => exact ⟨c, hcontrols ▸ hu, rfl⟩

/-- The channel has room for a unit that has not sent its signal. -/
theorem Supervised.room (hs : s.Supervised count) {u : Nat} {c : Control}
    (hu : s.controls[u]? = some c) (hc : c.pc ≠ .ended) : s.exits.length < s.exitCapacity := by
  have hnodup : (u :: s.exits.map Prod.fst).Nodup := by
    rw [List.nodup_cons]
    refine ⟨?_, hs.distinct⟩
    intro hmem
    obtain ⟨exit, hexit, heq⟩ := List.mem_map.mp hmem
    obtain ⟨c', hc', hended⟩ := hs.ended exit hexit
    rw [heq, hu] at hc'
    cases hc'
    exact hc hended
  have hsub : u :: s.exits.map Prod.fst ⊆ List.range s.controls.length := by
    intro v hv
    rw [List.mem_range]
    rcases List.mem_cons.mp hv with rfl | hv
    · exact (List.getElem?_eq_some_iff.mp hu).1
    · obtain ⟨exit, hexit, rfl⟩ := List.mem_map.mp hv
      obtain ⟨c', hc', _⟩ := hs.ended exit hexit
      exact (List.getElem?_eq_some_iff.mp hc').1
  have hle := (hnodup.subperm hsub).length_le
  have hunits : s.controls.length = s.units.length := List.length_map _
  simp only [List.length_cons, List.length_map, List.length_range] at hle
  unfold exitCapacity
  omega

theorem start_supervised (engine : RuleEngine) (window : Nat)
    {databases : List (String × ScanFilter)} (h : databases ≠ []) :
    (start engine window databases).Supervised databases.length := by
  have hcontrols : ∀ c ∈ (start engine window databases).controls, c = Monitor.start.control := by
    intro c hc
    obtain ⟨unit, hunit, rfl⟩ := List.mem_map.mp hc
    obtain ⟨db, _, rfl⟩ := List.mem_map.mp hunit
    rfl
  constructor
  · simp [controls, start]
  · intro c hc
    rw [hcontrols c hc]
    exact ⟨rfl, rfl, rfl⟩
  · exact List.nodup_nil
  · nofun
  · nofun
  · intro _ hall
    cases databases with
    | nil => exact absurd rfl h
    | cons db rest => cases hall

end Invariant

variable (cr : Crates) (channels : List NamedChannel)

theorem step_supervised {s t : ScanState} {l : ScanLabel} {count : Nat} (hs : s.Supervised count)
    (h : s.step cr channels l = some t) : t.Supervised count :=
  (step_supervises hs.signalled h).supervised hs

theorem run_status {s t : ScanState} {ls : List ScanLabel} {count : Nat} (hs : s.Supervised count)
    (h : (scanMachine cr channels).run s ls = some t) {u : Nat} {c : Control}
    (hu : s.controls[u]? = some c) (hstatus : c.status ≠ .running) :
    ∃ d, t.controls[u]? = some d ∧ d.status = c.status := by
  induction ls generalizing s c with
  | nil =>
    cases h
    exact ⟨c, hu, rfl⟩
  | cons l ls ih =>
    obtain ⟨m, hm, hrest⟩ := (Machine.run_cons_eq_some _).mp h
    obtain ⟨d, hd, heq⟩ := (step_supervises hs.signalled hm).status hs hu hstatus
    obtain ⟨e, he, heq'⟩ := ih (step_supervised cr channels hs hm) hrest hd (heq ▸ hstatus)
    exact ⟨e, he, heq'.trans heq⟩

theorem controls_getElem {s : ScanState} {u : Nat} {c : Control} :
    s.controls[u]? = some c ↔ ∃ unit, s.units[u]? = some unit ∧ unit.monitor.control = c := by
  unfold controls
  rw [List.getElem?_map, Option.map_eq_some_iff]

/-- Every monitor stores its terminal status, which is final, and then sends one signal,
for which there is room; the main loop breaks only when all units are terminal, and
does not wait when all monitors have ended and no signal is left. -/
theorem supervision_terminates {databases : List DatabaseConfig}
    (hvalid : databaseErrors databases = []) (engine : RuleEngine) (window : Nat)
    {ls : List ScanLabel} {s : ScanState}
    (h : (scanMachine cr channels).run
      (start engine window (databases.map DatabaseConfig.unit)) ls = some s) :
    (∀ unit ∈ s.units, unit.monitor.control.Signalled) ∧
    (∀ (u : Nat) (unit : DatabaseUnit) (ok : Bool), s.units[u]? = some unit →
      unit.monitor.pc = .exiting ok → s.main ≠ .returned →
        (s.step cr channels (.monitor u .sendExit)).isSome = true) ∧
    (∀ (more : List ScanLabel) (t : ScanState) (u : Nat) (unit : DatabaseUnit),
      (scanMachine cr channels).run s more = some t →
      s.units[u]? = some unit → unit.monitor.status ≠ .running →
        ∃ v : DatabaseUnit, t.units[u]? = some v ∧ v.monitor.status = unit.monitor.status) ∧
    (s.looping = false → s.allTerminated = true) ∧
    ¬ (s.looping = true ∧ s.exits = [] ∧ ∀ unit ∈ s.units, unit.monitor.pc = .ended) := by
  have hnonempty : databases.map DatabaseConfig.unit ≠ [] := by
    simpa using databaseErrors_nonempty hvalid
  have hs := Machine.run_invariant (M := scanMachine cr channels)
    (fun hs hstep => step_supervised cr channels hs hstep)
    (start_supervised engine window hnonempty) h
  have hcontrol : ∀ {u : Nat} {unit : DatabaseUnit}, s.units[u]? = some unit →
      s.controls[u]? = some unit.monitor.control :=
    fun hu => controls_getElem.mpr ⟨_, hu, rfl⟩
  refine ⟨?_, ?_, ?_, hs.broken, ?_⟩
  · intro unit hunit
    exact hs.signalled _ (List.mem_map_of_mem hunit)
  · intro u unit ok hu hpc hmain
    have hroom := hs.room (hcontrol hu) (by
      show unit.monitor.pc ≠ .ended
      rw [hpc]
      nofun)
    simp [step, hmain, stepMonitor, hu, hpc, hroom, Monitor.step]
  · intro more t u unit hmore hu hstatus
    obtain ⟨d, hd, heq⟩ := run_status cr channels hs hmore (hcontrol hu) hstatus
    obtain ⟨v, hv, rfl⟩ := controls_getElem.mp hd
    exact ⟨v, hv, heq⟩
  · intro hwaiting
    obtain ⟨hloops, hexits, hended⟩ := hwaiting
    have hall : s.allTerminated = true := by
      rw [allTerminated_iff]
      intro c hc
      obtain ⟨unit, hunit, rfl⟩ := List.mem_map.mp hc
      exact (hs.signalled _ hc).ended_status (hended unit hunit)
    rcases hs.awaited hloops hall with hsome | hsome
    · exact hsome hexits
    · obtain ⟨c, hc, ok, hpc⟩ := hsome
      obtain ⟨unit, hunit, rfl⟩ := List.mem_map.mp hc
      have hpc' : unit.monitor.pc = .exiting ok := hpc
      rw [hended unit hunit] at hpc'
      cases hpc'

section Sample

def twoDatabases : List DatabaseConfig :=
  [⟨"localhost", 5432, "shop", "postgres", "pgsense_pub", none⟩,
    ⟨"localhost", 5432, "crm", "postgres", "pgsense_pub", none⟩]

/-- One pipeline stops and one fails to reconnect; the second signal is never read. -/
def bothEnd : List ScanLabel :=
  [.monitor 0 (.finish 0 true), .monitor 0 .pollWait, .monitor 1 (.finish 0 false),
    .monitor 1 .pollWait, .monitor 1 (.reconnect .buildFailed), .monitor 1 .sendExit, .recvExit,
    .monitor 0 .sendExit]

theorem supervision_terminates_two :
    ∃ s, (scanMachine .sample []).run
        (start noRules 0 (twoDatabases.map DatabaseConfig.unit)) bothEnd = some s ∧
      s.looping = false ∧ s.exits = [(0, true)] ∧ s.allTerminated = true := by
  refine ⟨_, rfl, rfl, rfl, ?_⟩
  exact (supervision_terminates .sample [] (show databaseErrors twoDatabases = [] by decide +kernel)
    noRules 0 (show (scanMachine .sample []).run
      (start noRules 0 (twoDatabases.map DatabaseConfig.unit)) bothEnd = some _ from rfl)).2.2.2.1 rfl

end Sample

end ScanState

end PgSense
