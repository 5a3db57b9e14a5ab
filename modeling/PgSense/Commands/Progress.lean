import PgSense.Library.Budget
import PgSense.Commands.History
import PgSense.Pipeline.Progress

/-! The loops of the whole scanner get on with what is queued, and come to an end of it. -/

namespace PgSense
open Library
set_option autoImplicit false

/-- A step of the loop of the unit at position `u`. -/
def ScanLabel.ofLoop (u : Nat) : ScanLabel → Bool
  | .loop k _ => k == u
  | _ => false

namespace ScanState

section Steps
variable {cr : Crates} {channels : List NamedChannel} {s t : ScanState}

/-- The loops flush Slack channels only. -/
def AllFlushSlack (channels : List NamedChannel) (s : ScanState) : Prop :=
  ∀ (u : Nat) (unit : DatabaseUnit), s.units[u]? = some unit →
    DatabaseUnit.FlushesSlack channels unit.loop

theorem UnitMoves.flushesSlack {l : ScanLabel} {u : Nat} {unit v : DatabaseUnit}
    (h : UnitMoves cr channels s l u unit v)
    (hunit : DatabaseUnit.FlushesSlack channels unit.loop) :
    DatabaseUnit.FlushesSlack channels v.loop := by
  cases h with
  | keep => exact hunit
  | monitor m => exact hunit
  | write hl h =>
    rw [(DatabaseUnit.writeStep_queue h).1]
    exact hunit
  | loop hl h => exact (DatabaseUnit.loopStep_pays h).1

theorem start_allFlushSlack (engine : RuleEngine) (window : Nat)
    (databases : List (String × ScanFilter)) :
    (start engine window databases).AllFlushSlack channels := by
  intro u unit hu
  obtain ⟨db, _, rfl⟩ := List.mem_map.mp (List.mem_of_getElem? hu)
  trivial

theorem AllFlushSlack.step {l : ScanLabel} (hs : s.AllFlushSlack channels)
    (h : s.step cr channels l = some t) : t.AllFlushSlack channels :=
  step_forall hs (fun _ _ _ hunit hmoves => hmoves.flushesSlack hunit) h

/-- What the loop at position `u` has left to do, and the cost of what it has taken. -/
def leftAt (cr : Crates) (channels : List NamedChannel) (u : Nat) (s : ScanState) : Nat :=
  (s.units[u]?).elim 0 fun unit => DatabaseUnit.loopLeft cr channels unit.loop

def takenAt (cr : Crates) (channels : List NamedChannel) (u : Nat) (s : ScanState) : Nat :=
  (s.units[u]?).elim 0 fun unit => tally (DatabaseUnit.batchCost cr channels) unit.taken

/-- The steps of a loop are paid for by the batches it takes. -/
theorem loop_budget (cr : Crates) (channels : List NamedChannel) (u : Nat) :
    Machine.Budget (scanMachine cr channels) (fun s => u < s.units.length) (ScanLabel.ofLoop u)
      (leftAt cr channels u) (takenAt cr channels u) where
  keep hs h := by
    rw [(step_units h).1]
    exact hs
  step {s l t} hs h := by
    have hu := List.getElem?_eq_getElem hs
    generalize s.units[u] = unit at hu
    by_cases hloop : l.ofLoop u = true
    · cases l with
      | loop k ll =>
        obtain rfl := beq_iff_eq.mp hloop
        obtain ⟨unit', v, sh, hk, hv, rfl⟩ := step_loop h
        rw [hu] at hk
        cases hk
        have hset : (s.units.set k v)[k]? = some v := List.getElem?_set_self hs
        have hpays := (DatabaseUnit.loopStep_pays hv).2
        simp only [leftAt, takenAt, setUnit, hu, hset, Option.elim_some, hloop, if_true]
        exact hpays
      | monitor | write | timer | recvExit | startReload | endReload | ctrlC | flush | posted =>
        cases hloop
    · obtain ⟨v, hv, hmoves⟩ := (step_units h).2 hu
      have hsame : v.loop = unit.loop ∧ v.taken = unit.taken := by
        cases hmoves with
        | keep => exact ⟨rfl, rfl⟩
        | monitor m => exact ⟨rfl, rfl⟩
        | write hl h =>
          obtain ⟨hloop, hdone, _, _⟩ := DatabaseUnit.writeStep_queue h
          exact ⟨hloop, by rw [DatabaseUnit.taken, DatabaseUnit.taken, hdone, hloop]⟩
        | loop hl h =>
          rw [hl] at hloop
          exact absurd (beq_self_eq_true u) hloop
      simp only [leftAt, takenAt, hu, hv, Option.elim_some, hsame, hloop]
      exact Nat.le_refl _

/-- The loop at position `u` alone can work off its queue. -/
theorem exists_drain {u : Nat} {unit : DatabaseUnit} (hmain : s.main ≠ .returned)
    (hslack : s.AllFlushSlack channels) (hu : s.units[u]? = some unit) :
    ∃ (lls : List DatabaseUnit.LoopLabel) (t : ScanState) (v : DatabaseUnit),
      (scanMachine cr channels).run s (lls.map (ScanLabel.loop u)) = some t ∧
      lls.length ≤ DatabaseUnit.toGo cr channels s.shared.engine unit ∧
      t.units = s.units.set u v ∧ v.loop = .idle ∧ v.queue = [] ∧ v.accepted = unit.accepted := by
  generalize hn : DatabaseUnit.toGo cr channels s.shared.engine unit = n
  induction n using Nat.strongRecOn generalizing s unit with
  | ind n ih =>
    by_cases hdone : unit.loop = .idle ∧ unit.queue = []
    · obtain ⟨hlt, hget⟩ := List.getElem?_eq_some_iff.mp hu
      have hsame : s.units = s.units.set u unit := by
        rw [← hget, List.set_getElem_self]
      exact ⟨[], s, unit, rfl, Nat.zero_le _, hsame, hdone.1, hdone.2, rfl⟩
    · have hbusy : unit.loop ≠ .idle ∨ unit.queue ≠ [] := by
        by_cases hidle : unit.loop = .idle
        · exact .inr fun hqueue => hdone ⟨hidle, hqueue⟩
        · exact .inl hidle
      obtain ⟨ll, hll⟩ := DatabaseUnit.exists_loopStep cr (hslack u unit hu) s.shared hbusy
      obtain ⟨⟨v, sh⟩, hv⟩ := Option.isSome_iff_exists.mp hll
      obtain ⟨hlt, _⟩ := List.getElem?_eq_some_iff.mp hu
      have hstep : ∃ s', s.step cr channels (.loop u ll) = some s' ∧ s'.main = s.main ∧
          s'.units = s.units.set u v ∧ s'.shared.engine = s.shared.engine := by
        rw [step_loop_eq hmain hu, hv]
        exact ⟨_, rfl, rfl, rfl, loopStep_engine hv⟩
      obtain ⟨s', hstep, hmain', hunits', hengine⟩ := hstep
      have hv' : s'.units[u]? = some v := by
        rw [hunits']
        exact List.getElem?_set_self hlt
      have htogo := DatabaseUnit.loopStep_toGo hv
      obtain ⟨lls, t, w, hrun, hlength, hunits, hidle, hqueue, haccepted⟩ :=
        ih (DatabaseUnit.toGo cr channels s.shared.engine v) (by omega) (by rwa [hmain'])
          (hslack.step hstep) hv' (by rw [hengine])
      refine ⟨ll :: lls, t, w, ?_, ?_, ?_, hidle, hqueue, ?_⟩
      · exact (Machine.run_cons_eq_some _).mpr ⟨s', hstep, hrun⟩
      · rw [List.length_cons]
        omega
      · rw [hunits, hunits']
        exact List.set_set ..
      · rw [haccepted]
        exact (DatabaseUnit.loopStep_moves hv).accepted.1

end Steps

section Runs
variable (cr : Crates) (channels : List NamedChannel)

/-- The loops get on. In every reachable state in which the scanner has not returned, the
loop of a unit is stuck only when it is idle and its queue is empty; by itself it can
work off everything that was accepted, in a bounded number of steps; and in every run on
from there, whatever else happens, its steps are paid for by what it had left and by the
batches it has taken since. -/
theorem loops_progress (engine : RuleEngine) (window : Nat) (databases : List (String × ScanFilter))
    {ls : List ScanLabel} {t : ScanState}
    (h : (scanMachine cr channels).run (start engine window databases) ls = some t)
    (hmain : t.main ≠ .returned) {u : Nat} {unit : DatabaseUnit} (hu : t.units[u]? = some unit) :
    ((∀ ll, t.step cr channels (.loop u ll) = none) ↔ unit.loop = .idle ∧ unit.queue = []) ∧
    (∃ (lls : List DatabaseUnit.LoopLabel) (t' : ScanState) (v : DatabaseUnit),
      (scanMachine cr channels).run t (lls.map (ScanLabel.loop u)) = some t' ∧
      lls.length ≤ DatabaseUnit.toGo cr channels t.shared.engine unit ∧
      t'.units = t.units.set u v ∧ v.loop = .idle ∧ v.queue = [] ∧ v.accepted = unit.accepted) ∧
    ∀ {ls' : List ScanLabel} {t' : ScanState} {v : DatabaseUnit},
      (scanMachine cr channels).run t ls' = some t' → t'.units[u]? = some v →
      ls'.countP (ScanLabel.ofLoop u) + DatabaseUnit.loopLeft cr channels v.loop +
          tally (DatabaseUnit.batchCost cr channels) unit.taken ≤
        DatabaseUnit.loopLeft cr channels unit.loop +
          tally (DatabaseUnit.batchCost cr channels) v.taken := by
  have hkeep : ∀ {s l t}, AllFlushSlack channels s → (scanMachine cr channels).step s l = some t →
      AllFlushSlack channels t := fun hs hstep => hs.step hstep
  have hslack := Machine.run_invariant hkeep (start_allFlushSlack engine window databases) h
  refine ⟨?_, exists_drain hmain hslack hu, ?_⟩
  · constructor
    · intro hstuck
      by_contra hbusy
      have hbusy : unit.loop ≠ .idle ∨ unit.queue ≠ [] := by
        by_cases hidle : unit.loop = .idle
        · exact .inr fun hqueue => hbusy ⟨hidle, hqueue⟩
        · exact .inl hidle
      obtain ⟨ll, hll⟩ := DatabaseUnit.exists_loopStep cr (hslack u unit hu) t.shared hbusy
      have hnone := hstuck ll
      rw [step_loop_eq hmain hu, Option.map_eq_none_iff] at hnone
      rw [hnone] at hll
      cases hll
    · intro hdone ll
      rw [step_loop_eq hmain hu, DatabaseUnit.loopStep_idle hdone.1 hdone.2]
      rfl
  · intro ls' t' v hrun hv
    obtain ⟨hlt, _⟩ := List.getElem?_eq_some_iff.mp hu
    have hbudget := (loop_budget cr channels u).run hlt hrun
    simpa only [leftAt, takenAt, hu, hv, Option.elim_some] using hbudget

theorem loops_progress_ssn : ∃ t unit,
    (scanMachine .sample logOnly).run (start ssnEngine 10 oneDatabase) untilFound = some t ∧
    t.main ≠ .returned ∧ t.units[0]? = some unit ∧
    ((∀ ll, t.step .sample logOnly (.loop 0 ll) = none) ↔ unit.loop = .idle ∧ unit.queue = []) ∧
    (∃ (lls : List DatabaseUnit.LoopLabel) (t' : ScanState) (v : DatabaseUnit),
      (scanMachine .sample logOnly).run t (lls.map (ScanLabel.loop 0)) = some t' ∧
      lls.length ≤ DatabaseUnit.toGo .sample logOnly t.shared.engine unit ∧
      t'.units = t.units.set 0 v ∧ v.loop = .idle ∧ v.queue = [] ∧ v.accepted = unit.accepted) ∧
    ∀ {ls' : List ScanLabel} {t' : ScanState} {v : DatabaseUnit},
      (scanMachine .sample logOnly).run t ls' = some t' → t'.units[0]? = some v →
      ls'.countP (ScanLabel.ofLoop 0) + DatabaseUnit.loopLeft .sample logOnly v.loop +
          tally (DatabaseUnit.batchCost .sample logOnly) unit.taken ≤
        DatabaseUnit.loopLeft .sample logOnly unit.loop +
          tally (DatabaseUnit.batchCost .sample logOnly) v.taken := by
  have hrun : ∃ t unit,
      (scanMachine .sample logOnly).run (start ssnEngine 10 oneDatabase) untilFound = some t ∧
        t.main ≠ .returned ∧ t.units[0]? = some unit := ⟨_, _, rfl, nofun, rfl⟩
  obtain ⟨t, unit, ht, hmain, hu⟩ := hrun
  exact ⟨t, unit, ht, hmain, hu, loops_progress .sample logOnly ssnEngine 10 oneDatabase ht hmain hu⟩

end Runs

end ScanState

end PgSense
