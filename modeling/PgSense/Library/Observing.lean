import PgSense.Library.Machine

/-! Machines under observation. An observer keeps a record of its own, which it
updates from every step of the machine; it decides nothing. The labels of a run
are such a record, and an invariant may speak of them. -/

namespace PgSense.Library
set_option autoImplicit false

universe u v w x

namespace Machine
variable {State : Type u} {Label : Type v} {Input : Type w} {Record : Type x}

section Observed
variable (M : Machine State Label) (label : Input → Label)
variable (record : Record → State → Input → State → Record)

/-- An input is a label of the machine, and what else the observer is told. -/
def observed : Machine (State × Record) Input :=
  ⟨fun s i => (M.step s.1 (label i)).map fun t => (t, record s.2 s.1 i t)⟩

theorem observed_eq_some {s t : State × Record} {i : Input} :
    (M.observed label record).step s i = some t ↔
      M.step s.1 (label i) = some t.1 ∧ t.2 = record s.2 s.1 i t.1 := by
  simp only [observed, Option.map_eq_some_iff]
  constructor
  · intro h
    obtain ⟨m, hm, rfl⟩ := h
    exact ⟨hm, rfl⟩
  · intro h
    obtain ⟨hstep, hrecord⟩ := h
    exact ⟨t.1, hstep, by rw [← hrecord]⟩

/-- The observed runs are the runs. -/
theorem run_observed (s : State × Record) (is : List Input) :
    ((M.observed label record).run s is).map Prod.fst = M.run s.1 (is.map label) := by
  induction is generalizing s with
  | nil => rfl
  | cons i is ih =>
    rw [List.map_cons, run_cons, run_cons]
    simp only [observed]
    cases M.step s.1 (label i) with
    | none => rfl
    | some t => exact ih (t, record s.2 s.1 i t)

variable {M label record}

theorem run_of_observed {s t : State × Record} {is : List Input}
    (h : (M.observed label record).run s is = some t) :
    M.run s.1 (is.map label) = some t.1 := by
  rw [← M.run_observed label record s is, h]
  rfl

/-- Every run can be observed. -/
theorem exists_observed {s t : State} {is : List Input} (h : M.run s (is.map label) = some t)
    (first : Record) : ∃ last, (M.observed label record).run (s, first) is = some (t, last) := by
  have hrun := M.run_observed label record (s, first) is
  rw [h, Option.map_eq_some_iff] at hrun
  obtain ⟨⟨_, last⟩, hobserved, rfl⟩ := hrun
  exact ⟨last, hobserved⟩

end Observed

section History
variable {M : Machine State Label}

/-- An invariant that also reads the labels of the run so far. -/
theorem run_invariant_history {Inv : List Label → State → Prop}
    (hstep : ∀ {past s l t}, Inv past s → M.step s l = some t → Inv (past ++ [l]) t)
    {s t : State} {ls : List Label} (hs : Inv [] s) (h : M.run s ls = some t) : Inv ls t := by
  suffices hpast : ∀ (past : List Label) (s : State), Inv past s → ∀ ls : List Label,
      M.run s ls = some t → Inv (past ++ ls) t from hpast [] s hs ls h
  intro past s hs ls
  induction ls generalizing past s with
  | nil =>
    intro h
    cases h
    rwa [List.append_nil]
  | cons l ls ih =>
    intro h
    obtain ⟨m, hm, hrest⟩ := (run_cons_eq_some M).mp h
    rw [← List.singleton_append, ← List.append_assoc]
    exact ih (past ++ [l]) m (hstep hs hm) hrest

end History

end Machine

end PgSense.Library
