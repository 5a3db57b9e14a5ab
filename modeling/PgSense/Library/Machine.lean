import Mathlib.Data.List.Basic

/-! Partial machines: a step is a function of the state and of a label that
names which party moves and what its environment answers. A run is a list of
labels, so an interleaving of several parties is just a list. -/

namespace PgSense.Library
set_option autoImplicit false

universe u v w x

/-- A label that is not enabled in a state has no successor there. -/
structure Machine (State : Type u) (Label : Type v) where
  step : State → Label → Option State

namespace Machine
variable {State : Type u} {Label : Type v} (M : Machine State Label)

def run : State → List Label → Option State
  | s, [] => some s
  | s, l :: ls => (M.step s l).bind fun t => run t ls

@[simp] theorem run_nil (s : State) : M.run s [] = some s := rfl

theorem run_cons (s : State) (l : Label) (ls : List Label) :
    M.run s (l :: ls) = (M.step s l).bind fun t => M.run t ls := rfl

theorem run_cons_eq_some {s t : State} {l : Label} {ls : List Label} :
    M.run s (l :: ls) = some t ↔ ∃ m, M.step s l = some m ∧ M.run m ls = some t := by
  simp [run_cons, Option.bind_eq_some_iff]

theorem run_single (s : State) (l : Label) : M.run s [l] = M.step s l := by
  rw [run_cons]
  cases M.step s l <;> rfl

theorem run_append (s : State) (front back : List Label) :
    M.run s (front ++ back) = (M.run s front).bind fun t => M.run t back := by
  induction front generalizing s with
  | nil => rfl
  | cons l ls ih =>
    rw [List.cons_append, run_cons, run_cons]
    cases M.step s l with
    | none => rfl
    | some t => exact ih t

/-- The condition `P` holds of every step of the run, read in the state before
the step. -/
def Along (P : State → Label → Prop) : State → List Label → Prop
  | _, [] => True
  | s, l :: ls => P s l ∧ ∀ t, M.step s l = some t → Along P t ls

@[simp] theorem along_nil (P : State → Label → Prop) (s : State) : M.Along P s [] := trivial

theorem along_cons (P : State → Label → Prop) {s t : State} {l : Label} {ls : List Label}
    (h : M.step s l = some t) : M.Along P s (l :: ls) ↔ P s l ∧ M.Along P t ls := by
  simp [Along, h]

theorem along_append (P : State → Label → Prop) {s t : State} {front back : List Label}
    (h : M.run s front = some t) :
    M.Along P s (front ++ back) ↔ M.Along P s front ∧ M.Along P t back := by
  induction front generalizing s with
  | nil =>
    cases h
    simp
  | cons l ls ih =>
    obtain ⟨m, hm, hrest⟩ := (run_cons_eq_some M).mp h
    rw [List.cons_append, along_cons M P hm, along_cons M P hm, ih hrest, and_assoc]

/-- Labels that meet the condition in every state meet it along every run. -/
theorem along_of_forall {P : State → Label → Prop} {ls : List Label}
    (h : ∀ l ∈ ls, ∀ s, P s l) (s : State) : M.Along P s ls := by
  induction ls generalizing s with
  | nil => trivial
  | cons l ls ih =>
    constructor
    · exact h l List.mem_cons_self s
    · intro t _
      exact ih (fun l' hl' => h l' (List.mem_cons_of_mem l hl')) t

def Throughout (Q : State → Prop) : State → List Label → Prop
  | s, [] => Q s
  | s, l :: ls => Q s ∧ ∀ t, M.step s l = some t → Throughout Q t ls

theorem throughout_cons (Q : State → Prop) {s t : State} {l : Label} {ls : List Label}
    (h : M.step s l = some t) : M.Throughout Q s (l :: ls) ↔ Q s ∧ M.Throughout Q t ls := by
  simp [Throughout, h]

section Invariants
variable {M} {Inv : State → Prop}

theorem run_invariant (hstep : ∀ {s l t}, Inv s → M.step s l = some t → Inv t)
    {s t : State} {ls : List Label} (hs : Inv s) (h : M.run s ls = some t) : Inv t := by
  induction ls generalizing s with
  | nil =>
    cases h
    exact hs
  | cons l ls ih =>
    obtain ⟨m, hm, hrest⟩ := (run_cons_eq_some M).mp h
    exact ih (hstep hs hm) hrest

/-- The same when the property is preserved only by steps that meet a condition. -/
theorem run_invariant_along {P : State → Label → Prop}
    (hstep : ∀ {s l t}, Inv s → P s l → M.step s l = some t → Inv t)
    {s t : State} {ls : List Label} (hs : Inv s) (hP : M.Along P s ls)
    (h : M.run s ls = some t) : Inv t := by
  induction ls generalizing s with
  | nil =>
    cases h
    exact hs
  | cons l ls ih =>
    obtain ⟨m, hm, hrest⟩ := (run_cons_eq_some M).mp h
    obtain ⟨hl, hls⟩ := (along_cons M P hm).mp hP
    exact ih (hstep hs hl hm) hls hrest

/-- A step condition is exact for a state property when it preserves an invariant
that gives the property, and a step against it breaks the property at once. -/
theorem throughout_iff_along {P : State → Label → Prop} {Q : State → Prop}
    (hkeep : ∀ {s l t}, Inv s → P s l → M.step s l = some t → Inv t)
    (hgood : ∀ {s}, Inv s → Q s)
    (hbreak : ∀ {s l t}, Inv s → ¬ P s l → M.step s l = some t → ¬ Q t)
    {s t : State} {ls : List Label} (hs : Inv s) (h : M.run s ls = some t) :
    M.Throughout Q s ls ↔ M.Along P s ls := by
  induction ls generalizing s with
  | nil => exact ⟨fun _ => trivial, fun _ => hgood hs⟩
  | cons l ls ih =>
    obtain ⟨m, hm, hrest⟩ := (run_cons_eq_some M).mp h
    rw [throughout_cons M Q hm, along_cons M P hm]
    constructor
    · intro hthrough
      obtain ⟨_, hthrough⟩ := hthrough
      have hfirst : Q m := by
        cases ls with
        | nil => exact hthrough
        | cons _ _ => exact hthrough.1
      have hl : P s l := by
        by_contra hnot
        exact hbreak hs hnot hm hfirst
      exact ⟨hl, (ih (hkeep hs hl hm) hrest).mp hthrough⟩
    · intro hboth
      obtain ⟨hl, halong⟩ := hboth
      exact ⟨hgood hs, (ih (hkeep hs hl hm) hrest).mpr halong⟩

/-- A step condition is exact for a measure that no step lowers when the steps that
meet it are the steps that keep the measure. -/
theorem along_iff_measure {P : State → Label → Prop} {measure : State → Nat}
    (hinv : ∀ {s l t}, Inv s → M.step s l = some t → Inv t)
    (hmono : ∀ {s l t}, Inv s → M.step s l = some t → measure s ≤ measure t)
    (hkeep : ∀ {s l t}, Inv s → M.step s l = some t → (measure t = measure s ↔ P s l))
    {s t : State} {ls : List Label} (hs : Inv s) (h : M.run s ls = some t) :
    measure s ≤ measure t ∧ (measure t = measure s ↔ M.Along P s ls) := by
  induction ls generalizing s with
  | nil =>
    cases h
    exact ⟨Nat.le_refl _, fun _ => trivial, fun _ => rfl⟩
  | cons l ls ih =>
    obtain ⟨m, hm, hrest⟩ := (run_cons_eq_some M).mp h
    obtain ⟨hle, hiff⟩ := ih (hinv hs hm) hrest
    have hfirst := hmono hs hm
    have hstep := hkeep hs hm
    refine ⟨Nat.le_trans hfirst hle, ?_⟩
    rw [along_cons M P hm, ← hstep, ← hiff]
    omega

end Invariants

/-- States with the same view, under related labels, step to states with the same view or
not at all: then so do runs, and whoever sees no more than the view cannot tell the two
runs apart. -/
theorem run_view {View : Type w} {view : State → View} {Inv : State → Prop}
    {Related : Label → Label → Prop} {M : Machine State Label}
    (hinv : ∀ {s l t}, Inv s → M.step s l = some t → Inv t)
    (hstep : ∀ {s t l l'}, Inv s → Inv t → view s = view t → Related l l' →
      (M.step s l).map view = (M.step t l').map view)
    {s t : State} {ls ls' : List Label} (hs : Inv s) (ht : Inv t) (hview : view s = view t)
    (h : List.Forall₂ Related ls ls') : (M.run s ls).map view = (M.run t ls').map view := by
  induction h generalizing s t with
  | nil => exact congrArg some hview
  | @cons l l' ls ls' hl _ ih =>
    have hnext := hstep hs ht hview hl
    rw [run_cons, run_cons]
    cases hsl : M.step s l with
    | none =>
      rw [hsl, Option.map_none, eq_comm, Option.map_eq_none_iff] at hnext
      rw [hnext]
      rfl
    | some s' =>
      rw [hsl, Option.map_some, eq_comm, Option.map_eq_some_iff] at hnext
      obtain ⟨t', htl, heq⟩ := hnext
      rw [htl]
      exact ih (hinv hs hsl) (hinv ht htl) heq.symm

section Simulation
variable {Spec : Type w} {Act : Type x} {M : Machine State Label} {N : Machine Spec Act}

/-- A forward simulation: whatever a step of the machine does, some steps of the other
one do as well, and then so it is for runs. -/
theorem run_simulated {P : State → Label → Prop} {R : State → Spec → Prop}
    (hstep : ∀ {s l t a}, R s a → P s l → M.step s l = some t →
      ∃ acts b, N.run a acts = some b ∧ R t b)
    {s t : State} {a : Spec} {ls : List Label} (hs : R s a) (hP : M.Along P s ls)
    (h : M.run s ls = some t) : ∃ acts b, N.run a acts = some b ∧ R t b := by
  induction ls generalizing s a with
  | nil =>
    cases h
    exact ⟨[], a, rfl, hs⟩
  | cons l ls ih =>
    obtain ⟨m, hm, hrest⟩ := (run_cons_eq_some M).mp h
    obtain ⟨hl, hls⟩ := (along_cons M P hm).mp hP
    obtain ⟨front, b, hfront, hmb⟩ := hstep hs hl hm
    obtain ⟨back, c, hback, htc⟩ := ih hmb hls hrest
    refine ⟨front ++ back, c, ?_, htc⟩
    rw [run_append, hfront]
    exact hback

end Simulation

end Machine

end PgSense.Library
