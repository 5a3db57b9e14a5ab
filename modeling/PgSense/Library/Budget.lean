import PgSense.Library.Machine

/-! Budgets of runs. Some steps of a machine are spent on a task; each lowers what is
left to do, or takes on new work, whose cost it then adds. The steps spent in a run
are bounded by the cost of the work taken on. -/

namespace PgSense.Library
set_option autoImplicit false

universe u v

namespace Machine
variable {State : Type u} {Label : Type v} {M : Machine State Label}

/-- `left` is what is left to do, `taken` the cost of all work taken on so far. -/
structure Budget (M : Machine State Label) (Inv : State → Prop) (spent : Label → Bool)
    (left taken : State → Nat) : Prop where
  keep : ∀ {s l t}, Inv s → M.step s l = some t → Inv t
  step : ∀ {s l t}, Inv s → M.step s l = some t →
    left t + taken s + (if spent l then 1 else 0) ≤ left s + taken t

theorem Budget.run {Inv : State → Prop} {spent : Label → Bool} {left taken : State → Nat}
    (hb : Budget M Inv spent left taken) {s t : State} {ls : List Label} (hs : Inv s)
    (h : M.run s ls = some t) : ls.countP spent + left t + taken s ≤ left s + taken t := by
  induction ls generalizing s with
  | nil =>
    cases h
    exact Nat.le_of_eq (Nat.zero_add _ ▸ rfl)
  | cons l ls ih =>
    obtain ⟨m, hm, hrest⟩ := (run_cons_eq_some M).mp h
    have hfirst := hb.step hs hm
    have hlater := ih (hb.keep hs hm) hrest
    rw [List.countP_cons]
    omega

end Machine

end PgSense.Library
