import Mathlib.Data.List.Basic

/-! Times that keep a distance. Few of them fit into an interval. -/

namespace PgSense.Library.Window
set_option autoImplicit false

/-- Each time is at least `window` after every earlier one. -/
def Spaced (window : Nat) (times : List Nat) : Prop :=
  times.Pairwise fun earlier later => ¬ later - earlier < window

section Spaced
variable {window : Nat} {times : List Nat}

theorem Spaced.filter (h : Spaced window times) (p : Nat → Bool) :
    Spaced window (times.filter p) := List.Pairwise.filter p h

/-- Times from `lo` on: at most `n` of them are less than `n` windows later. -/
theorem Spaced.count_before (h : Spaced window times) {lo hi n : Nat}
    (hlo : ∀ t ∈ times, lo ≤ t) (hhi : hi ≤ lo + n * window) :
    (times.countP fun t => t < hi) ≤ n := by
  induction times generalizing lo n with
  | nil => exact Nat.zero_le n
  | cons t rest ih =>
    obtain ⟨hfirst, hrest⟩ := List.pairwise_cons.mp h
    obtain ⟨ht, hlo⟩ := List.forall_mem_cons.mp hlo
    by_cases hlt : t < hi
    · cases n with
      | zero => omega
      | succ n =>
        rw [Nat.succ_mul] at hhi
        have hpositive : 0 < window := by
          by_contra hzero
          obtain rfl := Nat.eq_zero_of_not_pos hzero
          omega
        have hlater : ∀ u ∈ rest, lo + window ≤ u := by
          intro u hu
          have hspaced := hfirst u hu
          omega
        have hrest := ih hrest hlater (by omega : hi ≤ lo + window + n * window)
        rw [List.countP_cons_of_pos (by simpa using hlt)]
        omega
    · rw [List.countP_cons_of_neg (by simpa using hlt)]
      exact ih hrest hlo hhi

/-- An interval of `n` windows holds at most `n` of them. -/
theorem Spaced.count_interval (h : Spaced window times) (lo n : Nat) :
    (times.countP fun t => lo ≤ t && t < lo + n * window) ≤ n := by
  have hlo : ∀ t ∈ times.filter (fun t => lo ≤ t), lo ≤ t := by
    intro t ht
    simpa using (List.mem_filter.mp ht).2
  have hcount := (h.filter fun t => lo ≤ t).count_before hlo (Nat.le_refl (lo + n * window))
  rw [List.countP_filter] at hcount
  simpa only [Bool.and_comm] using hcount

end Spaced

end PgSense.Library.Window
