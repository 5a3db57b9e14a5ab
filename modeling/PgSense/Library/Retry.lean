import Mathlib.Data.ENat.Lattice

/-! Bounded retries over an endless sequence of rounds: a round is repeated, or it ends the
loop with a result. -/

namespace PgSense.Library
set_option autoImplicit false

universe u
variable {β : Type u} {p : Nat → Prop} {n max : Nat}

/-- How many numbers from 0 on satisfy `p` before the first that does not. -/
noncomputable def leading (p : Nat → Prop) : ℕ∞ := ⨅ i : {i : Nat // ¬ p i}, (i.val : ℕ∞)

theorem natCast_le_leading : (n : ℕ∞) ≤ leading p ↔ ∀ i < n, p i := by
  unfold leading
  rw [le_iInf_iff]
  constructor
  · intro h i hi
    by_contra hp
    have hle : n ≤ i := Nat.cast_le.mp (h ⟨i, hp⟩)
    omega
  · rintro h ⟨i, hp⟩
    apply Nat.cast_le.mpr
    exact Nat.le_of_not_lt fun hlt => hp (h i hlt)

theorem leading_eq_natCast : leading p = n ↔ (∀ i < n, p i) ∧ ¬ p n := by
  have hnext : ((n + 1 : Nat) : ℕ∞) ≤ leading p ↔ (n : ℕ∞) < leading p := by
    rw [Nat.cast_add, Nat.cast_one]
    exact ENat.natCast_add_one_le_iff
  constructor
  · intro h
    have hbefore := natCast_le_leading.mp (le_of_eq h.symm)
    refine ⟨hbefore, ?_⟩
    intro hn
    have hlt := hnext.mp (natCast_le_leading.mpr fun i hi => by
      rcases Nat.lt_succ_iff_lt_or_eq.mp hi with hlt | rfl
      · exact hbefore i hlt
      · exact hn)
    exact absurd h (ne_of_gt hlt)
  · rintro ⟨hbefore, hn⟩
    have hle : (n : ℕ∞) ≤ leading p := natCast_le_leading.mpr hbefore
    apply le_antisymm (not_lt.mp ?_) hle
    intro hlt
    exact hn (natCast_le_leading.mp (hnext.mpr hlt) n (Nat.lt_succ_self n))

/-- Below a bound the count is a number, and the bound itself when all rounds before it
satisfy `p`. -/
theorem exists_min_leading (p : Nat → Prop) (max : Nat) :
    ∃ j : Nat, (j : ℕ∞) = min (leading p) max ∧ j ≤ max ∧ (∀ i < j, p i) ∧ (j < max → ¬ p j) := by
  by_cases hall : (max : ℕ∞) ≤ leading p
  · refine ⟨max, (min_eq_right hall).symm, Nat.le_refl max, natCast_le_leading.mp hall, ?_⟩
    exact fun h => absurd h (Nat.lt_irrefl max)
  · have hlt : leading p < max := not_le.mp hall
    obtain ⟨j, hj⟩ := ENat.ne_top_iff_exists.mp (ne_top_of_lt hlt)
    obtain ⟨hbefore, hstop⟩ := leading_eq_natCast.mp hj.symm
    refine ⟨j, ?_, ?_, hbefore, fun _ => hstop⟩
    · rw [min_eq_left (le_of_lt hlt), hj]
    · rw [← hj] at hlt
      exact Nat.le_of_lt (Nat.cast_lt.mp hlt)

section Bounded
variable {j : Nat} (h : (j : ℕ∞) = min (leading p) max)

include h

/-- Where the count stops short of `p`, it stops at the first failure. -/
theorem leading_of_min (hj : ¬ p j) : leading p = j ∧ j ≤ max := by
  have hleading : (j : ℕ∞) ≤ leading p := h ▸ min_le_left _ _
  have hmax : (j : ℕ∞) ≤ max := h ▸ min_le_right _ _
  exact ⟨leading_eq_natCast.mpr ⟨natCast_le_leading.mp hleading, hj⟩, Nat.cast_le.mp hmax⟩

theorem eq_of_leading (hn : leading p = n) (hle : n ≤ max) : j = n := by
  rw [hn, min_eq_left (Nat.cast_le.mpr hle)] at h
  exact Nat.cast_inj.mp h

end Bounded

/-- The number of rounds run from `attempt` on, at most `rounds`, and the result. -/
def retryLoop (round : Nat → Option β) (exhausted : β) : Nat → Nat → Nat × β
  | 0, _ => (0, exhausted)
  | rounds + 1, attempt =>
    match round attempt with
    | some result => (1, result)
    | none =>
      let (ran, result) := retryLoop round exhausted rounds (attempt + 1)
      (ran + 1, result)

theorem retryLoop_stop {round : Nat → Option β} (exhausted : β) {j attempt rounds : Nat} {b : β}
    (hbefore : ∀ i < j, round (attempt + i) = none) (hstop : round (attempt + j) = some b)
    (hj : j < rounds) : retryLoop round exhausted rounds attempt = (j + 1, b) := by
  induction rounds generalizing j attempt with
  | zero => exact absurd hj (Nat.not_lt_zero j)
  | succ rounds ih =>
    cases j with
    | zero => rw [retryLoop, show round attempt = some b from hstop]
    | succ j =>
      have hfirst : round attempt = none := hbefore 0 (Nat.succ_pos j)
      have hrest := ih (fun i hi => by
          have hnext := hbefore (i + 1) (Nat.succ_lt_succ hi)
          rwa [← Nat.add_assoc, Nat.add_right_comm] at hnext)
        (by rwa [← Nat.add_assoc, Nat.add_right_comm] at hstop) (Nat.lt_of_succ_lt_succ hj)
      rw [retryLoop, hfirst]
      simp only
      rw [hrest]

/-- A loop of `max + 1` rounds whose last never asks for another ends by itself, after the
rounds that do and one more. -/
theorem retryLoop_leading (round : Nat → Option β) (exhausted : β)
    (hround : ∀ i < max, round i = none ↔ p i) (hlast : round max ≠ none) :
    ∃ (j : Nat) (b : β), (j : ℕ∞) = min (leading p) max ∧ round j = some b ∧
      retryLoop round exhausted (max + 1) 0 = (j + 1, b) := by
  obtain ⟨j, hmin, hj, hbefore, hstop⟩ := exists_min_leading p max
  have hended : round j ≠ none := by
    rcases Nat.lt_or_eq_of_le hj with hlt | rfl
    · exact fun hnone => hstop hlt ((hround j hlt).mp hnone)
    · exact hlast
  obtain ⟨b, hb⟩ := Option.ne_none_iff_exists'.mp hended
  refine ⟨j, b, hmin, hb, ?_⟩
  apply retryLoop_stop exhausted _ (by rwa [Nat.zero_add]) (Nat.lt_succ_of_le hj)
  intro i hi
  rw [Nat.zero_add]
  exact (hround i (Nat.lt_of_lt_of_le hi hj)).mpr (hbefore i hi)

end PgSense.Library
