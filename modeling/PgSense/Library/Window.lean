import Mathlib.Data.Option.Basic

/-! Suppression windows. Keyed events occur at times on a clock that never runs
backwards; an event passes unless one with the same key passed less than
`window` before. A memory that keeps one time a key, and may drop expired ones,
decides this as well as the whole history does. -/

namespace PgSense.Library.Window
set_option autoImplicit false

universe u
variable {κ : Type u}

/-- An event with key `k` passed less than `window` before `t`. -/
def Recent (window : Nat) (passed : List (κ × Nat)) (k : κ) (t : Nat) : Prop :=
  ∃ s, (k, s) ∈ passed ∧ t - s < window

/-- From time `c` on, the memory answers as the history of passed events. -/
def Remembers (window : Nat) (memory : κ → Option Nat) (passed : List (κ × Nat)) (c : Nat) : Prop :=
  ∀ k t, c ≤ t →
    ((∃ last, memory k = some last ∧ t - last < window) ↔ Recent window passed k t)

section Memory
variable {window c : Nat} {memory : κ → Option Nat} {passed : List (κ × Nat)}

theorem not_recent_nil (k : κ) (t : Nat) : ¬ Recent window [] k t := by
  intro hrecent
  obtain ⟨s, hs, _⟩ := hrecent
  cases hs

theorem recent_cons {k k' : κ} {s t : Nat} : Recent window ((k', s) :: passed) k t ↔
    (k' = k ∧ t - s < window) ∨ Recent window passed k t := by
  unfold Recent
  constructor
  · intro hrecent
    obtain ⟨u, hu, hlt⟩ := hrecent
    rcases List.mem_cons.mp hu with heq | hu
    · cases heq
      exact .inl ⟨rfl, hlt⟩
    · exact .inr ⟨u, hu, hlt⟩
  · intro hrecent
    rcases hrecent with ⟨rfl, hlt⟩ | ⟨u, hu, hlt⟩
    · exact ⟨s, List.mem_cons_self, hlt⟩
    · exact ⟨u, List.mem_cons_of_mem _ hu, hlt⟩

theorem remembers_nothing (c : Nat) :
    Remembers window (fun _ : κ => none) ([] : List (κ × Nat)) c := by
  intro k t _
  constructor
  · intro hknown
    obtain ⟨_, h, _⟩ := hknown
    cases h
  · exact fun h => absurd h (not_recent_nil k t)

theorem Remembers.later (h : Remembers window memory passed c) {c' : Nat} (hc : c ≤ c') :
    Remembers window memory passed c' :=
  fun k t ht => h k t (Nat.le_trans hc ht)

/-- Dropping what is expired at time `p` is not observable from `p` on. -/
theorem Remembers.prune (h : Remembers window memory passed c) {p : Nat} (hp : c ≤ p) :
    Remembers window (fun k => (memory k).filter fun last => decide (p - last < window))
      passed p := by
  intro k t ht
  rw [← h k t (Nat.le_trans hp ht)]
  constructor
  · intro hknown
    obtain ⟨last, hlast, hlt⟩ := hknown
    exact ⟨last, (Option.filter_eq_some_iff.mp hlast).1, hlt⟩
  · intro hknown
    obtain ⟨last, hlast, hlt⟩ := hknown
    refine ⟨last, Option.filter_eq_some_iff.mpr ⟨hlast, ?_⟩, hlt⟩
    simp only [decide_eq_true_eq]
    omega

theorem Remembers.record [DecidableEq κ] (h : Remembers window memory passed c) {k : κ} {t : Nat}
    (ht : c ≤ t) (hpass : ¬ Recent window passed k t) :
    Remembers window (fun k' => if k = k' then some t else memory k') ((k, t) :: passed) t := by
  intro k' t' ht'
  rw [recent_cons]
  by_cases hk : k = k'
  · subst hk
    simp only [if_true, Option.some.injEq, true_and]
    constructor
    · intro hnow
      obtain ⟨_, rfl, hlt⟩ := hnow
      exact .inl hlt
    · intro hnow
      rcases hnow with hlt | ⟨s, hs, hlt⟩
      · exact ⟨t, rfl, hlt⟩
      · exact absurd ⟨s, hs, by omega⟩ hpass
  · simp only [hk, if_false, false_and, false_or]
    exact h k' t' (Nat.le_trans ht ht')

end Memory

end PgSense.Library.Window
