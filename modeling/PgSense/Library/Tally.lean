import Mathlib.Algebra.BigOperators.Group.List.Basic
import Mathlib.Algebra.Order.BigOperators.Group.List
import Mathlib.Algebra.GroupWithZero.Nat
import Mathlib.Algebra.Order.Group.Nat

/-! Weights summed over a list of tasks. A step of one task replaces one entry,
and the sum changes by the weights of that entry alone. -/

namespace PgSense.Library
set_option autoImplicit false

universe u
variable {α : Type u}

/-- The sum of the weights of a list. -/
def tally (weight : α → Nat) (xs : List α) : Nat := (xs.map weight).sum

@[simp] theorem tally_nil (weight : α → Nat) : tally weight [] = 0 := rfl

@[simp] theorem tally_cons (weight : α → Nat) (x : α) (xs : List α) :
    tally weight (x :: xs) = weight x + tally weight xs := List.sum_cons

@[simp] theorem tally_append (weight : α → Nat) (xs ys : List α) :
    tally weight (xs ++ ys) = tally weight xs + tally weight ys := by
  rw [tally, List.map_append, List.sum_append_nat]
  rfl

/-- A change that keeps each weight keeps the sum. -/
theorem tally_map {weight : α → Nat} {f : α → α} (h : ∀ x, weight (f x) = weight x)
    (xs : List α) : tally weight (xs.map f) = tally weight xs := by
  rw [tally, List.map_map]
  exact congrArg List.sum (List.map_congr_left fun x _ => h x)

theorem tally_set (weight : α → Nat) {xs : List α} {i : Nat} {x : α} (h : xs[i]? = some x)
    (y : α) : tally weight (xs.set i y) + weight x = tally weight xs + weight y := by
  obtain ⟨hi, rfl⟩ := List.getElem?_eq_some_iff.mp h
  have hlt : i < (xs.map weight).length := by rwa [List.length_map]
  have hnew := List.sum_set (xs.map weight) i (weight y)
  have hold := List.sum_set (xs.map weight) i (weight xs[i])
  rw [← List.getElem_map weight (h := hlt), List.set_getElem_self] at hold
  rw [if_pos hlt] at hnew hold
  rw [tally, tally, List.map_set, hnew, hold, List.getElem_map]
  omega

theorem tally_eraseIdx (weight : α → Nat) {xs : List α} {i : Nat} {x : α} (h : xs[i]? = some x) :
    tally weight (xs.eraseIdx i) + weight x = tally weight xs := by
  obtain ⟨hi, rfl⟩ := List.getElem?_eq_some_iff.mp h
  have hlt : i < (xs.map weight).length := by rwa [List.length_map]
  have hsum := List.CommMonoid.add_sum_eraseIdx hlt
  rw [List.getElem_map, List.eraseIdx_map] at hsum
  rw [tally, tally, ← hsum, Nat.add_comm]

theorem tally_eq_zero {weight : α → Nat} {xs : List α} :
    tally weight xs = 0 ↔ ∀ x ∈ xs, weight x = 0 := by
  rw [tally, List.sum_eq_zero_iff_forall_eq_nat, List.forall_mem_map]

theorem exists_of_tally_pos {weight : α → Nat} {xs : List α} (h : 0 < tally weight xs) :
    ∃ (i : Nat) (x : α), xs[i]? = some x ∧ 0 < weight x := by
  obtain ⟨w, hw, hpos⟩ := List.sum_pos_iff_exists_pos_nat.mp h
  obtain ⟨x, hx, rfl⟩ := List.mem_map.mp hw
  obtain ⟨i, hi⟩ := List.getElem?_of_mem hx
  exact ⟨i, x, hi, hpos⟩

theorem tally_le_length {weight : α → Nat} (h : ∀ x, weight x ≤ 1) (xs : List α) :
    tally weight xs ≤ xs.length := by
  have hle := List.sum_le_card_nsmul (xs.map weight) 1 (List.forall_mem_map.mpr fun x _ => h x)
  rwa [List.length_map, Nat.nsmul_eq_mul, Nat.mul_one] at hle

end PgSense.Library
