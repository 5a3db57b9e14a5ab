import Mathlib.Data.List.Basic

/-! Reading a list through a list of positions. A program that keeps, next to a
vector, the positions of the entries of one kind visits exactly those entries,
in vector order. -/

namespace PgSense.Library
set_option autoImplicit false

universe u v
variable {α : Type u} {β : Type v}

theorem flatMap_filter_of_nil {p : α → Bool} {f : α → List β} {l : List α}
    (h : ∀ x ∈ l, p x = false → f x = []) : (l.filter p).flatMap f = l.flatMap f := by
  induction l with
  | nil => rfl
  | cons x xs ih =>
    have ih := ih fun y hy => h y (List.mem_cons_of_mem x hy)
    cases hp : p x with
    | true => simp [hp, ih]
    | false => simp [hp, ih, h x List.mem_cons_self hp]

theorem flatMap_range_getElem? (f : Option α → List β) (xs : List α) :
    (List.range xs.length).flatMap (fun k => f xs[k]?) = xs.flatMap fun x => f (some x) := by
  induction xs with
  | nil => rfl
  | cons x xs ih =>
    rw [List.length_cons, List.range_succ_eq_map]
    simpa [List.flatMap_map] using ih

private theorem flatMap_findIdxs_from (p : α → Bool) (f : Nat → Option α → List β)
    (front xs : List α) :
    (xs.findIdxs p front.length).flatMap (fun i => f i (front ++ xs)[i]?) =
      ((xs.zipIdx front.length).filter fun x => p x.1).flatMap fun x => f x.2 (some x.1) := by
  induction xs generalizing front with
  | nil => rfl
  | cons x xs ih =>
    have ih := ih (front ++ [x])
    simp only [List.length_append, List.length_singleton, List.append_assoc,
      List.singleton_append] at ih
    rw [List.findIdxs_cons, List.zipIdx_cons]
    cases hp : p x with
    | true => simp [hp, ih]
    | false => simp [hp, ih]

/-- Visiting the positions of the entries that satisfy `p` is visiting those
entries with their positions. -/
theorem flatMap_findIdxs (p : α → Bool) (f : Nat → Option α → List β) (xs : List α) :
    (xs.findIdxs p).flatMap (fun i => f i xs[i]?) =
      (xs.zipIdx.filter fun x => p x.1).flatMap fun x => f x.2 (some x.1) :=
  flatMap_findIdxs_from p f [] xs

/-- Of a positioned list, the entry at one position. -/
theorem flatMap_zipIdx_single (f : α → List β) (xs : List α) (n i : Nat) :
    (xs.zipIdx n).flatMap (fun x => if x.2 == n + i then f x.1 else []) =
      (xs[i]?).toList.flatMap f := by
  induction xs generalizing n i with
  | nil => rfl
  | cons x xs ih =>
    rw [List.zipIdx_cons, List.flatMap_cons]
    cases i with
    | zero =>
      have hrest : (xs.zipIdx (n + 1)).flatMap
          (fun y => if y.2 == n + 0 then f y.1 else []) = [] := by
        rw [List.flatMap_eq_nil_iff]
        intro y hy
        have := List.le_snd_of_mem_zipIdx hy
        rw [if_neg (by simp; omega)]
      rw [hrest]
      simp
    | succ i =>
      have ih := ih (n + 1) i
      rw [show n + 1 + i = n + (i + 1) by omega] at ih
      simpa using ih

theorem findIdxs_concat (p : α → Bool) (xs : List α) (x : α) :
    (xs ++ [x]).findIdxs p = xs.findIdxs p ++ if p x then [xs.length] else [] := by
  rw [List.findIdxs_append, List.findIdxs_singleton, Nat.zero_add]

theorem getElem?_findIdxs (p : α → Bool) (xs : List α) (k : Nat) :
    ((xs.findIdxs p)[k]?).bind (fun i => xs[i]?) = (xs.filter p)[k]? := by
  by_cases hk : k < (xs.filter p).length
  · have hk' : k < (xs.findIdxs p).length := by
      simpa [List.countP_eq_length_filter] using hk
    have hi := List.getElem_findIdxs_lt hk'
    rw [List.getElem?_eq_getElem hk', List.getElem?_eq_getElem hk]
    simp only [Option.bind_some]
    rw [List.getElem?_eq_getElem (by simpa using hi)]
    exact congrArg some (List.getElem_filter_eq_getElem_getElem_findIdxs hk).symm
  · have hk' : ¬ k < (xs.findIdxs p).length := by
      simpa [List.countP_eq_length_filter] using hk
    rw [List.getElem?_eq_none (by omega), List.getElem?_eq_none (by omega)]
    rfl

section Without

def withoutFrom (missing : List Nat) (n : Nat) (xs : List α) : List α :=
  ((xs.zipIdx n).filter fun x => !missing.contains x.2).map Prod.fst

/-- The entries whose position is not listed. -/
def without (missing : List Nat) (xs : List α) : List α := withoutFrom missing 0 xs

theorem withoutFrom_cons (missing : List Nat) (n : Nat) (x : α) (xs : List α) :
    withoutFrom missing n (x :: xs) =
      (if missing.contains n then [] else [x]) ++ withoutFrom missing (n + 1) xs := by
  rw [withoutFrom, List.zipIdx_cons, List.filter_cons]
  cases missing.contains n <;> rfl

theorem withoutFrom_map (f : α → β) (missing : List Nat) (n : Nat) (xs : List α) :
    withoutFrom missing n (xs.map f) = (withoutFrom missing n xs).map f := by
  induction xs generalizing n with
  | nil => rfl
  | cons x xs ih =>
    rw [List.map_cons, withoutFrom_cons, withoutFrom_cons, ih, List.map_append]
    cases missing.contains n <;> rfl

theorem withoutFrom_zip (missing : List Nat) (n : Nat) (xs : List α) (ys : List β) :
    (withoutFrom missing n xs).zip (withoutFrom missing n ys) =
      withoutFrom missing n (xs.zip ys) := by
  induction xs generalizing n ys with
  | nil => rfl
  | cons x xs ih =>
    cases ys with
    | nil =>
      rw [List.zip_nil_right]
      exact List.zip_nil_right
    | cons y ys =>
      rw [List.zip_cons_cons, withoutFrom_cons, withoutFrom_cons, withoutFrom_cons, ← ih]
      cases missing.contains n <;> rfl

theorem without_map (f : α → β) (missing : List Nat) (xs : List α) :
    without missing (xs.map f) = (without missing xs).map f :=
  withoutFrom_map f missing 0 xs

/-- Two lists with the same positions left out stay paired. -/
theorem without_zip (missing : List Nat) (xs : List α) (ys : List β) :
    (without missing xs).zip (without missing ys) = without missing (xs.zip ys) :=
  withoutFrom_zip missing 0 xs ys

end Without

section Fewer
variable {f g : α → Option β} {xs : List α}

/-- What one choice yields is part of what another yields, where it yields the same or nothing. -/
theorem filterMap_sublist (h : ∀ x ∈ xs, ∀ y, f x = some y → g x = some y) :
    (xs.filterMap f).Sublist (xs.filterMap g) := by
  induction xs with
  | nil => exact .slnil
  | cons x xs ih =>
    obtain ⟨hx, hxs⟩ := List.forall_mem_cons.mp h
    have ih := ih hxs
    cases hf : f x with
    | none =>
      rw [List.filterMap_cons_none hf]
      cases hg : g x with
      | none =>
        rw [List.filterMap_cons_none hg]
        exact ih
      | some z =>
        rw [List.filterMap_cons_some hg]
        exact ih.cons z
    | some y =>
      rw [List.filterMap_cons_some hf, List.filterMap_cons_some (hx y hf)]
      exact ih.cons_cons y

/-- Then they yield the same list only where they never differ. -/
theorem filterMap_eq_iff (h : ∀ x ∈ xs, ∀ y, f x = some y → g x = some y) :
    xs.filterMap f = xs.filterMap g ↔ ∀ x ∈ xs, f x = g x := by
  refine ⟨fun heq => ?_, List.filterMap_congr⟩
  induction xs with
  | nil => exact List.forall_mem_nil _
  | cons x xs ih =>
    obtain ⟨hx, hxs⟩ := List.forall_mem_cons.mp h
    rw [List.forall_mem_cons]
    cases hf : f x with
    | some y =>
      rw [List.filterMap_cons_some hf, List.filterMap_cons_some (hx y hf)] at heq
      exact ⟨(hx y hf).symm, ih hxs (List.cons.inj heq).2⟩
    | none =>
      rw [List.filterMap_cons_none hf] at heq
      cases hg : g x with
      | none =>
        rw [List.filterMap_cons_none hg] at heq
        exact ⟨rfl, ih hxs heq⟩
      | some z =>
        -- the list without `x` is no longer than the other one without it
        rw [List.filterMap_cons_some hg] at heq
        have hlen := congrArg List.length heq
        have hle := (filterMap_sublist hxs).length_le
        rw [List.length_cons] at hlen
        omega

end Fewer

end PgSense.Library
