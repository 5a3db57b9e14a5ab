import Mathlib.Data.List.Chain

/-! Lists cut at a separator: when no piece is empty, and what the pieces are made of. -/

namespace PgSense.Library
set_option autoImplicit false

universe u
variable {α : Type u} [DecidableEq α] {sep : α}

theorem splitOn_cons_sep (xs : List α) : (sep :: xs).splitOn sep = [] :: xs.splitOn sep := by
  rw [List.splitOn_cons_eq_if_modifyHead, if_pos (beq_self_eq_true sep)]

theorem splitOn_cons_of_ne {x : α} (hx : x ≠ sep) (xs : List α) :
    (x :: xs).splitOn sep = (xs.splitOn sep).modifyHead (x :: ·) := by
  rw [List.splitOn_cons_eq_if_modifyHead, if_neg (by simpa using hx)]

theorem mem_piece {xs piece : List α} (hpiece : piece ∈ xs.splitOn sep) {x : α} (hx : x ∈ piece) :
    x ∈ xs ∧ x ≠ sep := by
  induction xs generalizing piece with
  | nil =>
    rw [List.splitOn_nil, List.mem_singleton] at hpiece
    subst hpiece
    cases hx
  | cons y ys ih =>
    by_cases hy : y = sep
    · subst hy
      rw [splitOn_cons_sep] at hpiece
      rcases List.mem_cons.mp hpiece with rfl | hpiece
      · cases hx
      · obtain ⟨hmem, hne⟩ := ih hpiece hx
        exact ⟨List.mem_cons_of_mem _ hmem, hne⟩
    · rw [splitOn_cons_of_ne hy] at hpiece
      cases hsplit : ys.splitOn sep with
      | nil => exact absurd hsplit (List.splitOn_ne_nil sep ys)
      | cons first rest =>
        rw [hsplit] at hpiece ih
        rcases List.mem_cons.mp hpiece with rfl | hpiece
        · rcases List.mem_cons.mp hx with rfl | hx
          · exact ⟨List.mem_cons_self, hy⟩
          · obtain ⟨hmem, hne⟩ := ih List.mem_cons_self hx
            exact ⟨List.mem_cons_of_mem _ hmem, hne⟩
        · obtain ⟨hmem, hne⟩ := ih (List.mem_cons_of_mem _ hpiece) hx
          exact ⟨List.mem_cons_of_mem _ hmem, hne⟩

/-- The first piece is empty where the list is, or where it starts with a separator. -/
theorem head_piece_ne_nil_iff (sep : α) (xs : List α) :
    (∀ piece ∈ (xs.splitOn sep).head?, piece ≠ []) ↔ xs ≠ [] ∧ xs.head? ≠ some sep := by
  cases xs with
  | nil => simp
  | cons x xs =>
    by_cases hx : x = sep
    · subst hx
      simp [splitOn_cons_sep]
    · rw [splitOn_cons_of_ne hx]
      cases hsplit : xs.splitOn sep with
      | nil => exact absurd hsplit (List.splitOn_ne_nil sep xs)
      | cons first rest => simp [hx]

/-- A later piece is empty where two separators meet, or where one ends the list. -/
theorem tail_pieces_ne_nil_iff (sep : α) (xs : List α) :
    (∀ piece ∈ (xs.splitOn sep).tail, piece ≠ []) ↔
      xs.getLast? ≠ some sep ∧ xs.IsChain fun a b => ¬ (a = sep ∧ b = sep) := by
  induction xs with
  | nil => simp
  | cons x xs ih =>
    have hne := List.splitOn_ne_nil sep xs
    have hhead := head_piece_ne_nil_iff sep xs
    by_cases hx : x = sep
    · subst hx
      rw [splitOn_cons_sep, List.tail_cons]
      have hall : (∀ piece ∈ xs.splitOn x, piece ≠ []) ↔
          (∀ piece ∈ (xs.splitOn x).head?, piece ≠ []) ∧
            ∀ piece ∈ (xs.splitOn x).tail, piece ≠ [] := by
        cases hsplit : xs.splitOn x with
        | nil => exact absurd hsplit hne
        | cons first rest => simp
      rw [hall, hhead, ih]
      cases xs with
      | nil => simp
      | cons y ys => simp [List.isChain_cons_cons, and_left_comm]
    · rw [splitOn_cons_of_ne hx]
      have htail : ((xs.splitOn sep).modifyHead (x :: ·)).tail = (xs.splitOn sep).tail := by
        cases xs.splitOn sep <;> rfl
      rw [htail, ih]
      cases xs with
      | nil => simp [hx]
      | cons y ys => simp [List.isChain_cons_cons, hx]

theorem pieces_ne_nil_iff (sep : α) (xs : List α) :
    (∀ piece ∈ xs.splitOn sep, piece ≠ []) ↔
      xs ≠ [] ∧ xs.head? ≠ some sep ∧ xs.getLast? ≠ some sep ∧
        xs.IsChain fun a b => ¬ (a = sep ∧ b = sep) := by
  rw [← and_assoc, ← head_piece_ne_nil_iff, ← tail_pieces_ne_nil_iff]
  cases hsplit : xs.splitOn sep with
  | nil => exact absurd hsplit (List.splitOn_ne_nil sep xs)
  | cons first rest => simp

end PgSense.Library
