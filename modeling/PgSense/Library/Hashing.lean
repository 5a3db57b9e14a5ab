import Mathlib.Data.List.Basic

/-! What a hash keeps apart. A stream of encodings can be read back when each encoding shows
where it ends, and a fold never joins two states when no step does. -/

namespace PgSense.Library
set_option autoImplicit false

universe u v w

/-- The encoding of a value can be read off the front of a stream, whatever follows. -/
def SelfDelimiting {α : Type u} {β : Type v} (enc : β → List α) : Prop :=
  ∀ (x y : β) (us vs : List α), enc x ++ us = enc y ++ vs → x = y ∧ us = vs

namespace SelfDelimiting
variable {α : Type u} {β : Type v} {enc : β → List α}

theorem append_iff (h : SelfDelimiting enc) {x y : β} {us vs : List α} :
    enc x ++ us = enc y ++ vs ↔ x = y ∧ us = vs := by
  constructor
  · exact h x y us vs
  · rintro ⟨rfl, rfl⟩
    rfl

theorem eq_iff (h : SelfDelimiting enc) {x y : β} : enc x = enc y ↔ x = y := by
  have hiff : enc x ++ [] = enc y ++ [] ↔ x = y ∧ ([] : List α) = [] := h.append_iff
  simpa using hiff

theorem append_terminator_inj {t : α} {xs ys us vs : List α} (hx : t ∉ xs) (hy : t ∉ ys)
    (h : xs ++ t :: us = ys ++ t :: vs) : xs = ys ∧ us = vs := by
  induction xs generalizing ys with
  | nil =>
    cases ys with
    | nil => exact ⟨rfl, List.tail_eq_of_cons_eq h⟩
    | cons y ys => exact absurd (List.head_eq_of_cons_eq h ▸ List.mem_cons_self) hy
  | cons x xs ih =>
    cases ys with
    | nil => exact absurd (List.head_eq_of_cons_eq h ▸ List.mem_cons_self) hx
    | cons y ys =>
      have hhead : x = y := List.head_eq_of_cons_eq h
      have htail := ih (fun hmem => hx (List.mem_cons_of_mem x hmem))
        (fun hmem => hy (List.mem_cons_of_mem y hmem)) (List.tail_eq_of_cons_eq h)
      exact ⟨by rw [hhead, htail.1], htail.2⟩

/-- A terminator that no body contains. -/
theorem terminated {body : β → List α} {t : α} (hinj : Function.Injective body)
    (ht : ∀ x, t ∉ body x) : SelfDelimiting fun x => body x ++ [t] := by
  intro x y us vs h
  rw [List.append_assoc, List.append_assoc] at h
  obtain ⟨hbody, hrest⟩ := append_terminator_inj (ht x) (ht y) h
  exact ⟨hinj hbody, hrest⟩

theorem fixedLength {n : Nat} (hinj : Function.Injective enc)
    (hlen : ∀ x, (enc x).length = n) : SelfDelimiting enc := by
  intro x y us vs h
  have hsame : (enc x).length = (enc y).length := by rw [hlen x, hlen y]
  obtain ⟨henc, hrest⟩ := List.append_inj h hsame
  exact ⟨hinj henc, hrest⟩

end SelfDelimiting

section Folds
variable {σ : Type u} {α : Type v} {step : σ → α → σ}

theorem foldl_injective (hstate : ∀ a, Function.Injective fun s => step s a) (xs : List α) :
    Function.Injective fun s => xs.foldl step s := by
  induction xs with
  | nil => exact fun _ _ h => h
  | cons a xs ih =>
    intro s t h
    exact hstate a (ih h)

/-- Two lists that part at one symbol leave the fold in different states: the symbol
separates them and the common rest never joins them again. -/
theorem foldl_ne (hstate : ∀ a, Function.Injective fun s => step s a)
    (hsymbol : ∀ s, Function.Injective (step s)) {a b : α} (hab : a ≠ b) (s : σ)
    (pre post : List α) :
    (pre ++ a :: post).foldl step s ≠ (pre ++ b :: post).foldl step s := by
  intro h
  rw [List.foldl_append, List.foldl_append, List.foldl_cons, List.foldl_cons] at h
  have hjoined := foldl_injective hstate post h
  exact hab (hsymbol _ hjoined)

end Folds

/-- Lists of one length that differ at one position agree before it and after it. -/
theorem exists_split_of_existsUnique {α : Type u} {xs ys : List α} (hlen : xs.length = ys.length)
    (h : ∃! i : Nat, xs[i]? ≠ ys[i]?) :
    ∃ pre a b post, a ≠ b ∧ xs = pre ++ a :: post ∧ ys = pre ++ b :: post := by
  obtain ⟨i, hi, honly⟩ := h
  have hagree : ∀ j, j ≠ i → xs[j]? = ys[j]? := by
    intro j hj
    by_contra hne
    exact hj (honly j hne)
  have hlt : i < xs.length := by
    by_contra hge
    exact hi (by rw [List.getElem?_eq_none (by omega), List.getElem?_eq_none (by omega)])
  have hlt' : i < ys.length := by omega
  have hpre : ys.take i = xs.take i := by
    apply List.ext_getElem?
    intro j
    by_cases hj : j < i
    · rw [List.getElem?_take_of_lt hj, List.getElem?_take_of_lt hj, hagree j (by omega)]
    · rw [List.getElem?_eq_none (by simp; omega), List.getElem?_eq_none (by simp; omega)]
  have hpost : ys.drop (i + 1) = xs.drop (i + 1) := by
    apply List.ext_getElem?
    intro j
    rw [List.getElem?_drop, List.getElem?_drop, hagree _ (by omega)]
  have hxs : xs = xs.take i ++ xs[i] :: xs.drop (i + 1) := by
    rw [List.getElem_cons_drop, List.take_append_drop]
  have hys : ys = xs.take i ++ ys[i] :: xs.drop (i + 1) := by
    rw [← hpre, ← hpost, List.getElem_cons_drop, List.take_append_drop]
  refine ⟨xs.take i, xs[i], ys[i], xs.drop (i + 1), ?_, hxs, hys⟩
  rwa [List.getElem?_eq_getElem hlt, List.getElem?_eq_getElem hlt', ne_eq, Option.some.injEq] at hi

theorem existsUnique_difference {α : Type u} {a b : α} (hab : a ≠ b) (pre post : List α) :
    ∃! i : Nat, (pre ++ a :: post)[i]? ≠ (pre ++ b :: post)[i]? := by
  refine ⟨pre.length, ?_, ?_⟩
  · simpa using hab
  · intro i hi
    by_contra hne
    apply hi
    rcases Nat.lt_or_gt_of_ne hne with hbefore | hafter
    · rw [List.getElem?_append_left hbefore, List.getElem?_append_left hbefore]
    · obtain ⟨k, hk⟩ := Nat.exists_eq_add_of_lt hafter
      rw [List.getElem?_append_right (by omega), List.getElem?_append_right (by omega),
        show i - pre.length = k + 1 by omega]
      rfl

end PgSense.Library
