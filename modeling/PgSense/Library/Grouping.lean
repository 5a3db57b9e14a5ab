import Mathlib.Data.List.Basic

/-! Texts made of items with gaps between them, such as the digit groups of a number. -/

namespace PgSense.Library
set_option autoImplicit false

universe u
variable {α : Type u}

/-- `n` items, each behind a gap, and nothing after the last of them. -/
inductive Groups (item : α → Bool) (gap : List α → Prop) : List α → Nat → Prop where
  | nil : Groups item gap [] 0
  | cons {g : List α} {b : α} {xs : List α} {n : Nat} : gap g → (∀ s ∈ g, item s = false) →
      item b = true → Groups item gap xs n → Groups item gap (g ++ b :: xs) (n + 1)

/-- No gap, or a single separator. -/
def Single (sep : α → Bool) (g : List α) : Prop := g = [] ∨ ∃ s, g = [s] ∧ sep s = true

namespace Groups
variable {item sep : α → Bool} {gap : List α → Prop} {xs ys : List α} {n k : Nat}

theorem countP (h : Groups item gap xs n) : xs.countP item = n := by
  induction h with
  | nil => rfl
  | cons _ hg hb _ ih =>
    rw [List.countP_append, List.countP_cons_of_pos hb, ih, List.countP_eq_zero.mpr, Nat.zero_add]
    intro s hs
    rw [hg s hs]
    exact Bool.false_ne_true

theorem ne_nil (h : Groups item gap xs n) (hn : 0 < n) : xs ≠ [] := by
  intro hnil
  have hcount := h.countP
  rw [hnil, List.countP_nil] at hcount
  omega

theorem append (hx : Groups item gap xs n) (hy : Groups item gap ys k) :
    Groups item gap (xs ++ ys) (n + k) := by
  induction hx with
  | nil =>
    rw [Nat.zero_add]
    exact hy
  | @cons g b xs n hgap hg hb _ ih =>
    rw [List.append_assoc, Nat.add_right_comm]
    exact .cons hgap hg hb ih

/-- Items with no gaps. -/
theorem of_all (hgap : gap []) (h : ∀ b ∈ xs, item b = true) : Groups item gap xs xs.length := by
  induction xs with
  | nil => exact .nil
  | cons b xs ih =>
    have ih := ih fun c hc => h c (List.mem_cons_of_mem b hc)
    exact .cons (g := []) hgap (by simp) (h b List.mem_cons_self) ih

theorem getLast? (h : Groups item gap xs n) (hn : 0 < n) : xs.getLast?.any item = true := by
  induction h with
  | nil => exact absurd hn (Nat.lt_irrefl 0)
  | @cons g b xs n _ _ hb hxs ih =>
    rw [List.getLast?_append_of_ne_nil _ (List.cons_ne_nil b xs)]
    cases n with
    | zero =>
      have hnil : xs = [] := by cases hxs; rfl
      rw [hnil]
      exact hb
    | succ n =>
      have hne := hxs.ne_nil (Nat.succ_pos n)
      rw [← List.singleton_append, List.getLast?_append_of_ne_nil _ hne]
      exact ih (Nat.succ_pos n)

/-- Every entry is an item, or stands in a gap. -/
theorem mem (h : Groups item gap xs n) {b : α} (hb : b ∈ xs) :
    item b = true ∨ ∃ g, gap g ∧ b ∈ g := by
  induction h with
  | nil => cases hb
  | @cons g c xs n hgap _ hc _ ih =>
    rcases List.mem_append.mp hb with hb | hb
    · exact .inr ⟨g, hgap, hb⟩
    · rcases List.mem_cons.mp hb with rfl | hb
      · exact .inl hc
      · exact ih hb

theorem mem_single (h : Groups item (Single sep) xs n) {b : α} (hb : b ∈ xs) :
    item b = true ∨ sep b = true := by
  rcases h.mem hb with hitem | ⟨g, rfl | ⟨s, rfl, hs⟩, hg⟩
  · exact .inl hitem
  · cases hg
  · rw [List.mem_singleton.mp hg]
    exact .inr hs

end Groups

/-- Everything else than an item is a separator between two items. -/
def Isolated (item sep : α → Bool) (xs : List α) : Prop :=
  ∀ front s back, xs = front ++ s :: back → item s = false →
    sep s = true ∧ front.getLast?.any item = true ∧ back.head?.any item = true

section Isolated
variable {item sep : α → Bool} {xs : List α} {n : Nat}

theorem Groups.isolated_behind (h : Groups item (Single sep) xs n) (pre : List α)
    (hpre : pre.getLast?.any item = true ∨ xs.head?.any item = true) {front back : List α} {s : α}
    (hxs : xs = front ++ s :: back) (hs : item s = false) :
    sep s = true ∧ (pre ++ front).getLast?.any item = true ∧ back.head?.any item = true := by
  induction h generalizing pre front with
  | nil => exact absurd hxs.symm (List.append_ne_nil_of_right_ne_nil _ (List.cons_ne_nil s back))
  | @cons g b xs n hgap hg hb hrest ih =>
    have hbehind : ∀ front', xs = front' ++ s :: back → ∀ pre', (pre' ++ [b]) ++ front' = pre ++ front →
        sep s = true ∧ (pre ++ front).getLast?.any item = true ∧ back.head?.any item = true := by
      intro front' hfront' pre' hpre'
      rw [← hpre']
      exact ih (pre' ++ [b]) (.inl (by simpa using hb)) hfront'
    rcases hgap with rfl | ⟨t, rfl, ht⟩
    · rw [List.nil_append] at hxs
      cases front with
      | nil =>
        obtain ⟨rfl, _⟩ := List.cons.inj hxs
        rw [hb] at hs
        cases hs
      | cons c front =>
        obtain ⟨rfl, htail⟩ := List.cons.inj hxs
        exact hbehind front htail pre (by simp)
    · rw [List.singleton_append] at hxs hpre
      cases front with
      | nil =>
        obtain ⟨rfl, rfl⟩ := List.cons.inj hxs
        rw [List.append_nil]
        refine ⟨ht, hpre.resolve_right ?_, hb⟩
        simp [hs]
      | cons c front =>
        obtain ⟨_, htail⟩ := List.cons.inj hxs
        cases front with
        | nil =>
          obtain ⟨rfl, _⟩ := List.cons.inj htail
          rw [hb] at hs
          cases hs
        | cons d front =>
          obtain ⟨rfl, hlast⟩ := List.cons.inj htail
          exact hbehind front hlast (pre ++ [c]) (by simp)

theorem Groups.isolated (h : Groups item (Single sep) xs n) (hhead : xs.head?.any item = true) :
    Isolated item sep xs := by
  intro front s back hxs hs
  exact h.isolated_behind [] (.inr hhead) hxs hs

theorem groups_of_isolated (pre : List α) (h : Isolated item sep (pre ++ xs)) :
    Groups item (Single sep) xs (xs.countP item) := by
  induction hlen : xs.length using Nat.strongRecOn generalizing pre xs with
  | ind d ih =>
    cases xs with
    | nil => exact .nil
    | cons b xs =>
      rw [List.length_cons] at hlen
      cases hb : item b with
      | true =>
        rw [List.countP_cons_of_pos hb]
        have hrest := ih xs.length (by omega) (pre ++ [b]) (by simpa using h) rfl
        exact .cons (g := []) (.inl rfl) (by simp) hb hrest
      | false =>
        obtain ⟨hsep, _, hnext⟩ := h pre b xs rfl hb
        cases xs with
        | nil => cases hnext
        | cons c xs =>
          have hc : item c = true := hnext
          rw [List.length_cons] at hlen
          rw [List.countP_cons_of_neg (by simp [hb]), List.countP_cons_of_pos hc]
          have hrest := ih xs.length (by omega) (pre ++ [b, c]) (by simpa using h) rfl
          exact .cons (g := [b]) (.inr ⟨b, rfl, hsep⟩) (by simpa using hb) hc hrest

theorem Isolated.groups (h : Isolated item sep xs) :
    Groups item (Single sep) xs (xs.countP item) :=
  groups_of_isolated [] h

end Isolated

end PgSense.Library
