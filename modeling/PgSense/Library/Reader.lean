import Mathlib.Data.List.DropRight

/-! Readers that take items with separators between them from the front of a text, up to a
limit. What an item and a separator do to the state of a reader are its parameters. -/

namespace PgSense.Library
set_option autoImplicit false

universe u v
variable {α : Type u} {σ : Type v}

structure Reader (α : Type u) (σ : Type v) where
  item : α → Bool
  sep : α → Bool
  limit : Nat
  /-- The number of items read. -/
  count : σ → Nat
  /-- The end of the last item read. -/
  stop : σ → Nat
  take : σ → α → Nat → σ
  pass : σ → σ
  count_take : ∀ s b j, count (take s b j) = count s + 1
  stop_take : ∀ s b j, stop (take s b j) = j
  count_pass : ∀ s, count (pass s) = count s
  stop_pass : ∀ s, stop (pass s) = stop s

namespace Reader
variable (R : Reader α σ)

/-- The state behind what is read at position `j`. A separator before the first item ends it. -/
def read : Nat → σ → List α → σ
  | _, s, [] => s
  | j, s, b :: rest =>
    if R.count s < R.limit ∧ R.item b = true then read (j + 1) (R.take s b (j + 1)) rest
    else if R.count s < R.limit ∧ R.sep b = true ∧ 0 < R.count s then
      read (j + 1) (R.pass s) rest
    else s

/-- The state behind a whole text. -/
def feed : Nat → σ → List α → σ
  | _, s, [] => s
  | j, s, b :: xs => feed (j + 1) (if R.item b then R.take s b (j + 1) else R.pass s) xs

variable {R} {j : Nat} {s : σ} {b : α} {xs rest : List α}

theorem read_item (hb : R.item b = true) (h : R.count s < R.limit) :
    R.read j s (b :: rest) = R.read (j + 1) (R.take s b (j + 1)) rest := by
  rw [read, if_pos ⟨h, hb⟩]

theorem read_sep (hb : R.item b = false) (hsep : R.sep b = true) (h : R.count s < R.limit)
    (hpos : 0 < R.count s) : R.read j s (b :: rest) = R.read (j + 1) (R.pass s) rest := by
  rw [read, if_neg, if_pos ⟨h, hsep, hpos⟩]
  rw [hb]
  exact fun hitem => Bool.false_ne_true hitem.2

theorem read_none (h : rest.head?.any R.item = false) (hzero : R.count s = 0) :
    R.read j s rest = s := by
  cases rest with
  | nil => rfl
  | cons b rest =>
    have hb : R.item b = false := h
    rw [read, if_neg, if_neg]
    · exact fun hsep => absurd hsep.2.2 (by omega)
    · rw [hb]
      exact fun hitem => Bool.false_ne_true hitem.2

theorem feed_item (hb : R.item b = true) :
    R.feed j s (b :: xs) = R.feed (j + 1) (R.take s b (j + 1)) xs := by
  rw [feed, if_pos hb]

theorem feed_pass (hb : R.item b = false) :
    R.feed j s (b :: xs) = R.feed (j + 1) (R.pass s) xs := by
  rw [feed, hb]
  rfl

theorem feed_append (j : Nat) (s : σ) (xs ys : List α) :
    R.feed j s (xs ++ ys) = R.feed (j + xs.length) (R.feed j s xs) ys := by
  induction xs generalizing j s with
  | nil => rfl
  | cons b xs ih =>
    rw [List.cons_append, feed, feed, ih, List.length_cons, Nat.add_assoc, Nat.add_comm 1]

theorem count_feed (j : Nat) (s : σ) (xs : List α) :
    R.count (R.feed j s xs) = R.count s + xs.countP R.item := by
  induction xs generalizing j s with
  | nil => rfl
  | cons b xs ih =>
    cases hb : R.item b with
    | true =>
      rw [feed_item hb, ih, R.count_take, List.countP_cons_of_pos hb]
      omega
    | false => rw [feed_pass hb, ih, R.count_pass, List.countP_cons_of_neg (by simp [hb])]

theorem stop_feed_gap (hxs : ∀ b ∈ xs, R.item b = false) : R.stop (R.feed j s xs) = R.stop s := by
  induction xs generalizing j s with
  | nil => rfl
  | cons b xs ih =>
    obtain ⟨hb, hxs⟩ := List.forall_mem_cons.mp hxs
    rw [feed_pass hb, ih hxs, R.stop_pass]

theorem stop_feed (hlast : xs.getLast?.any R.item = true) :
    R.stop (R.feed j s xs) = j + xs.length := by
  rcases List.eq_nil_or_concat xs with rfl | ⟨front, b, rfl⟩
  · cases hlast
  · rw [List.concat_eq_append] at hlast ⊢
    have hb : R.item b = true := by simpa using hlast
    rw [feed_append, feed_item hb, feed, R.stop_take, List.length_append, List.length_singleton,
      Nat.add_assoc]

theorem countP_pos_of_getLast? {p : α → Bool} (hlast : xs.getLast?.any p = true) :
    0 < xs.countP p := by
  rcases List.eq_nil_or_concat xs with rfl | ⟨front, b, rfl⟩
  · cases hlast
  · have hb : p b = true := by simpa using hlast
    rw [List.countP_pos_iff]
    exact ⟨b, by simp, hb⟩

/-- A reader takes all of a text of items and separators that ends in an item and fits its
limit, and reads on behind it. -/
theorem read_append (hxs : ∀ b ∈ xs, R.item b = true ∨ R.sep b = true)
    (hlast : xs.getLast?.any R.item = true) (hlimit : R.count s + xs.countP R.item ≤ R.limit)
    (hstart : 0 < R.count s ∨ xs.head?.any R.item = true) :
    R.read j s (xs ++ rest) = R.read (j + xs.length) (R.feed j s xs) rest := by
  induction xs generalizing j s with
  | nil => cases hlast
  | cons b xs ih =>
    obtain ⟨hb, hxs⟩ := List.forall_mem_cons.mp hxs
    have hnext : xs = [] ∨ xs.getLast?.any R.item = true := by
      cases xs with
      | nil => exact .inl rfl
      | cons c xs => exact .inr hlast
    have hlength : j + (b :: xs).length = j + 1 + xs.length := by
      rw [List.length_cons]
      omega
    rw [List.cons_append, hlength]
    cases hitem : R.item b with
    | true =>
      rw [List.countP_cons_of_pos hitem] at hlimit
      rw [read_item hitem (by omega), feed_item hitem]
      rcases hnext with rfl | hlast
      · rfl
      · have hcount := R.count_take s b (j + 1)
        exact ih hxs hlast (by omega) (.inl (by omega))
    | false =>
      have hsep : R.sep b = true := hb.resolve_left (by simp [hitem])
      have hpos : 0 < R.count s := hstart.resolve_right (by simp [hitem])
      rw [List.countP_cons_of_neg (by simp [hitem])] at hlimit
      rcases hnext with rfl | hlast
      · simp [hitem] at hlast
      · have hmore := countP_pos_of_getLast? hlast
        have hcount := R.count_pass s
        rw [read_sep hitem hsep (by omega) hpos, feed_pass hitem]
        exact ih hxs hlast (by omega) (.inl (by omega))

theorem read_full (h : R.limit ≤ R.count s) : R.read j s rest = s := by
  cases rest with
  | nil => rfl
  | cons b rest =>
    rw [read, if_neg (by omega), if_neg (by omega)]

theorem le_count_read (j : Nat) (s : σ) (rest : List α) :
    R.count s ≤ R.count (R.read j s rest) := by
  induction rest generalizing j s with
  | nil => exact Nat.le_refl _
  | cons b rest ih =>
    rw [read]
    split
    · have hcount := R.count_take s b (j + 1)
      have hrest := ih (j + 1) (R.take s b (j + 1))
      omega
    · split
      · have hcount := R.count_pass s
        have hrest := ih (j + 1) (R.pass s)
        omega
      · exact Nat.le_refl _

/-- Nothing is taken of a text in which something else follows the first separators. -/
theorem read_gap (hsep : ∀ b, R.sep b = true → R.item b = false)
    (h : (rest.dropWhile R.sep).head?.any R.item = false) :
    R.count (R.read j s rest) = R.count s ∧ R.stop (R.read j s rest) = R.stop s := by
  induction rest generalizing j s with
  | nil => exact ⟨rfl, rfl⟩
  | cons b rest ih =>
    rw [read]
    cases hb : R.sep b with
    | true =>
      rw [List.dropWhile_cons_of_pos hb] at h
      obtain ⟨hcount, hstop⟩ := ih (j := j + 1) (s := R.pass s) h
      rw [R.count_pass] at hcount
      rw [R.stop_pass] at hstop
      rw [hsep b hb, if_neg (by simp)]
      split
      · exact ⟨hcount, hstop⟩
      · exact ⟨rfl, rfl⟩
    | false =>
      rw [List.dropWhile_cons_of_neg (by simp [hb])] at h
      have hitem : R.item b = false := h
      rw [hitem, if_neg (by simp), if_neg (by simp)]
      exact ⟨rfl, rfl⟩

theorem gap_of_read (hpos : 0 < R.count s) (hlt : R.count s < R.limit)
    (h : R.count (R.read j s rest) = R.count s) :
    (rest.dropWhile R.sep).head?.any R.item = false := by
  induction rest generalizing j s with
  | nil => rfl
  | cons b rest ih =>
    have hitem : R.item b = false := by
      rw [← Bool.not_eq_true]
      intro hitem
      have hcount := R.count_take s b (j + 1)
      have hmore := R.le_count_read (j + 1) (R.take s b (j + 1)) rest
      rw [read_item hitem hlt] at h
      omega
    cases hb : R.sep b with
    | true =>
      have hcount := R.count_pass s
      rw [read_sep hitem hb hlt hpos] at h
      rw [List.dropWhile_cons_of_pos hb]
      exact ih (by omega) (by omega) (h.trans hcount.symm)
    | false =>
      rw [List.dropWhile_cons_of_neg (by simp [hb])]
      exact hitem

theorem getLast?_cons_any {p : α → Bool} (h : xs.getLast?.any p = true) :
    (b :: xs).getLast?.any p = true := by
  cases xs with
  | nil => cases h
  | cons c xs => exact h

theorem read_prefix (j : Nat) (s : σ) (rest : List α) :
    ∃ xs post, rest = xs ++ post ∧ (∀ b ∈ xs, R.item b = true ∨ R.sep b = true) ∧
      R.read j s rest = R.feed j s xs ∧
      (xs = [] ∨ xs.getLast?.any R.item = true ∨ R.count (R.feed j s xs) < R.limit) := by
  induction rest generalizing j s with
  | nil => exact ⟨[], [], rfl, List.forall_mem_nil _, rfl, .inl rfl⟩
  | cons b rest ih =>
    rw [read]
    split
    · rename_i hitem
      obtain ⟨xs, post, rfl, hxs, hread, hend⟩ := ih (j + 1) (R.take s b (j + 1))
      refine ⟨b :: xs, post, rfl, List.forall_mem_cons.mpr ⟨.inl hitem.2, hxs⟩, ?_, .inr ?_⟩
      · rw [feed_item hitem.2, hread]
      · rw [feed_item hitem.2]
        rcases hend with rfl | hlast | hcount
        · exact .inl hitem.2
        · exact .inl (getLast?_cons_any hlast)
        · exact .inr hcount
    · rename_i hitem
      split
      · rename_i hsep
        have hb : R.item b = false := by
          rw [← Bool.not_eq_true]
          exact fun hb => hitem ⟨hsep.1, hb⟩
        obtain ⟨xs, post, rfl, hxs, hread, hend⟩ := ih (j + 1) (R.pass s)
        refine ⟨b :: xs, post, rfl, List.forall_mem_cons.mpr ⟨.inr hsep.2.1, hxs⟩, ?_, .inr ?_⟩
        · rw [feed_pass hb, hread]
        · rw [feed_pass hb]
          rcases hend with rfl | hlast | hcount
          · apply Or.inr
            rw [feed, R.count_pass]
            exact hsep.1
          · exact .inl (getLast?_cons_any hlast)
          · exact .inr hcount
      · exact ⟨[], b :: rest, rfl, List.forall_mem_nil _, rfl, .inl rfl⟩

/-- What a reader takes of a text: `xs`, up to its last item, and the separators `g` behind
it, of which there are none at its limit. -/
structure Takes (R : Reader α σ) (j : Nat) (s : σ) (rest xs g : List α) : Prop where
  front : ∃ post, rest = xs ++ (g ++ post)
  state : R.read j s rest = R.feed j s (xs ++ g)
  inner : ∀ b ∈ xs, R.item b = true ∨ R.sep b = true
  gap : ∀ b ∈ g, R.item b = false
  last : xs = [] ∨ xs.getLast?.any R.item = true
  full : g = [] ∨ R.count (R.read j s rest) < R.limit

variable {g : List α}

theorem exists_takes (R : Reader α σ) (j : Nat) (s : σ) (rest : List α) :
    ∃ xs g, Takes R j s rest xs g := by
  obtain ⟨xs, post, rfl, hxs, hread, hend⟩ := read_prefix (R := R) j s rest
  have hsplit : xs.rdropWhile (fun b => !R.item b) ++ xs.rtakeWhile (fun b => !R.item b) = xs :=
    List.rdropWhile_append_rtakeWhile
  refine ⟨xs.rdropWhile fun b => !R.item b, xs.rtakeWhile fun b => !R.item b, ⟨post, ?_⟩, ?_, ?_,
    ?_, ?_, ?_⟩
  · rw [← List.append_assoc, hsplit]
  · rw [hsplit, hread]
  · intro b hb
    exact hxs b (by rw [← hsplit]; exact List.mem_append_left _ hb)
  · intro b hb
    simpa using List.mem_rtakeWhile_imp hb
  · by_cases hnil : xs.rdropWhile (fun b => !R.item b) = []
    · exact .inl hnil
    · apply Or.inr
      rw [List.getLast?_eq_some_getLast hnil, Option.any_some]
      simpa using List.rdropWhile_last_not (fun b => !R.item b) xs hnil
  · rcases hend with rfl | hlast | hcount
    · exact .inl (List.rtakeWhile_nil _)
    · apply Or.inl
      rw [List.rtakeWhile_eq_nil_iff]
      intro hne
      rw [List.getLast?_eq_some_getLast hne, Option.any_some] at hlast
      simp [hlast]
    · apply Or.inr
      rw [hread]
      exact hcount

theorem Takes.count (h : Takes R j s rest xs g) :
    R.count (R.read j s rest) = R.count s + xs.countP R.item := by
  have hnone : g.countP R.item = 0 := by
    rw [List.countP_eq_zero]
    intro b hb
    rw [h.gap b hb]
    exact Bool.false_ne_true
  rw [h.state, count_feed, List.countP_append, hnone, Nat.add_zero]

theorem Takes.stop (h : Takes R j s rest xs g) (hne : xs ≠ []) :
    R.stop (R.read j s rest) = j + xs.length := by
  rw [h.state, feed_append, stop_feed_gap h.gap, stop_feed (h.last.resolve_left hne)]

/-- Nothing is read unless the first entry is an item. -/
theorem Takes.first (h : Takes R j s rest xs g) (hzero : R.count s = 0) (hne : xs ≠ []) :
    xs.head?.any R.item = true := by
  rw [← Bool.not_eq_false]
  intro hnone
  have hread : R.read j s rest = s := by
    obtain ⟨post, rfl⟩ := h.front
    apply read_none _ hzero
    rw [List.head?_append_of_ne_nil _ hne]
    exact hnone
  have hcount := h.count
  have hpos := countP_pos_of_getLast? (h.last.resolve_left hne)
  rw [hread] at hcount
  omega

end Reader

end PgSense.Library
