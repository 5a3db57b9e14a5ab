import Mathlib.Data.List.Basic

/-! A scan of a text, position by position. A step tells what a position yields and
where the scan goes on, so a match may skip ahead. Where the steps over a part of the
text are those over the part alone, the scan passes through the part and leaves at its
end. -/

namespace PgSense.Library
set_option autoImplicit false

universe u
variable {β : Type u}

/-- A step that does not go forward counts as one position. -/
def scanLoop (step : Nat → Option β × Nat) (stop i : Nat) : List β :=
  if i < stop then (step i).1.toList ++ scanLoop step stop (max (i + 1) (step i).2) else []
termination_by stop - i

section Steps
variable {step : Nat → Option β × Nat} {stop i : Nat}

theorem scanLoop_done (h : stop ≤ i) : scanLoop step stop i = [] := by
  rw [scanLoop, if_neg (by omega)]

theorem scanLoop_step {out : Option β} {next : Nat} (hi : i < stop) (hs : step i = (out, next))
    (hn : i < next) : scanLoop step stop i = out.toList ++ scanLoop step stop next := by
  rw [scanLoop, if_pos hi, hs]
  have hmax : max (i + 1) next = next := by omega
  simp only [hmax]

theorem scanLoop_skip (h : step i = (none, i + 1)) :
    scanLoop step stop i = scanLoop step stop (i + 1) := by
  by_cases hi : i < stop
  · rw [scanLoop_step hi h (by omega)]
    rfl
  · rw [scanLoop_done (by omega), scanLoop_done (by omega)]

/-- Positions that yield nothing are passed over. -/
theorem scanLoop_idle {a b : Nat} (hab : a ≤ b)
    (h : ∀ i, a ≤ i → i < b → step i = (none, i + 1)) :
    scanLoop step stop a = scanLoop step stop b := by
  induction b with
  | zero =>
    have ha : a = 0 := by omega
    rw [ha]
  | succ b ih =>
    by_cases hlast : a = b + 1
    · rw [hlast]
    · have hb := ih (by omega) (fun i hai hib => h i hai (by omega))
      rw [hb]
      exact scanLoop_skip (h b (by omega) (by omega))

/-- A scan with one match, which starts at `k`. -/
theorem scanLoop_single {m : β} {k next : Nat} (hk : k < stop) (hstep : step k = (some m, next))
    (hnext : k < next) (hbefore : ∀ i, i < k → step i = (none, i + 1))
    (hafter : ∀ i, next ≤ i → i < stop → step i = (none, i + 1)) :
    scanLoop step stop 0 = [m] := by
  have hrest : scanLoop step stop next = [] := by
    by_cases hend : next ≤ stop
    · rw [scanLoop_idle hend hafter, scanLoop_done (Nat.le_refl stop)]
    · rw [scanLoop_done (by omega)]
  rw [scanLoop_idle (Nat.zero_le k) (fun i _ hi => hbefore i hi), scanLoop_step hk hstep hnext,
    hrest]
  rfl

theorem scanLoop_whole {m : β} (hpos : 0 < stop) (hstep : step 0 = (some m, stop)) :
    scanLoop step stop 0 = [m] :=
  scanLoop_single hpos hstep hpos (fun i hi => absurd hi (Nat.not_lt_zero i))
    (fun _ hlow hhigh => absurd hhigh (Nat.not_lt.mpr hlow))

theorem exists_of_mem_scanLoop {m : β} (h : m ∈ scanLoop step stop i) :
    ∃ p, i ≤ p ∧ p < stop ∧ (step p).1 = some m := by
  induction hd : stop - i using Nat.strongRecOn generalizing i with
  | ind d ih =>
    rw [scanLoop] at h
    split at h
    · rename_i hi
      rcases List.mem_append.mp h with hhere | hrest
      · exact ⟨i, Nat.le_refl i, hi, by simpa using hhere⟩
      · obtain ⟨p, hip, hp, hm⟩ := ih _ (by omega) hrest rfl
        exact ⟨p, by omega, hp, hm⟩
    · cases h

theorem scanLoop_congr {step' : Nat → Option β × Nat}
    (h : ∀ k, i ≤ k → k < stop → step k = step' k) :
    scanLoop step stop i = scanLoop step' stop i := by
  induction hd : stop - i using Nat.strongRecOn generalizing i with
  | ind d ih =>
    rw [scanLoop, scanLoop.eq_def step']
    split
    · rename_i hi
      rw [h i (Nat.le_refl i) hi]
      congr 1
      exact ih _ (by omega) (fun k hk => h k (by omega)) rfl
    · rfl

/-- A scan that never skips ahead yields what some position yields. -/
theorem mem_scanLoop_iff {m : β} (hnext : ∀ k, (step k).2 = k + 1) :
    m ∈ scanLoop step stop i ↔ ∃ p, i ≤ p ∧ p < stop ∧ (step p).1 = some m := by
  constructor
  · exact exists_of_mem_scanLoop
  · intro h
    obtain ⟨p, hip, hp, hm⟩ := h
    induction hd : p - i generalizing i with
    | zero =>
      have heq : i = p := by omega
      subst heq
      rw [scanLoop, if_pos hp, hm]
      exact List.mem_append_left _ List.mem_cons_self
    | succ d ih =>
      rw [scanLoop, if_pos (by omega), hnext, Nat.max_self]
      exact List.mem_append_right _ (ih (by omega) (by omega))

/-- A scan that never skips ahead visits every position; those from `size` on may be left
out when they yield nothing. -/
theorem scanLoop_eq_filterMap (size : Nat) (hnext : ∀ i, (step i).2 = i + 1) (hsize : size ≤ stop)
    (hnone : ∀ i, size ≤ i → (step i).1 = none) :
    scanLoop step stop 0 = (List.range size).filterMap fun p => (step p).1 := by
  have hrest : scanLoop step stop size = [] := by
    rw [scanLoop_idle hsize, scanLoop_done (Nat.le_refl stop)]
    intro i hi _
    rw [← hnone i hi, ← hnext i]
  have hpart : ∀ n, n ≤ stop → scanLoop step stop 0 =
      ((List.range n).filterMap fun p => (step p).1) ++ scanLoop step stop n := by
    intro n hn
    induction n with
    | zero => simp
    | succ n ih =>
      rw [ih (by omega), scanLoop, if_pos (by omega), hnext n, Nat.max_self, List.range_succ,
        List.filterMap_append, List.append_assoc]
      cases hout : (step n).1 <;> simp [hout]
  rw [hpart size hsize, hrest, List.append_nil]

end Steps

section Visits

/-- The positions a scan comes to. -/
def visits (step : Nat → Option β × Nat) (stop i : Nat) : List Nat :=
  if i < stop then i :: visits step stop (max (i + 1) (step i).2) else []
termination_by stop - i

/-- What a scan yields, each with the position it was found at and the one the scan went on
from. -/
def spans (step : Nat → Option β × Nat) (stop i : Nat) : List (Nat × Nat × β) :=
  (visits step stop i).filterMap fun p => (step p).1.map fun m => (p, (step p).2, m)

variable {step : Nat → Option β × Nat} {stop i p : Nat}

theorem scanLoop_eq_visits :
    scanLoop step stop i = (visits step stop i).filterMap fun p => (step p).1 := by
  induction hd : stop - i using Nat.strongRecOn generalizing i with
  | ind d ih =>
    rw [scanLoop, visits]
    split
    · rw [ih _ (by omega) rfl, List.filterMap_cons]
      cases (step i).1 <;> rfl
    · rfl

theorem visits_between (h : p ∈ visits step stop i) : i ≤ p ∧ p < stop := by
  induction hd : stop - i using Nat.strongRecOn generalizing i with
  | ind d ih =>
    rw [visits] at h
    split at h
    · rename_i hi
      rcases List.mem_cons.mp h with rfl | hlater
      · exact ⟨Nat.le_refl p, hi⟩
      · obtain ⟨hlow, hhigh⟩ := ih _ (by omega) hlater rfl
        exact ⟨by omega, hhigh⟩
    · cases h

theorem visits_pairwise : (visits step stop i).Pairwise fun a b => a < b ∧ (step a).2 ≤ b := by
  induction hd : stop - i using Nat.strongRecOn generalizing i with
  | ind d ih =>
    rw [visits]
    split
    · refine List.pairwise_cons.mpr ⟨?_, ih _ (by omega) rfl⟩
      intro b hb
      have hlow := (visits_between hb).1
      exact ⟨by omega, by omega⟩
    · exact .nil

theorem le_of_visits (h : p ∈ visits step stop i) :
    ∀ k ∈ visits step stop i, k < p → (step k).2 ≤ p := by
  intro k hk
  have hforward : (visits step stop i).Pairwise fun a b => a < b → (step a).2 ≤ b :=
    visits_pairwise.imp fun hab _ => hab.2
  have hback : (visits step stop i).Pairwise (flip fun a b => a < b → (step a).2 ≤ b) :=
    visits_pairwise.imp fun hab hba => absurd hab.1 (Nat.lt_asymm hba)
  exact hforward.forall_of_forall_of_flip (fun a _ haa => absurd haa (Nat.lt_irrefl a)) hback hk h

/-- A scan comes to every position that it does not jump over. -/
theorem mem_visits_iff : p ∈ visits step stop i ↔
    i ≤ p ∧ p < stop ∧ ∀ k ∈ visits step stop i, k < p → (step k).2 ≤ p := by
  constructor
  · intro h
    obtain ⟨hlow, hhigh⟩ := visits_between h
    exact ⟨hlow, hhigh, le_of_visits h⟩
  · rintro ⟨hlow, hhigh, hover⟩
    induction hd : stop - i using Nat.strongRecOn generalizing i with
    | ind d ih =>
      rw [visits, if_pos (by omega)] at hover ⊢
      obtain ⟨hfirst, hrest⟩ := List.forall_mem_cons.mp hover
      by_cases heq : i = p
      · rw [heq]
        exact List.mem_cons_self
      · have hnext := hfirst (by omega)
        exact List.mem_cons_of_mem _ (ih _ (by omega) (by omega) hrest rfl)

theorem mem_spans {s : Nat × Nat × β} : s ∈ spans step stop i ↔
    s.1 ∈ visits step stop i ∧ step s.1 = (some s.2.2, s.2.1) := by
  rw [spans, List.mem_filterMap]
  constructor
  · rintro ⟨k, hk, hs⟩
    obtain ⟨m, hm, rfl⟩ := Option.map_eq_some_iff.mp hs
    exact ⟨hk, Prod.ext hm rfl⟩
  · rintro ⟨hs, hstep⟩
    exact ⟨s.1, hs, by rw [hstep]; rfl⟩

theorem scanLoop_eq_spans : scanLoop step stop i = (spans step stop i).map (·.2.2) := by
  rw [scanLoop_eq_visits, spans, List.map_filterMap]
  apply List.filterMap_congr
  intro k _
  cases (step k).1 <;> rfl

theorem spans_pairwise : (spans step stop i).Pairwise fun a b => a.2.1 ≤ b.1 := by
  rw [spans, List.pairwise_filterMap]
  apply visits_pairwise.imp
  intro a b hab s hs t ht
  obtain ⟨_, _, rfl⟩ := Option.map_eq_some_iff.mp hs
  obtain ⟨_, _, rfl⟩ := Option.map_eq_some_iff.mp ht
  exact hab.2

/-- No find of a scan stands before the end of an earlier one. -/
theorem scanLoop_spans (step : Nat → Option β × Nat) (stop i : Nat) :
    ∃ spans : List (Nat × Nat × β), scanLoop step stop i = spans.map (·.2.2) ∧
      spans.Pairwise (fun a b => a.2.1 ≤ b.1) ∧
      ∀ s ∈ spans, i ≤ s.1 ∧ s.1 < stop ∧ step s.1 = (some s.2.2, s.2.1) := by
  refine ⟨spans step stop i, scanLoop_eq_spans, spans_pairwise, ?_⟩
  intro s hs
  obtain ⟨hvisit, hstep⟩ := mem_spans.mp hs
  obtain ⟨hlow, hhigh⟩ := visits_between hvisit
  exact ⟨hlow, hhigh, hstep⟩

/-- Where only what is found is jumped over, a scan finds what its positions yield and no
earlier find reaches into. -/
theorem mem_spans_iff (hnone : ∀ k, (step k).1 = none → (step k).2 = k + 1)
    {s : Nat × Nat × β} : s ∈ spans step stop i ↔
      i ≤ s.1 ∧ s.1 < stop ∧ step s.1 = (some s.2.2, s.2.1) ∧
        ∀ t ∈ spans step stop i, t.1 < s.1 → t.2.1 ≤ s.1 := by
  rw [mem_spans, mem_visits_iff, and_assoc, and_assoc]
  refine and_congr_right' (and_congr_right' ?_)
  rw [and_comm]
  refine and_congr_right' ?_
  constructor
  · intro h t ht hlt
    obtain ⟨hvisit, hstep⟩ := mem_spans.mp ht
    have hle := h t.1 hvisit hlt
    rwa [hstep] at hle
  · intro h k hk hlt
    cases hout : (step k).1 with
    | none =>
      rw [hnone k hout]
      exact hlt
    | some m => exact h (k, (step k).2, m) (mem_spans.mpr ⟨hk, Prod.ext hout rfl⟩) hlt

end Visits

/-- From `low` on, the steps of `part` over its `size` positions are those of `whole`
from `offset`, and none leaves the part before its end. -/
structure Embeds (part : Nat → Option β × Nat) (low size : Nat) (whole : Nat → Option β × Nat)
    (offset : Nat) : Prop where
  same : ∀ i, low ≤ i → i < size → whole (offset + i) = ((part i).1, offset + (part i).2)
  inside : ∀ i, low ≤ i → i < size → (part i).2 ≤ size

theorem Embeds.scanLoop {part whole : Nat → Option β × Nat} {low size offset stop i : Nat}
    (h : Embeds part low size whole offset) (hlow : low ≤ i) (hi : i ≤ size)
    (hstop : offset + size ≤ stop) :
    scanLoop whole stop (offset + i) =
      Library.scanLoop part size i ++ Library.scanLoop whole stop (offset + size) := by
  induction hd : size - i using Nat.strongRecOn generalizing i with
  | ind d ih =>
    by_cases hend : i = size
    · rw [hend, scanLoop_done (Nat.le_refl size)]
      rfl
    · have hlt : i < size := by omega
      have hin := h.inside i hlow hlt
      rw [Library.scanLoop, if_pos (by omega), h.same i hlow hlt, Library.scanLoop.eq_def part,
        if_pos hlt, List.append_assoc]
      have hnext : max (offset + i + 1) (offset + (part i).2) =
          offset + max (i + 1) (part i).2 := by omega
      simp only [hnext]
      rw [ih _ (by omega) (by omega) (by omega) rfl]

/-- Two parts with nothing between them are scanned one after the other. -/
theorem scanLoop_split {left right whole : Nat → Option β × Nat} {a b n : Nat} (hab : a ≤ b)
    (hleft : Embeds left 0 a whole 0) (hidle : ∀ i, a ≤ i → i < b → whole i = (none, i + 1))
    (hright : Embeds right 0 n whole b) :
    scanLoop whole (b + n) 0 = scanLoop left a 0 ++ scanLoop right n 0 := by
  have hfront := hleft.scanLoop (Nat.le_refl 0) (Nat.zero_le a) (by omega : 0 + a ≤ b + n)
  have hback := hright.scanLoop (Nat.le_refl 0) (Nat.zero_le n) (Nat.le_refl (b + n))
  rw [Nat.add_zero, scanLoop_done (Nat.le_refl (b + n)), List.append_nil] at hback
  rw [Nat.add_zero, Nat.zero_add, scanLoop_idle hab hidle, hback] at hfront
  exact hfront

section Located

/-- What `f` yields at the positions below `n`, with the positions. -/
def located (f : Nat → Option β) (n : Nat) : List (Nat × β) :=
  (List.range n).filterMap fun i => (f i).map fun m => (i, m)

variable (f : Nat → Option β) (n : Nat)

theorem located_snd : (located f n).map Prod.snd = (List.range n).filterMap f := by
  rw [located, List.map_filterMap]
  apply List.filterMap_congr
  intro i _
  cases f i <;> rfl

theorem mem_located {i : Nat} {m : β} : (i, m) ∈ located f n ↔ i < n ∧ f i = some m := by
  rw [located, List.mem_filterMap]
  constructor
  · intro h
    obtain ⟨k, hk, hm⟩ := h
    obtain ⟨m', hm', heq⟩ := Option.map_eq_some_iff.mp hm
    cases heq
    exact ⟨List.mem_range.mp hk, hm'⟩
  · intro h
    exact ⟨i, List.mem_range.mpr h.1, by rw [h.2, Option.map_some]⟩

theorem located_pairwise : (located f n).Pairwise fun a b => a.1 < b.1 := by
  rw [located, List.pairwise_filterMap]
  apply List.pairwise_lt_range.imp
  intro i k hik a ha b hb
  obtain ⟨_, _, rfl⟩ := Option.map_eq_some_iff.mp ha
  obtain ⟨_, _, rfl⟩ := Option.map_eq_some_iff.mp hb
  exact hik

end Located

end PgSense.Library
