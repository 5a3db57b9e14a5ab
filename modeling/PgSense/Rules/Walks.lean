import PgSense.Library.Grouping
import PgSense.Rules.DetectorSteps

/-! The walks of the detectors over a text cut into what stands before, the bytes walked over
and the rest. -/

namespace PgSense
open Library
set_option autoImplicit false

section Parts
variable {p : UInt8 → Bool} {b : UInt8} {pre post xs : List UInt8}

@[simp] theorem utf8_append (s t : String) : utf8 (s ++ t) = utf8 s ++ utf8 t := by
  simp [utf8_eq_encode]

theorem byteAt_part (pre rest : List UInt8) :
    byteAt p (pre ++ rest) pre.length = rest.head?.any p := by
  rw [byteAt, List.getElem?_append_right (Nat.le_refl _), Nat.sub_self, List.head?_eq_getElem?]

theorem byteAt_part_end (pre xs post : List UInt8) :
    byteAt p (pre ++ (xs ++ post)) (pre.length + xs.length) = post.head?.any p := by
  rw [← List.append_assoc, ← List.length_append, byteAt_part]

theorem byteAt_part_succ (pre : List UInt8) (b : UInt8) (rest : List UInt8) :
    byteAt p (pre ++ b :: rest) (pre.length + 1) = rest.head?.any p :=
  byteAt_part_end pre [b] rest

theorem byteAt_behind (pre rest : List UInt8) (k : Nat) :
    byteAt p (pre ++ rest) (pre.length + k) = byteAt p rest k := by
  rw [byteAt, byteAt, List.getElem?_append_right (Nat.le_add_right _ _), Nat.add_sub_cancel_left]

theorem byteAt_inside {k : Nat} (hk : k < xs.length) :
    byteAt p (pre ++ (xs ++ post)) (pre.length + k) = byteAt p xs k := by
  rw [byteAt_behind, byteAt, byteAt, List.getElem?_append_left hk]

/-- A text cut at one of its bytes. -/
theorem exists_split_at {bytes : List UInt8} {i : Nat} (hi : i ≤ bytes.length) :
    ∃ pre rest, bytes = pre ++ rest ∧ pre.length = i :=
  ⟨bytes.take i, bytes.drop i, (List.take_append_drop i bytes).symm, List.length_take_of_le hi⟩

theorem split_of_byteAt {bytes : List UInt8} {i : Nat} (h : byteAt p bytes i = true) :
    ∃ pre b rest, bytes = pre ++ b :: rest ∧ pre.length = i ∧ p b = true := by
  obtain ⟨pre, rest, rfl, rfl⟩ := exists_split_at (Nat.le_of_lt (lt_of_byteAt h))
  rw [byteAt_part] at h
  cases rest with
  | nil => cases h
  | cons b rest => exact ⟨pre, b, rest, rfl, rfl, h⟩

theorem getD_behind (pre rest : List UInt8) (k : Nat) :
    (pre ++ rest).getD (pre.length + k) 0 = rest.getD k 0 := by
  rw [List.getD, List.getElem?_append_right (Nat.le_add_right _ _), Nat.add_sub_cancel_left,
    List.getD]

theorem bytes_of_slice? {value m : String} {i j : Nat} (h : slice? value i j = some m) :
    ∃ pre post, utf8 value = pre ++ (utf8 m ++ post) ∧ pre.length = i ∧ i + (utf8 m).length = j := by
  obtain ⟨a, b, hvalue, ha, hlen⟩ := slice?_eq_some.mp h
  refine ⟨encode a, encode b, ?_, ha, hlen⟩
  rw [utf8_eq_encode, hvalue, encode_append, encode_append, utf8_eq_encode]

/-- ASCII bytes of a text are one of its slices. -/
theorem exists_slice_of_ascii {value : String} (hvalue : utf8 value = pre ++ (xs ++ post))
    (hxs : ∀ b ∈ xs, isAsciiByte b = true) (hne : xs ≠ []) :
    ∃ m, slice? value pre.length (pre.length + xs.length) = some m ∧ utf8 m = xs := by
  have hpos := List.length_pos_iff.mpr hne
  have hbyte : ∀ k, k < xs.length → ∃ b ∈ xs, (encode value.toList)[pre.length + k]? = some b := by
    intro k hk
    refine ⟨xs[k], List.getElem_mem hk, ?_⟩
    rw [← utf8_eq_encode, hvalue, List.getElem?_append_right (Nat.le_add_right _ _),
      Nat.add_sub_cancel_left, List.getElem?_append_left hk, List.getElem?_eq_getElem hk]
  obtain ⟨first, hfirst, hstart⟩ := hbyte 0 hpos
  obtain ⟨last, hlast, hend⟩ := hbyte (xs.length - 1) (by omega)
  have hstop := charBoundary_after_ascii hend (hxs last hlast)
  rw [Nat.add_assoc, Nat.sub_add_cancel hpos] at hstop
  obtain ⟨m, hm⟩ := exists_slice (Nat.le_add_right pre.length xs.length)
    (charBoundary_of_ascii hstart (hxs first hfirst)) hstop
  refine ⟨m, hm, ?_⟩
  rw [utf8_slice? hm, hvalue, List.drop_left, Nat.add_sub_cancel_left, List.take_left]

theorem slice_of_ascii {value m : String} (hvalue : utf8 value = pre ++ (xs ++ post))
    (hxs : ∀ b ∈ xs, isAsciiByte b = true) (hne : xs ≠ [])
    (hm : slice value pre.length (pre.length + xs.length) = m) :
    slice? value pre.length (pre.length + xs.length) = some m ∧ utf8 m = xs := by
  obtain ⟨t, ht, hbytes⟩ := exists_slice_of_ascii hvalue hxs hne
  rw [slice, ht, Option.getD_some] at hm
  rw [← hm]
  exact ⟨ht, hbytes⟩

end Parts

/-- What may stand between two groups of a card number or an IBAN. -/
def isGroupSeparator (b : UInt8) : Bool := b == 32 || b == 45

theorem isAsciiByte_of_groupSeparator {b : UInt8} (h : isGroupSeparator b = true) :
    isAsciiByte b = true := by
  rcases Bool.or_eq_true_iff.mp h with h | h
  · rw [eq_of_beq h]
    rfl
  · rw [eq_of_beq h]
    rfl

theorem isAsciiByte_of_groups {item : UInt8 → Bool} {xs : List UInt8} {c : Nat}
    (hitem : ∀ b, item b = true → isAsciiByte b = true)
    (hg : Groups item (Single isGroupSeparator) xs c) : ∀ b ∈ xs, isAsciiByte b = true := by
  intro b hb
  rcases hg.mem_single hb with hb | hsep
  · exact hitem b hb
  · exact isAsciiByte_of_groupSeparator hsep

section Grouped
variable {run : List UInt8 → Nat → Nat → Nat × Nat} {p : UInt8 → Bool} {limit least : Nat}

theorem Grouped.take (hrun : Grouped run p limit least) {bytes : List UInt8} {j n : Nat}
    (hn : n < limit) (hp : byteAt p bytes j = true) : run bytes j n = run bytes (j + 1) (n + 1) := by
  rw [hrun, if_pos ⟨hn, hp⟩]

theorem Grouped.pass (hrun : Grouped run p limit least) {bytes : List UInt8} {j n : Nat}
    (hn : n < limit) (hp : byteAt p bytes j = false) (hsep : byteAt isGroupSeparator bytes j = true)
    (hleast : least < n) (hnext : byteAt p bytes (j + 1) = true) :
    run bytes j n = run bytes (j + 1) n := by
  rw [hrun, if_neg, if_pos ⟨hn, hsep, hleast, hnext⟩]
  rw [hp]
  exact fun h => Bool.false_ne_true h.2

theorem Grouped.stop (hrun : Grouped run p limit least) {bytes : List UInt8} {j n : Nat}
    (h : limit ≤ n ∨ byteAt p bytes j = false ∧
      ¬ (byteAt isGroupSeparator bytes j = true ∧ byteAt p bytes (j + 1) = true)) :
    run bytes j n = (j, n) := by
  rw [hrun, if_neg, if_neg]
  · rcases h with hlimit | ⟨_, hsep⟩
    · exact fun h => absurd h.1 (by omega)
    · exact fun h => hsep ⟨h.2.1, h.2.2.2⟩
  · rcases h with hlimit | ⟨hp, _⟩
    · exact fun h => absurd h.1 (by omega)
    · rw [hp]
      exact fun h => Bool.false_ne_true h.2

/-- The walk takes groups that stand before it, as long as they fit its limit. -/
theorem Grouped.reaches (hrun : Grouped run p limit least) {xs : List UInt8} {c : Nat}
    (hg : Groups p (Single isGroupSeparator) xs c) (pre post : List UInt8) {n : Nat}
    (hlimit : n + c ≤ limit) (hn : least ≤ n) (hstart : least < n ∨ xs.head?.any p = true) :
    run (pre ++ (xs ++ post)) pre.length n =
      run (pre ++ (xs ++ post)) (pre.length + xs.length) (n + c) := by
  induction hg generalizing pre n with
  | nil => rfl
  | @cons g b xs c hgap hg hb _ ih =>
    rcases hgap with rfl | ⟨s, rfl, hs⟩
    · have hhere : byteAt p (pre ++ (b :: (xs ++ post))) pre.length = true := by
        rw [byteAt_part]
        exact hb
      have hrest := ih (pre ++ [b]) (n := n + 1) (by omega) (by omega) (.inl (by omega))
      rw [List.nil_append, List.cons_append, hrun.take (by omega) hhere]
      simpa [Nat.add_assoc, Nat.add_comm 1] using hrest
    · have hps := hg s List.mem_cons_self
      have hmore : least < n := by
        apply hstart.resolve_right
        simp [hps]
      have hhere : byteAt p (pre ++ (s :: b :: (xs ++ post))) pre.length = false := by
        rw [byteAt_part]
        exact hps
      have hsep : byteAt isGroupSeparator (pre ++ (s :: b :: (xs ++ post))) pre.length = true := by
        rw [byteAt_part]
        exact hs
      have hnext : byteAt p (pre ++ (s :: b :: (xs ++ post))) (pre.length + 1) = true := by
        rw [byteAt_part_succ]
        exact hb
      have hrest := ih (pre ++ [s, b]) (n := n + 1) (by omega) (by omega) (.inl (by omega))
      rw [List.singleton_append, List.cons_append, List.cons_append,
        hrun.pass (by omega) hhere hsep hmore hnext, hrun.take (by omega) hnext]
      simpa [Nat.add_assoc, Nat.add_comm 1, Nat.add_comm 2] using hrest

/-- What the walk takes are groups. -/
theorem Grouped.consumes (hrun : Grouped run p limit least) (pre rest : List UInt8) (n : Nat) :
    ∃ xs post c, rest = xs ++ post ∧ Groups p (Single isGroupSeparator) xs c ∧
      run (pre ++ rest) pre.length n = (pre.length + xs.length, n + c) ∧
      (n ≤ limit → n + c ≤ limit) := by
  induction hd : rest.length using Nat.strongRecOn generalizing pre rest n with
  | ind d ih =>
    have hstop : run (pre ++ rest) pre.length n = (pre.length, n) →
        ∃ xs post c, rest = xs ++ post ∧ Groups p (Single isGroupSeparator) xs c ∧
          run (pre ++ rest) pre.length n = (pre.length + xs.length, n + c) ∧
          (n ≤ limit → n + c ≤ limit) :=
      fun h => ⟨[], rest, 0, rfl, .nil, h, fun hn => hn⟩
    by_cases hlimit : limit ≤ n
    · exact hstop (hrun.stop (.inl hlimit))
    · cases rest with
      | nil =>
        apply hstop
        apply hrun.stop
        rw [byteAt_part, byteAt_part]
        exact .inr ⟨rfl, fun h => Bool.false_ne_true h.1⟩
      | cons b rest =>
        rw [List.length_cons] at hd
        cases hb : p b with
        | true =>
          have hhere : byteAt p (pre ++ b :: rest) pre.length = true := by
            rw [byteAt_part]
            exact hb
          obtain ⟨xs, post, c, rfl, hg, heq, hle⟩ :=
            ih rest.length (by omega) (pre ++ [b]) rest (n + 1) rfl
          refine ⟨b :: xs, post, c + 1, rfl, .cons (g := []) (.inl rfl) (by simp) hb hg, ?_, ?_⟩
          · rw [hrun.take (by omega) hhere]
            simpa [Nat.add_assoc, Nat.add_comm 1] using heq
          · have hle := hle (by omega)
            omega
        | false =>
          have hhere : byteAt p (pre ++ b :: rest) pre.length = false := by
            rw [byteAt_part]
            exact hb
          by_cases hsep : isGroupSeparator b = true ∧ least < n ∧ rest.head?.any p = true
          · obtain ⟨hsep, hleast, hnext⟩ := hsep
            cases rest with
            | nil => cases hnext
            | cons c rest =>
              have hc : p c = true := hnext
              rw [List.length_cons] at hd
              have hat : byteAt isGroupSeparator (pre ++ b :: c :: rest) pre.length = true := by
                rw [byteAt_part]
                exact hsep
              have hafter : byteAt p (pre ++ b :: c :: rest) (pre.length + 1) = true := by
                rw [byteAt_part_succ]
                exact hc
              obtain ⟨xs, post, k, rfl, hg, heq, hle⟩ :=
                ih rest.length (by omega) (pre ++ [b, c]) rest (n + 1) rfl
              refine ⟨b :: c :: xs, post, k + 1, rfl,
                .cons (g := [b]) (.inr ⟨b, rfl, hsep⟩) (by simpa using hb) hc hg, ?_, ?_⟩
              · rw [hrun.pass (by omega) hhere hat hleast hafter, hrun.take (by omega) hafter]
                simpa [Nat.add_assoc, Nat.add_comm 1, Nat.add_comm 2] using heq
              · have hle := hle (by omega)
                omega
          · apply hstop
            rw [hrun, if_neg, if_neg]
            · rw [byteAt_part, byteAt_part_succ]
              exact fun h => hsep h.2
            · rw [hhere]
              exact fun h => Bool.false_ne_true h.2

end Grouped

end PgSense
