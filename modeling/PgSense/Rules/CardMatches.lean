import PgSense.AsciiChars
import PgSense.Rules.Walks

/-! Card numbers: what a match looks like, and which cards of a list are found. -/

namespace PgSense
open Library
set_option autoImplicit false

namespace CreditCard

/-- A card number of a text, between two byte offsets. -/
structure CardAt (value : String) (start stop : Nat) (m : String) : Prop where
  slice : slice? value start stop = some m
  before : byteBefore isWordByte (utf8 value) start = false
  after : byteAt isWordByte (utf8 value) stop = false
  first : (utf8 m).head?.any isAsciiDigit = true
  last : (utf8 m).getLast?.any isAsciiDigit = true
  digits : 13 ≤ (utf8 m).countP isAsciiDigit ∧ (utf8 m).countP isAsciiDigit ≤ 19
  inner : Isolated isAsciiDigit isGroupSeparator (utf8 m)
  luhn : Validators.luhn m = true

section Steps
variable {value m : String} {i j : Nat}

theorem isWordByte_of_digit {b : UInt8} (h : isAsciiDigit b = true) : isWordByte b = true :=
  isWordByte_of_alphanumeric b (isAlphanumeric_of_digit h)

/-- The digits and separators that the walk from `i` takes. -/
theorem digitRun_takes (bytes : List UInt8) (hi : i ≤ bytes.length) :
    ∃ xs post, bytes = bytes.take i ++ (xs ++ post) ∧
      Groups isAsciiDigit (Single isGroupSeparator) xs (digitRun bytes i 0).2 ∧
      (digitRun bytes i 0).1 = i + xs.length ∧ (digitRun bytes i 0).2 ≤ 19 := by
  obtain ⟨xs, post, c, hrest, hg, hrun, hle⟩ :=
    digitRun_grouped.consumes (bytes.take i) (bytes.drop i) 0
  rw [List.take_append_drop, List.length_take_of_le hi, Nat.zero_add] at hrun
  rw [hrun]
  have hle := hle (Nat.zero_le 19)
  refine ⟨xs, post, ?_, hg, rfl, by omega⟩
  rw [← hrest, List.take_append_drop]

/-- What is taken from a digit on starts with it. -/
theorem first_of_taken {bytes xs post : List UInt8} (hdigit : byteAt isAsciiDigit bytes i = true)
    (hbytes : bytes = bytes.take i ++ (xs ++ post)) (hne : xs ≠ []) :
    xs.head?.any isAsciiDigit = true := by
  have hbyte := byteAt_part (p := isAsciiDigit) (bytes.take i) (xs ++ post)
  rw [← hbytes, List.length_take_of_le (Nat.le_of_lt (lt_of_byteAt hdigit)), hdigit,
    List.head?_append_of_ne_nil _ hne] at hbyte
  exact hbyte.symm

theorem cardAt_of_step (h : step value i = (some m, j)) : CardAt value i j m := by
  simp only [step] at h
  split at h
  · rename_i hstart
    obtain ⟨hdigit, hbefore⟩ := Bool.and_eq_true_iff.mp hstart
    rw [Bool.not_eq_true'] at hbefore
    obtain ⟨xs, post, hbytes, hg, hend, hle⟩ :=
      digitRun_takes (utf8 value) (Nat.le_of_lt (lt_of_byteAt hdigit))
    have hlen : ((utf8 value).take i).length = i :=
      List.length_take_of_le (Nat.le_of_lt (lt_of_byteAt hdigit))
    rw [Prod.mk.injEq] at h
    obtain ⟨hm, rfl⟩ := h
    split at hm
    · rename_i hcheck
      simp only [Bool.and_eq_true, decide_eq_true_eq, Bool.not_eq_true'] at hcheck
      obtain ⟨⟨⟨hlow, _⟩, hafter⟩, hluhn⟩ := hcheck
      have hne := hg.ne_nil (by omega)
      have hslice := Option.some.inj hm
      rw [hslice] at hluhn
      rw [hend, ← hlen] at hslice
      have hascii := isAsciiByte_of_groups isAsciiByte_of_digit hg
      obtain ⟨ht, hxs⟩ := slice_of_ascii hbytes hascii hne hslice
      rw [hlen, ← hend] at ht
      have hfirst := first_of_taken hdigit hbytes hne
      rw [← hxs] at hg hfirst
      have hcount := hg.countP
      exact ⟨ht, hbefore, hafter, hfirst, hg.getLast? (by omega), by omega,
        hg.isolated hfirst, hluhn⟩
    · cases hm
  · cases h

/-- The walk takes the digits of a card. -/
theorem digitRun_of_cardAt (h : CardAt value i j m) : byteAt isAsciiDigit (utf8 value) i = true ∧
    byteAt isAsciiDigit (utf8 value) j = false ∧
    digitRun (utf8 value) i 0 = digitRun (utf8 value) j ((utf8 m).countP isAsciiDigit) := by
  obtain ⟨pre, post, hbytes, rfl, rfl⟩ := bytes_of_slice? h.slice
  have hg := h.inner.groups
  obtain ⟨hlow, hhigh⟩ := h.digits
  refine ⟨?_, byteAt_mono (fun _ => isWordByte_of_digit) h.after, ?_⟩
  · have hne := hg.ne_nil (by omega)
    rw [hbytes, byteAt_part, List.head?_append_of_ne_nil _ hne]
    exact h.first
  · have hrun := digitRun_grouped.reaches hg pre post (n := 0) (by omega) (Nat.le_refl 0)
      (.inr h.first)
    rwa [← hbytes, Nat.zero_add] at hrun

/-- A card is found where the walk cannot go on behind it. -/
theorem step_of_cardAt (h : CardAt value i j m) (hend : (utf8 m).countP isAsciiDigit = 19 ∨
    ¬ (byteAt isGroupSeparator (utf8 value) j = true ∧
      byteAt isAsciiDigit (utf8 value) (j + 1) = true)) : step value i = (some m, j) := by
  obtain ⟨hdigit, hstop, hrun⟩ := digitRun_of_cardAt h
  obtain ⟨hlow, hhigh⟩ := h.digits
  have hstopped : digitRun (utf8 value) j ((utf8 m).countP isAsciiDigit) =
      (j, (utf8 m).countP isAsciiDigit) := by
    apply digitRun_grouped.stop
    rcases hend with hfull | hnext
    · exact .inl (Nat.le_of_eq hfull.symm)
    · exact .inr ⟨hstop, hnext⟩
  rw [hstopped] at hrun
  simp only [step, hdigit, h.before, hrun, h.after, slice_of_slice? h.slice, h.luhn, hlow, hhigh]
  rfl

/-- The scan goes on behind every position, and not past the end. -/
theorem lt_step (hi : i < (utf8 value).length) :
    i < (step value i).2 ∧ (step value i).2 ≤ (utf8 value).length := by
  simp only [step]
  split
  · rename_i hstart
    have hdigit := (Bool.and_eq_true_iff.mp hstart).1
    refine ⟨lt_digitRun hdigit, ?_⟩
    obtain ⟨xs, post, hbytes, _, hend, _⟩ := digitRun_takes (utf8 value) (Nat.le_of_lt hi)
    have hlen := congrArg List.length hbytes
    rw [List.length_append, List.length_append, List.length_take_of_le (Nat.le_of_lt hi)] at hlen
    simp only [hend]
    omega
  · exact ⟨Nat.lt_succ_self i, hi⟩

theorem card_scan_sound (value : String) :
    (∃ spans : List (Nat × Nat × String), scan value = spans.map (·.2.2) ∧
      spans.Pairwise (fun a b => a.2.1 ≤ b.1) ∧
      ∀ s ∈ spans, CardAt value s.1 s.2.1 s.2.2) ∧
    ∀ i < (utf8 value).length, ∃ out next, i < next ∧ next ≤ (utf8 value).length ∧
      scanFrom value (utf8 value) i = out ++ scanFrom value (utf8 value) next := by
  constructor
  · obtain ⟨spans, hscan, hpair, hall⟩ := scanLoop_spans (step value) (utf8 value).length 0
    refine ⟨spans, ?_, hpair, ?_⟩
    · rw [← hscan]
      exact scanFrom_eq value 0
    · intro s hs
      exact cardAt_of_step (hall s hs).2.2
  · intro i hi
    obtain ⟨hlt, hle⟩ := lt_step hi
    refine ⟨(step value i).1.toList, (step value i).2, hlt, hle, ?_⟩
    rw [scanFrom_eq, scanFrom_eq]
    exact scanLoop_step hi rfl hlt

end Steps

section Standalone
variable {value m : String} {i j : Nat}

/-- A digit and one separator stand directly before a position. -/
def followsDigit (bytes : List UInt8) (i : Nat) : Bool :=
  decide (2 ≤ i) && byteAt isAsciiDigit bytes (i - 2) && byteAt isGroupSeparator bytes (i - 1)

/-- One separator and a digit stand directly at a position. -/
def leadsToDigit (bytes : List UInt8) (j : Nat) : Bool :=
  byteAt isGroupSeparator bytes j && byteAt isAsciiDigit bytes (j + 1)

/-- The byte before a position inside a walk is a digit, or a separator behind one. -/
theorem byte_before_of_groups {pre xs post bytes : List UInt8} {n : Nat}
    (hbytes : bytes = pre ++ (xs ++ post)) (hg : Groups isAsciiDigit (Single isGroupSeparator) xs n)
    (hfirst : xs.head?.any isAsciiDigit = true) (hlow : pre.length < i)
    (hhigh : i < pre.length + xs.length) :
    byteBefore isWordByte bytes i = true ∨ followsDigit bytes i = true := by
  obtain ⟨k, rfl⟩ := Nat.exists_eq_add_of_lt hlow
  obtain ⟨front, rest, rfl, rfl⟩ : ∃ front rest, xs = front ++ rest ∧ front.length = k :=
    exists_split_at (by omega)
  cases rest with
  | nil =>
    rw [List.append_nil] at hhigh
    omega
  | cons b back =>
    have hbyte : ∀ p : UInt8 → Bool, byteAt p bytes (pre.length + front.length) = p b := by
      intro p
      rw [hbytes, List.append_assoc, byteAt_part_end]
      rfl
    cases hb : isAsciiDigit b with
    | true =>
      apply Or.inl
      rw [byteBefore, Nat.add_sub_cancel, hbyte, isWordByte_of_digit hb]
      simp
    | false =>
      apply Or.inr
      obtain ⟨hsep, hlast, _⟩ := hg.isolated hfirst front b back rfl hb
      have hbehind : byteBefore isAsciiDigit bytes (pre.length + front.length) = true := by
        have hne : front ≠ [] := by
          rintro rfl
          cases hlast
        rw [hbytes, List.append_assoc, ← List.append_assoc pre, ← List.length_append,
          byteBefore_append, List.getLast?_append_of_ne_nil _ hne]
        exact hlast
      obtain ⟨hpos, hdigit⟩ := Bool.and_eq_true_iff.mp hbehind
      rw [followsDigit, Nat.add_sub_cancel, hbyte, hsep]
      have hone : 1 ≤ pre.length + front.length := of_decide_eq_true hpos
      simp [hone, hdigit]

/-- No walk that starts before a number reaches into it. -/
theorem step_le_of_cardAt (h : CardAt value i j m) (hleft : followsDigit (utf8 value) i = false)
    {k : Nat} (hk : k < i) : (step value k).2 ≤ i := by
  simp only [step]
  split
  · rename_i hstart
    have hdigit := (Bool.and_eq_true_iff.mp hstart).1
    have hlt := lt_of_byteAt hdigit
    obtain ⟨xs, post, hbytes, hg, hend, _⟩ := digitRun_takes (utf8 value) (Nat.le_of_lt hlt)
    have hlen : ((utf8 value).take k).length = k := List.length_take_of_le (Nat.le_of_lt hlt)
    apply Nat.le_of_not_lt
    intro hover
    have hne : xs ≠ [] := by
      rintro rfl
      rw [hend, List.length_nil] at hover
      omega
    have hfirst := first_of_taken hdigit hbytes hne
    have hbehind := byte_before_of_groups (i := i) hbytes hg hfirst (by omega) (by omega)
    rcases hbehind with hword | hfollows
    · rw [h.before] at hword
      cases hword
    · rw [hleft] at hfollows
      cases hfollows
  · exact hk

theorem cardAt_lt (h : CardAt value i j m) : i < (utf8 value).length := by
  obtain ⟨pre, post, hbytes, rfl, _⟩ := bytes_of_slice? h.slice
  have hne := h.inner.groups.ne_nil (by have hlow := h.digits.1; omega)
  have hpos := List.length_pos_iff.mpr hne
  rw [hbytes, List.length_append, List.length_append]
  omega

/-- The walk over a number stops behind it unless it may go on to a further digit. -/
theorem step_of_cardAt_iff (h : CardAt value i j m) : step value i = (some m, j) ↔
    (utf8 m).countP isAsciiDigit = 19 ∨ leadsToDigit (utf8 value) j = false := by
  obtain ⟨hdigit, hstop, hrun⟩ := digitRun_of_cardAt h
  have hleads : leadsToDigit (utf8 value) j = false ↔
      ¬ (byteAt isGroupSeparator (utf8 value) j = true ∧
        byteAt isAsciiDigit (utf8 value) (j + 1) = true) := by
    rw [← Bool.not_eq_true, leadsToDigit, Bool.and_eq_true]
  rw [hleads]
  constructor
  · intro hstep
    by_contra hon
    rw [not_or, not_not] at hon
    obtain ⟨hshort, hsep, hnext⟩ := hon
    have hhigh := h.digits.2
    have hlow := h.digits.1
    -- the walk takes the separator behind the number
    have hcross : digitRun (utf8 value) j ((utf8 m).countP isAsciiDigit) =
        digitRun (utf8 value) (j + 1) ((utf8 m).countP isAsciiDigit) := by
      rw [digitRun_grouped, if_neg, if_pos]
      · exact ⟨by omega, hsep, by omega, hnext⟩
      · rw [hstop]
        exact fun hdigit => Bool.false_ne_true hdigit.2
    have hend : (step value i).2 = (digitRun (utf8 value) i 0).1 := by
      simp only [step, hdigit, h.before]
      rfl
    have hle := digitRun_grouped.le (utf8 value) (j + 1) ((utf8 m).countP isAsciiDigit)
    rw [← hcross, ← hrun, ← hend, hstep] at hle
    exact absurd hle (Nat.not_succ_le_self j)
  · exact step_of_cardAt h

/-- A number that no digit stands before is found exactly if it has the full length or no digit
follows it. -/
theorem card_found_iff (value : String) :
    ∃ spans : List (Nat × Nat × String), scan value = spans.map (·.2.2) ∧
      spans.Pairwise (fun a b => a.2.1 ≤ b.1) ∧
      (∀ s ∈ spans, CardAt value s.1 s.2.1 s.2.2) ∧
      ∀ s : Nat × Nat × String, CardAt value s.1 s.2.1 s.2.2 →
        followsDigit (utf8 value) s.1 = false →
        (s ∈ spans ↔ (utf8 s.2.2).countP isAsciiDigit = 19 ∨
          leadsToDigit (utf8 value) s.2.1 = false) := by
  refine ⟨spans (step value) (utf8 value).length 0, ?_, spans_pairwise, ?_, ?_⟩
  · rw [← scanLoop_eq_spans]
    exact scanFrom_eq value 0
  · intro s hs
    exact cardAt_of_step (mem_spans.mp hs).2
  · intro s hs hleft
    have hvisit : s.1 ∈ visits (step value) (utf8 value).length 0 := by
      refine mem_visits_iff.mpr ⟨Nat.zero_le _, cardAt_lt hs, ?_⟩
      intro k _ hk
      exact step_le_of_cardAt hs hleft hk
    rw [mem_spans, ← step_of_cardAt_iff hs]
    exact ⟨fun h => h.2, fun h => ⟨hvisit, h⟩⟩

end Standalone

/-- A card number without separators. -/
structure IsCard (c : String) : Prop where
  digits : ∀ b ∈ utf8 c, isAsciiDigit b = true
  size : 13 ≤ (utf8 c).length ∧ (utf8 c).length ≤ 19
  luhn : Validators.luhn c = true

/-- A text that cannot be part of a word. -/
structure IsDelimiter (d : String) : Prop where
  ne_empty : d ≠ ""
  chars : ∀ c ∈ d.toList, (c.isAlphanum || c == '_') = false

/-- Cards with a delimiter before each but the first. -/
def listing : String → List (String × String) → String
  | c, [] => c
  | c, (d, next) :: rest => c ++ (d ++ listing next rest)

/-- A delimiter that the walk takes for a separator inside a card. -/
def joins (c d : String) : Bool := (d == " " || d == "-") && (utf8 c).length < 19

/-- The cards of a listing that are found: a joined card is lost with the next one. -/
def kept : String → List (String × String) → List String
  | c, [] => [c]
  | c, (d, next) :: rest =>
    if joins c d then
      match rest with
      | [] => []
      | (_, after) :: rest => kept after rest
    else c :: kept next rest

section Listings
variable {a c d : String}

theorem IsDelimiter.bytes (h : IsDelimiter d) : ∀ b ∈ utf8 d, isWordByte b = false := by
  intro b hb
  obtain ⟨ch, hch, hb⟩ := List.mem_flatMap.mp hb
  exact asciiClass_word.encodeChar_off (h.chars ch hch) b hb

theorem IsDelimiter.utf8_ne_nil (h : IsDelimiter d) : utf8 d ≠ [] :=
  fun hnil => h.ne_empty (utf8_inj hnil)

theorem IsCard.utf8_ne_nil (h : IsCard c) : utf8 c ≠ [] := by
  have hsize := h.size.1
  intro hnil
  rw [hnil, List.length_nil] at hsize
  omega

theorem IsCard.first (h : IsCard c) : (utf8 c).head?.any isAsciiDigit = true := by
  cases hbytes : utf8 c with
  | nil => exact absurd hbytes h.utf8_ne_nil
  | cons b bs => exact h.digits b (by rw [hbytes]; exact List.mem_cons_self)

theorem IsCard.groups (h : IsCard c) :
    Groups isAsciiDigit (Single isGroupSeparator) (utf8 c) (utf8 c).length :=
  Groups.of_all (.inl rfl) h.digits

theorem IsCard.cardAt (h : IsCard c) (a t : String) (ha : (utf8 a).getLast?.any isWordByte = false)
    (ht : (utf8 t).head?.any isWordByte = false) :
    CardAt (a ++ (c ++ t)) (utf8 a).length ((utf8 a).length + (utf8 c).length) c := by
  have hcount := h.groups.countP
  have hpos := h.size.1
  refine ⟨?_, ?_, ?_, h.first, h.groups.getLast? (by omega), ?_, ?_, h.luhn⟩
  · exact slice?_eq_some.mpr ⟨a.toList, t.toList, by simp, rfl, rfl⟩
  · rw [utf8_append, byteBefore_append]
    exact ha
  · rw [utf8_append, utf8_append, byteAt_part_end]
    exact ht
  · rw [hcount]
    exact h.size
  · intro front s back hsplit hs
    rw [h.digits s (by rw [hsplit]; simp)] at hs
    cases hs

/-- A delimiter that does not join its cards is not crossed by the walk. -/
theorem not_joined (hd : IsDelimiter d) (hjoins : joins c d = false) (t : String) :
    19 ≤ (utf8 c).length ∨ ¬ (byteAt isGroupSeparator (utf8 (d ++ t)) 0 = true ∧
      byteAt isAsciiDigit (utf8 (d ++ t)) 1 = true) := by
  by_cases hfull : 19 ≤ (utf8 c).length
  · exact .inl hfull
  · apply Or.inr
    intro hcross
    obtain ⟨hsep, hdigit⟩ := hcross
    cases hbytes : utf8 d with
    | nil => exact hd.utf8_ne_nil hbytes
    | cons b bs =>
      rw [utf8_append, hbytes] at hsep hdigit
      cases bs with
      | nil =>
        have hone : d = " " ∨ d = "-" := by
          rcases Bool.or_eq_true_iff.mp (show isGroupSeparator b = true from hsep) with hb | hb
          · exact .inl (utf8_inj (by rw [hbytes, eq_of_beq hb]; rfl))
          · exact .inr (utf8_inj (by rw [hbytes, eq_of_beq hb]; rfl))
        have hshort : (utf8 c).length < 19 := by omega
        rcases hone with rfl | rfl <;> simp [joins, hshort] at hjoins
      | cons b' bs =>
        have hword := hd.bytes b' (by rw [hbytes]; simp)
        rw [isWordByte_of_digit (show isAsciiDigit b' = true from hdigit)] at hword
        cases hword

theorem step_not_digit {value : String} {i : Nat}
    (h : byteAt isAsciiDigit (utf8 value) i = false) : step value i = (none, i + 1) := by
  simp [step, h]

theorem step_behind_word {value : String} {i : Nat}
    (h : byteBefore isWordByte (utf8 value) i = true) : step value i = (none, i + 1) := by
  simp [step, h]

theorem scanLoop_delimiter (hd : IsDelimiter d) (a t : String) (stop : Nat) :
    scanLoop (step (a ++ (d ++ t))) stop (utf8 a).length =
      scanLoop (step (a ++ (d ++ t))) stop ((utf8 a).length + (utf8 d).length) := by
  apply scanLoop_idle (Nat.le_add_right _ _)
  intro i hlow hhigh
  apply step_not_digit
  obtain ⟨k, rfl⟩ := Nat.exists_eq_add_of_le hlow
  rw [utf8_append, utf8_append, byteAt_inside (by omega), ← Bool.not_eq_true]
  intro hdigit
  obtain ⟨b, hb, hdigit⟩ := byteAt_iff.mp hdigit
  have hword := hd.bytes b (List.mem_of_getElem? hb)
  rw [isWordByte_of_digit hdigit] at hword
  cases hword

/-- A short card, a separator and the digits of the next card that fill the walk. -/
theorem IsCard.groups_joined {next : String} (hc : IsCard c) (hn : IsCard next)
    (hd : d = " " ∨ d = "-") (hshort : (utf8 c).length < 19) :
    Groups isAsciiDigit (Single isGroupSeparator)
      (utf8 c ++ (utf8 d ++ (utf8 next).take (19 - (utf8 c).length))) 19 := by
  obtain ⟨s, hs, hsep, hdigit⟩ : ∃ s, utf8 d = [s] ∧ isGroupSeparator s = true ∧
      isAsciiDigit s = false := by
    rcases hd with rfl | rfl
    · exact ⟨32, rfl, rfl, rfl⟩
    · exact ⟨45, rfl, rfl, rfl⟩
  cases hbytes : utf8 next with
  | nil => exact absurd hbytes hn.utf8_ne_nil
  | cons b bs =>
    have hsize := hn.size.1
    have hlow := hc.size.1
    rw [hbytes, List.length_cons] at hsize
    have htaken : ∀ x ∈ bs.take (18 - (utf8 c).length), isAsciiDigit x = true := by
      intro x hx
      apply hn.digits
      rw [hbytes]
      exact List.mem_cons_of_mem b (List.mem_of_mem_take hx)
    have hb : isAsciiDigit b = true := hn.digits b (by rw [hbytes]; exact List.mem_cons_self)
    have hsome : Groups isAsciiDigit (Single isGroupSeparator)
        ([s] ++ b :: bs.take (18 - (utf8 c).length)) ((bs.take (18 - (utf8 c).length)).length + 1) :=
      .cons (.inr ⟨s, rfl, hsep⟩) (by simpa using hdigit) hb (.of_all (.inl rfl) htaken)
    have htwo := hc.groups.append hsome
    have hcount : (utf8 c).length + ((bs.take (18 - (utf8 c).length)).length + 1) = 19 := by
      rw [List.length_take]
      omega
    have htake : 19 - (utf8 c).length = 18 - (utf8 c).length + 1 := by omega
    rw [hcount] at htwo
    rw [hs, htake, List.take_succ_cons]
    exact htwo

/-- The text of a card, a delimiter and the next card, behind `a` and before `t`. -/
def between (a c d next t : String) : String := a ++ (c ++ (d ++ (next ++ t)))

theorem byteAt_next {next : String} (hn : IsCard next) (a c d t : String) {k : Nat}
    (hk : k < (utf8 next).length) :
    byteAt isAsciiDigit (utf8 (between a c d next t))
      ((utf8 a).length + (utf8 c).length + (utf8 d).length + k) = true := by
  have hparts : utf8 (between a c d next t) =
      (utf8 a ++ utf8 c ++ utf8 d) ++ (utf8 next ++ utf8 t) := by
    simp [between]
  rw [hparts, ← List.length_append, ← List.length_append, byteAt_inside hk, byteAt_of_lt hk]
  exact hn.digits _ (List.getElem_mem hk)

/-- The walk over a joined card fills up inside the next one. -/
theorem step_joined {next : String} (hc : IsCard c) (hn : IsCard next)
    (hd : d = " " ∨ d = "-") (hshort : (utf8 c).length < 19) (a t : String)
    (ha : (utf8 a).getLast?.any isWordByte = false) :
    step (between a c d next t) (utf8 a).length =
      (none, (utf8 a).length + (utf8 c).length + (utf8 d).length + (19 - (utf8 c).length)) := by
  have hg := hc.groups_joined hn hd hshort
  have hfirst : (utf8 c ++ (utf8 d ++ (utf8 next).take (19 - (utf8 c).length))).head?.any
      isAsciiDigit = true := by
    rw [List.head?_append_of_ne_nil _ hc.utf8_ne_nil]
    exact hc.first
  have hvalue : utf8 (between a c d next t) =
      utf8 a ++ ((utf8 c ++ (utf8 d ++ (utf8 next).take (19 - (utf8 c).length))) ++
        ((utf8 next).drop (19 - (utf8 c).length) ++ utf8 t)) := by
    have hnext := List.take_append_drop (19 - (utf8 c).length) (utf8 next)
    simp only [between, utf8_append, List.append_assoc]
    rw [← List.append_assoc (List.take _ _) _ (utf8 t), hnext]
  have hlow := hc.size.1
  have hsize := hn.size.1
  have hlen : (utf8 c ++ (utf8 d ++ (utf8 next).take (19 - (utf8 c).length))).length =
      (utf8 c).length + (utf8 d).length + (19 - (utf8 c).length) := by
    rw [List.length_append, List.length_append, List.length_take]
    omega
  have hrun := digitRun_grouped.reaches hg (utf8 a)
    ((utf8 next).drop (19 - (utf8 c).length) ++ utf8 t) (n := 0) (by omega) (Nat.le_refl 0)
    (.inr hfirst)
  rw [← hvalue, Nat.zero_add, digitRun_grouped.stop (n := 19) (.inl (Nat.le_refl 19)), hlen,
    ← Nat.add_assoc, ← Nat.add_assoc] at hrun
  have hstart : byteAt isAsciiDigit (utf8 (between a c d next t)) (utf8 a).length = true := by
    rw [hvalue, byteAt_part, List.head?_append_of_ne_nil _ (hg.ne_nil (by omega))]
    exact hfirst
  have hbefore : byteBefore isWordByte (utf8 (between a c d next t)) (utf8 a).length = false := by
    rw [hvalue, byteBefore_append]
    exact ha
  have hword : byteAt isWordByte (utf8 (between a c d next t))
      ((utf8 a).length + (utf8 c).length + (utf8 d).length + (19 - (utf8 c).length)) = true := by
    have hnext := byteAt_next hn a c d t (k := 19 - (utf8 c).length) (by omega)
    obtain ⟨b, hb, hdigit⟩ := byteAt_iff.mp hnext
    exact byteAt_iff.mpr ⟨b, hb, isWordByte_of_digit hdigit⟩
  simp [step, hstart, hbefore, hrun, hword]

/-- Neither of two joined cards is found. -/
theorem scanLoop_joined {next : String} (hc : IsCard c) (hn : IsCard next)
    (hd : d = " " ∨ d = "-") (hshort : (utf8 c).length < 19) (a t : String)
    (ha : (utf8 a).getLast?.any isWordByte = false) :
    scanLoop (step (between a c d next t)) (utf8 (between a c d next t)).length (utf8 a).length =
      scanLoop (step (between a c d next t)) (utf8 (between a c d next t)).length
        ((utf8 a).length + (utf8 c).length + (utf8 d).length + (utf8 next).length) := by
  have hsize := hn.size.1
  have hlow := hc.size.1
  have hlt : (utf8 a).length < (utf8 (between a c d next t)).length := by
    simp only [between, utf8_append, List.length_append]
    omega
  rw [scanLoop_step hlt (step_joined hc hn hd hshort a t ha) (by omega)]
  apply scanLoop_idle (by omega)
  intro i hfrom hto
  apply step_behind_word
  -- the byte before `i` is a digit of the next card
  obtain ⟨k, hk⟩ := Nat.exists_eq_add_of_le
    (show (utf8 a).length + (utf8 c).length + (utf8 d).length + 1 ≤ i by omega)
  obtain ⟨b, hb, hdigit⟩ := byteAt_iff.mp (byteAt_next hn a c d t (k := k) (by omega))
  have hpos : i - 1 = (utf8 a).length + (utf8 c).length + (utf8 d).length + k := by omega
  rw [byteBefore, hpos, Bool.and_eq_true, decide_eq_true_eq]
  exact ⟨by omega, byteAt_iff.mpr ⟨b, hb, isWordByte_of_digit hdigit⟩⟩

theorem IsDelimiter.head? (h : IsDelimiter d) (t : String) :
    (utf8 (d ++ t)).head?.any isWordByte = false := by
  rw [utf8_append, List.head?_append_of_ne_nil _ h.utf8_ne_nil]
  cases hbytes : (utf8 d).head? with
  | none => rfl
  | some b => exact h.bytes b (List.mem_of_head? hbytes)

theorem IsDelimiter.getLast? (h : IsDelimiter d) (a : String) :
    (utf8 (a ++ d)).getLast?.any isWordByte = false := by
  rw [utf8_append, List.getLast?_append_of_ne_nil _ h.utf8_ne_nil]
  cases hbytes : (utf8 d).getLast? with
  | none => rfl
  | some b => exact h.bytes b (List.mem_of_getLast? hbytes)

theorem scanLoop_card (hc : IsCard c) (a t : String)
    (ha : (utf8 a).getLast?.any isWordByte = false) (ht : (utf8 t).head?.any isWordByte = false)
    (hend : 19 ≤ (utf8 c).length ∨ ¬ (byteAt isGroupSeparator (utf8 t) 0 = true ∧
      byteAt isAsciiDigit (utf8 t) 1 = true)) :
    scanLoop (step (a ++ (c ++ t))) (utf8 (a ++ (c ++ t))).length (utf8 a).length =
      c :: scanLoop (step (a ++ (c ++ t))) (utf8 (a ++ (c ++ t))).length
        ((utf8 a).length + (utf8 c).length) := by
  have hsize := hc.size
  have hstep : step (a ++ (c ++ t)) (utf8 a).length =
      (some c, (utf8 a).length + (utf8 c).length) := by
    apply step_of_cardAt (hc.cardAt a t ha ht)
    rw [hc.groups.countP, utf8_append, utf8_append, ← List.append_assoc, ← List.length_append,
      byteAt_behind _ _ 1]
    rcases hend with hfull | hcross
    · exact .inl (by omega)
    · apply Or.inr
      rw [byteAt_part, List.head?_eq_getElem?]
      exact hcross
  rw [scanLoop_step _ hstep (by omega)]
  · rfl
  · rw [utf8_append, utf8_append, List.length_append, List.length_append]
    omega

theorem scanLoop_listing {c : String} {rest : List (String × String)} (hc : IsCard c)
    (hrest : ∀ x ∈ rest, IsDelimiter x.1 ∧ IsCard x.2) (a : String)
    (ha : (utf8 a).getLast?.any isWordByte = false) :
    scanLoop (step (a ++ listing c rest)) (utf8 (a ++ listing c rest)).length (utf8 a).length =
      kept c rest := by
  fun_induction kept c rest generalizing a with
  | case1 c =>
    have hfound := scanLoop_card hc a "" ha rfl (.inr (fun h => Bool.false_ne_true h.1))
    rw [String.append_empty] at hfound
    rw [listing, hfound, scanLoop_done]
    simp only [utf8_append, List.length_append, Nat.le_refl]
  | case2 c d next hjoins =>
    obtain ⟨_, hn⟩ := hrest (d, next) List.mem_cons_self
    obtain ⟨hd, hshort⟩ := Bool.and_eq_true_iff.mp hjoins
    have hlost := scanLoop_joined hc hn (by simpa using hd) (of_decide_eq_true hshort) a "" ha
    rw [between, String.append_empty] at hlost
    rw [listing, listing, hlost, scanLoop_done]
    simp only [utf8_append, List.length_append]
    omega
  | case3 c d next hjoins d' after rest ih =>
    obtain ⟨_, hn⟩ := hrest (d, next) List.mem_cons_self
    obtain ⟨hd', hafter⟩ := hrest (d', after) (by simp)
    obtain ⟨hd, hshort⟩ := Bool.and_eq_true_iff.mp hjoins
    have hlost := scanLoop_joined hc hn (by simpa using hd) (of_decide_eq_true hshort) a
      (d' ++ listing after rest) ha
    have hpass := scanLoop_delimiter hd' (a ++ c ++ d ++ next) (listing after rest)
    have hkept := ih hafter (fun x hx => hrest x (by simp [hx])) (a ++ c ++ d ++ next ++ d')
      (hd'.getLast? _)
    simp only [between, utf8_append, List.length_append, String.append_assoc, Nat.add_assoc]
      at hlost hpass hkept
    simp only [listing, utf8_append, List.length_append]
    rw [hlost, hpass, hkept]
  | case4 c d next rest hjoins ih =>
    rw [Bool.not_eq_true] at hjoins
    obtain ⟨hd, hn⟩ := hrest (d, next) List.mem_cons_self
    have hfound := scanLoop_card hc a (d ++ listing next rest) ha (hd.head? _)
      (not_joined hd hjoins _)
    have hpass := scanLoop_delimiter hd (a ++ c) (listing next rest)
    have hkept := ih hn (fun x hx => hrest x (List.mem_cons_of_mem _ hx)) (a ++ c ++ d)
      (hd.getLast? _)
    simp only [utf8_append, List.length_append, String.append_assoc, Nat.add_assoc]
      at hfound hpass hkept
    simp only [listing, utf8_append, List.length_append]
    rw [hfound, hpass, hkept]

/-- What is found of a list of cards. -/
theorem scan_listing {c : String} {rest : List (String × String)} (hc : IsCard c)
    (hrest : ∀ x ∈ rest, IsDelimiter x.1 ∧ IsCard x.2) : scan (listing c rest) = kept c rest := by
  have h := scanLoop_listing hc hrest "" rfl
  rw [String.empty_append] at h
  rw [← h]
  exact scanFrom_eq _ 0

theorem length_kept_le (c : String) (rest : List (String × String)) :
    (kept c rest).length ≤ rest.length + 1 := by
  fun_induction kept c rest with
  | case1 => exact Nat.le_refl 1
  | case2 => exact Nat.zero_le _
  | case3 c d next _ d' after rest ih =>
    simp only [List.length_cons]
    omega
  | case4 c d next rest _ ih =>
    simp only [List.length_cons]
    omega

theorem kept_eq_all_iff (c : String) (rest : List (String × String)) :
    kept c rest = c :: rest.map Prod.snd ↔
      ∀ x ∈ (c :: rest.map Prod.snd).zip (rest.map Prod.fst), joins x.1 x.2 = false := by
  fun_induction kept c rest with
  | case1 => simp
  | case2 c d next hjoins => simp [hjoins]
  | case3 c d next hjoins d' after rest =>
    have hlen := length_kept_le after rest
    constructor
    · intro h
      have hsame := congrArg List.length h
      simp only [List.length_cons, List.length_map] at hsame
      omega
    · intro h
      rw [h (c, d) List.mem_cons_self] at hjoins
      cases hjoins
  | case4 c d next rest hjoins ih =>
    rw [Bool.not_eq_true] at hjoins
    simp [ih, hjoins]

/-- All cards of a list are found when each card before a single space or hyphen is of full
length, and not otherwise. -/
theorem all_cards_found_iff {c : String} {rest : List (String × String)} (hc : IsCard c)
    (hrest : ∀ x ∈ rest, IsDelimiter x.1 ∧ IsCard x.2) :
    scan (listing c rest) = c :: rest.map Prod.snd ↔
      ∀ x ∈ (c :: rest.map Prod.snd).zip (rest.map Prod.fst),
        x.2 = " " ∨ x.2 = "-" → (utf8 x.1).length = 19 := by
  rw [scan_listing hc hrest, kept_eq_all_iff]
  have hcards : ∀ x ∈ c :: rest.map Prod.snd, IsCard x := by
    intro x hx
    rcases List.mem_cons.mp hx with rfl | hx
    · exact hc
    · obtain ⟨pair, hpair, rfl⟩ := List.mem_map.mp hx
      exact (hrest pair hpair).2
  have hjoins : ∀ x ∈ (c :: rest.map Prod.snd).zip (rest.map Prod.fst),
      (joins x.1 x.2 = false ↔ (x.2 = " " ∨ x.2 = "-" → (utf8 x.1).length = 19)) := by
    intro x hx
    have hsize := (hcards x.1 (List.of_mem_zip hx).1).size.2
    have hfull : ¬ (utf8 x.1).length < 19 ↔ (utf8 x.1).length = 19 := by omega
    rw [← Bool.not_eq_true, joins, Bool.and_eq_true, Bool.or_eq_true, beq_iff_eq, beq_iff_eq,
      decide_eq_true_eq, not_and, hfull]
  exact forall₂_congr hjoins

theorem IsCard.visa : IsCard "4111111111111111" :=
  ⟨List.all_eq_true.mp (by decide), by decide, by decide +kernel⟩

theorem IsCard.mastercard : IsCard "5500000000000004" :=
  ⟨List.all_eq_true.mp (by decide), by decide, by decide +kernel⟩

theorem two_cards_found_iff :
    scan (listing "4111111111111111" [(", ", "5500000000000004")]) =
        ["4111111111111111", "5500000000000004"] ↔
      ∀ x ∈ [("4111111111111111", ", ")], x.2 = " " ∨ x.2 = "-" → (utf8 x.1).length = 19 := by
  apply all_cards_found_iff IsCard.visa
  rw [List.forall_mem_singleton]
  exact ⟨⟨by decide, by simp⟩, IsCard.mastercard⟩

theorem spaced_cards_lost : ¬ ∀ (c : String) (rest : List (String × String)), IsCard c →
    (∀ x ∈ rest, IsDelimiter x.1 ∧ IsCard x.2) →
      scan (listing c rest) = c :: rest.map Prod.snd := by
  intro hall
  have hrest : ∀ x ∈ [(" ", "5500000000000004")], IsDelimiter x.1 ∧ IsCard x.2 := by
    rw [List.forall_mem_singleton]
    exact ⟨⟨by decide, by simp⟩, IsCard.mastercard⟩
  have hfound := hall "4111111111111111" _ IsCard.visa hrest
  rw [scan_listing IsCard.visa hrest] at hfound
  have hnone : kept "4111111111111111" [(" ", "5500000000000004")] = [] := by decide
  rw [hnone] at hfound
  cases hfound

end Listings

end CreditCard

end PgSense
