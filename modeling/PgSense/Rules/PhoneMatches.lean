import PgSense.Rules.Framing
import PgSense.Library.Reader
import PgSense.Rules.Walks

/-! Phone numbers, with any check of a candidate in place of the library's: the shapes of the
matches, and that a match on its own is found again. -/

namespace PgSense
open Library
set_option autoImplicit false

namespace Phone

/-- `phone::scan` with the check of a candidate as a parameter. -/
def scanWith (valid : String → Bool) (value : String) : List String :=
  scanLoop (stepWith valid value) (utf8 value).length 0

theorem scan_eq_scanWith (cr : Crates) (value : String) :
    scan cr value = scanWith (Validators.phone cr) value :=
  scanFrom_eq cr value 0

/-- What may stand between the digits of an international number. -/
def isInternationalSeparator (b : UInt8) : Bool := [32, 45, 46, 40, 41].contains b

/-- What may stand between the digits of a national number. -/
def isNanpSeparator (b : UInt8) : Bool := [41, 45, 46, 32].contains b

section Readers

/-- The digits of an international number: how many, and the end of the last one. -/
def international : Reader UInt8 (Nat × Nat) where
  item := isAsciiDigit
  sep := isInternationalSeparator
  limit := 15
  count := Prod.fst
  stop := Prod.snd
  take r _ j := (r.1 + 1, j)
  pass r := r
  count_take _ _ _ := rfl
  stop_take _ _ _ := rfl
  count_pass _ := rfl
  stop_pass _ := rfl

def nanp : Reader UInt8 NanpRead where
  item := isAsciiDigit
  sep := isNanpSeparator
  limit := 10
  count r := r.digits.length
  stop := NanpRead.stop
  take r b j := { r with digits := r.digits ++ [b], stop := j }
  pass r := { r with hasSep := true }
  count_take _ _ _ := List.length_append
  stop_take _ _ _ := rfl
  count_pass _ := rfl
  stop_pass _ := rfl

/-- A loop over the bytes of a text with the branches of a reader reads what is behind its
position. -/
theorem eq_read {σ : Type} (R : Reader UInt8 σ) (run : List UInt8 → Nat → σ → σ)
    (hrun : ∀ bytes j s, run bytes j s =
      if R.count s < R.limit ∧ byteAt R.item bytes j = true then
        run bytes (j + 1) (R.take s (bytes.getD j 0) (j + 1))
      else if R.count s < R.limit ∧ byteAt R.sep bytes j = true ∧ 0 < R.count s then
        run bytes (j + 1) (R.pass s)
      else s)
    (pre rest : List UInt8) (s : σ) :
    run (pre ++ rest) pre.length s = R.read pre.length s rest := by
  induction rest generalizing pre s with
  | nil =>
    have hend : ∀ p, byteAt p (pre ++ []) pre.length = false := fun p => byteAt_part pre []
    rw [hrun, hend, hend]
    simp [Reader.read]
  | cons b rest ih =>
    have hnext : ∀ s, run (pre ++ b :: rest) (pre.length + 1) s =
        R.read (pre.length + 1) s rest := by
      intro s
      have hrest := ih (pre ++ [b]) s
      rwa [List.append_assoc, List.length_append, List.length_singleton] at hrest
    have hbyte : (pre ++ b :: rest).getD pre.length 0 = b := getD_behind pre (b :: rest) 0
    rw [hrun, byteAt_part, byteAt_part, hbyte, hnext, hnext]
    rfl

theorem internationalRun_eq_read (pre rest : List UInt8) (count stop : Nat) :
    internationalRun (pre ++ rest) pre.length count stop =
      international.read pre.length (count, stop) rest :=
  eq_read international (fun bytes j r => internationalRun bytes j r.1 r.2)
    (fun bytes j r => internationalRun_eq bytes j r.1 r.2) pre rest (count, stop)

theorem nanpRun_eq_read (pre rest : List UInt8) (r : NanpRead) :
    nanpRun (pre ++ rest) pre.length r = nanp.read pre.length r rest :=
  eq_read nanp nanpRun nanpRun_eq pre rest r

def hasGap (xs : List UInt8) : Bool := xs.any fun b => !isAsciiDigit b

theorem nanp_feed (xs : List UInt8) (j : Nat) (r : NanpRead) :
    (nanp.feed j r xs).digits = r.digits ++ xs.filter isAsciiDigit ∧
      (nanp.feed j r xs).hasSep = (r.hasSep || hasGap xs) := by
  induction xs generalizing j r with
  | nil => simp [Reader.feed, hasGap]
  | cons b xs ih =>
    cases hb : isAsciiDigit b with
    | true =>
      obtain ⟨hdigits, hsep⟩ := ih (j + 1) (nanp.take r b (j + 1))
      rw [Reader.feed_item hb, hdigits, hsep]
      simp [nanp, hasGap, hb]
    | false =>
      obtain ⟨hdigits, hsep⟩ := ih (j + 1) (nanp.pass r)
      rw [Reader.feed_pass hb, hdigits, hsep]
      simp [nanp, hasGap, hb]

end Readers

/-- Digits with separators between them. -/
structure Number (sep : UInt8 → Bool) (ys : List UInt8) : Prop where
  first : ys.head?.any isAsciiDigit = true
  last : ys.getLast?.any isAsciiDigit = true
  inner : ∀ b ∈ ys, isAsciiDigit b = true ∨ sep b = true

/-- The forms of a match: with a `+`, with the dial code `00`, and the national one. -/
inductive Shape : List UInt8 → Prop where
  | plus {ys : List UInt8} : Number isInternationalSeparator ys →
      7 ≤ ys.countP isAsciiDigit → ys.countP isAsciiDigit ≤ 15 → Shape (43 :: ys)
  | zeros {ys : List UInt8} : Number isInternationalSeparator ys →
      7 ≤ ys.countP isAsciiDigit → ys.countP isAsciiDigit ≤ 15 → Shape (48 :: 48 :: ys)
  | national {opening ys : List UInt8} : opening = [] ∨ opening = [40] →
      Number isNanpSeparator ys → ys.countP isAsciiDigit = 10 →
      isTwoToNine ((ys.filter isAsciiDigit).getD 0 0) = true →
      isTwoToNine ((ys.filter isAsciiDigit).getD 3 0) = true →
      (∃ b ∈ ys, isAsciiDigit b = false) → Shape (opening ++ ys)

/-- A phone number of a text, between two byte offsets. -/
structure NumberAt (valid : String → Bool) (value : String) (start stop : Nat) (m : String) :
    Prop where
  slice : slice? value start stop = some m
  before : byteBefore isAsciiAlphanumeric (utf8 value) start = false
  after : byteAt isAsciiAlphanumeric (utf8 value) stop = false
  last : (utf8 m).getLast?.any isAsciiDigit = true
  shape : Shape (utf8 m)
  accepted : valid m = true

theorem hasGap_iff {xs : List UInt8} :
    hasGap xs = true ↔ ∃ b ∈ xs, isAsciiDigit b = false := by
  simp [hasGap]

section Numbers
variable {sep : UInt8 → Bool} {ys : List UInt8}

theorem Number.ne_nil (h : Number sep ys) : ys ≠ [] := by
  intro hnil
  have hfirst := h.first
  rw [hnil] at hfirst
  cases hfirst

theorem isAsciiByte_of_internationalSeparator (b : UInt8)
    (h : isInternationalSeparator b = true) : isAsciiByte b = true := by
  have hall : [32, 45, 46, 40, 41].all isAsciiByte = true := rfl
  exact List.all_eq_true.mp hall b (by simpa [isInternationalSeparator] using h)

theorem isAsciiByte_of_nanpSeparator (b : UInt8) (h : isNanpSeparator b = true) :
    isAsciiByte b = true := by
  have hall : [41, 45, 46, 32].all isAsciiByte = true := rfl
  exact List.all_eq_true.mp hall b (by simpa [isNanpSeparator] using h)

theorem Number.ascii (h : Number sep ys) (hsep : ∀ b, sep b = true → isAsciiByte b = true) :
    ∀ b ∈ ys, isAsciiByte b = true := by
  intro b hb
  rcases h.inner b hb with hdigit | hs
  · exact isAsciiByte_of_digit b hdigit
  · exact hsep b hs

theorem internationalRun_number (pre rest : List UInt8) {count stop : Nat}
    (h : internationalRun (pre ++ rest) pre.length 0 pre.length = (count, stop))
    (hpos : 0 < count) :
    ∃ ys post, rest = ys ++ post ∧ Number isInternationalSeparator ys ∧
      count = ys.countP isAsciiDigit ∧ stop = pre.length + ys.length := by
  rw [internationalRun_eq_read] at h
  obtain ⟨ys, g, htakes⟩ := international.exists_takes pre.length (0, pre.length) rest
  have hcount := htakes.count
  rw [h] at hcount
  have hdigits : count = ys.countP isAsciiDigit := hcount.trans (Nat.zero_add _)
  have hne : ys ≠ [] := by
    rintro rfl
    rw [List.countP_nil] at hdigits
    omega
  have hstop := htakes.stop hne
  rw [h] at hstop
  have hnumber : Number isInternationalSeparator ys :=
    ⟨htakes.first rfl hne, htakes.last.resolve_left hne, htakes.inner⟩
  obtain ⟨post, rfl⟩ := htakes.front
  exact ⟨ys, g ++ post, rfl, hnumber, hdigits, hstop⟩

theorem nanpRun_number (pre rest : List UInt8) {r : NanpRead}
    (h : nanpRun (pre ++ rest) pre.length ⟨[], false, pre.length⟩ = r)
    (hten : r.digits.length = 10) :
    ∃ ys post, rest = ys ++ post ∧ Number isNanpSeparator ys ∧
      r.digits = ys.filter isAsciiDigit ∧ r.hasSep = hasGap ys ∧
      r.stop = pre.length + ys.length := by
  rw [nanpRun_eq_read] at h
  obtain ⟨ys, g, htakes⟩ := nanp.exists_takes pre.length ⟨[], false, pre.length⟩ rest
  have hfull : g = [] := by
    -- at ten digits the walk reads no further separator
    apply htakes.full.resolve_right
    rw [h]
    exact Nat.not_lt.mpr (Nat.le_of_eq hten.symm)
  have hstate := htakes.state
  obtain ⟨hdigits, hflag⟩ := nanp_feed ys pre.length ⟨[], false, pre.length⟩
  rw [h, hfull, List.append_nil] at hstate
  rw [← hstate, List.nil_append] at hdigits
  rw [← hstate, Bool.false_or] at hflag
  have hne : ys ≠ [] := by
    rintro rfl
    rw [hdigits] at hten
    cases hten
  have hstop := htakes.stop hne
  rw [h] at hstop
  have hnumber : Number isNanpSeparator ys :=
    ⟨htakes.first rfl hne, htakes.last.resolve_left hne, htakes.inner⟩
  obtain ⟨post, rfl⟩ := htakes.front
  exact ⟨ys, g ++ post, rfl, hnumber, hdigits, hflag, hstop⟩

/-- The text of a candidate, cut behind the last digit of its number. -/
theorem candidate_of_number {value m : String} {pre opening post : List UInt8}
    (hvalue : utf8 value = pre ++ (opening ++ (ys ++ post)))
    (hopening : ∀ b ∈ opening, isAsciiByte b = true) (hnumber : Number sep ys)
    (hsep : ∀ b, sep b = true → isAsciiByte b = true) {stop : Nat}
    (hstop : stop = pre.length + opening.length + ys.length)
    (hslice : slice value pre.length stop = m) :
    slice? value pre.length stop = some m ∧ utf8 m = opening ++ ys := by
  have hend : stop = pre.length + (opening ++ ys).length := by
    rw [hstop, List.length_append, Nat.add_assoc]
  have hparts : utf8 value = pre ++ ((opening ++ ys) ++ post) := by
    rw [hvalue, List.append_assoc]
  rw [hend] at hslice ⊢
  apply slice_of_ascii hparts _ _ hslice
  · exact List.forall_mem_append.mpr ⟨hopening, hnumber.ascii hsep⟩
  · exact List.append_ne_nil_of_right_ne_nil _ hnumber.ne_nil

end Numbers

section Parse
variable {valid : String → Bool} {value m : String} {pre opening rest : List UInt8} {stop : Nat}

theorem parseInternationalWith_eq_some {bytes : List UInt8} {i d : Nat} :
    parseInternationalWith valid bytes value i d = some (stop, m) ↔
      ∃ count, internationalRun bytes d 0 d = (count, stop) ∧ 7 ≤ count ∧ count ≤ 15 ∧
        byteAt isAsciiAlphanumeric bytes stop = false ∧ slice value i stop = m ∧
        valid m = true := by
  simp only [parseInternationalWith]
  generalize internationalRun bytes d 0 d = run
  obtain ⟨count, last⟩ := run
  constructor
  · intro h
    split at h
    · cases h
    · rename_i hcheck
      simp only [Bool.or_eq_true, Bool.not_eq_true', not_or, Bool.not_eq_false, Bool.not_eq_true,
        Bool.and_eq_true, decide_eq_true_eq] at hcheck
      split at h
      · rename_i hvalid
        cases h
        exact ⟨count, rfl, hcheck.1.1, hcheck.1.2, hcheck.2, rfl, hvalid⟩
      · cases h
  · rintro ⟨_, heq, hlow, hhigh, hafter, rfl, hvalid⟩
    cases heq
    simp [hlow, hhigh, hafter, hvalid]

theorem parseNanpWith_eq_some {bytes : List UInt8} {i j : Nat}
    (hj : (if byteAt (· == 40) bytes i then i + 1 else i) = j) :
    parseNanpWith valid bytes value i = some (stop, m) ↔
      ∃ r, nanpRun bytes j ⟨[], false, j⟩ = r ∧ r.digits.length = 10 ∧ r.hasSep = true ∧
        isTwoToNine (r.digits.getD 0 0) = true ∧ isTwoToNine (r.digits.getD 3 0) = true ∧
        byteAt isAsciiAlphanumeric bytes r.stop = false ∧ r.stop = stop ∧
        slice value i stop = m ∧ valid m = true := by
  simp only [parseNanpWith]
  rw [hj]
  generalize nanpRun bytes j ⟨[], false, j⟩ = r
  constructor
  · intro h
    split at h
    · cases h
    · rename_i hcount
      simp only [Bool.or_eq_true, bne_iff_ne, ne_eq, Bool.not_eq_true', not_or, Decidable.not_not,
        Bool.not_eq_false] at hcount
      split at h
      · cases h
      · rename_i hdigits
        simp only [Bool.or_eq_true, Bool.not_eq_true', not_or, Bool.not_eq_false] at hdigits
        split at h
        · cases h
        · rename_i hafter
          rw [Bool.not_eq_true] at hafter
          split at h
          · rename_i hvalid
            cases h
            exact ⟨r, rfl, hcount.1, hcount.2, hdigits.1, hdigits.2, hafter, rfl, rfl, hvalid⟩
          · cases h
  · rintro ⟨_, rfl, hcount, hsep, h0, h3, hafter, rfl, rfl, hvalid⟩
    simp only [hcount, hsep, h0, h3, hafter, hvalid]
    rfl

/-- A candidate behind its opening, which the walk starts after. -/
theorem international_of_parse (hvalue : utf8 value = pre ++ (opening ++ rest))
    (hopening : ∀ b ∈ opening, isAsciiByte b = true)
    (h : parseInternationalWith valid (utf8 value) value pre.length
      (pre.length + opening.length) = some (stop, m)) :
    slice? value pre.length stop = some m ∧
      byteAt isAsciiAlphanumeric (utf8 value) stop = false ∧ valid m = true ∧
      ∃ ys, utf8 m = opening ++ ys ∧ Number isInternationalSeparator ys ∧
        7 ≤ ys.countP isAsciiDigit ∧ ys.countP isAsciiDigit ≤ 15 := by
  obtain ⟨count, hrun, hlow, hhigh, hafter, hslice, hvalid⟩ := parseInternationalWith_eq_some.mp h
  rw [hvalue, ← List.append_assoc, ← List.length_append] at hrun
  obtain ⟨ys, post, rfl, hnumber, rfl, hstop⟩ :=
    internationalRun_number (pre ++ opening) rest hrun (by omega)
  rw [List.length_append] at hstop
  obtain ⟨ht, hbytes⟩ := candidate_of_number hvalue hopening hnumber
    isAsciiByte_of_internationalSeparator hstop hslice
  exact ⟨ht, hafter, hvalid, ys, hbytes, hnumber, hlow, hhigh⟩

/-- Where the digits of a national number begin. -/
theorem nanp_start {bytes : List UInt8} (hbytes : bytes = pre ++ (opening ++ rest))
    (hopening : opening = [] ∧ rest.head?.any isAsciiDigit = true ∨ opening = [40]) :
    (if byteAt (· == 40) bytes pre.length then pre.length + 1 else pre.length) =
      (pre ++ opening).length := by
  rw [hbytes, byteAt_part, List.length_append]
  rcases hopening with ⟨rfl, hdigit⟩ | rfl
  · cases rest with
    | nil => cases hdigit
    | cons b rest =>
      have hne : (b == 40) = false := by
        rw [beq_eq_false_iff_ne]
        rintro rfl
        cases hdigit
      simp [hne]
  · rfl

theorem national_of_parse (hvalue : utf8 value = pre ++ (opening ++ rest))
    (hopening : opening = [] ∧ rest.head?.any isAsciiDigit = true ∨ opening = [40])
    (h : parseNanpWith valid (utf8 value) value pre.length = some (stop, m)) :
    slice? value pre.length stop = some m ∧
      byteAt isAsciiAlphanumeric (utf8 value) stop = false ∧ valid m = true ∧
      Shape (utf8 m) ∧ (utf8 m).getLast?.any isAsciiDigit = true := by
  have hj := nanp_start hvalue hopening
  have hshape : opening = [] ∨ opening = [40] := hopening.imp_left And.left
  have hascii : ∀ b ∈ opening, isAsciiByte b = true := by
    rcases hshape with rfl | rfl
    · exact List.forall_mem_nil _
    · exact List.forall_mem_singleton.mpr rfl
  obtain ⟨r, hrun, hcount, hsep, h0, h3, hafter, rfl, hslice, hvalid⟩ :=
    (parseNanpWith_eq_some hj).mp h
  rw [hvalue, ← List.append_assoc] at hrun
  obtain ⟨ys, post, rfl, hnumber, hdigits, hflag, hstop⟩ :=
    nanpRun_number (pre ++ opening) rest hrun hcount
  rw [List.length_append] at hstop
  obtain ⟨ht, hbytes⟩ := candidate_of_number hvalue hascii hnumber isAsciiByte_of_nanpSeparator
    hstop hslice
  rw [hdigits] at hcount h0 h3
  rw [hflag, hasGap_iff] at hsep
  refine ⟨ht, hafter, hvalid, ?_, ?_⟩
  · rw [hbytes]
    apply Shape.national hshape hnumber _ h0 h3 hsep
    rw [List.countP_eq_length_filter, hcount]
  · rw [hbytes, List.getLast?_append_of_ne_nil _ hnumber.ne_nil]
    exact hnumber.last

theorem numberAt_of_international (hvalue : utf8 value = pre ++ (opening ++ rest))
    (hbefore : byteBefore isAsciiAlphanumeric (utf8 value) pre.length = false)
    (hshape : ∀ ys, Number isInternationalSeparator ys → 7 ≤ ys.countP isAsciiDigit →
      ys.countP isAsciiDigit ≤ 15 → Shape (opening ++ ys))
    (hopening : ∀ b ∈ opening, isAsciiByte b = true)
    (h : parseInternationalWith valid (utf8 value) value pre.length
      (pre.length + opening.length) = some (stop, m)) :
    NumberAt valid value pre.length stop m := by
  obtain ⟨hslice, hafter, hvalid, ys, hbytes, hnumber, hlow, hhigh⟩ :=
    international_of_parse hvalue hopening h
  refine ⟨hslice, hbefore, hafter, ?_, ?_, hvalid⟩
  · rw [hbytes, List.getLast?_append_of_ne_nil _ hnumber.ne_nil]
    exact hnumber.last
  · rw [hbytes]
    exact hshape ys hnumber hlow hhigh

theorem numberAt_of_national (hvalue : utf8 value = pre ++ (opening ++ rest))
    (hbefore : byteBefore isAsciiAlphanumeric (utf8 value) pre.length = false)
    (hopening : opening = [] ∧ rest.head?.any isAsciiDigit = true ∨ opening = [40])
    (h : parseNanpWith valid (utf8 value) value pre.length = some (stop, m)) :
    NumberAt valid value pre.length stop m := by
  obtain ⟨hslice, hafter, hvalid, hshape, hlast⟩ := national_of_parse hvalue hopening h
  exact ⟨hslice, hbefore, hafter, hlast, hshape, hvalid⟩

theorem numberAt_of_parse {i : Nat}
    (hbefore : byteBefore isAsciiAlphanumeric (utf8 value) i = false)
    (h : parseAtWith valid (utf8 value) value i = some (stop, m)) :
    NumberAt valid value i stop m := by
  unfold parseAtWith at h
  split at h
  · rename_i hplus
    have hsign := (Bool.and_eq_true_iff.mp hplus).1
    obtain ⟨pre, b, rest, hvalue, rfl, hb⟩ := split_of_byteAt hsign
    cases eq_of_beq hb
    have hascii : ∀ b ∈ [(43 : UInt8)], isAsciiByte b = true := List.forall_mem_singleton.mpr rfl
    have hcut : utf8 value = pre ++ ([43] ++ rest) := hvalue
    exact numberAt_of_international hcut hbefore (fun _ => .plus) hascii h
  · split at h
    · rename_i hzeros
      obtain ⟨hfirst, hsecond⟩ := Bool.and_eq_true_iff.mp (Bool.and_eq_true_iff.mp hzeros).1
      obtain ⟨pre, b, rest, hvalue, rfl, hb⟩ := split_of_byteAt hfirst
      cases eq_of_beq hb
      rw [hvalue, byteAt_part_succ] at hsecond
      cases rest with
      | nil => cases hsecond
      | cons b rest =>
        cases eq_of_beq (show (b == 48) = true from hsecond)
        have hcut : utf8 value = pre ++ ([48, 48] ++ rest) := hvalue
        have hascii : ∀ b ∈ [(48 : UInt8), 48], isAsciiByte b = true :=
          List.all_eq_true.mp (by decide)
        exact numberAt_of_international hcut hbefore (fun _ => .zeros) hascii h
    · split at h
      · rename_i hnational
        obtain ⟨pre, b, rest, hvalue, rfl, hb⟩ := split_of_byteAt hnational
        rcases Bool.or_eq_true_iff.mp hb with hopen | hdigit
        · cases eq_of_beq hopen
          have hcut : utf8 value = pre ++ ([40] ++ rest) := hvalue
          exact numberAt_of_national hcut hbefore (.inr rfl) h
        · have hcut : utf8 value = pre ++ ([] ++ b :: rest) := hvalue
          have hfirst := isAsciiDigit_of_twoToNine hdigit
          exact numberAt_of_national hcut hbefore (.inl ⟨rfl, hfirst⟩) h
      · cases h

theorem numberAt_of_step {i : Nat} (h : stepWith valid value i = (some m, stop)) :
    NumberAt valid value i stop m := by
  simp only [stepWith] at h
  split at h
  · cases h
  · rename_i hbefore
    rw [Bool.not_eq_true] at hbefore
    split at h
    · rename_i hparse
      cases h
      exact numberAt_of_parse hbefore hparse
    · cases h

theorem NumberAt.lt {i : Nat} (h : NumberAt valid value i stop m) :
    i < stop ∧ stop ≤ (utf8 value).length := by
  obtain ⟨pre, post, hvalue, rfl, rfl⟩ := bytes_of_slice? h.slice
  have hpos : 0 < (utf8 m).length := by
    apply List.length_pos_iff.mpr
    intro hnil
    have hlast := h.last
    rw [hnil] at hlast
    cases hlast
  rw [hvalue, List.length_append, List.length_append]
  omega

theorem next_of_none {i : Nat} (h : (stepWith valid value i).1 = none) :
    (stepWith valid value i).2 = i + 1 := by
  simp only [stepWith] at h ⊢
  split
  · rfl
  · rename_i hbefore
    rw [if_neg hbefore] at h
    cases hparse : parseAtWith valid (utf8 value) value i with
    | none => rfl
    | some r =>
      rw [hparse] at h
      cases h

theorem lt_stepWith {i : Nat} (hi : i < (utf8 value).length) :
    i < (stepWith valid value i).2 ∧ (stepWith valid value i).2 ≤ (utf8 value).length := by
  cases hfound : (stepWith valid value i).1 with
  | some m => exact (numberAt_of_step (Prod.ext hfound rfl)).lt
  | none =>
    rw [next_of_none hfound]
    exact ⟨Nat.lt_succ_self i, hi⟩

theorem phone_scan_sound (value : String) :
    (∀ cr, scan cr value = scanWith (Validators.phone cr) value) ∧
    ∀ valid, (∃ spans : List (Nat × Nat × String), scanWith valid value = spans.map (·.2.2) ∧
        spans.Pairwise (fun a b => a.2.1 ≤ b.1) ∧
        ∀ s ∈ spans, NumberAt valid value s.1 s.2.1 s.2.2) ∧
      ∀ i < (utf8 value).length,
        i < (stepWith valid value i).2 ∧ (stepWith valid value i).2 ≤ (utf8 value).length := by
  refine ⟨fun cr => scan_eq_scanWith cr value, ?_⟩
  intro valid
  refine ⟨?_, fun i hi => lt_stepWith hi⟩
  obtain ⟨spans, hscan, hpair, hall⟩ := scanLoop_spans (stepWith valid value) (utf8 value).length 0
  refine ⟨spans, hscan, hpair, ?_⟩
  intro s hs
  exact numberAt_of_step (hall s hs).2.2

end Parse

/-- A number that no further digit continues: the reading of an international number goes on
over separators, up to fifteen digits. -/
structure LongestAt (valid : String → Bool) (value : String) (start stop : Nat) (m : String) :
    Prop extends NumberAt valid value start stop m where
  ended : ∀ ys, utf8 m = 43 :: ys ∨ utf8 m = 48 :: 48 :: ys → ys.countP isAsciiDigit < 15 →
    (((utf8 value).drop stop).dropWhile isInternationalSeparator).head?.any isAsciiDigit = false

section Longest
variable {valid : String → Bool} {value m : String} {pre opening ys post : List UInt8}
  {start stop : Nat}

theorem not_digit_of_separator (b : UInt8) (h : isInternationalSeparator b = true) :
    isAsciiDigit b = false := by
  have hall : [32, 45, 46, 40, 41].all (fun b => !isAsciiDigit b) = true := rfl
  have hb := List.all_eq_true.mp hall b (by simpa [isInternationalSeparator] using h)
  rwa [Bool.not_eq_true'] at hb

/-- The reading ends with a number exactly if the number has all the digits that can be read
or no digit follows the separators behind it. -/
theorem internationalRun_number_iff (pre post : List UInt8)
    (hnumber : Number isInternationalSeparator ys) (hhigh : ys.countP isAsciiDigit ≤ 15) :
    internationalRun (pre ++ (ys ++ post)) pre.length 0 pre.length =
        (ys.countP isAsciiDigit, pre.length + ys.length) ↔
      (ys.countP isAsciiDigit < 15 →
        (post.dropWhile isInternationalSeparator).head?.any isAsciiDigit = false) := by
  have hread : international.read pre.length (0, pre.length) (ys ++ post) =
      international.read (pre.length + ys.length)
        (international.feed pre.length (0, pre.length) ys) post :=
    Reader.read_append hnumber.inner hnumber.last (by simpa [international] using hhigh)
      (.inr hnumber.first)
  have hcount : (international.feed pre.length (0, pre.length) ys).1 = ys.countP isAsciiDigit :=
    (international.count_feed _ _ _).trans (Nat.zero_add _)
  have hstop : (international.feed pre.length (0, pre.length) ys).2 = pre.length + ys.length :=
    international.stop_feed hnumber.last
  have hpos : 0 < international.count (ys.countP isAsciiDigit, pre.length + ys.length) :=
    Reader.countP_pos_of_getLast? hnumber.last
  have hfed : international.feed pre.length (0, pre.length) ys =
      (ys.countP isAsciiDigit, pre.length + ys.length) := Prod.ext hcount hstop
  rw [internationalRun_eq_read, hread, hfed]
  constructor
  · intro h hlt
    exact Reader.gap_of_read hpos hlt (congrArg Prod.fst h)
  · intro h
    by_cases hlt : ys.countP isAsciiDigit < 15
    · obtain ⟨hcount, hstop⟩ := international.read_gap not_digit_of_separator (h hlt)
      exact Prod.ext hcount hstop
    · exact international.read_full (Nat.le_of_not_lt hlt)

theorem parseInternational_iff (h : NumberAt valid value pre.length stop m)
    (hvalue : utf8 value = pre ++ (utf8 m ++ post)) (hbytes : utf8 m = opening ++ ys)
    (hstop : pre.length + (utf8 m).length = stop) (hnumber : Number isInternationalSeparator ys)
    (hlow : 7 ≤ ys.countP isAsciiDigit) (hhigh : ys.countP isAsciiDigit ≤ 15) :
    parseInternationalWith valid (utf8 value) value pre.length (pre.length + opening.length) =
        some (stop, m) ↔
      (ys.countP isAsciiDigit < 15 →
        (post.dropWhile isInternationalSeparator).head?.any isAsciiDigit = false) := by
  have hcut : utf8 value = (pre ++ opening) ++ (ys ++ post) := by
    rw [hvalue, hbytes, List.append_assoc, List.append_assoc]
  have hend : stop = (pre ++ opening).length + ys.length := by
    rw [← hstop, hbytes, List.length_append, List.length_append, Nat.add_assoc]
  rw [← internationalRun_number_iff (pre ++ opening) post hnumber hhigh, ← hcut, ← hend,
    List.length_append, parseInternationalWith_eq_some]
  constructor
  · rintro ⟨count, hrun, hseven, _⟩
    have hread := hrun
    rw [hcut, ← List.length_append] at hread
    obtain ⟨zs, rest, hsame, _, hcount, hlast⟩ :=
      internationalRun_number (pre ++ opening) (ys ++ post) hread (by omega)
    have hlen : ys.length = zs.length := by omega
    rw [(List.append_inj hsame hlen).1, ← hcount]
    exact hrun
  · intro hrun
    exact ⟨_, hrun, hlow, hhigh, h.after, slice_of_slice? h.slice, h.accepted⟩

/-- At ten digits the reading of a national number stops, whatever follows. -/
theorem nanpRun_of_number (pre post : List UInt8) (hnumber : Number isNanpSeparator ys)
    (hcount : ys.countP isAsciiDigit = 10) :
    nanpRun (pre ++ (ys ++ post)) pre.length ⟨[], false, pre.length⟩ =
      ⟨ys.filter isAsciiDigit, hasGap ys, pre.length + ys.length⟩ := by
  have hread : nanp.read pre.length ⟨[], false, pre.length⟩ (ys ++ post) =
      nanp.read (pre.length + ys.length) (nanp.feed pre.length ⟨[], false, pre.length⟩ ys) post :=
    Reader.read_append hnumber.inner hnumber.last (by simp [nanp, hcount]) (.inr hnumber.first)
  have hfull : nanp.limit ≤ nanp.count (nanp.feed pre.length ⟨[], false, pre.length⟩ ys) := by
    rw [nanp.count_feed]
    exact Nat.le_of_eq (hcount.symm.trans (Nat.zero_add _).symm)
  obtain ⟨hdigits, hsep⟩ := nanp_feed ys pre.length ⟨[], false, pre.length⟩
  have hstop : (nanp.feed pre.length ⟨[], false, pre.length⟩ ys).stop = pre.length + ys.length :=
    nanp.stop_feed hnumber.last
  rw [nanpRun_eq_read, hread, Reader.read_full hfull]
  rw [List.nil_append] at hdigits
  rw [Bool.false_or] at hsep
  rw [← hdigits, ← hsep, ← hstop]

theorem parseNanp_of_number (h : NumberAt valid value pre.length stop m)
    (hvalue : utf8 value = pre ++ (utf8 m ++ post)) (hbytes : utf8 m = opening ++ ys)
    (hstop : pre.length + (utf8 m).length = stop) (hopening : opening = [] ∨ opening = [40])
    (hnumber : Number isNanpSeparator ys) (hcount : ys.countP isAsciiDigit = 10)
    (h0 : isTwoToNine ((ys.filter isAsciiDigit).getD 0 0) = true)
    (h3 : isTwoToNine ((ys.filter isAsciiDigit).getD 3 0) = true)
    (hgap : ∃ b ∈ ys, isAsciiDigit b = false) :
    parseNanpWith valid (utf8 value) value pre.length = some (stop, m) := by
  have hcut : utf8 value = pre ++ (opening ++ (ys ++ post)) := by
    rw [hvalue, hbytes, List.append_assoc]
  have hfirst : (ys ++ post).head?.any isAsciiDigit = true := by
    rw [List.head?_append_of_ne_nil _ hnumber.ne_nil]
    exact hnumber.first
  have hend : (pre ++ opening).length + ys.length = stop := by
    rw [← hstop, hbytes, List.length_append, List.length_append, Nat.add_assoc]
  have hten : (ys.filter isAsciiDigit).length = 10 := by
    rw [← List.countP_eq_length_filter, hcount]
  have hrun := nanpRun_of_number (pre ++ opening) post hnumber hcount
  rw [List.append_assoc, ← hcut, hend] at hrun
  refine (parseNanpWith_eq_some (nanp_start hcut (hopening.imp_left fun h => ⟨h, hfirst⟩))).mpr
    ⟨_, rfl, ?_⟩
  rw [hrun, hasGap_iff]
  exact ⟨hten, hgap, h0, h3, h.after, rfl, slice_of_slice? h.slice, h.accepted⟩

/-- The first byte of a national number: not a sign and not a zero. -/
theorem national_head (hopening : opening = [] ∨ opening = [40])
    (hnumber : Number isNanpSeparator ys)
    (h0 : isTwoToNine ((ys.filter isAsciiDigit).getD 0 0) = true) :
    ∃ b rest, opening ++ ys = b :: rest ∧ (b == 43) = false ∧ (b == 48) = false ∧
      (b == 40 || isTwoToNine b) = true := by
  rcases hopening with rfl | rfl
  · cases ys with
    | nil => cases hnumber.first
    | cons b ys =>
      have hdigit : isAsciiDigit b = true := hnumber.first
      rw [List.filter_cons_of_pos hdigit, List.getD_cons_zero] at h0
      refine ⟨b, ys, rfl, ?_, ?_, ?_⟩
      · rw [beq_eq_false_iff_ne]
        rintro rfl
        cases h0
      · rw [beq_eq_false_iff_ne]
        rintro rfl
        cases h0
      · rw [h0, Bool.or_true]
  · exact ⟨40, ys, rfl, rfl, rfl, rfl⟩

/-- After a `+` or `00` the reading of an international number begins. -/
theorem parseAtWith_international (hvalue : utf8 value = pre ++ (opening ++ (ys ++ post)))
    (hopening : opening = [43] ∨ opening = [48, 48])
    (hnumber : Number isInternationalSeparator ys) :
    parseAtWith valid (utf8 value) value pre.length =
      parseInternationalWith valid (utf8 value) value pre.length (pre.length + opening.length) := by
  have hdigit : byteAt isAsciiDigit (utf8 value) (pre.length + opening.length) = true := by
    rw [hvalue, byteAt_part_end, List.head?_append_of_ne_nil _ hnumber.ne_nil]
    exact hnumber.first
  rcases hopening with rfl | rfl
  · have hsign : byteAt (· == 43) (utf8 value) pre.length = true := by
      rw [hvalue, byteAt_part]
      rfl
    rw [List.length_singleton] at hdigit
    rw [parseAtWith, hsign, hdigit]
    rfl
  · have hsign : byteAt (· == 43) (utf8 value) pre.length = false := by
      rw [hvalue, byteAt_part]
      rfl
    have hzero : byteAt (· == 48) (utf8 value) pre.length = true := by
      rw [hvalue, byteAt_part]
      rfl
    have hsecond : byteAt (· == 48) (utf8 value) (pre.length + 1) = true := by
      rw [hvalue]
      exact byteAt_part_succ pre 48 (48 :: (ys ++ post))
    have htwo : [(48 : UInt8), 48].length = 2 := rfl
    rw [htwo] at hdigit
    rw [parseAtWith, hsign, hzero, hsecond, hdigit]
    rfl

theorem parseAtWith_national (hvalue : utf8 value = pre ++ (opening ++ (ys ++ post)))
    (hopening : opening = [] ∨ opening = [40]) (hnumber : Number isNanpSeparator ys)
    (h0 : isTwoToNine ((ys.filter isAsciiDigit).getD 0 0) = true) :
    parseAtWith valid (utf8 value) value pre.length =
      parseNanpWith valid (utf8 value) value pre.length := by
  obtain ⟨b, rest, hhead, hplus, hzero, hfirst⟩ := national_head hopening hnumber h0
  have hbyte : ∀ p : UInt8 → Bool, byteAt p (utf8 value) pre.length = p b := by
    intro p
    rw [hvalue, ← List.append_assoc opening, hhead, byteAt_part]
    rfl
  rw [parseAtWith, hbyte, hbyte, hbyte, hplus, hzero, hfirst]
  rfl

theorem longestAt_iff_of_international (h : NumberAt valid value pre.length stop m)
    (hvalue : utf8 value = pre ++ (utf8 m ++ post)) (hbytes : utf8 m = opening ++ ys)
    (hstop : pre.length + (utf8 m).length = stop)
    (hopening : opening = [43] ∨ opening = [48, 48]) :
    LongestAt valid value pre.length stop m ↔
      (ys.countP isAsciiDigit < 15 →
        (post.dropWhile isInternationalSeparator).head?.any isAsciiDigit = false) := by
  have hdrop : (utf8 value).drop stop = post := by
    rw [hvalue, ← hstop, ← List.append_assoc, ← List.length_append, List.drop_left]
  have hends : (∀ zs, utf8 m = 43 :: zs ∨ utf8 m = 48 :: 48 :: zs → zs = ys) ∧
      (utf8 m = 43 :: ys ∨ utf8 m = 48 :: 48 :: ys) := by
    rw [hbytes]
    rcases hopening with rfl | rfl <;> simp [eq_comm]
  rw [← hdrop]
  constructor
  · intro hlongest
    exact hlongest.ended ys hends.2
  · intro hended
    refine ⟨h, ?_⟩
    intro zs hzs
    rw [hends.1 zs hzs]
    exact hended

/-- A national number has no sign in front, so that no digit can continue it. -/
theorem NumberAt.longestAt_of_national (h : NumberAt valid value start stop m)
    (hbytes : utf8 m = opening ++ ys) (hopening : opening = [] ∨ opening = [40])
    (hnumber : Number isNanpSeparator ys)
    (h0 : isTwoToNine ((ys.filter isAsciiDigit).getD 0 0) = true) :
    LongestAt valid value start stop m := by
  obtain ⟨b, rest, hhead, hplus, hzero, _⟩ := national_head hopening hnumber h0
  refine ⟨h, ?_⟩
  rw [hbytes, hhead]
  rintro zs (hsame | hsame)
  · cases hsame
    cases hplus
  · cases hsame
    cases hzero

/-- What is parsed where a number stands. -/
theorem parseAt_iff (h : NumberAt valid value start stop m) :
    parseAtWith valid (utf8 value) value start = some (stop, m) ↔
      LongestAt valid value start stop m := by
  obtain ⟨pre, post, hvalue, rfl, hstop⟩ := bytes_of_slice? h.slice
  have hcut : ∀ {opening ys}, utf8 m = opening ++ ys →
      utf8 value = pre ++ (opening ++ (ys ++ post)) := by
    intro opening ys hbytes
    rw [hvalue, hbytes, List.append_assoc]
  have hinternational : ∀ {opening ys}, opening = [43] ∨ opening = [48, 48] →
      utf8 m = opening ++ ys → Number isInternationalSeparator ys → 7 ≤ ys.countP isAsciiDigit →
      ys.countP isAsciiDigit ≤ 15 →
      (parseAtWith valid (utf8 value) value pre.length = some (stop, m) ↔
        LongestAt valid value pre.length stop m) := by
    intro opening ys hopening hbytes hnumber hlow hhigh
    rw [parseAtWith_international (hcut hbytes) hopening hnumber,
      longestAt_iff_of_international h hvalue hbytes hstop hopening]
    exact parseInternational_iff h hvalue hbytes hstop hnumber hlow hhigh
  have hshape := h.shape
  generalize hbytes : utf8 m = bytes at hshape
  cases hshape with
  | plus hnumber hlow hhigh => exact hinternational (.inl rfl) hbytes hnumber hlow hhigh
  | zeros hnumber hlow hhigh => exact hinternational (.inr rfl) hbytes hnumber hlow hhigh
  | national hopening hnumber hcount h0 h3 hgap =>
    rw [parseAtWith_national (hcut hbytes) hopening hnumber h0]
    constructor
    · intro _
      exact h.longestAt_of_national hbytes hopening hnumber h0
    · intro _
      exact parseNanp_of_number h hvalue hbytes hstop hopening hnumber hcount h0 h3 hgap

theorem stepWith_eq_some : stepWith valid value start = (some m, stop) ↔
    byteBefore isAsciiAlphanumeric (utf8 value) start = false ∧
      parseAtWith valid (utf8 value) value start = some (stop, m) := by
  rw [stepWith]
  cases byteBefore isAsciiAlphanumeric (utf8 value) start with
  | true => simp
  | false =>
    cases parseAtWith valid (utf8 value) value start with
    | none => simp
    | some r =>
      obtain ⟨last, candidate⟩ := r
      simp [and_comm]

/-- The scan finds at a position the number there that no further digit continues. -/
theorem stepWith_iff :
    stepWith valid value start = (some m, stop) ↔ LongestAt valid value start stop m := by
  constructor
  · intro h
    exact (parseAt_iff (numberAt_of_step h)).mp (stepWith_eq_some.mp h).2
  · intro h
    exact stepWith_eq_some.mpr ⟨h.before, (parseAt_iff h.toNumberAt).mpr h⟩

theorem NumberAt.alone (h : NumberAt valid value start stop m) :
    LongestAt valid m 0 (utf8 m).length m := by
  refine ⟨⟨slice?_self m, rfl, byteAt_of_le (Nat.le_refl _), h.last, h.shape, h.accepted⟩, ?_⟩
  intro ys _ _
  rw [List.drop_length]
  rfl

/-- A match on its own is found again, and nothing else is. -/
theorem scanWith_alone (h : NumberAt valid value start stop m) : scanWith valid m = [m] :=
  scanLoop_whole h.alone.lt.1 (stepWith_iff.mpr h.alone)

end Longest

section Exact
variable {valid : String → Bool} {value : String}

/-- A sign stands at most at the front of a number. -/
theorem Shape.ne_plus {bytes : List UInt8} (h : Shape bytes) : ∀ b ∈ bytes.tail, b ≠ 43 := by
  have hnumber : ∀ {sep : UInt8 → Bool} {ys : List UInt8}, sep 43 = false → Number sep ys →
      ∀ b ∈ ys, b ≠ 43 := by
    rintro sep ys hsep hnumber b hb rfl
    rcases hnumber.inner 43 hb with hdigit | hs
    · cases hdigit
    · rw [hsep] at hs
      cases hs
  cases h with
  | plus hys => exact hnumber rfl hys
  | zeros hys =>
    refine List.forall_mem_cons.mpr ⟨?_, hnumber rfl hys⟩
    intro hzero
    cases hzero
  | national hopening hys =>
    have hall := hnumber rfl hys
    rcases hopening with rfl | rfl
    · intro b hb
      exact hall b (List.mem_of_mem_tail hb)
    · exact hall

/-- No number reaches over a sign. -/
theorem NumberAt.le_of_plus {start stop p : Nat} {m : String}
    (h : NumberAt valid value start stop m) (hplus : (utf8 value)[p]? = some 43)
    (hlt : start < p) : stop ≤ p := by
  obtain ⟨pre, post, hvalue, rfl, rfl⟩ := bytes_of_slice? h.slice
  apply Nat.le_of_not_lt
  intro hin
  obtain ⟨k, rfl⟩ := Nat.exists_eq_add_of_lt hlt
  rw [hvalue, Nat.add_assoc, List.getElem?_append_right (Nat.le_add_right _ _),
    Nat.add_sub_cancel_left, List.getElem?_append_left (by omega), ← List.getElem?_tail] at hplus
  exact h.shape.ne_plus 43 (List.mem_of_getElem? hplus) rfl

theorem LongestAt.byte {start stop : Nat} {m : String} (h : LongestAt valid value start stop m) :
    (utf8 value)[start]? = (utf8 m).head? := by
  obtain ⟨pre, post, hvalue, rfl, _⟩ := bytes_of_slice? h.slice
  rw [hvalue, List.getElem?_append_right (Nat.le_refl _), Nat.sub_self, ← List.head?_eq_getElem?]
  apply List.head?_append_of_ne_nil
  intro hnil
  have hlast := h.last
  rw [hnil] at hlast
  cases hlast

/-- A scan finds the numbers that no further digit continues, apart from those that an earlier
find reaches into, which is none of those with a `+`. -/
theorem phone_scan_exact (value : String) :
    (∀ cr, scan cr value = scanWith (Validators.phone cr) value) ∧
    ∀ valid, ∃ spans : List (Nat × Nat × String), scanWith valid value = spans.map (·.2.2) ∧
      spans.Pairwise (fun a b => a.2.1 ≤ b.1) ∧
      (∀ s, s ∈ spans ↔ LongestAt valid value s.1 s.2.1 s.2.2 ∧
        ∀ t ∈ spans, t.1 < s.1 → t.2.1 ≤ s.1) ∧
      ∀ s : Nat × Nat × String, LongestAt valid value s.1 s.2.1 s.2.2 →
        (utf8 s.2.2).head? = some 43 → s ∈ spans := by
  refine ⟨fun cr => scan_eq_scanWith cr value, ?_⟩
  intro valid
  have hmem : ∀ s, s ∈ spans (stepWith valid value) (utf8 value).length 0 ↔
      LongestAt valid value s.1 s.2.1 s.2.2 ∧
        ∀ t ∈ spans (stepWith valid value) (utf8 value).length 0, t.1 < s.1 → t.2.1 ≤ s.1 := by
    intro s
    rw [mem_spans_iff (fun k => next_of_none), stepWith_iff]
    constructor
    · rintro ⟨_, _, hlongest, hover⟩
      exact ⟨hlongest, hover⟩
    · rintro ⟨hlongest, hover⟩
      obtain ⟨hlt, hle⟩ := hlongest.lt
      exact ⟨Nat.zero_le _, by omega, hlongest, hover⟩
  refine ⟨spans (stepWith valid value) (utf8 value).length 0, scanLoop_eq_spans, spans_pairwise,
    hmem, ?_⟩
  intro s hlongest hplus
  refine (hmem s).mpr ⟨hlongest, ?_⟩
  intro t ht hlt
  have hsign : (utf8 value)[s.1]? = some 43 := by rw [hlongest.byte, hplus]
  exact ((hmem t).mp ht).1.le_of_plus hsign hlt

end Exact

end Phone

end PgSense
