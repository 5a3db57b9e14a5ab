import PgSense.Rules.DetectorSteps

/-! A part of a text with bytes next to it that can belong to no match: at every position of
the part, each detector takes the same step as in the part alone. -/

namespace PgSense
open Library
set_option autoImplicit false

/-- A byte that ends every walk of a detector and may follow a match. -/
def closes (b : UInt8) : Bool := !(isWordByte b || [32, 45, 46, 40, 41].contains b)

def Rejects (p : UInt8 → Bool) : Prop := ∀ b, closes b = true → p b = false

section Rejects

theorem closes_iff (b : UInt8) : closes b = true ↔ isAsciiAlphanumeric b = false ∧ b ≠ 95 ∧
    b ≠ 32 ∧ b ≠ 45 ∧ b ≠ 46 ∧ b ≠ 40 ∧ b ≠ 41 := by
  simp [closes, isWordByte, and_assoc]

theorem rejects_alphanumeric : Rejects isAsciiAlphanumeric := by
  intro b hb
  exact ((closes_iff b).mp hb).1

theorem rejects_digit : Rejects isAsciiDigit := by
  intro b hb
  have halnum := rejects_alphanumeric b hb
  rw [isAsciiAlphanumeric, Bool.or_eq_false_iff] at halnum
  exact halnum.2

theorem rejects_uppercase : Rejects isAsciiUppercase := by
  intro b hb
  have halnum := rejects_alphanumeric b hb
  rw [isAsciiAlphanumeric, isAsciiAlphabetic, Bool.or_eq_false_iff, Bool.or_eq_false_iff] at halnum
  exact halnum.1.1

theorem rejects_word : Rejects isWordByte := by
  intro b hb
  obtain ⟨halnum, hunderscore, _⟩ := (closes_iff b).mp hb
  simp [isWordByte, halnum, hunderscore]

theorem rejects_domain : Rejects Email.isDomainChar := by
  intro b hb
  obtain ⟨halnum, _, _, hhyphen, hdot, _⟩ := (closes_iff b).mp hb
  simp [Email.isDomainChar, halnum, hhyphen, hdot]

theorem rejects_separator : Rejects fun b => b == 32 || b == 45 := by
  intro b hb
  obtain ⟨_, _, hspace, hhyphen, _⟩ := (closes_iff b).mp hb
  simp [hspace, hhyphen]

theorem rejects_international : Rejects [32, 45, 46, 40, 41].contains := by
  intro b hb
  obtain ⟨_, _, hspace, hhyphen, hdot, hopen, hclose⟩ := (closes_iff b).mp hb
  simp [hspace, hhyphen, hdot, hopen, hclose]

theorem rejects_nanp : Rejects [41, 45, 46, 32].contains := by
  intro b hb
  obtain ⟨_, _, hspace, hhyphen, hdot, _, hclose⟩ := (closes_iff b).mp hb
  simp [hspace, hhyphen, hdot, hclose]

theorem rejects_zero : Rejects (· == 48) := by
  intro b hb
  have hdigit := rejects_digit b hb
  simp only [beq_eq_false_iff_ne]
  intro hzero
  rw [hzero] at hdigit
  cases hdigit

end Rejects

/-- `value` is `inner` between `pre` and `post`, and no walk goes on into `post`. -/
structure Framed (pre post : List Char) (inner value : String) : Prop where
  split : value.toList = pre ++ (inner.toList ++ post)
  closed : ∀ b, (encode post).head? = some b → closes b = true

namespace Framed
variable {pre post : List Char} {inner value : String} {p : UInt8 → Bool} {i : Nat}

theorem bytes (hf : Framed pre post inner value) :
    utf8 value = encode pre ++ (utf8 inner ++ encode post) := by
  rw [utf8_eq_encode, hf.split, encode_append, encode_append]
  rfl

theorem length_le (hf : Framed pre post inner value) :
    (encode pre).length + (utf8 inner).length ≤ (utf8 value).length := by
  rw [hf.bytes, List.length_append, List.length_append]
  omega

theorem getElem? (hf : Framed pre post inner value) (hi : i < (utf8 inner).length) :
    (utf8 value)[(encode pre).length + i]? = (utf8 inner)[i]? := by
  rw [hf.bytes, List.getElem?_append_right (by omega), Nat.add_sub_cancel_left,
    List.getElem?_append_left hi]

theorem byteAt_lt (hf : Framed pre post inner value) (hi : i < (utf8 inner).length) :
    byteAt p (utf8 value) ((encode pre).length + i) = byteAt p (utf8 inner) i := by
  rw [byteAt, byteAt, hf.getElem? hi]

theorem getD (hf : Framed pre post inner value) (hi : i < (utf8 inner).length) :
    (utf8 value).getD ((encode pre).length + i) 0 = (utf8 inner).getD i 0 := by
  rw [List.getD, List.getD, hf.getElem? hi]

theorem byteAt_end (hf : Framed pre post inner value) (hp : Rejects p) :
    byteAt p (utf8 value) ((encode pre).length + (utf8 inner).length) = false := by
  rw [byteAt, hf.bytes, List.getElem?_append_right (by omega), Nat.add_sub_cancel_left,
    List.getElem?_append_right (Nat.le_refl _), Nat.sub_self, ← List.head?_eq_getElem?]
  cases hpost : (encode post).head? with
  | none => rfl
  | some b => exact hp b (hf.closed b hpost)

theorem byteAt (hf : Framed pre post inner value) (hp : Rejects p)
    (hi : i ≤ (utf8 inner).length) :
    PgSense.byteAt p (utf8 value) ((encode pre).length + i) = PgSense.byteAt p (utf8 inner) i := by
  by_cases hlt : i < (utf8 inner).length
  · exact hf.byteAt_lt hlt
  · have hend : i = (utf8 inner).length := by omega
    rw [hend, hf.byteAt_end hp, byteAt_of_le (Nat.le_refl _)]

theorem byteBefore_start (hf : Framed pre post inner value) {opens : UInt8 → Bool}
    (hp : ∀ b, opens b = true → p b = false)
    (ho : ∀ b, (encode pre).getLast? = some b → opens b = true) :
    PgSense.byteBefore p (utf8 value) (encode pre).length = false := by
  rw [hf.bytes, byteBefore_append]
  cases hpre : (encode pre).getLast? with
  | none => rfl
  | some b => exact hp b (ho b hpre)

theorem byteBefore (hf : Framed pre post inner value)
    (hp : ∀ b, p b = true → isWordByte b = true) (hi : i ≤ (utf8 inner).length)
    (h : 0 < i ∨ PgSense.byteBefore isWordByte (utf8 value) (encode pre).length = false) :
    PgSense.byteBefore p (utf8 value) ((encode pre).length + i) =
      PgSense.byteBefore p (utf8 inner) i := by
  cases i with
  | zero =>
    have hfalse : PgSense.byteBefore p (utf8 value) ((encode pre).length + 0) = false :=
      byteBefore_mono hp (h.resolve_left (Nat.lt_irrefl 0))
    rw [hfalse]
    rfl
  | succ i =>
    have hbyte := hf.byteAt_lt (p := p) (i := i) (by omega)
    simp only [PgSense.byteBefore, ← Nat.add_assoc, Nat.add_sub_cancel, hbyte, Nat.zero_lt_succ]

end Framed

section Walks
variable {pre post : List Char} {inner value : String}

theorem Grouped.framed {run : List UInt8 → Nat → Nat → Nat × Nat} {p : UInt8 → Bool}
    {limit least : Nat} (hrun : Grouped run p limit least) (hp : Rejects p)
    (hf : Framed pre post inner value) {j n : Nat} (hj : j ≤ (utf8 inner).length) :
    run (utf8 value) ((encode pre).length + j) n =
        ((encode pre).length + (run (utf8 inner) j n).1, (run (utf8 inner) j n).2) ∧
      (run (utf8 inner) j n).1 ≤ (utf8 inner).length := by
  induction hd : (utf8 inner).length - j using Nat.strongRecOn generalizing j n with
  | ind d ih =>
    rw [hrun (utf8 value), hrun (utf8 inner), hf.byteAt hp hj, hf.byteAt rejects_separator hj,
      Nat.add_assoc]
    split
    · rename_i hbyte
      have hlt := lt_of_byteAt hbyte.2
      exact ih (d - 1) (by omega) (by omega) (by omega)
    · cases hsep : byteAt (fun b => b == 32 || b == 45) (utf8 inner) j with
      | true =>
        have hlt := lt_of_byteAt hsep
        rw [hf.byteAt hp (by omega)]
        split
        · exact ih (d - 1) (by omega) (by omega) (by omega)
        · exact ⟨rfl, hj⟩
      | false =>
        simp only [Bool.false_eq_true, false_and, and_false, if_false]
        exact ⟨trivial, hj⟩

theorem Phone.internationalRun_framed (hf : Framed pre post inner value) (count : Nat) {j stop : Nat}
    (hj : j ≤ (utf8 inner).length) (hstop : stop ≤ (utf8 inner).length) :
    internationalRun (utf8 value) ((encode pre).length + j) count ((encode pre).length + stop) =
        ((internationalRun (utf8 inner) j count stop).1,
          (encode pre).length + (internationalRun (utf8 inner) j count stop).2) ∧
      (internationalRun (utf8 inner) j count stop).2 ≤ (utf8 inner).length := by
  induction hd : (utf8 inner).length - j using Nat.strongRecOn generalizing j count stop with
  | ind d ih =>
    rw [internationalRun_eq (utf8 value), internationalRun_eq (utf8 inner),
      hf.byteAt rejects_digit hj, hf.byteAt rejects_international hj, Nat.add_assoc]
    split
    · rename_i hdigit
      have hlt := lt_of_byteAt hdigit.2
      exact ih (d - 1) (by omega) _ (by omega) (by omega) (by omega)
    · split
      · rename_i hsep
        have hlt := lt_of_byteAt hsep.2.1
        exact ih (d - 1) (by omega) _ (by omega) hstop (by omega)
      · exact ⟨rfl, hstop⟩

theorem Phone.nanpRun_framed (hf : Framed pre post inner value) (digits : List UInt8)
    (hasSep : Bool) {j stop : Nat} (hj : j ≤ (utf8 inner).length)
    (hstop : stop ≤ (utf8 inner).length) :
    ∃ r, nanpRun (utf8 inner) j ⟨digits, hasSep, stop⟩ = r ∧ r.stop ≤ (utf8 inner).length ∧
      nanpRun (utf8 value) ((encode pre).length + j) ⟨digits, hasSep, (encode pre).length + stop⟩ =
        ⟨r.digits, r.hasSep, (encode pre).length + r.stop⟩ := by
  induction hd : (utf8 inner).length - j using Nat.strongRecOn
    generalizing j digits hasSep stop with
  | ind d ih =>
    rw [nanpRun_eq (utf8 value), nanpRun_eq (utf8 inner)]
    simp only
    rw [hf.byteAt rejects_digit hj, hf.byteAt rejects_nanp hj, Nat.add_assoc]
    split
    · rename_i hdigit
      have hlt := lt_of_byteAt hdigit.2
      rw [hf.getD hlt]
      exact ih (d - 1) (by omega) _ _ (by omega) (by omega) (by omega)
    · split
      · rename_i hsep
        have hlt := lt_of_byteAt hsep.2.1
        exact ih (d - 1) (by omega) _ _ (by omega) hstop (by omega)
      · exact ⟨_, rfl, hstop, rfl⟩

end Walks

namespace CreditCard
variable {pre post : List Char} {inner value : String} {i : Nat}

theorem step_framed (hf : Framed pre post inner value) (hi : i < (utf8 inner).length)
    (hbefore : 0 < i ∨ byteBefore isWordByte (utf8 value) (encode pre).length = false) :
    step value ((encode pre).length + i) =
        ((step inner i).1, (encode pre).length + (step inner i).2) ∧
      (step inner i).2 ≤ (utf8 inner).length := by
  obtain ⟨hrun, hle⟩ := digitRun_grouped.framed rejects_digit hf (n := 0) (Nat.le_of_lt hi)
  simp only [step, hf.byteAt_lt hi, hf.byteBefore (fun b hb => hb) (Nat.le_of_lt hi) hbefore, hrun,
    hf.byteAt rejects_word hle, slice_part hf.split hle]
  split
  · exact ⟨rfl, hle⟩
  · exact ⟨rfl, hi⟩

end CreditCard

namespace Ssn
variable {pre post : List Char} {inner value : String} {i : Nat}

def isLayoutByte (b : UInt8) : Bool := isAsciiDigit b || [45, 32, 46].contains b

theorem rejects_layout : Rejects isLayoutByte := by
  intro b hb
  have hdigit := rejects_digit b hb
  obtain ⟨_, _, hspace, hhyphen, hdot, _⟩ := (closes_iff b).mp hb
  simp [isLayoutByte, hdigit, hspace, hhyphen, hdot]

theorem layoutAt_byte {bytes : List UInt8} {i m : Nat} (h : layoutAt bytes i = true)
    (hm : m < 11) : byteAt isLayoutByte bytes (i + m) = true := by
  simp only [layoutAt, Bool.and_eq_true] at h
  obtain ⟨⟨hdigits, hsep⟩, hsame⟩ := h
  have ofSep : ∀ k, [45, 32, 46].contains (bytes.getD (i + k) 0) = true →
      byteAt isLayoutByte bytes (i + k) = true := by
    intro k hk
    rw [apply_getD (p := [45, 32, 46].contains) rfl] at hk
    obtain ⟨b, hb, hmem⟩ := byteAt_iff.mp hk
    exact byteAt_iff.mpr ⟨b, hb, by simp only [isLayoutByte, hmem, Bool.or_true]⟩
  by_cases hthree : m = 3
  · rw [hthree]
    exact ofSep 3 hsep
  · by_cases hsix : m = 6
    · rw [hsix]
      apply ofSep 6
      rw [eq_of_beq hsame]
      exact hsep
    · have hmem : m ∈ [0, 1, 2, 4, 5, 7, 8, 9, 10] := by
        simp only [List.mem_cons, List.not_mem_nil, or_false]
        omega
      obtain ⟨b, hb, hdigit⟩ := byteAt_iff.mp (List.all_eq_true.mp hdigits m hmem)
      exact byteAt_iff.mpr ⟨b, hb, by simp [isLayoutByte, hdigit]⟩

theorem layoutAt_framed (hf : Framed pre post inner value) (hi : i ≤ (utf8 inner).length) :
    layoutAt (utf8 value) ((encode pre).length + i) = layoutAt (utf8 inner) i := by
  by_cases hfit : i + 11 ≤ (utf8 inner).length
  · apply layoutAt_congr
    intro k hk
    rw [Nat.add_assoc]
    exact hf.getElem? (by omega)
  · have hinner : layoutAt (utf8 inner) i = false := by
      rw [← Bool.not_eq_true]
      intro h
      have hlt := lt_of_byteAt (layoutAt_byte h (m := 10) (by omega))
      omega
    have hvalue : layoutAt (utf8 value) ((encode pre).length + i) = false := by
      rw [← Bool.not_eq_true]
      intro h
      have hbyte := layoutAt_byte h (m := (utf8 inner).length - i) (by omega)
      have hend : (encode pre).length + i + ((utf8 inner).length - i) =
          (encode pre).length + (utf8 inner).length := by omega
      rw [hend, hf.byteAt_end rejects_layout] at hbyte
      cases hbyte
    rw [hinner, hvalue]

theorem step_framed (hf : Framed pre post inner value) (hi : i < (utf8 inner).length)
    (hbefore : 0 < i ∨ byteBefore isWordByte (utf8 value) (encode pre).length = false) :
    step value ((encode pre).length + i) =
        ((step inner i).1, (encode pre).length + (step inner i).2) ∧
      (step inner i).2 ≤ (utf8 inner).length := by
  refine ⟨?_, hi⟩
  simp only [step, layoutAt_framed hf (Nat.le_of_lt hi),
    hf.byteBefore (fun b hb => hb) (Nat.le_of_lt hi) hbefore, Nat.add_assoc]
  cases hlayout : layoutAt (utf8 inner) i with
  | true =>
    have hlt := lt_of_byteAt (layoutAt_byte hlayout (m := 10) (by omega))
    rw [hf.byteAt rejects_word (by omega), slice_part hf.split (by omega)]
  | false => simp

end Ssn

namespace Iban
variable {pre post : List Char} {inner value : String} {i : Nat}

theorem extractCandidate_framed (hf : Framed pre post inner value) {expected : Nat}
    (hi : i + 2 ≤ (utf8 inner).length) :
    extractCandidate value (utf8 value) ((encode pre).length + i) expected =
      extractCandidate inner (utf8 inner) i expected := by
  obtain ⟨hrun, hle⟩ := (alnumRun_grouped expected).framed rejects_alphanumeric hf (n := 2) hi
  simp only [extractCandidate, Nat.add_assoc]
  rw [hf.byteAt rejects_digit hi]
  cases hdigit : byteAt isAsciiDigit (utf8 inner) (i + 2) with
  | true =>
    have hlt := lt_of_byteAt hdigit
    rw [hf.byteAt rejects_digit (by omega), hrun]
    simp only
    rw [hf.byteAt rejects_alphanumeric hle, slice_part hf.split hle]
  | false => rfl

theorem step_framed (hf : Framed pre post inner value) (hi : i < (utf8 inner).length)
    (hbefore : 0 < i ∨ byteBefore isWordByte (utf8 value) (encode pre).length = false) :
    step value ((encode pre).length + i) =
        ((step inner i).1, (encode pre).length + (step inner i).2) ∧
      (step inner i).2 ≤ (utf8 inner).length := by
  refine ⟨?_, hi⟩
  simp only [step, Nat.add_assoc]
  rw [hf.byteAt_lt hi, hf.byteAt rejects_uppercase hi,
    hf.byteBefore isWordByte_of_alphanumeric (Nat.le_of_lt hi) hbefore,
    hf.getD hi]
  cases hnext : byteAt isAsciiUppercase (utf8 inner) (i + 1) with
  | true =>
    have hlt := lt_of_byteAt hnext
    have hcandidate : extractCandidate value (utf8 value) ((encode pre).length + i) =
        extractCandidate inner (utf8 inner) i := by
      funext expected
      exact extractCandidate_framed hf hlt
    rw [hf.getD hlt, hcandidate]
  | false => simp

end Iban

namespace Phone

theorem isAsciiDigit_of_twoToNine {b : UInt8} (h : isTwoToNine b = true) :
    isAsciiDigit b = true := by
  have hrange : 50 ≤ b.toNat ∧ b.toNat ≤ 57 := (byteRange_iff 50 57 b).mp h
  rw [isAsciiDigit_iff]
  omega

variable (cr : Crates) (valid : String → Bool) {pre post : List Char} {inner value : String}
  {i : Nat}

/-- A parsed number with its end moved by `offset`. -/
def shift (offset : Nat) : Option (Nat × String) → Option (Nat × String) :=
  Option.map fun r => (offset + r.1, r.2)

def EndsWithin (size : Nat) (parsed : Option (Nat × String)) : Prop :=
  ∀ r, parsed = some r → r.1 ≤ size

theorem parseInternationalWith_framed (hf : Framed pre post inner value) {start : Nat}
    (hstart : start ≤ (utf8 inner).length) :
    parseInternationalWith valid (utf8 value) value ((encode pre).length + i)
        ((encode pre).length + start) =
        shift (encode pre).length (parseInternationalWith valid (utf8 inner) inner i start) ∧
      EndsWithin (utf8 inner).length (parseInternationalWith valid (utf8 inner) inner i start) := by
  obtain ⟨hrun, hle⟩ := internationalRun_framed hf 0 hstart hstart
  simp only [parseInternationalWith]
  rw [hrun]
  simp only
  rw [hf.byteAt rejects_alphanumeric hle, slice_part hf.split hle]
  split
  · exact ⟨rfl, by intro r hr; cases hr⟩
  · split
    · refine ⟨rfl, ?_⟩
      intro r hr
      cases hr
      exact hle
    · exact ⟨rfl, by intro r hr; cases hr⟩

theorem parseNanpWith_framed (hf : Framed pre post inner value) (hi : i < (utf8 inner).length) :
    parseNanpWith valid (utf8 value) value ((encode pre).length + i) =
        shift (encode pre).length (parseNanpWith valid (utf8 inner) inner i) ∧
      EndsWithin (utf8 inner).length (parseNanpWith valid (utf8 inner) inner i) := by
  simp only [parseNanpWith]
  rw [hf.byteAt_lt hi]
  have hj : ∃ j, j ≤ (utf8 inner).length ∧
      (if byteAt (· == 40) (utf8 inner) i then i + 1 else i) = j ∧
      (if byteAt (· == 40) (utf8 inner) i then (encode pre).length + i + 1
        else (encode pre).length + i) = (encode pre).length + j := by
    split
    · exact ⟨i + 1, hi, rfl, by omega⟩
    · exact ⟨i, Nat.le_of_lt hi, rfl, rfl⟩
  obtain ⟨j, hj, hinner, hvalue⟩ := hj
  rw [hinner, hvalue]
  obtain ⟨r, hr, hle, hrun⟩ := nanpRun_framed hf [] false hj hj
  rw [hr, hrun]
  simp only
  rw [hf.byteAt rejects_alphanumeric hle, slice_part hf.split hle]
  split
  · exact ⟨rfl, by intro r hr; cases hr⟩
  · split
    · exact ⟨rfl, by intro r hr; cases hr⟩
    · split
      · exact ⟨rfl, by intro r hr; cases hr⟩
      · split
        · refine ⟨rfl, ?_⟩
          intro r hr
          cases hr
          exact hle
        · exact ⟨rfl, by intro r hr; cases hr⟩

theorem parseAtWith_framed (hf : Framed pre post inner value) (hi : i < (utf8 inner).length) :
    parseAtWith valid (utf8 value) value ((encode pre).length + i) =
        shift (encode pre).length (parseAtWith valid (utf8 inner) inner i) ∧
      EndsWithin (utf8 inner).length (parseAtWith valid (utf8 inner) inner i) := by
  simp only [parseAtWith, Nat.add_assoc]
  rw [hf.byteAt_lt hi, hf.byteAt_lt hi, hf.byteAt_lt hi, hf.byteAt rejects_digit hi,
    hf.byteAt rejects_zero hi]
  split
  · exact parseInternationalWith_framed valid hf hi
  · cases hzero : byteAt (· == 48) (utf8 inner) (i + 1) with
    | true =>
      have hlt := lt_of_byteAt hzero
      rw [hf.byteAt rejects_digit (by omega)]
      split
      · exact parseInternationalWith_framed valid hf (by omega)
      · split
        · exact parseNanpWith_framed valid hf hi
        · exact ⟨rfl, by intro r hr; cases hr⟩
    | false =>
      simp only [Bool.and_false, Bool.false_and, Bool.false_eq_true, if_false]
      split
      · exact parseNanpWith_framed valid hf hi
      · exact ⟨rfl, by intro r hr; cases hr⟩

theorem step_framed (hf : Framed pre post inner value) (hi : i < (utf8 inner).length)
    (hbefore : 0 < i ∨ byteBefore isWordByte (utf8 value) (encode pre).length = false) :
    step cr value ((encode pre).length + i) =
        ((step cr inner i).1, (encode pre).length + (step cr inner i).2) ∧
      (step cr inner i).2 ≤ (utf8 inner).length := by
  obtain ⟨hparse, hend⟩ := parseAtWith_framed (Validators.phone cr) hf hi
  simp only [step, stepWith]
  rw [hf.byteBefore isWordByte_of_alphanumeric (Nat.le_of_lt hi) hbefore, hparse]
  split
  · exact ⟨rfl, hi⟩
  · cases hp : parseAtWith (Validators.phone cr) (utf8 inner) inner i with
    | none => exact ⟨rfl, hi⟩
    | some r => exact ⟨rfl, hend r hp⟩

end Phone

namespace Email
variable {pre post : List Char} {inner value : String} {i : Nat}

/-- The walk back keeps to `inner`: a byte before it stops the walk, or the walk stops
inside, or it takes its 64 bytes inside. -/
theorem localStart_framed (hf : Framed pre post inner value) {n : Nat}
    (hn : n ≤ (utf8 inner).length)
    (hstop : byteBefore Validators.isEmailLocalChar (utf8 value) (encode pre).length = false ∨
      0 < localStart (utf8 inner) (i - 64) n ∨ 64 ≤ i) :
    localStart (utf8 value) ((encode pre).length + i - 64) ((encode pre).length + n) =
      (encode pre).length + localStart (utf8 inner) (i - 64) n := by
  induction n with
  | zero =>
    have hinner : localStart (utf8 inner) (i - 64) 0 = 0 := rfl
    rw [hinner, Nat.add_zero]
    cases hpre : (encode pre).length with
    | zero => rfl
    | succ k =>
      rw [hinner] at hstop
      rw [localStart, if_neg]
      rw [Bool.and_eq_true, not_and]
      intro hlow hlocal
      rcases hstop with hopen | hpos | hlong
      · rw [hpre] at hopen
        simp [byteBefore, hlocal] at hopen
      · omega
      · have hlow := of_decide_eq_true hlow
        omega
  | succ n ih =>
    have hlow : decide ((encode pre).length + i - 64 < (encode pre).length + n + 1) =
        decide (i - 64 < n + 1) := by
      rw [decide_eq_decide]
      omega
    rw [← Nat.add_assoc, localStart, localStart, hlow, hf.byteAt_lt (by omega)]
    rw [localStart] at hstop
    split
    · rename_i hbyte
      rw [if_pos hbyte] at hstop
      exact ih (by omega) hstop
    · rfl

theorem domainEnd_framed (hf : Framed pre post inner value) (fuel : Nat) {d : Nat}
    (hd : d ≤ (utf8 inner).length) :
    domainEnd (utf8 value) fuel ((encode pre).length + d) =
        (encode pre).length + domainEnd (utf8 inner) fuel d ∧
      domainEnd (utf8 inner) fuel d ≤ (utf8 inner).length := by
  induction fuel generalizing d with
  | zero => exact ⟨rfl, hd⟩
  | succ fuel ih =>
    simp only [domainEnd]
    rw [hf.byteAt rejects_domain hd]
    split
    · rename_i hbyte
      have hlt := lt_of_byteAt hbyte
      exact ih hlt
    · exact ⟨rfl, hd⟩

theorem trimEnd_framed (hf : Framed pre post inner value) {low n : Nat} (hlow : low ≤ n)
    (hn : n ≤ (utf8 inner).length) :
    trimEnd (utf8 value) ((encode pre).length + low) ((encode pre).length + n) =
        (encode pre).length + trimEnd (utf8 inner) low n ∧
      trimEnd (utf8 inner) low n ≤ (utf8 inner).length := by
  induction n with
  | zero =>
    have hzero : low = 0 := by omega
    refine ⟨?_, Nat.zero_le _⟩
    cases hpre : (encode pre).length with
    | zero => simp [trimEnd]
    | succ k => simp [hzero, trimEnd]
  | succ n ih =>
    have hcmp : decide ((encode pre).length + low < (encode pre).length + n + 1) =
        decide (low < n + 1) := by
      rw [decide_eq_decide]
      omega
    rw [← Nat.add_assoc, trimEnd, trimEnd, hcmp, hf.byteAt_lt (by omega)]
    split
    · rename_i hbyte
      rw [Bool.and_eq_true, decide_eq_true_eq] at hbyte
      exact ih (by omega) (by omega)
    · exact ⟨rfl, hn⟩

theorem extractCandidate_framed (hf : Framed pre post inner value) (hi : i < (utf8 inner).length)
    (hstop : byteBefore Validators.isEmailLocalChar (utf8 value) (encode pre).length = false ∨
      0 < localStart (utf8 inner) (i - 64) i ∨ 64 ≤ i) :
    extractCandidate value (utf8 value) ((encode pre).length + i) =
      extractCandidate inner (utf8 inner) i := by
  obtain ⟨hdomain, hle⟩ := domainEnd_framed hf 253 (d := i + 1) hi
  obtain ⟨htrim, hin⟩ := trimEnd_framed hf (le_domainEnd (utf8 inner) 253 (i + 1)) hle
  have beq_shift : ∀ a b : Nat, ((encode pre).length + a == (encode pre).length + b) = (a == b) := by
    intro a b
    rw [Bool.eq_iff_iff, beq_iff_eq, beq_iff_eq]
    omega
  simp only [extractCandidate]
  rw [localStart_framed hf (Nat.le_of_lt hi) hstop, Nat.add_assoc, hdomain,
    hf.byteAt rejects_word hle, htrim, slice_part hf.split hin, beq_shift, beq_shift]

theorem step_framed (hf : Framed pre post inner value) (hi : i < (utf8 inner).length)
    (hstop : byteBefore Validators.isEmailLocalChar (utf8 value) (encode pre).length = false ∨
      0 < localStart (utf8 inner) (i - 64) i ∨ 64 ≤ i) :
    step value ((encode pre).length + i) =
        ((step inner i).1, (encode pre).length + (step inner i).2) ∧
      (step inner i).2 ≤ (utf8 inner).length := by
  refine ⟨?_, hi⟩
  simp only [step, found]
  rw [hf.byteAt_lt hi, extractCandidate_framed hf hi hstop, Nat.add_assoc]

end Email

end PgSense
