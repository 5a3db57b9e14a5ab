import PgSense.Rules.ArrayCells

/-! What the detectors find in the text scanned for a JSON string, against what they find in
the string. The escape of a control character ends in a letter or digit, which stands right
before the text that follows, so no match begins there. -/

namespace PgSense
open Library
set_option autoImplicit false

section Escapes

def isControl (c : Char) : Bool := c.toNat < 32

def isEscaped (c : Char) : Bool := isControl c || c.toNat == 34 || c.toNat == 92

/-- What follows the backslash in the escape of a control character. -/
def escapeTail (n : Nat) : List Char :=
  match n with
  | 8 => ['b']
  | 9 => ['t']
  | 10 => ['n']
  | 12 => ['f']
  | 13 => ['r']
  | n => ['u', '0', '0', Nat.digitChar (n / 16), Nat.digitChar (n % 16)]

variable {c : Char}

theorem jsonEscape_control (h : isControl c = true) :
    (jsonEscape c).toList = '\\' :: escapeTail c.toNat := by
  rw [isControl, decide_eq_true_eq] at h
  unfold jsonEscape escapeTail
  generalize c.toNat = n at h ⊢
  split
  · omega
  · omega
  · rfl
  · rfl
  · rfl
  · rfl
  · rfl
  · rw [if_pos h]
    simp

theorem jsonEscape_quoted (h : c.toNat = 34 ∨ c.toNat = 92) :
    (jsonEscape c).toList = ['\\', c] := by
  rcases h with h | h
  · have hc : c = '"' := Char.toNat_inj.mp h
    subst hc
    decide
  · have hc : c = '\\' := Char.toNat_inj.mp h
    subst hc
    decide

theorem jsonEscape_plain (h : isEscaped c = false) : (jsonEscape c).toList = [c] := by
  simp only [isEscaped, isControl, Bool.or_eq_false_iff, decide_eq_false_iff_not,
    beq_eq_false_iff_ne] at h
  obtain ⟨⟨hcontrol, hquote⟩, hbackslash⟩ := h
  unfold jsonEscape
  split
  · contradiction
  · contradiction
  · omega
  · omega
  · omega
  · omega
  · omega
  · rw [if_neg hcontrol]
    simp

def escapeAll (l : List Char) : List Char := l.flatMap fun c => (jsonEscape c).toList

theorem escapeAll_plain {l : List Char} (h : ∀ c ∈ l, isEscaped c = false) : escapeAll l = l := by
  induction l with
  | nil => rfl
  | cons c l ih =>
    rw [escapeAll, List.flatMap_cons, jsonEscape_plain (h c List.mem_cons_self)]
    have hrest := ih (fun c hc => h c (List.mem_cons_of_mem _ hc))
    rw [escapeAll] at hrest
    rw [hrest]
    rfl

theorem escapeAll_append (l k : List Char) :
    escapeAll (l ++ k) = escapeAll l ++ escapeAll k :=
  List.flatMap_append

theorem escapeAll_cons (c : Char) (l : List Char) :
    escapeAll (c :: l) = (jsonEscape c).toList ++ escapeAll l :=
  List.flatMap_cons

theorem toList_json (s : String) :
    (toString (Json.string s)).toList = '"' :: (escapeAll s.toList ++ ['"']) := by
  have htext : toString (Json.string s) =
      "\"" ++ String.join (s.toList.map jsonEscape) ++ "\"" := rfl
  rw [htext]
  simp [escapeAll, List.flatMap_map]

theorem isDelimiter_of_isEscaped (h : isEscaped c = true) : Detector.isDelimiter c = true := by
  have hall : ∀ n, n < 128 → n < 32 ∨ n = 34 ∨ n = 92 →
      Detector.isNeutral (UInt8.ofNat n) = true := by decide
  simp only [isEscaped, isControl, Bool.or_eq_true, decide_eq_true_eq, beq_iff_eq] at h
  have hneutral := hall c.toNat (by omega) (by omega)
  simp [Detector.isDelimiter, Detector.isNeutral] at hneutral ⊢
  exact .inr hneutral

end Escapes

/-- Letters and digits that begin with a letter, as the escapes of control characters end. -/
structure Glue (x : List Char) : Prop where
  word : ∀ b ∈ encode x, (isAsciiLowercase b || isAsciiDigit b) = true
  head : ∃ b, (encode x).head? = some b ∧ isAsciiLowercase b = true

theorem glue_escapeTail {n : Nat} (h : n < 32) : Glue (escapeTail n) := by
  have hword : ∀ n, n < 32 →
      ((encode (escapeTail n)).all fun b => isAsciiLowercase b || isAsciiDigit b) = true := by decide
  have hhead : ∀ n, n < 32 → ((encode (escapeTail n)).head?.any isAsciiLowercase) = true := by decide
  exact ⟨List.all_eq_true.mp (hword n h), (Option.any_eq_true _ _).mp (hhead n h)⟩

namespace Detector
variable (cr : Crates) (d : Detector)

section Clear
variable {pre post : List Char} {inner value : String} {i : Nat}

def isControlByte (b : UInt8) : Bool := b < 32

/-- Where a match that the detector's loop finds at `i` begins. -/
def matchStart (value : String) (i : Nat) : Nat :=
  match d with
  | email => Email.localStart (utf8 value) (i - 64) i
  | _ => i

/-- A control character stands directly before byte `i`; `outer` tells it of the text itself. -/
def afterControl (outer : Bool) (value : String) (i : Nat) : Bool :=
  if i = 0 then outer else byteBefore isControlByte (utf8 value) i

/-- The detector's step, but that no match begins directly after a control character. An
address is the exception when its local part has the 64 bytes that are looked at. -/
def clearStep (outer : Bool) (value : String) (i : Nat) : Option String × Nat :=
  if afterControl outer value (d.matchStart value i) && i < d.matchStart value i + 64 then
    (none, i + 1)
  else d.step cr value i

theorem matchStart_le (value : String) (i : Nat) : d.matchStart value i ≤ i := by
  cases d with
  | email => exact Email.localStart_le (utf8 value) (i - 64) i
  | creditCard | iban | phone | ssn => exact Nat.le_refl i

theorem matchStart_framed (hf : Framed pre post inner value)
    (ho : ∀ b, (encode pre).getLast? = some b → d.opens b = true)
    (hi : i ≤ (utf8 inner).length) :
    d.matchStart value ((encode pre).length + i) =
      (encode pre).length + d.matchStart inner i := by
  cases d with
  | email =>
    have hopen := hf.byteBefore_start (p := Validators.isEmailLocalChar) (by simp [opens]) ho
    exact Email.localStart_framed hf hi (.inl hopen)
  | creditCard | iban | phone | ssn => rfl

theorem afterControl_framed (hf : Framed pre post inner value) (outer : Bool)
    (hi : i ≤ (utf8 inner).length) : afterControl outer value ((encode pre).length + i) =
      afterControl (afterControl outer value (encode pre).length) inner i := by
  cases i with
  | zero => rfl
  | succ i =>
    have hbyte := hf.byteAt_lt (p := isControlByte) (i := i) (by omega)
    simp only [afterControl, byteBefore, ← Nat.add_assoc, Nat.add_sub_cancel, hbyte,
      Nat.zero_lt_succ]
    rfl

theorem clearStep_embeds (hf : Framed pre post inner value) (outer : Bool)
    (ho : ∀ b, (encode pre).getLast? = some b → d.opens b = true) :
    Embeds (d.clearStep cr (afterControl outer value (encode pre).length) inner) 0
      (utf8 inner).length (d.clearStep cr outer value) (encode pre).length := by
  have hstep := d.embeds cr hf ho
  constructor
  · intro i _ hi
    have hle := d.matchStart_le inner i
    have hlimit : ((encode pre).length + i < (encode pre).length + d.matchStart inner i + 64) =
        (i < d.matchStart inner i + 64) := by
      rw [eq_iff_iff]
      omega
    simp only [clearStep, d.matchStart_framed hf ho (Nat.le_of_lt hi), hlimit,
      afterControl_framed hf outer (Nat.le_trans hle (Nat.le_of_lt hi))]
    split
    · rfl
    · exact hstep.same i (Nat.zero_le i) hi
  · intro i _ hi
    rw [clearStep]
    split
    · exact hi
    · exact hstep.inside i (Nat.zero_le i) hi

theorem isControlByte_of_mem {c : Char} {b : UInt8} (hb : b ∈ String.utf8EncodeChar c) :
    isControlByte b = isControl c := by
  by_cases hc : c.toNat < 128
  · rw [encodeChar_single hc, List.mem_singleton] at hb
    subst hb
    have hall : ∀ n, n < 128 → isControlByte (UInt8.ofNat n) = decide (n < 32) := by decide
    exact hall c.toNat hc
  · have hascii := encodeChar_multi (by omega) b hb
    have hlarge : 128 ≤ b.toNat := by
      rw [← Bool.not_eq_true, isAsciiByte_iff] at hascii
      omega
    have hbyte : ¬ b.toNat < (32 : UInt8).toNat := by
      simp only [UInt8.reduceToNat]
      omega
    have hchar : ¬ c.toNat < 32 := by omega
    rw [isControlByte, isControl, decide_eq_decide, UInt8.lt_iff_toNat_lt]
    exact ⟨fun h => absurd h hbyte, fun h => absurd h hchar⟩

/-- The loop of the detector over a text, where no match begins directly after a control
character; `outer` tells that one stands before the text. -/
def scanClear (outer : Bool) (value : String) : List String :=
  scanLoop (d.clearStep cr outer value) (utf8 value).length 0

theorem scanClear_nil (outer : Bool) : d.scanClear cr outer "" = [] :=
  scanLoop_done (Nat.le_refl 0)

theorem afterControl_back (outer : Bool) (u : List Char) (c : Char) (w : List Char) :
    afterControl outer (String.ofList (u ++ ([c] ++ w))) (encode (u ++ [c])).length =
      isControl c := by
  have hne := String.utf8EncodeChar_ne_nil (c := c)
  have hpos : (encode (u ++ [c])).length ≠ 0 := by
    have hlen := List.length_pos_iff.mpr hne
    rw [encode_append, List.length_append, encode_cons, List.length_append]
    omega
  rw [afterControl, if_neg hpos, utf8_ofList, ← List.append_assoc, encode_append, byteBefore_append,
    getLast?_encode_snoc, List.getLast?_eq_some_getLast hne, Option.any_some]
  exact isControlByte_of_mem (List.getLast_mem hne)

theorem scanClear_split (outer : Bool) (u : List Char) {c : Char} (w : List Char)
    (hc : isDelimiter c = true) : d.scanClear cr outer (String.ofList (u ++ c :: w)) =
      d.scanClear cr outer (String.ofList u) ++
        d.scanClear cr (isControl c) (String.ofList w) := by
  have hneutral := isNeutral_of_isDelimiter hc
  have hleft := d.clearStep_embeds cr
    (framed_front (u := u) (w := w) fun b hb => closes_of_isNeutral (hneutral b hb)) outer
    (by intro b hb; cases hb)
  have hidle : ∀ i, (encode u).length ≤ i → i < (encode (u ++ [c])).length →
      d.clearStep cr outer (String.ofList (u ++ c :: w)) i = (none, i + 1) := by
    intro i hlow hhigh
    have hstart := fun b hb => d.starts_of_isNeutral (hneutral b hb)
    rw [clearStep, d.step_between cr hstart hlow hhigh, ite_self]
  have hback := framed_back (u ++ [c]) w
  rw [List.append_assoc] at hback
  have hright := d.clearStep_embeds cr hback outer (by
    intro b hb
    rw [getLast?_encode_snoc] at hb
    exact d.opens_of_isNeutral (hneutral b (List.mem_of_getLast? hb)))
  rw [afterControl_back] at hright
  rw [scanClear, scanClear, scanClear, length_utf8_split]
  rw [utf8_ofList] at hleft
  rw [scanLoop_split (length_encode_snoc_le u c) hleft hidle hright, utf8_ofList u]
  rfl

end Clear

theorem step_blocked (hd : d ≠ email) {value : String} {i : Nat}
    (h : byteBefore isAsciiAlphanumeric (utf8 value) i = true) :
    d.step cr value i = (none, i + 1) := by
  have hword : byteBefore isWordByte (utf8 value) i = true := by
    rw [← Bool.not_eq_false]
    intro hfalse
    rw [byteBefore_mono isWordByte_of_alphanumeric hfalse] at h
    cases h
  cases d with
  | email => exact absurd rfl hd
  | creditCard => simp [step, CreditCard.step, hword]
  | iban => simp [step, Iban.step, h]
  | phone => simp [step, Phone.step, Phone.stepWith, h]
  | ssn => simp [step, Ssn.step, hword]

theorem starts_of_lowercase {b : UInt8} (h : isAsciiLowercase b = true) : d.starts b = false := by
  have hrange := (isAsciiLowercase_iff b).mp h
  have hdigit : isAsciiDigit b = false := by
    rw [← Bool.not_eq_true, isAsciiDigit_iff]
    omega
  have hupper : isAsciiUppercase b = false := by
    rw [← Bool.not_eq_true, isAsciiUppercase_iff]
    omega
  have hother : ∀ k : UInt8, k.toNat < 97 → b ≠ k := by
    rintro k hk rfl
    omega
  have hat : b ≠ 64 := hother 64 (by decide)
  have hplus : b ≠ 43 := hother 43 (by decide)
  have hopen : b ≠ 40 := hother 40 (by decide)
  cases d with
  | email => exact beq_eq_false_iff_ne.mpr hat
  | iban => exact hupper
  | phone => simp [starts, hdigit, hplus, hopen]
  | creditCard | ssn => exact hdigit

/-- Behind an escape, the scan of a text starts at its second byte. -/
theorem scan_glued (hd : d ≠ email) {x : List Char} (hx : Glue x) (t : List Char) :
    d.scan cr (String.ofList (x ++ t)) =
      scanLoop (d.step cr (String.ofList t)) (utf8 (String.ofList t)).length 1 := by
  have hf := framed_back x t
  have hbytes : utf8 (String.ofList (x ++ t)) = encode x ++ encode t := by
    rw [utf8_ofList, encode_append]
  have hidle : ∀ i, 0 ≤ i → i < (encode x).length + 1 →
      d.step cr (String.ofList (x ++ t)) i = (none, i + 1) := by
    intro i _ hi
    cases i with
    | zero =>
      obtain ⟨b, hb, hlower⟩ := hx.head
      have hne : encode x ≠ [] := by
        intro hnil
        rw [hnil] at hb
        cases hb
      apply step_idle
      rw [byteAt, hbytes, ← List.head?_eq_getElem?, List.head?_append_of_ne_nil _ hne, hb,
        Option.any_some]
      exact d.starts_of_lowercase hlower
    | succ i =>
      apply step_blocked cr d hd
      have hlt : i < (encode x).length := by omega
      have hword := hx.word _ (List.getElem_mem hlt)
      rw [byteBefore, Nat.add_sub_cancel, byteAt, hbytes, List.getElem?_append_left hlt,
        List.getElem?_eq_getElem hlt, Option.any_some, isAsciiAlphanumeric, isAsciiAlphabetic,
        Bool.or_assoc, hword, Bool.or_true]
      rfl
  rw [scan_eq, scanLoop_idle (Nat.zero_le _) hidle, hbytes, List.length_append]
  by_cases ht : (encode t).length = 0
  · rw [scanLoop_done (by omega), scanLoop_done (by rw [utf8_ofList]; omega)]
  · have hpart : Embeds (d.step cr (String.ofList t)) 1 (utf8 (String.ofList t)).length
        (d.step cr (String.ofList (x ++ t))) (encode x).length :=
      ⟨fun i hlow hi => (d.step_framed cr hd hf hi (.inl hlow)).1,
        fun i hlow hi => (d.step_framed cr hd hf hi (.inl hlow)).2⟩
    have hend : (encode x).length + (utf8 (String.ofList t)).length ≤
        (encode x).length + (encode t).length := Nat.le_of_eq (by rw [utf8_ofList])
    rw [hpart.scanLoop (Nat.le_refl 1) (by rw [utf8_ofList]; omega) hend, utf8_ofList,
      scanLoop_done (Nat.le_refl _), List.append_nil]


section Plain
variable {t : List Char}

theorem byteBefore_control (ht : ∀ c ∈ t, isControl c = false) (i : Nat) :
    byteBefore isControlByte (utf8 (String.ofList t)) i = false := by
  rw [← Bool.not_eq_true]
  intro h
  obtain ⟨b, hb, hcontrol⟩ := byteAt_iff.mp (Bool.and_eq_true_iff.mp h).2
  rw [utf8_ofList] at hb
  obtain ⟨c, hc, hmem⟩ := List.mem_flatMap.mp (List.mem_of_getElem? hb)
  rw [isControlByte_of_mem hmem, ht c hc] at hcontrol
  cases hcontrol

theorem clearStep_plain (ht : ∀ c ∈ t, isControl c = false) {outer : Bool} {i : Nat}
    (h : outer = false ∨ 0 < d.matchStart (String.ofList t) i) :
    d.clearStep cr outer (String.ofList t) i = d.step cr (String.ofList t) i := by
  have hafter : afterControl outer (String.ofList t) (d.matchStart (String.ofList t) i) = false := by
    rw [afterControl]
    split
    · rename_i hzero
      exact h.resolve_right (by omega)
    · exact byteBefore_control ht _
  rw [clearStep, hafter, Bool.false_and, if_neg Bool.false_ne_true]

theorem scanClear_plain (ht : ∀ c ∈ t, isControl c = false) :
    d.scanClear cr false (String.ofList t) = d.scan cr (String.ofList t) := by
  rw [scanClear, scan_eq]
  apply scanLoop_congr
  intro i _ _
  exact d.clearStep_plain cr ht (.inl rfl)

/-- The letters of an escape do to the text behind them what the control character does in
`scanClear`. -/
theorem scan_glue (hd : d ≠ email) (ht : ∀ c ∈ t, isControl c = false) {x : List Char} (hx : Glue x) :
    d.scan cr (String.ofList (x ++ t)) = d.scanClear cr true (String.ofList t) := by
  have hstart : ∀ i, d.matchStart (String.ofList t) i = i := by
    intro i
    cases d with
    | email => exact absurd rfl hd
    | creditCard | iban | phone | ssn => rfl
  have hfirst : d.clearStep cr true (String.ofList t) 0 = (none, 0 + 1) := by
    rw [clearStep, hstart]
    rfl
  rw [scan_glued cr d hd hx, scanClear, scanLoop_skip hfirst]
  apply scanLoop_congr
  intro i hi _
  exact (d.clearStep_plain cr ht (.inr (by rw [hstart]; exact hi))).symm

end Plain

end Detector

namespace Email
variable {x t : List Char} {m : String}

/-- The letters and digits `x` and the text behind them spell an address that begins with
some of `x`. -/
def Spells (x t : List Char) (m : String) : Prop :=
  ∃ p, p < 64 ∧ localStart (utf8 (String.ofList t)) 0 p = 0 ∧
    FindsAt (String.ofList (x ++ t)) ((encode x).length + p) m

/-- Past the first 64 bytes, or with a local part that starts inside the text, nothing before
the text matters. -/
theorem clearStep_inside (cr : Crates) (ht : ∀ c ∈ t, isControl c = false) {p : Nat}
    (hp : 64 ≤ p ∨ 0 < localStart (utf8 (String.ofList t)) (p - 64) p) :
    Detector.email.clearStep cr true (String.ofList t) p = step (String.ofList t) p := by
  by_cases hpos : 0 < localStart (utf8 (String.ofList t)) (p - 64) p
  · exact Detector.email.clearStep_plain cr ht (.inr hpos)
  · have hlong := hp.resolve_right hpos
    have hstart : Detector.email.matchStart (String.ofList t) p = 0 := Nat.eq_zero_of_not_pos hpos
    have hfar : ¬ p < 0 + 64 := by omega
    rw [Detector.clearStep, hstart, decide_eq_false hfar, Bool.and_false,
      if_neg Bool.false_ne_true]
    rfl

theorem clearStep_opening (cr : Crates) {p : Nat}
    (hp : p < 64 ∧ localStart (utf8 (String.ofList t)) 0 p = 0) :
    Detector.email.clearStep cr true (String.ofList t) p = (none, p + 1) := by
  have hzero : p - 64 = 0 := by omega
  have hstart : Detector.email.matchStart (String.ofList t) p = 0 := by
    rw [Detector.matchStart, hzero]
    exact hp.2
  have hnear : p < 0 + 64 := by omega
  rw [Detector.clearStep, hstart, decide_eq_true hnear]
  rfl

theorem findsAt_glue {p : Nat} (hp : p < (utf8 (String.ofList t)).length)
    (hinside : 64 ≤ p ∨ 0 < localStart (utf8 (String.ofList t)) (p - 64) p) :
    FindsAt (String.ofList (x ++ t)) ((encode x).length + p) m ↔
      (step (String.ofList t) p).1 = some m := by
  have hstep := (step_framed (Detector.framed_back x t) hp (.inr hinside.symm)).1
  rw [← step_eq_some, hstep]

theorem not_findsAt_glue (hx : Glue x) {q : Nat} (hq : q < (encode x).length) :
    ¬ FindsAt (String.ofList (x ++ t)) q m := by
  intro h
  obtain ⟨b, hb, hat⟩ := byteAt_iff.mp h.1
  rw [utf8_ofList, encode_append, List.getElem?_append_left hq] at hb
  have hword := hx.word b (List.mem_of_getElem? hb)
  rw [eq_of_beq hat] at hword
  cases hword

theorem mem_scan_glue (cr : Crates) (ht : ∀ c ∈ t, isControl c = false) (hx : Glue x) :
    m ∈ scan (String.ofList (x ++ t)) ↔
      m ∈ Detector.email.scanClear cr true (String.ofList t) ∨ Spells x t m := by
  have hnext : ∀ k, (Detector.email.clearStep cr true (String.ofList t) k).2 = k + 1 := by
    intro k
    rw [Detector.clearStep]
    split <;> rfl
  rw [Detector.scanClear, mem_scanLoop_iff hnext]
  constructor
  · intro h
    obtain ⟨q, hq⟩ := mem_scan.mp h
    by_cases hglue : q < (encode x).length
    · exact (not_findsAt_glue hx hglue hq).elim
    · obtain ⟨p, rfl⟩ := Nat.exists_eq_add_of_le (Nat.le_of_not_lt hglue)
      have hp : p < (utf8 (String.ofList t)).length := by
        have hlt := lt_of_byteAt hq.1
        rw [utf8_ofList, encode_append, List.length_append] at hlt
        rw [utf8_ofList]
        omega
      rcases inside_or_opening (String.ofList t) p with hinside | hopening
      · refine .inl ⟨p, Nat.zero_le p, hp, ?_⟩
        rw [clearStep_inside cr ht hinside]
        exact (findsAt_glue hp hinside).mp hq
      · exact .inr ⟨p, hopening.1, hopening.2, hq⟩
  · intro h
    rcases h with ⟨p, _, hp, hm⟩ | ⟨p, _, _, hfinds⟩
    · rcases inside_or_opening (String.ofList t) p with hinside | hopening
      · rw [clearStep_inside cr ht hinside] at hm
        exact mem_scan.mpr ⟨_, (findsAt_glue hp hinside).mpr hm⟩
      · rw [clearStep_opening cr hopening] at hm
        cases hm
    · exact mem_scan.mpr ⟨_, hfinds⟩

theorem neutral_at_delimiter {u : List Char} {c : Char} {w : List Char}
    (hc : Detector.isDelimiter c = true) {q : UInt8 → Bool}
    (hq : byteAt q (utf8 (String.ofList (u ++ c :: w))) (encode u).length = true) :
    ∃ b, Detector.isNeutral b = true ∧ q b = true := by
  obtain ⟨b, hb, hqb⟩ := byteAt_iff.mp hq
  have hne := List.length_pos_iff.mpr (String.utf8EncodeChar_ne_nil (c := c))
  have hinside : (encode u).length < (encode (u ++ [c])).length := by
    rw [encode_append, List.length_append, encode_cons, List.length_append]
    omega
  have hmem := Detector.mem_of_between (Nat.le_refl _) hinside hb
  exact ⟨b, Detector.isNeutral_of_isDelimiter hc b hmem, hqb⟩

/-- An address that begins the text ends before the first delimiter. -/
theorem lt_of_spelled {u : List Char} {c : Char} {w : List Char}
    (hc : Detector.isDelimiter c = true) {p : Nat}
    (hstart : localStart (utf8 (String.ofList (u ++ c :: w))) 0 p = 0)
    (hfinds : FindsAt (String.ofList (x ++ (u ++ c :: w))) ((encode x).length + p) m) :
    p < (encode u).length := by
  rcases Nat.lt_trichotomy p (encode u).length with hlt | heq | hlt
  · exact hlt
  · have hat := hfinds.1
    rw [heq, ← List.length_append, ← encode_append, ← List.append_assoc] at hat
    obtain ⟨b, hneutral, hsign⟩ := neutral_at_delimiter hc hat
    exact absurd (eq_of_beq hsign) (Detector.isNeutral_iff.mp hneutral).2.2.1
  · have hlocal := localStart_eq_zero.mp hstart _ hlt
    obtain ⟨b, hneutral, hlocal⟩ := neutral_at_delimiter hc hlocal
    rw [(Detector.isNeutral_iff.mp hneutral).2.1] at hlocal
    cases hlocal

theorem spells_split {u : List Char} {c : Char} {w : List Char}
    (hc : Detector.isDelimiter c = true) : Spells x (u ++ c :: w) m ↔ Spells x u m := by
  have hneutral := Detector.isNeutral_of_isDelimiter hc
  have hclosed := fun b hb => Detector.closes_of_isNeutral (hneutral b hb)
  have hsame : ∀ p, p < 64 → p < (encode u).length →
      localStart (utf8 (String.ofList (u ++ c :: w))) 0 p =
          localStart (utf8 (String.ofList u)) 0 p ∧
        (FindsAt (String.ofList (x ++ (u ++ c :: w))) ((encode x).length + p) m ↔
          FindsAt (String.ofList (x ++ u)) ((encode x).length + p) m) := by
    intro p hnear hp
    have hzero : 0 + p - 64 = 0 ∧ p - 64 = 0 := by omega
    have hinner : p ≤ (utf8 (String.ofList u)).length := by
      rw [utf8_ofList]
      exact Nat.le_of_lt hp
    have houter : (encode x).length + p < (utf8 (String.ofList (x ++ u))).length := by
      rw [utf8_ofList, encode_append, List.length_append]
      omega
    have hstart := localStart_framed (i := p) (Detector.framed_front (u := u) (w := w) hclosed)
      hinner (.inl rfl)
    have hstep := (step_framed (Detector.framed_front (u := x ++ u) (w := w) hclosed) houter
      (.inl rfl)).1
    rw [encode_nil, List.length_nil, hzero.1, hzero.2, Nat.zero_add, Nat.zero_add] at hstart
    rw [encode_nil, List.length_nil, Nat.zero_add, List.append_assoc] at hstep
    exact ⟨hstart, by rw [← step_eq_some, hstep, step_eq_some]⟩
  constructor
  · intro h
    obtain ⟨p, hnear, hstart, hfinds⟩ := h
    have hp := lt_of_spelled hc hstart hfinds
    rw [(hsame p hnear hp).1] at hstart
    exact ⟨p, hnear, hstart, (hsame p hnear hp).2.mp hfinds⟩
  · intro h
    obtain ⟨p, hnear, hstart, hfinds⟩ := h
    have hp : p < (encode u).length := by
      have hlt := lt_of_byteAt hfinds.1
      rw [utf8_ofList, encode_append, List.length_append] at hlt
      omega
    rw [← (hsame p hnear hp).1] at hstart
    exact ⟨p, hnear, hstart, (hsame p hnear hp).2.mpr hfinds⟩

end Email

namespace Detector
variable (cr : Crates) (d : Detector)

theorem scan_behind_escape {x t : List Char} {m : String} (ht : ∀ c ∈ t, isControl c = false)
    (hx : Glue x) : m ∈ d.scan cr (String.ofList (x ++ t)) ↔
      m ∈ d.scanClear cr true (String.ofList t) ∨ d = email ∧ Email.Spells x t m := by
  by_cases hd : d = email
  · subst hd
    rw [eq_self_iff_true, true_and]
    exact Email.mem_scan_glue cr ht hx
  · rw [d.scan_glue cr hd ht hx]
    simp [hd]

/-- Some address in the rendering of `l` begins with letters of an escape and is `m`. -/
def Spelled (l : List Char) (m : String) : Prop :=
  d = email ∧ ∃ front c rest, l = front ++ c :: rest ∧ isControl c = true ∧
    Email.Spells (escapeTail c.toNat) rest m

theorem exists_plain_front (l : List Char) : ∃ u, (∀ c ∈ u, isEscaped c = false) ∧
    (l = u ∨ ∃ e rest, l = u ++ e :: rest ∧ isEscaped e = true) := by
  induction l with
  | nil => exact ⟨[], by simp, .inl rfl⟩
  | cons c l ih =>
    cases hc : isEscaped c with
    | true => exact ⟨[], by simp, .inr ⟨c, l, rfl, hc⟩⟩
    | false =>
      obtain ⟨u, hu, hsplit⟩ := ih
      refine ⟨c :: u, ?_, ?_⟩
      · intro d hd
        rcases List.mem_cons.mp hd with rfl | hd
        · exact hc
        · exact hu d hd
      · rcases hsplit with hplain | ⟨e, rest, hlist, he⟩
        · exact .inl (by rw [hplain])
        · exact .inr ⟨e, rest, by rw [hlist]; rfl, he⟩

theorem isEscaped_of_control {c : Char} (h : isControl c = true) : isEscaped c = true := by
  rw [isEscaped, h]
  rfl

theorem not_spelled_plain {u : List Char} {m : String} (hu : ∀ c ∈ u, isEscaped c = false) :
    ¬ d.Spelled u m := by
  intro h
  obtain ⟨_, front, c, rest, hlist, hc, _⟩ := h
  have hplain := hu c (by rw [hlist]; exact List.mem_append_right _ List.mem_cons_self)
  rw [isEscaped_of_control hc] at hplain
  cases hplain

theorem spelled_split {u : List Char} {e : Char} {rest : List Char} {m : String}
    (hu : ∀ c ∈ u, isEscaped c = false) : d.Spelled (u ++ e :: rest) m ↔
      (d = email ∧ isControl e = true ∧ Email.Spells (escapeTail e.toNat) rest m) ∨
        d.Spelled rest m := by
  constructor
  · intro h
    obtain ⟨hd, front, c, tail, hlist, hc, hspells⟩ := h
    rcases List.append_eq_append_iff.mp hlist with ⟨mid, hfront, hmid⟩ | ⟨mid, hplain, hmid⟩
    · cases mid with
      | nil =>
        obtain ⟨rfl, rfl⟩ := List.cons_eq_cons.mp hmid
        exact .inl ⟨hd, hc, hspells⟩
      | cons e' mid =>
        obtain ⟨_, hrest⟩ := List.cons_eq_cons.mp hmid
        exact .inr ⟨hd, mid, c, tail, hrest, hc, hspells⟩
    · cases mid with
      | nil =>
        obtain ⟨rfl, rfl⟩ := List.cons_eq_cons.mp hmid
        exact .inl ⟨hd, hc, hspells⟩
      | cons c' mid =>
        obtain ⟨rfl, _⟩ := List.cons_eq_cons.mp hmid
        have hmem := hu c (by rw [hplain]; exact List.mem_append_right _ List.mem_cons_self)
        rw [isEscaped_of_control hc] at hmem
        cases hmem
  · intro h
    rcases h with ⟨hd, hc, hspells⟩ | ⟨hd, front, c, tail, hrest, hc, hspells⟩
    · exact ⟨hd, u, e, rest, rfl, hc, hspells⟩
    · exact ⟨hd, u ++ e :: front, c, tail, by rw [hrest, List.append_assoc]; rfl, hc, hspells⟩

theorem quoted_of_isEscaped {c : Char} (h : isEscaped c = true) (hc : isControl c = false) :
    c.toNat = 34 ∨ c.toNat = 92 := by
  simpa [isEscaped, hc] using h

theorem escapeAll_clear (l : List Char) : ∀ c ∈ escapeAll l, isControl c = false := by
  intro c hmem
  obtain ⟨e, _, hc⟩ := List.mem_flatMap.mp hmem
  cases hcontrol : isControl e with
  | true =>
    have htail : ∀ n, n < 32 → (escapeTail n).all (fun c => !isControl c) = true := by decide
    rw [jsonEscape_control hcontrol, List.mem_cons] at hc
    rcases hc with rfl | hc
    · rfl
    · have hclear := List.all_eq_true.mp (htail e.toNat (of_decide_eq_true hcontrol)) c hc
      simpa using hclear
  | false =>
    cases hescaped : isEscaped e with
    | true =>
      rw [jsonEscape_quoted (quoted_of_isEscaped hescaped hcontrol), List.mem_cons,
        List.mem_singleton] at hc
      rcases hc with rfl | rfl
      · rfl
      · exact hcontrol
    | false =>
      rw [jsonEscape_plain hescaped, List.mem_singleton] at hc
      rw [hc]
      exact hcontrol

/-- The rendering of an escaped character and what follows it begins with a backslash. -/
theorem escapeAll_split {u : List Char} {e : Char} {rest : List Char}
    (hu : ∀ c ∈ u, isEscaped c = false) (he : isEscaped e = true) :
    escapeAll (u ++ e :: rest) = u ++ '\\' ::
      ((if isControl e then escapeTail e.toNat else [e]) ++ escapeAll rest) := by
  rw [escapeAll_append, escapeAll_plain hu, escapeAll_cons]
  cases hcontrol : isControl e with
  | true =>
    rw [jsonEscape_control hcontrol]
    rfl
  | false =>
    rw [jsonEscape_quoted (quoted_of_isEscaped he hcontrol)]
    rfl

theorem isDelimiter_backslash : isDelimiter '\\' = true := by decide

theorem spells_escaped {x l : List Char} {m : String} :
    Email.Spells x (escapeAll l) m ↔ Email.Spells x l m := by
  obtain ⟨u, hu, hsplit⟩ := exists_plain_front l
  rcases hsplit with rfl | ⟨e, rest, rfl, he⟩
  · rw [escapeAll_plain hu]
  · rw [escapeAll_split hu he, Email.spells_split isDelimiter_backslash,
      Email.spells_split (isDelimiter_of_isEscaped he)]

/-- What is found in the rendering of a text is what is found in the text not directly after a
control character, and what the escapes spell. -/
theorem mem_scanClear_escaped (outer : Bool) (l : List Char) (m : String) :
    m ∈ d.scanClear cr outer (String.ofList (escapeAll l)) ↔
      m ∈ d.scanClear cr outer (String.ofList l) ∨ d.Spelled l m := by
  induction hsize : l.length using Nat.strongRecOn generalizing l outer with
  | ind size ih =>
    obtain ⟨u, hu, hsplit⟩ := exists_plain_front l
    rcases hsplit with rfl | ⟨e, rest, rfl, he⟩
    · have hnone := d.not_spelled_plain (m := m) hu
      rw [escapeAll_plain hu]
      simp only [hnone, or_false]
    · have hlt : rest.length < size := by
        rw [← hsize, List.length_append, List.length_cons]
        omega
      have hdelim := isDelimiter_of_isEscaped he
      have hrest := fun after => ih rest.length hlt after rest rfl
      rw [escapeAll_split hu he, scanClear_split cr d outer u _ isDelimiter_backslash,
        scanClear_split cr d outer u rest hdelim, d.spelled_split hu, List.mem_append,
        List.mem_append, or_assoc]
      apply or_congr_right
      have hback : isControl '\\' = false := rfl
      rw [hback]
      cases hcontrol : isControl e with
      | true =>
        have hglue : Glue (escapeTail e.toNat) := glue_escapeTail (of_decide_eq_true hcontrol)
        have hclear : ∀ c ∈ escapeTail e.toNat ++ escapeAll rest, isControl c = false := by
          intro c hc
          apply escapeAll_clear (e :: rest)
          rw [escapeAll_cons, jsonEscape_control hcontrol]
          exact List.mem_cons_of_mem _ hc
        rw [if_pos rfl, d.scanClear_plain cr hclear,
          d.scan_behind_escape cr (escapeAll_clear rest) hglue, hrest, spells_escaped, or_assoc]
        simp only [true_and]
        exact or_congr_right (or_comm)
      | false =>
        have hfront : [e] ++ escapeAll rest = [] ++ e :: escapeAll rest := rfl
        have hnil := d.scanClear_nil cr false
        have hempty : String.ofList [] = "" := rfl
        rw [if_neg Bool.false_ne_true, hfront, scanClear_split cr d false [] _ hdelim, hempty, hnil,
          List.nil_append, hcontrol, hrest]
        simp

theorem mem_scan_json (s m : String) :
    m ∈ d.scan cr (toString (Json.string s)) ↔
      m ∈ d.scanClear cr false s ∨ d.Spelled s.toList m := by
  have hquote : isDelimiter '"' = true := by decide
  have htext : toString (Json.string s) =
      String.ofList ([] ++ '"' :: (escapeAll s.toList ++ '"' :: [])) := by
    rw [List.nil_append, ← toList_json, String.ofList_toList]
  have hempty : d.scan cr (String.ofList []) = [] := d.scan_nil cr
  rw [htext, scan_ofList_delimited cr d _ _ hquote, scan_ofList_delimited cr d _ _ hquote, hempty,
    List.nil_append, List.append_nil, ← d.scanClear_plain cr (escapeAll_clear s.toList),
    mem_scanClear_escaped, String.ofList_toList]

/-- The text scanned for a JSON string has every match of the string if and only if each is also
found where no control character stands directly before it, or is spelled by an escape. -/
theorem json_string_found_iff (s : String) : ∃ r, cellToString (.json (.string s)) = some r ∧
    ((∀ m ∈ d.scan cr s, m ∈ d.scan cr r) ↔
      ∀ m ∈ d.scan cr s, m ∈ d.scanClear cr false s ∨ d.Spelled s.toList m) := by
  refine ⟨toString (Json.string s), rfl, ?_⟩
  constructor
  · intro h m hm
    exact (d.mem_scan_json cr s m).mp (h m hm)
  · intro h m hm
    exact (d.mem_scan_json cr s m).mpr (h m hm)

/-- Where the detector has nothing to look at directly after a control character, the text
scanned for a JSON string has every match of the string. -/
theorem mem_scan_json_of_clear {s m : String}
    (h : ∀ i, afterControl false s (d.matchStart s i) = true → d.step cr s i = (none, i + 1))
    (hm : m ∈ d.scan cr s) : m ∈ d.scan cr (toString (Json.string s)) := by
  have hsame : d.scanClear cr false s = d.scan cr s := by
    rw [scanClear, scan_eq]
    apply scanLoop_congr
    intro i _ _
    rw [clearStep]
    split
    · rename_i hblocked
      exact (h i (Bool.and_eq_true_iff.mp hblocked).1).symm
    · rfl
  apply (d.mem_scan_json cr s m).mpr
  rw [hsame]
  exact .inl hm

/-- A number behind a line break is not found in the JSON text. -/
theorem json_number_lost :
    ¬ ∀ (d : Detector) (s m r : String), m ∈ d.scan Crates.sample s →
      cellToString (.json (.string s)) = some r → m ∈ d.scan Crates.sample r := by
  intro h
  have hm := h ssn "ssn:\n078-05-1120" "078-05-1120" _ (by decide) rfl
  revert hm
  decide

end Detector

end PgSense
