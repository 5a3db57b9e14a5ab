import Mathlib.Data.Nat.Digits.Lemmas
import PgSense.Library.Selection
import PgSense.Rules.Walks

/-! Social security numbers: the grammar of the validator, what its number parser lets through
besides it, and where the detector and the validator differ in a text. -/

namespace PgSense
open Library
set_option autoImplicit false

namespace Ssn

/-- The number a string of digits stands for. -/
def decimal (digits : List UInt8) : Nat :=
  Nat.ofDigits 10 (digits.reverse.map fun b => b.toNat - 48)

/-- What is left of a number without its `+`. -/
def unsigned (bytes : List UInt8) : List UInt8 :=
  if bytes.head? = some 43 then bytes.drop 1 else bytes

/-- Three, two and four bytes with the same separator between them. -/
structure Parts (bytes area group serial : List UInt8) (sep : UInt8) : Prop where
  bytes_eq : bytes = area ++ sep :: (group ++ sep :: serial)
  area : area.length = 3
  group : group.length = 2
  serial : serial.length = 4
  sep : sep = 45 ∨ sep = 32 ∨ sep = 46

def Digits (area group serial : List UInt8) : Prop :=
  ∀ b ∈ area ++ (group ++ serial), isAsciiDigit b = true

structure InRange (area group serial : List UInt8) : Prop where
  area_ne_zero : decimal area ≠ 0
  area_ne : decimal area ≠ 666
  area_lt : decimal area < 900
  group_ne_zero : decimal group ≠ 0
  serial_ne_zero : decimal serial ≠ 0

/-- The grammar of a social security number. -/
def IsSsn (s : String) : Prop :=
  ∃ area group serial sep, Parts (utf8 s) area group serial sep ∧ Digits area group serial ∧
    InRange area group serial

/-- A number of the same size with a `+` for the first digit of one of its parts, or more. -/
def Signed (s : String) : Prop :=
  ∃ area group serial sep, Parts (utf8 s) area group serial sep ∧
    (area.head? = some 43 ∨ group.head? = some 43 ∨ serial.head? = some 43) ∧
    Digits (unsigned area) (unsigned group) (unsigned serial) ∧
    InRange (unsigned area) (unsigned group) (unsigned serial)

section Numbers
variable {xs : List UInt8}

theorem foldl_eq_decimal (xs : List UInt8) :
    xs.foldl (fun n b => n * 10 + (b.toNat - 48)) 0 = decimal xs := by
  rw [decimal, Nat.ofDigits_eq_foldr, List.foldr_map, List.foldr_reverse]
  apply List.foldl_ext
  intro n b _
  simp only [Nat.cast_id]
  omega

theorem decimal_lt (h : ∀ b ∈ xs, isAsciiDigit b = true) : decimal xs < 10 ^ xs.length := by
  have hlt := Nat.ofDigits_lt_base_pow_length (b := 10)
    (l := xs.reverse.map fun b => b.toNat - 48) (by omega) ?_
  · rwa [List.length_map, List.length_reverse] at hlt
  · intro d hd
    obtain ⟨b, hb, rfl⟩ := List.mem_map.mp hd
    have hdigit := (toNat_digit (h b (List.mem_reverse.mp hb))).2
    omega

theorem length_unsigned (xs : List UInt8) :
    xs.length - 1 ≤ (unsigned xs).length ∧ (unsigned xs).length ≤ xs.length := by
  rw [unsigned]
  split
  · rw [List.length_drop]
    omega
  · omega

theorem unsigned_digits (h : ∀ b ∈ xs, isAsciiDigit b = true) : unsigned xs = xs := by
  rw [unsigned, if_neg]
  intro hhead
  have hplus := h 43 (List.mem_of_mem_head? hhead)
  cases hplus

/-- A part of two to four bytes parses to the number of its digits. -/
theorem parseU16_eq_some (hlow : 2 ≤ xs.length) (hhigh : xs.length ≤ 4) (n : Nat) :
    Validators.parseU16 xs = some n ↔
      (∀ b ∈ unsigned xs, isAsciiDigit b = true) ∧ n = decimal (unsigned xs) := by
  have hdef : Validators.parseU16 xs =
      if (unsigned xs).isEmpty || !(unsigned xs).all isAsciiDigit then none
      else if decimal (unsigned xs) ≤ 65535 then some (decimal (unsigned xs)) else none := by
    rw [← foldl_eq_decimal, Validators.parseU16]
    simp only [beq_iff_eq]
    rfl
  obtain ⟨hmin, hmax⟩ := length_unsigned xs
  have hne : (unsigned xs).isEmpty = false := by
    rw [List.isEmpty_eq_false_iff, ← List.length_pos_iff]
    omega
  rw [hdef, hne, Bool.false_or, ← List.all_eq_true]
  cases hall : (unsigned xs).all isAsciiDigit with
  | false => simp
  | true =>
    have hlt := decimal_lt (List.all_eq_true.mp hall)
    have hpow : 10 ^ (unsigned xs).length ≤ 10 ^ 4 :=
      Nat.pow_le_pow_right (by omega) (by omega)
    have hfits : decimal (unsigned xs) ≤ 65535 := by omega
    simp only [Bool.not_true, Bool.false_eq_true, if_false, if_pos hfits, Option.some.injEq,
      true_and]
    exact eq_comm

end Numbers

section Grammar
variable {bytes area group serial : List UInt8} {sep : UInt8}

theorem Parts.cut (h : Parts bytes area group serial sep) :
    bytes.length = 11 ∧ bytes.take 3 = area ∧ (bytes.drop 4).take 2 = group ∧
      (bytes.drop 7).take 4 = serial ∧ bytes.getD 3 0 = sep ∧ bytes.getD 6 0 = sep := by
  obtain ⟨rfl, harea, hgroup, hserial, _⟩ := h
  match area, harea, group, hgroup, serial, hserial with
  | [_, _, _], _, [_, _], _, [_, _, _, _], _ => exact ⟨rfl, rfl, rfl, rfl, rfl, rfl⟩

theorem parts_of_length (hlen : bytes.length = 11)
    (hsep : bytes.getD 3 0 = 45 ∨ bytes.getD 3 0 = 32 ∨ bytes.getD 3 0 = 46)
    (hsame : bytes.getD 6 0 = bytes.getD 3 0) :
    Parts bytes (bytes.take 3) ((bytes.drop 4).take 2) ((bytes.drop 7).take 4)
      (bytes.getD 3 0) := by
  match bytes, hlen with
  | [a, b, c, d, e, f, g, h, i, j, k], _ =>
    have hg : g = d := hsame
    exact ⟨by rw [hg]; rfl, rfl, rfl, rfl, hsep⟩

/-- The bytes tested by the detector are those of the parts. -/
theorem Parts.layoutAt_iff (h : Parts bytes area group serial sep) :
    layoutAt bytes 0 = true ↔ Digits area group serial := by
  obtain ⟨rfl, harea, hgroup, hserial, hsep⟩ := h
  match area, harea, group, hgroup, serial, hserial with
  | [a, b, c], _, [d, e], _, [f, g, i, j], _ =>
    simp [layoutAt, Digits, byteAt, hsep]

theorem ssn_eq_true (s : String) : Validators.ssn s = true ↔
    (utf8 s).length = 11 ∧
      ((utf8 s).getD 3 0 = 45 ∨ (utf8 s).getD 3 0 = 32 ∨ (utf8 s).getD 3 0 = 46) ∧
      (utf8 s).getD 6 0 = (utf8 s).getD 3 0 ∧
      ∃ area group serial, Validators.parseU16 ((utf8 s).take 3) = some area ∧
        Validators.parseU16 (((utf8 s).drop 4).take 2) = some group ∧
        Validators.parseU16 (((utf8 s).drop 7).take 4) = some serial ∧
        area ≠ 0 ∧ area ≠ 666 ∧ area < 900 ∧ group ≠ 0 ∧ serial ≠ 0 := by
  simp only [Validators.ssn]
  generalize Validators.parseU16 ((utf8 s).take 3) = area
  generalize Validators.parseU16 (((utf8 s).drop 4).take 2) = group
  generalize Validators.parseU16 (((utf8 s).drop 7).take 4) = serial
  cases area <;> cases group <;> cases serial <;> simp [and_assoc]

/-- The validator asks for digits with an optional sign in each part. -/
theorem ssn_iff (s : String) : Validators.ssn s = true ↔
    ∃ area group serial sep, Parts (utf8 s) area group serial sep ∧
      Digits (unsigned area) (unsigned group) (unsigned serial) ∧
      InRange (unsigned area) (unsigned group) (unsigned serial) := by
  have hparts : ∀ {area group serial sep}, Parts (utf8 s) area group serial sep →
      ∀ a g r, (Validators.parseU16 area = some a ∧ Validators.parseU16 group = some g ∧
        Validators.parseU16 serial = some r ↔
        Digits (unsigned area) (unsigned group) (unsigned serial) ∧ a = decimal (unsigned area) ∧
          g = decimal (unsigned group) ∧ r = decimal (unsigned serial)) := by
    intro area group serial sep h a g r
    have harea := h.area
    have hgroup := h.group
    have hserial := h.serial
    rw [parseU16_eq_some (by omega) (by omega), parseU16_eq_some (by omega) (by omega),
      parseU16_eq_some (by omega) (by omega), Digits, List.forall_mem_append,
      List.forall_mem_append]
    tauto
  rw [ssn_eq_true]
  constructor
  · rintro ⟨hlen, hsep, hsame, a, g, r, harea, hgroup, hserial, hrange⟩
    have h := parts_of_length hlen hsep hsame
    obtain ⟨hdigits, rfl, rfl, rfl⟩ := (hparts h a g r).mp ⟨harea, hgroup, hserial⟩
    obtain ⟨hzero, hne, hlt, hgroup, hserial⟩ := hrange
    exact ⟨_, _, _, _, h, hdigits, hzero, hne, hlt, hgroup, hserial⟩
  · rintro ⟨area, group, serial, sep, h, hdigits, hrange⟩
    obtain ⟨hlen, rfl, rfl, rfl, rfl, hsame⟩ := h.cut
    obtain ⟨harea, hgroup, hserial⟩ := (hparts h _ _ _).mpr ⟨hdigits, rfl, rfl, rfl⟩
    exact ⟨hlen, h.sep, hsame, _, _, _, harea, hgroup, hserial, hrange.area_ne_zero,
      hrange.area_ne, hrange.area_lt, hrange.group_ne_zero, hrange.serial_ne_zero⟩

/-- Every number of the grammar is accepted. -/
theorem ssn_of_isSsn {s : String} (h : IsSsn s) : Validators.ssn s = true := by
  obtain ⟨area, group, serial, sep, hparts, hdigits, hrange⟩ := h
  have hall := hdigits
  rw [Digits, List.forall_mem_append, List.forall_mem_append] at hall
  obtain ⟨harea, hgroup, hserial⟩ := hall
  refine (ssn_iff s).mpr ⟨area, group, serial, sep, hparts, ?_⟩
  rw [unsigned_digits harea, unsigned_digits hgroup, unsigned_digits hserial]
  exact ⟨hdigits, hrange⟩

theorem ssn_of_signed {s : String} (h : Signed s) : Validators.ssn s = true := by
  obtain ⟨area, group, serial, sep, hparts, _, hdigits, hrange⟩ := h
  exact (ssn_iff s).mpr ⟨area, group, serial, sep, hparts, hdigits, hrange⟩

theorem layoutAt_of_isSsn {s : String} (h : IsSsn s) : layoutAt (utf8 s) 0 = true := by
  obtain ⟨area, group, serial, sep, hparts, hdigits, _⟩ := h
  exact hparts.layoutAt_iff.mpr hdigits

/-- A sign is no digit, so a signed number does not have the layout. -/
theorem layoutAt_of_signed {s : String} (h : Signed s) : layoutAt (utf8 s) 0 = false := by
  obtain ⟨area, group, serial, sep, hparts, hsign, _⟩ := h
  rw [← Bool.not_eq_true, hparts.layoutAt_iff, Digits, List.forall_mem_append,
    List.forall_mem_append]
  rintro ⟨harea, hgroup, hserial⟩
  have hplus : isAsciiDigit 43 = true := by
    rcases hsign with hsign | hsign | hsign
    · exact harea _ (List.mem_of_mem_head? hsign)
    · exact hgroup _ (List.mem_of_mem_head? hsign)
    · exact hserial _ (List.mem_of_mem_head? hsign)
  cases hplus

theorem isSsn_or_signed {s : String} (h : Validators.ssn s = true) : IsSsn s ∨ Signed s := by
  obtain ⟨area, group, serial, sep, hparts, hdigits, hrange⟩ := (ssn_iff s).mp h
  by_cases hsign : area.head? = some 43 ∨ group.head? = some 43 ∨ serial.head? = some 43
  · exact .inr ⟨area, group, serial, sep, hparts, hsign, hdigits, hrange⟩
  · rw [not_or, not_or] at hsign
    obtain ⟨harea, hgroup, hserial⟩ := hsign
    rw [unsigned, unsigned, unsigned, if_neg harea, if_neg hgroup, if_neg hserial]
      at hdigits hrange
    exact .inl ⟨area, group, serial, sep, hparts, hdigits, hrange⟩

theorem validator_exact_iff (s : String) :
    (Validators.ssn s = true ↔ IsSsn s) ↔ ¬ Signed s := by
  constructor
  · intro h hsigned
    have hlayout := layoutAt_of_isSsn (h.mp (ssn_of_signed hsigned))
    rw [layoutAt_of_signed hsigned] at hlayout
    cases hlayout
  · intro h
    exact ⟨fun hs => (isSsn_or_signed hs).resolve_right h, ssn_of_isSsn⟩

end Grammar

section Accepted
variable (value : String) (i : Nat)

/-- The eleven bytes at `i`, when the validator accepts them and no letter, digit or `_` is
next to them. -/
def acceptedAt : Option String :=
  if byteBefore isWordByte (utf8 value) i || byteAt isWordByte (utf8 value) (i + 11) then none
  else (slice? value i (i + 11)).filter Validators.ssn

/-- The accepted parts of a text, by position. -/
def accepted : List String := (List.range ((utf8 value).length - 10)).filterMap (acceptedAt value)

/-- A signed number stands at `i`, with no letter, digit or `_` next to it. -/
def SignedAt : Prop :=
  byteBefore isWordByte (utf8 value) i = false ∧
    byteAt isWordByte (utf8 value) (i + 11) = false ∧
    ∃ m, slice? value i (i + 11) = some m ∧ Signed m

variable {value i}

theorem length_of_slice? {m : String} (h : slice? value i (i + 11) = some m) :
    (utf8 m).length = 11 := by
  obtain ⟨_, _, _, _, hlen⟩ := slice?_eq_some.mp h
  omega

theorem layoutAt_slice? {m : String} (h : slice? value i (i + 11) = some m) :
    layoutAt (utf8 value) i = layoutAt (utf8 m) 0 := by
  have hlen := length_of_slice? h
  obtain ⟨pre, post, hvalue, rfl, _⟩ := bytes_of_slice? h
  apply layoutAt_congr
  intro k hk
  rw [hvalue, List.getElem?_append_right (Nat.le_add_right _ _), Nat.add_sub_cancel_left,
    List.getElem?_append_left (by omega), Nat.zero_add]

/-- The detector's match at a position: what the validator accepts there and has the layout. -/
theorem step_eq_some {m : String} : (step value i).1 = some m ↔
    acceptedAt value i = some m ∧ layoutAt (utf8 m) 0 = true := by
  simp only [step, acceptedAt]
  split
  · simp
  · cases hslice : slice? value i (i + 11) with
    | none =>
      have hempty : slice value i (i + 11) = "" := by rw [slice, hslice, Option.getD_none]
      have hreject : Validators.ssn "" = false := by decide
      simp [hempty, hreject]
    | some t =>
      rw [slice_of_slice? hslice, layoutAt_slice? hslice, Option.filter_some]
      cases hlayout : layoutAt (utf8 t) 0 <;> cases hvalid : Validators.ssn t <;>
        grind

theorem acceptedAt_eq_some {m : String} : acceptedAt value i = some m ↔
    byteBefore isWordByte (utf8 value) i = false ∧
      byteAt isWordByte (utf8 value) (i + 11) = false ∧
      slice? value i (i + 11) = some m ∧ Validators.ssn m = true := by
  rw [acceptedAt]
  cases byteBefore isWordByte (utf8 value) i <;>
    cases byteAt isWordByte (utf8 value) (i + 11) <;>
    simp [Option.filter_eq_some_iff]

theorem step_eq_acceptedAt_iff : (step value i).1 = acceptedAt value i ↔ ¬ SignedAt value i := by
  constructor
  · rintro h ⟨hbefore, hafter, m, hslice, hsigned⟩
    have haccepted := acceptedAt_eq_some.mpr ⟨hbefore, hafter, hslice, ssn_of_signed hsigned⟩
    have hlayout := (step_eq_some.mp (h.trans haccepted)).2
    rw [layoutAt_of_signed hsigned] at hlayout
    cases hlayout
  · intro h
    apply Option.ext
    intro m
    rw [step_eq_some]
    refine ⟨fun hm => hm.1, fun hm => ⟨hm, ?_⟩⟩
    obtain ⟨hbefore, hafter, hslice, hvalid⟩ := acceptedAt_eq_some.mp hm
    have hssn := (isSsn_or_signed hvalid).resolve_right
      fun hsigned => h ⟨hbefore, hafter, m, hslice, hsigned⟩
    exact layoutAt_of_isSsn hssn

theorem lt_of_signedAt (h : SignedAt value i) : i < (utf8 value).length - 10 := by
  obtain ⟨_, _, m, hslice, _⟩ := h
  have hlen := congrArg List.length (utf8_slice? hslice)
  rw [length_of_slice? hslice, List.length_take, List.length_drop] at hlen
  omega

theorem scan_eq_accepted_iff (value : String) :
    scan value = accepted value ↔ ∀ i, ¬ SignedAt value i := by
  rw [scan_eq_filterMap, accepted,
    filterMap_eq_iff (g := acceptedAt value) fun i _ m hm => (step_eq_some.mp hm).1]
  constructor
  · intro h i hsigned
    have hmem := List.mem_range.mpr (lt_of_signedAt hsigned)
    exact step_eq_acceptedAt_iff.mp (h i hmem) hsigned
  · exact fun h i _ => step_eq_acceptedAt_iff.mpr (h i)

end Accepted

/-- The validator and the detector accept the numbers of the grammar where no part has a sign. -/
theorem validator_and_detector_agree_iff (s value : String) :
    ((Validators.ssn s = true ↔ IsSsn s) ↔ ¬ Signed s) ∧
      (scan value = accepted value ↔ ∀ i, ¬ SignedAt value i) :=
  ⟨validator_exact_iff s, scan_eq_accepted_iff value⟩

/-- A signed number is accepted by the validator and not found by the detector. -/
theorem signed_number_accepted : ¬ ∀ s value : String,
    (Validators.ssn s = true ↔ IsSsn s) ∧ scan value = accepted value := by
  intro h
  have hvalid : Validators.ssn "+12-34-5678" = true := by decide
  have hlayout := layoutAt_of_isSsn ((h "+12-34-5678" "").1.mp hvalid)
  have hplus : layoutAt (utf8 "+12-34-5678") 0 = false := by decide
  rw [hplus] at hlayout
  cases hlayout

end Ssn

end PgSense
