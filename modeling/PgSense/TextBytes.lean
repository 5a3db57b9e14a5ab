import PgSense.Text

/-! Byte offsets of a text: an offset next to an ASCII byte, or at an end, is a
character boundary, and a slice of a part of a text is the same slice of the part. -/

namespace PgSense
set_option autoImplicit false

def encode (cs : List Char) : List UInt8 := cs.flatMap String.utf8EncodeChar

theorem utf8_eq_encode (s : String) : utf8 s = encode s.toList := rfl

@[simp] theorem utf8_ofList (cs : List Char) : utf8 (String.ofList cs) = encode cs := by
  rw [utf8_eq_encode, String.toList_ofList]

@[simp] theorem encode_nil : encode [] = [] := rfl

@[simp] theorem encode_cons (c : Char) (cs : List Char) :
    encode (c :: cs) = String.utf8EncodeChar c ++ encode cs := by
  rw [encode, List.flatMap_cons]
  rfl

@[simp] theorem encode_append (xs ys : List Char) : encode (xs ++ ys) = encode xs ++ encode ys :=
  List.flatMap_append

theorem utf8_inj {s t : String} (h : utf8 s = utf8 t) : s = t := by
  apply String.toByteArray_inj.mp
  have hbytes : ∀ u : String, u.toByteArray = (utf8 u).toByteArray := by
    intro u
    have hlist : u.toByteArray = u.toList.utf8Encode := by
      rw [← String.toByteArray_ofList, String.ofList_toList]
    rw [hlist]
    rfl
  rw [hbytes, hbytes, h]

theorem length_encode_cons (c : Char) (cs : List Char) :
    (encode (c :: cs)).length = c.utf8Size + (encode cs).length := by
  simp

theorem length_le_encode (cs : List Char) : cs.length ≤ (encode cs).length := by
  induction cs with
  | nil => exact Nat.le_refl 0
  | cons c cs ih =>
    have hpos := c.utf8Size_pos
    rw [length_encode_cons, List.length_cons]
    omega

def isAsciiByte (b : UInt8) : Bool := b < 128

theorem isAsciiByte_iff (b : UInt8) : isAsciiByte b = true ↔ b.toNat < 128 := by
  simp [isAsciiByte, UInt8.lt_iff_toNat_lt]

/-- A class that is a range of bytes. -/
theorem byteRange_iff (low high b : UInt8) :
    (low ≤ b && b ≤ high) = true ↔ low.toNat ≤ b.toNat ∧ b.toNat ≤ high.toNat := by
  rw [Bool.and_eq_true, decide_eq_true_eq, decide_eq_true_eq, UInt8.le_iff_toNat_le,
    UInt8.le_iff_toNat_le]

theorem isAsciiDigit_iff (b : UInt8) : isAsciiDigit b = true ↔ 48 ≤ b.toNat ∧ b.toNat ≤ 57 :=
  byteRange_iff 48 57 b

theorem isAsciiUppercase_iff (b : UInt8) :
    isAsciiUppercase b = true ↔ 65 ≤ b.toNat ∧ b.toNat ≤ 90 :=
  byteRange_iff 65 90 b

theorem isAsciiLowercase_iff (b : UInt8) :
    isAsciiLowercase b = true ↔ 97 ≤ b.toNat ∧ b.toNat ≤ 122 :=
  byteRange_iff 97 122 b

theorem isAsciiByte_of_alphanumeric {b : UInt8} (h : isAsciiAlphanumeric b = true) :
    isAsciiByte b = true := by
  rw [isAsciiAlphanumeric, isAsciiAlphabetic, Bool.or_eq_true, Bool.or_eq_true,
    isAsciiUppercase_iff, isAsciiLowercase_iff, isAsciiDigit_iff] at h
  rw [isAsciiByte_iff]
  omega

/-- The value of a digit. -/
theorem toNat_digit {b : UInt8} (h : isAsciiDigit b = true) :
    (b - 48).toNat = b.toNat - 48 ∧ b.toNat - 48 ≤ 9 := by
  obtain ⟨hlow, hhigh⟩ := (isAsciiDigit_iff b).mp h
  refine ⟨?_, by omega⟩
  apply UInt8.toNat_sub_of_le
  rw [UInt8.le_iff_toNat_le]
  exact hlow

theorem isAlphanumeric_of_digit {b : UInt8} (h : isAsciiDigit b = true) :
    isAsciiAlphanumeric b = true := by
  rw [isAsciiAlphanumeric, h, Bool.or_true]

theorem isAsciiByte_of_digit (b : UInt8) (h : isAsciiDigit b = true) : isAsciiByte b = true :=
  isAsciiByte_of_alphanumeric (isAlphanumeric_of_digit h)

theorem encodeChar_single {c : Char} (h : c.toNat < 128) :
    String.utf8EncodeChar c = [UInt8.ofNat c.toNat] := by
  rw [String.utf8EncodeChar]
  exact if_pos (Nat.le_of_lt_succ h)

theorem encodeChar_multi {c : Char} (h : 128 ≤ c.toNat) :
    ∀ b ∈ String.utf8EncodeChar c, isAsciiByte b = false := by
  have hval : ¬ c.val.toNat ≤ 0x7f := by
    have hc : c.toNat = c.val.toNat := rfl
    omega
  have high : ∀ n, 128 ≤ n → n < 256 → isAsciiByte (UInt8.ofNat n) = false := by
    intro n hlow hhigh
    rw [← Bool.not_eq_true, isAsciiByte_iff, UInt8.toNat_ofNat']
    omega
  intro b hb
  rw [String.utf8EncodeChar, if_neg hval] at hb
  split at hb
  · simp only [List.mem_cons, List.not_mem_nil, or_false] at hb
    rcases hb with rfl | rfl <;> apply high <;> omega
  · split at hb
    · simp only [List.mem_cons, List.not_mem_nil, or_false] at hb
      rcases hb with rfl | rfl | rfl <;> apply high <;> omega
    · simp only [List.mem_cons, List.not_mem_nil, or_false] at hb
      rcases hb with rfl | rfl | rfl | rfl <;> apply high <;> omega

/-- The bytes from 0xF8 on do not occur in UTF-8. -/
theorem encodeChar_lt {c : Char} : ∀ b ∈ String.utf8EncodeChar c, b.toNat < 0xF8 := by
  have low : ∀ n, n < 0xF8 → (UInt8.ofNat n).toNat < 0xF8 := by
    intro n hn
    rw [UInt8.toNat_ofNat']
    omega
  intro b hb
  rw [String.utf8EncodeChar] at hb
  split at hb
  · rw [List.mem_singleton.mp hb]
    exact low _ (by omega)
  · split at hb
    · simp only [List.mem_cons, List.not_mem_nil, or_false] at hb
      rcases hb with rfl | rfl <;> apply low <;> omega
    · split at hb
      · simp only [List.mem_cons, List.not_mem_nil, or_false] at hb
        rcases hb with rfl | rfl | rfl <;> apply low <;> omega
      · simp only [List.mem_cons, List.not_mem_nil, or_false] at hb
        rcases hb with rfl | rfl | rfl | rfl <;> apply low <;> omega

theorem utf8_lt {s : String} {b : UInt8} (hb : b ∈ utf8 s) : b.toNat < 0xF8 := by
  obtain ⟨c, _, hc⟩ := List.mem_flatMap.mp hb
  exact encodeChar_lt b hc

/-- An ASCII byte is a whole character. -/
theorem encodeChar_ascii {c : Char} {b : UInt8} (hb : b ∈ String.utf8EncodeChar c)
    (hascii : isAsciiByte b = true) : String.utf8EncodeChar c = [b] := by
  by_cases hc : c.toNat < 128
  · have hsingle := encodeChar_single hc
    rw [hsingle] at hb ⊢
    rw [List.mem_singleton.mp hb]
  · have hmulti := encodeChar_multi (c := c) (by omega) b hb
    rw [hmulti] at hascii
    cases hascii

section Offsets

@[simp] theorem dropBytes_zero (cs : List Char) : dropBytes 0 cs = some cs := by
  cases cs <;> rfl

@[simp] theorem takeBytes_zero (cs : List Char) : takeBytes 0 cs = some [] := by
  cases cs <;> rfl

theorem dropBytes_cons {n : Nat} (hn : 0 < n) (c : Char) (cs : List Char) :
    dropBytes n (c :: cs) = if c.utf8Size ≤ n then dropBytes (n - c.utf8Size) cs else none := by
  obtain ⟨m, rfl⟩ := Nat.exists_eq_succ_of_ne_zero (Nat.ne_of_gt hn)
  rfl

theorem takeBytes_cons {n : Nat} (hn : 0 < n) (c : Char) (cs : List Char) :
    takeBytes n (c :: cs) =
      if c.utf8Size ≤ n then (takeBytes (n - c.utf8Size) cs).map (c :: ·) else none := by
  obtain ⟨m, rfl⟩ := Nat.exists_eq_succ_of_ne_zero (Nat.ne_of_gt hn)
  rfl

theorem dropBytes_encode (pre cs : List Char) (n : Nat) :
    dropBytes ((encode pre).length + n) (pre ++ cs) = dropBytes n cs := by
  induction pre with
  | nil => simp
  | cons c pre ih =>
    have hpos := c.utf8Size_pos
    rw [length_encode_cons, List.cons_append, dropBytes_cons (by omega), if_pos (by omega)]
    have hsub : c.utf8Size + (encode pre).length + n - c.utf8Size = (encode pre).length + n := by
      omega
    rw [hsub, ih]

/-- What a byte offset drops and keeps, in characters. -/
theorem dropBytes_eq_some {n : Nat} {cs rest : List Char} :
    dropBytes n cs = some rest ↔ ∃ front, cs = front ++ rest ∧ (encode front).length = n := by
  constructor
  · intro h
    induction cs generalizing n with
    | nil =>
      cases n with
      | zero =>
        cases h
        exact ⟨[], rfl, rfl⟩
      | succ n => cases h
    | cons c cs ih =>
      cases n with
      | zero =>
        cases h
        exact ⟨[], rfl, rfl⟩
      | succ n =>
        rw [dropBytes_cons (by omega)] at h
        split at h
        · rename_i hsize
          obtain ⟨front, rfl, hlen⟩ := ih h
          refine ⟨c :: front, rfl, ?_⟩
          rw [length_encode_cons]
          omega
        · cases h
  · intro h
    obtain ⟨front, rfl, rfl⟩ := h
    have hdrop := dropBytes_encode front rest 0
    rw [dropBytes_zero] at hdrop
    exact hdrop

theorem takeBytes_eq_some {n : Nat} {cs front : List Char} :
    takeBytes n cs = some front ↔ ∃ rest, cs = front ++ rest ∧ (encode front).length = n := by
  constructor
  · intro h
    induction cs generalizing n front with
    | nil =>
      cases n with
      | zero =>
        cases h
        exact ⟨[], rfl, rfl⟩
      | succ n => cases h
    | cons c cs ih =>
      cases n with
      | zero =>
        cases h
        exact ⟨c :: cs, rfl, rfl⟩
      | succ n =>
        rw [takeBytes_cons (by omega)] at h
        split at h
        · rename_i hsize
          obtain ⟨tail, htail, rfl⟩ := Option.map_eq_some_iff.mp h
          obtain ⟨rest, rfl, hlen⟩ := ih htail
          refine ⟨rest, rfl, ?_⟩
          rw [length_encode_cons]
          omega
        · cases h
  · intro h
    obtain ⟨rest, rfl, rfl⟩ := h
    induction front with
    | nil => simp
    | cons c front ih =>
      have hpos := c.utf8Size_pos
      rw [length_encode_cons, List.cons_append, takeBytes_cons (by omega), if_pos (by omega),
        Nat.add_sub_cancel_left, ih]
      rfl

/-- Of two ways to split a text, the one at the smaller offset splits the other's front. -/
theorem exists_append_of_le {xs ys r s : List Char} (h : xs ++ r = ys ++ s)
    (hle : (encode xs).length ≤ (encode ys).length) : ∃ d, ys = xs ++ d ∧ r = d ++ s := by
  rcases List.append_eq_append_iff.mp h with ⟨d, hys, hr⟩ | ⟨d, hxs, hs⟩
  · exact ⟨d, hys, hr⟩
  · have hd : d = [] := by
      apply List.eq_nil_of_length_eq_zero
      have hlen := length_le_encode d
      rw [hxs, encode_append, List.length_append] at hle
      omega
    subst hd
    refine ⟨[], ?_, ?_⟩
    · rw [hxs, List.append_nil, List.append_nil]
    · exact hs.symm

def CharBoundary (cs : List Char) (n : Nat) : Prop :=
  ∃ front rest, cs = front ++ rest ∧ (encode front).length = n

theorem charBoundary_zero (cs : List Char) : CharBoundary cs 0 := ⟨[], cs, rfl, rfl⟩

theorem charBoundary_length (cs : List Char) : CharBoundary cs (encode cs).length :=
  ⟨cs, [], (List.append_nil cs).symm, rfl⟩

/-- An ASCII byte of a text is one of its characters. -/
theorem exists_split_of_ascii {cs : List Char} {n : Nat} {b : UInt8} (h : (encode cs)[n]? = some b)
    (hb : isAsciiByte b = true) : ∃ front c rest, cs = front ++ c :: rest ∧
      (encode front).length = n ∧ String.utf8EncodeChar c = [b] := by
  induction cs generalizing n with
  | nil => cases h
  | cons c cs ih =>
    rw [encode_cons] at h
    by_cases hn : n < (String.utf8EncodeChar c).length
    · rw [List.getElem?_append_left hn] at h
      have hc := encodeChar_ascii (List.mem_of_getElem? h) hb
      have hzero : n = 0 := by
        rw [hc, List.length_singleton] at hn
        omega
      exact ⟨[], c, cs, rfl, by simp [hzero], hc⟩
    · rw [List.getElem?_append_right (by omega)] at h
      obtain ⟨front, d, rest, rfl, hlen, hd⟩ := ih h
      refine ⟨c :: front, d, rest, rfl, ?_, hd⟩
      rw [String.length_utf8EncodeChar] at hn hlen
      rw [length_encode_cons]
      omega

theorem charBoundary_of_ascii {cs : List Char} {n : Nat} {b : UInt8}
    (h : (encode cs)[n]? = some b) (hb : isAsciiByte b = true) : CharBoundary cs n := by
  obtain ⟨front, c, rest, hcs, hlen, _⟩ := exists_split_of_ascii h hb
  exact ⟨front, c :: rest, hcs, hlen⟩

theorem charBoundary_after_ascii {cs : List Char} {n : Nat} {b : UInt8}
    (h : (encode cs)[n]? = some b) (hb : isAsciiByte b = true) : CharBoundary cs (n + 1) := by
  obtain ⟨front, c, rest, hcs, hlen, hc⟩ := exists_split_of_ascii h hb
  refine ⟨front ++ [c], rest, by rw [hcs, List.append_assoc]; rfl, ?_⟩
  simp [hlen, hc]

theorem getElem?_charIndices (offset : Nat) {cs : List Char} {k : Nat} (h : k < cs.length) :
    (charIndices offset cs)[k]? = some (offset + (encode (cs.take k)).length, cs[k]) := by
  induction cs generalizing offset k with
  | nil => cases h
  | cons c cs ih =>
    cases k with
    | zero => rfl
    | succ k =>
      have hk : k < cs.length := Nat.lt_of_succ_lt_succ h
      rw [charIndices, List.getElem?_cons_succ, ih _ hk, List.take_succ_cons, length_encode_cons,
        List.getElem_cons_succ, Nat.add_assoc]

end Offsets

section Slices

theorem slice?_eq_some {value t : String} {i j : Nat} : slice? value i j = some t ↔
    ∃ a b, value.toList = a ++ (t.toList ++ b) ∧ (encode a).length = i ∧
      i + (utf8 t).length = j := by
  rw [slice?]
  constructor
  · intro h
    split at h
    · rename_i hij
      obtain ⟨front, hfront, rfl⟩ := Option.map_eq_some_iff.mp h
      obtain ⟨rest, hrest, htake⟩ := Option.bind_eq_some_iff.mp hfront
      obtain ⟨a, hvalue, ha⟩ := dropBytes_eq_some.mp hrest
      obtain ⟨b, rfl, hlen⟩ := takeBytes_eq_some.mp htake
      refine ⟨a, b, ?_, ha, ?_⟩
      · rw [String.toList_ofList]
        exact hvalue
      · rw [utf8_ofList, hlen]
        omega
    · cases h
  · intro h
    obtain ⟨a, b, hvalue, rfl, rfl⟩ := h
    have hdrop := dropBytes_eq_some.mpr ⟨a, hvalue, rfl⟩
    have htake : takeBytes (utf8 t).length (t.toList ++ b) = some t.toList :=
      takeBytes_eq_some.mpr ⟨b, rfl, rfl⟩
    rw [if_pos (by omega), hdrop, Nat.add_sub_cancel_left, Option.bind_some]
    rw [htake, Option.map_some, String.ofList_toList]

theorem slice_of_slice? {value t : String} {i j : Nat} (h : slice? value i j = some t) :
    slice value i j = t := by
  rw [slice, h, Option.getD_some]

theorem slice?_self (m : String) : slice? m 0 (utf8 m).length = some m :=
  slice?_eq_some.mpr ⟨[], [], by simp, rfl, Nat.zero_add _⟩

theorem utf8_slice? {value t : String} {i j : Nat} (h : slice? value i j = some t) :
    utf8 t = ((utf8 value).drop i).take (j - i) := by
  obtain ⟨a, b, hvalue, rfl, rfl⟩ := slice?_eq_some.mp h
  rw [utf8_eq_encode value, hvalue, encode_append, encode_append, List.drop_left,
    Nat.add_sub_cancel_left, utf8_eq_encode, List.take_left]

theorem length_slice_le (value : String) (i j : Nat) :
    (utf8 (slice value i j)).length ≤ (utf8 value).length := by
  rw [slice]
  cases hs : slice? value i j with
  | none => exact Nat.zero_le _
  | some t =>
    rw [Option.getD_some, utf8_slice? hs, List.length_take, List.length_drop]
    omega

theorem exists_slice {value : String} {i j : Nat} (hij : i ≤ j)
    (hi : CharBoundary value.toList i) (hj : CharBoundary value.toList j) :
    ∃ t, slice? value i j = some t := by
  obtain ⟨a, r, ha, rfl⟩ := hi
  obtain ⟨b, s, hb, rfl⟩ := hj
  obtain ⟨d, rfl, rfl⟩ := exists_append_of_le (ha.symm.trans hb) hij
  refine ⟨String.ofList d, slice?_eq_some.mpr ⟨a, s, ?_, rfl, ?_⟩⟩
  · rw [String.toList_ofList, ha]
  · rw [utf8_ofList, encode_append, List.length_append]

/-- A slice inside a part of a text is a slice of the part. -/
theorem slice?_part {value inner : String} {pre post : List Char} {i j : Nat}
    (hvalue : value.toList = pre ++ (inner.toList ++ post)) (hj : j ≤ (utf8 inner).length) :
    slice? value ((encode pre).length + i) ((encode pre).length + j) = slice? inner i j := by
  apply Option.ext
  intro t
  rw [slice?_eq_some, slice?_eq_some]
  constructor
  · intro h
    obtain ⟨a, b, hsplit, ha, hlen⟩ := h
    obtain ⟨a, rfl, hrest⟩ := exists_append_of_le (hvalue.symm.trans hsplit) (by omega)
    rw [encode_append, List.length_append] at ha
    rw [← List.append_assoc] at hrest
    have hle : (encode (a ++ t.toList)).length ≤ (encode inner.toList).length := by
      rw [utf8_eq_encode] at hj hlen
      rw [encode_append, List.length_append]
      omega
    obtain ⟨b, hinner, _⟩ := exists_append_of_le hrest.symm hle
    refine ⟨a, b, ?_, by omega, by omega⟩
    rw [hinner, List.append_assoc]
  · intro h
    obtain ⟨a, b, hinner, ha, hlen⟩ := h
    refine ⟨pre ++ a, b ++ post, ?_, ?_, by omega⟩
    · rw [hvalue, hinner]
      simp only [List.append_assoc]
    · rw [encode_append, List.length_append, ha]

theorem slice_part {value inner : String} {pre post : List Char} {i j : Nat}
    (hvalue : value.toList = pre ++ (inner.toList ++ post)) (hj : j ≤ (utf8 inner).length) :
    slice value ((encode pre).length + i) ((encode pre).length + j) = slice inner i j := by
  rw [slice, slice, slice?_part hvalue hj]

end Slices

end PgSense
