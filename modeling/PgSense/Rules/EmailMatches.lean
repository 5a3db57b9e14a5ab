import Mathlib.Data.List.DropRight
import Mathlib.Data.List.TakeDrop
import PgSense.Rules.Boundaries
import PgSense.Rules.Walks

/-! Email addresses: the walks around an `@` in closed form, which addresses of a text are
found, and when a match is a piece of a longer run. -/

namespace PgSense
open Library
set_option autoImplicit false

namespace Validators

theorem mem_splitOn (sep : UInt8) {b : UInt8} {bs : List UInt8} (hb : b ∈ bs) :
    b = sep ∨ ∃ piece ∈ splitOn sep bs, b ∈ piece := by
  induction bs with
  | nil => cases hb
  | cons c bs ih =>
    rw [splitOn]
    split
    · rename_i hsep
      rcases List.mem_cons.mp hb with rfl | hb
      · exact .inl (eq_of_beq hsep)
      · rcases ih hb with hsame | ⟨piece, hpiece, hmem⟩
        · exact .inl hsame
        · exact .inr ⟨piece, List.mem_cons_of_mem _ hpiece, hmem⟩
    · cases hsplit : splitOn sep bs with
      | nil =>
        rw [hsplit] at ih
        rcases List.mem_cons.mp hb with rfl | hb
        · exact .inr ⟨[b], List.mem_cons_self, List.mem_cons_self⟩
        · rcases ih hb with hsame | ⟨piece, hpiece, _⟩
          · exact .inl hsame
          · cases hpiece
      | cons first rest =>
        rw [hsplit] at ih
        rcases List.mem_cons.mp hb with rfl | hb
        · exact .inr ⟨b :: first, List.mem_cons_self, List.mem_cons_self⟩
        · rcases ih hb with hsame | ⟨piece, hpiece, hmem⟩
          · exact .inl hsame
          · rcases List.mem_cons.mp hpiece with rfl | hpiece
            · exact .inr ⟨c :: piece, List.mem_cons_self, List.mem_cons_of_mem c hmem⟩
            · exact .inr ⟨piece, List.mem_cons_of_mem _ hpiece, hmem⟩

theorem splitOn_ne_nil (sep : UInt8) (bs : List UInt8) : splitOn sep bs ≠ [] := by
  cases bs with
  | nil => exact List.cons_ne_nil _ _
  | cons c bs =>
    rw [splitOn]
    split
    · exact List.cons_ne_nil _ _
    · split <;> exact List.cons_ne_nil _ _

/-- A text ends in its last piece, and is that piece when there is no other. -/
theorem exists_last_piece (sep : UInt8) (bs : List UInt8) :
    ∃ front, bs = front ++ (splitOn sep bs).getLastD [] ∧
      ((splitOn sep bs).length = 1 → front = []) := by
  induction bs with
  | nil => exact ⟨[], rfl, fun _ => rfl⟩
  | cons c bs ih =>
    obtain ⟨front, hfront, hone⟩ := ih
    have hne := splitOn_ne_nil sep bs
    rw [splitOn]
    cases hsplit : splitOn sep bs with
    | nil => exact absurd hsplit hne
    | cons first rest =>
      rw [hsplit] at hfront hone
      split
      · exact ⟨c :: front, congrArg (c :: ·) hfront, fun h => absurd h (by simp)⟩
      · cases rest with
        | nil =>
          rw [hone rfl] at hfront
          exact ⟨[], congrArg (c :: ·) hfront, fun _ => rfl⟩
        | cons second rest =>
          exact ⟨c :: front, congrArg (c :: ·) hfront, fun h => absurd h (by simp)⟩

theorem mem_emailDomain {domain : List UInt8} (h : emailDomainOk domain = true) :
    ∀ b ∈ domain, Email.isDomainChar b = true := by
  simp only [emailDomainOk, Bool.and_eq_true] at h
  intro b hb
  rcases mem_splitOn 46 hb with rfl | ⟨label, hlabel, hmem⟩
  · rfl
  · have hok := List.all_eq_true.mp h.1.1.1.2 label hlabel
    simp only [emailLabelOk, Bool.and_eq_true] at hok
    have hchar := List.all_eq_true.mp hok.2 b hmem
    rw [Email.isDomainChar, hchar, Bool.true_or]

theorem getLast?_emailDomain {domain : List UInt8} (h : emailDomainOk domain = true) :
    domain.getLast?.any isAsciiAlphabetic = true := by
  simp only [emailDomainOk, Bool.and_eq_true, decide_eq_true_eq] at h
  obtain ⟨front, hfront, _⟩ := exists_last_piece 46 domain
  generalize (splitOn 46 domain).getLastD [] = last at h hfront
  have hne : last ≠ [] := by
    intro hnil
    rw [hnil] at h
    exact absurd h.1.2 (by decide)
  rw [hfront, List.getLast?_append_of_ne_nil _ hne, List.getLast?_eq_some_getLast hne]
  exact List.all_eq_true.mp h.2 _ (List.getLast_mem hne)

/-- The two sides of the `@` of an address. -/
structure Address (m : String) (localPart domain : List UInt8) : Prop where
  bytes : utf8 m = localPart ++ 64 :: domain
  no_sign : 64 ∉ localPart ∧ 64 ∉ domain
  local_ne_nil : localPart ≠ []
  local_le : localPart.length ≤ 64
  local_chars : ∀ b ∈ localPart, isEmailLocalChar b = true
  domain_ne_nil : domain ≠ []
  domain_le : domain.length ≤ 253
  domain_chars : ∀ b ∈ domain, Email.isDomainChar b = true
  domain_last : domain.getLast?.any isAsciiAlphabetic = true

theorem exists_address {m : String} (h : email m = true) :
    ∃ localPart domain, Address m localPart domain := by
  unfold email at h
  rw [List.span_eq_takeWhile_dropWhile] at h
  have hbytes := List.takeWhile_append_dropWhile (p := (· != 64)) (l := utf8 m)
  have hlocal : 64 ∉ (utf8 m).takeWhile (· != 64) := fun hmem =>
    absurd (List.mem_takeWhile_imp hmem) (by decide)
  have hhead := List.head?_dropWhile_not (· != 64) (utf8 m)
  generalize (utf8 m).takeWhile (· != 64) = localPart at h hbytes hlocal
  cases hrest : (utf8 m).dropWhile (· != 64) with
  | nil =>
    rw [hrest] at h
    cases h
  | cons sign domain =>
    rw [hrest] at h hhead hbytes
    have hsign : sign = 64 := by simpa using hhead
    simp only [Bool.and_eq_true] at h
    obtain ⟨⟨hsigns, hlocalOk⟩, hdomainOk⟩ := h
    have hdomain := mem_emailDomain hdomainOk
    have hlast := getLast?_emailDomain hdomainOk
    simp only [emailLocalOk, emailDomainOk, Bool.and_eq_true, Bool.not_eq_true',
      Bool.or_eq_false_iff, decide_eq_false_iff_not, List.isEmpty_eq_false_iff] at hlocalOk hdomainOk
    refine ⟨localPart, domain, ?_, ⟨hlocal, by simpa using hsigns⟩, hlocalOk.1.1.1.1, ?_, ?_,
      hdomainOk.1.1.1.1.1, ?_, hdomain, hlast⟩
    · rw [← hbytes, hsign]
    · exact Nat.not_lt.mp hlocalOk.1.1.1.2
    · exact List.all_eq_true.mp hlocalOk.2
    · exact Nat.not_lt.mp hdomainOk.1.1.1.1.2

end Validators

namespace Email

/-- What a candidate's end is trimmed of. -/
def isTrimmed (b : UInt8) : Bool := b == 46 || b == 45

/-- The local-part characters that end right before byte `p`. -/
def localRun (bytes : List UInt8) (p : Nat) : List UInt8 :=
  (bytes.take p).rtakeWhile Validators.isEmailLocalChar

/-- The domain characters that begin right behind byte `p`. -/
def domainRun (bytes : List UInt8) (p : Nat) : List UInt8 :=
  (bytes.drop (p + 1)).takeWhile isDomainChar

section Walks
variable (bytes : List UInt8)

theorem localStart_eq {p : Nat} (hp : p ≤ bytes.length) (k : Nat) :
    localStart bytes (p - k) p = p - min k (localRun bytes p).length := by
  induction p generalizing k with
  | zero =>
    rw [Nat.zero_sub, Nat.zero_sub]
    rfl
  | succ n ih =>
    have htake : bytes.take (n + 1) = bytes.take n ++ [bytes[n]] :=
      (List.take_concat_get' bytes n hp).symm
    rw [localStart, localRun, htake, byteAt_of_lt hp]
    cases k with
    | zero => simp
    | succ k =>
      cases hlocal : Validators.isEmailLocalChar bytes[n] with
      | true =>
        have hrest := ih (Nat.le_of_succ_le hp) k
        rw [List.rtakeWhile_concat_pos _ _ _ hlocal, List.length_append, List.length_singleton,
          if_pos (by rw [Bool.and_true, decide_eq_true_eq]; omega), Nat.add_sub_add_right, hrest,
          localRun]
        omega
      | false =>
        rw [List.rtakeWhile_concat_neg _ _ _ (by simp [hlocal])]
        simp

theorem domainEnd_eq (fuel d : Nat) : domainEnd bytes fuel d =
    d + min fuel ((bytes.drop d).takeWhile isDomainChar).length := by
  induction fuel generalizing d with
  | zero => simp [domainEnd]
  | succ fuel ih =>
    rw [domainEnd]
    by_cases hd : d < bytes.length
    · rw [byteAt_of_lt hd, List.drop_eq_getElem_cons hd]
      cases hdomain : isDomainChar bytes[d] with
      | true =>
        rw [if_pos rfl, ih, List.takeWhile_cons_of_pos hdomain, List.length_cons]
        omega
      | false =>
        rw [List.takeWhile_cons_of_neg (by simp [hdomain])]
        simp
    · rw [byteAt_of_le (by omega), List.drop_eq_nil_of_le (by omega)]
      simp

theorem trimEnd_trims {low a b : Nat} (hlow : low ≤ a) (hab : a ≤ b)
    (h : ∀ i, a ≤ i → i < b → byteAt isTrimmed bytes i = true) :
    trimEnd bytes low b = trimEnd bytes low a := by
  induction b with
  | zero =>
    have hzero : a = 0 := by omega
    rw [hzero]
  | succ b ih =>
    by_cases hlast : a = b + 1
    · rw [hlast]
    · have hbyte : byteAt (fun b => b == 46 || b == 45) bytes b = true := h b (by omega) (by omega)
      rw [trimEnd, if_pos]
      · exact ih (by omega) (fun i hi hib => h i hi (by omega))
      · rw [hbyte, Bool.and_true, decide_eq_true_eq]
        omega

theorem trimEnd_stop {low n : Nat} (h : byteAt isTrimmed bytes n = false) :
    trimEnd bytes low (n + 1) = n + 1 := by
  have hbyte : byteAt (fun b => b == 46 || b == 45) bytes n = false := h
  rw [trimEnd, if_neg]
  rw [hbyte, Bool.and_false]
  exact Bool.false_ne_true

/-- Between a trimmed end and the end stand trimmed bytes only. -/
theorem trimmed_of_trimEnd {low n i : Nat} (hi : trimEnd bytes low n ≤ i) (hn : i < n) :
    byteAt isTrimmed bytes i = true := by
  induction n with
  | zero => exact absurd hn (Nat.not_lt_zero i)
  | succ n ih =>
    rw [trimEnd] at hi
    split at hi
    · rename_i hbyte
      by_cases hlast : i = n
      · rw [hlast]
        exact (Bool.and_eq_true_iff.mp hbyte).2
      · exact ih hi (by omega)
    · omega

theorem trimEnd_le (low n : Nat) : trimEnd bytes low n ≤ n := by
  induction n with
  | zero => exact Nat.le_refl 0
  | succ n ih =>
    rw [trimEnd]
    split
    · exact Nat.le_succ_of_le ih
    · exact Nat.le_refl (n + 1)

end Walks

section Runs
variable {p : UInt8 → Bool} {xs ys : List UInt8}

theorem rtakeWhile_append (hx : xs.getLast?.any p = false) (hy : ∀ b ∈ ys, p b = true) :
    (xs ++ ys).rtakeWhile p = ys := by
  have hstop : xs.reverse.takeWhile p = [] := by
    cases hrev : xs.reverse with
    | nil => rfl
    | cons b bs =>
      rw [← List.head?_reverse, hrev] at hx
      rw [List.takeWhile_cons_of_neg]
      exact fun hb => Bool.false_ne_true (hx.symm.trans hb)
  rw [List.rtakeWhile, List.reverse_append, List.takeWhile_append_of_pos, hstop, List.append_nil,
    List.reverse_reverse]
  intro b hb
  exact hy b (List.mem_reverse.mp hb)

theorem takeWhile_append_stop (hx : ∀ b ∈ xs, p b = true) (hy : ys.head?.any p = false) :
    (xs ++ ys).takeWhile p = xs := by
  have hstop : ys.takeWhile p = [] := by
    cases ys with
    | nil => rfl
    | cons b bs =>
      rw [List.takeWhile_cons_of_neg]
      exact fun hb => Bool.false_ne_true (hy.symm.trans hb)
  rw [List.takeWhile_append_of_pos hx, hstop, List.append_nil]

end Runs

section Matches
variable {value m : String} {p : Nat}

/-- Where a candidate starts, and where it ends before it is trimmed. -/
def candidateStart (bytes : List UInt8) (p : Nat) : Nat := p - min 64 (localRun bytes p).length

def domainStop (bytes : List UInt8) (p : Nat) : Nat :=
  p + 1 + min 253 (domainRun bytes p).length

theorem found_eq_some (hp : p ≤ (utf8 value).length) : found value p = some m ↔
    localRun (utf8 value) p ≠ [] ∧ domainRun (utf8 value) p ≠ [] ∧
      byteAt isWordByte (utf8 value) (domainStop (utf8 value) p) = false ∧
      slice value (candidateStart (utf8 value) p)
        (trimEnd (utf8 value) (p + 1) (domainStop (utf8 value) p)) = m ∧
      Validators.email m = true := by
  have hstart : localStart (utf8 value) (p - 64) p = candidateStart (utf8 value) p :=
    localStart_eq (utf8 value) hp 64
  have hstop : domainEnd (utf8 value) 253 (p + 1) = domainStop (utf8 value) p :=
    domainEnd_eq (utf8 value) 253 (p + 1)
  have hrun : (localRun (utf8 value) p).length ≤ p := by
    have hle := (List.rtakeWhile_suffix Validators.isEmailLocalChar
      ((utf8 value).take p)).length_le
    rw [List.length_take] at hle
    exact Nat.le_trans hle (Nat.min_le_left _ _)
  have hempty : candidateStart (utf8 value) p = p ↔ localRun (utf8 value) p = [] := by
    rw [← List.length_eq_zero_iff, candidateStart]
    omega
  have hnone : domainStop (utf8 value) p = p + 1 ↔ domainRun (utf8 value) p = [] := by
    rw [← List.length_eq_zero_iff, domainStop]
    omega
  rw [found, Option.filter_eq_some_iff, extractCandidate, hstart, hstop]
  dsimp only
  by_cases hl : localRun (utf8 value) p = []
  · simp [hempty.mpr hl, hl]
  · by_cases hd : domainRun (utf8 value) p = []
    · simp [hempty, hl, hnone.mpr hd, hd]
    · by_cases hword : byteAt isWordByte (utf8 value) (domainStop (utf8 value) p) = true
      · simp [hempty, hl, hnone, hd, hword]
      · simp [hempty, hl, hnone, hd, hword]

end Matches

/-- The position of the `@` in an address. -/
def signAt (m : String) : Nat := ((utf8 m).takeWhile (· != 64)).length

/-- A text that may follow an address: dots and hyphens, then an end or a byte that no word
contains. -/
def MayFollow (w : String) : Prop :=
  ∃ run rest, utf8 w = run ++ rest ∧ (∀ b ∈ run, isTrimmed b = true) ∧
    rest.head?.any (fun b => isWordByte b || isTrimmed b) = false

section Complete
variable {u e w : String} {localPart domain : List UInt8}

theorem signAt_eq (h : Validators.Address e localPart domain) : signAt e = localPart.length := by
  rw [signAt, h.bytes, takeWhile_append_stop _ rfl]
  intro b hb
  rw [bne_iff_ne]
  rintro rfl
  exact h.no_sign.1 hb

theorem eq_of_trimmed {b : UInt8} (h : isTrimmed b = true) : b = 46 ∨ b = 45 := by
  rcases Bool.or_eq_true_iff.mp h with hb | hb
  · exact .inl (eq_of_beq hb)
  · exact .inr (eq_of_beq hb)

theorem isTrimmed_of_alphabetic {b : UInt8} (h : isAsciiAlphabetic b = true) :
    isTrimmed b = false := by
  rw [← Bool.not_eq_true]
  intro htrim
  rcases eq_of_trimmed htrim with rfl | rfl
  · cases h
  · cases h

theorem isDomainChar_of_trimmed {b : UInt8} (h : isTrimmed b = true) : isDomainChar b = true := by
  rcases eq_of_trimmed h with rfl | rfl
  · rfl
  · rfl

theorem isWordByte_of_trimmed {b : UInt8} (h : isTrimmed b = true) : isWordByte b = false := by
  rcases eq_of_trimmed h with rfl | rfl
  · rfl
  · rfl

theorem isDomainChar_iff (b : UInt8) :
    isDomainChar b = true ↔ isAsciiAlphanumeric b = true ∨ isTrimmed b = true := by
  rw [isDomainChar, isTrimmed, Bool.or_eq_true, Bool.or_eq_true, Bool.or_eq_true, or_assoc,
    or_comm (a := (b == 45) = true)]

theorem localRun_of_address (h : Validators.Address e localPart domain)
    (hu : (utf8 u).getLast?.any Validators.isEmailLocalChar = false) :
    localRun (utf8 (u ++ (e ++ w))) ((utf8 u).length + localPart.length) = localPart := by
  have hparts : utf8 (u ++ (e ++ w)) = (utf8 u ++ localPart) ++ 64 :: (domain ++ utf8 w) := by
    rw [utf8_append, utf8_append, h.bytes]
    simp
  rw [localRun, hparts, ← List.length_append, List.take_left]
  exact rtakeWhile_append hu h.local_chars

theorem domainRun_of_address (h : Validators.Address e localPart domain) {run rest : List UInt8}
    (hw : utf8 w = run ++ rest) (hrun : ∀ b ∈ run, isTrimmed b = true)
    (hrest : rest.head?.any (fun b => isWordByte b || isTrimmed b) = false) :
    domainRun (utf8 (u ++ (e ++ w))) ((utf8 u).length + localPart.length) = domain ++ run := by
  have hparts : utf8 (u ++ (e ++ w)) =
      (utf8 u ++ localPart ++ [64]) ++ ((domain ++ run) ++ rest) := by
    rw [utf8_append, utf8_append, h.bytes, hw]
    simp
  have hlen : (utf8 u).length + localPart.length + 1 = (utf8 u ++ localPart ++ [64]).length := by
    simp
    omega
  rw [domainRun, hparts, hlen, List.drop_left]
  apply takeWhile_append_stop
  · intro b hb
    rcases List.mem_append.mp hb with hb | hb
    · exact h.domain_chars b hb
    · exact isDomainChar_of_trimmed (hrun b hb)
  · cases rest with
    | nil => rfl
    | cons b rest =>
      have hb : (isWordByte b || isTrimmed b) = false := hrest
      obtain ⟨hword, htrim⟩ := Bool.or_eq_false_iff.mp hb
      rw [List.head?_cons, Option.any_some, ← Bool.not_eq_true, isDomainChar_iff]
      rintro (halnum | hdot)
      · rw [isWordByte_of_alphanumeric b halnum] at hword
        cases hword
      · rw [hdot] at htrim
        cases htrim

section Trailing
variable {bytes pre run rest : List UInt8} {stop : Nat}

theorem byteAt_trailing (hbytes : bytes = pre ++ (run ++ rest))
    (hrun : ∀ b ∈ run, isTrimmed b = true) {i : Nat} (hlow : pre.length ≤ i)
    (hhigh : i < pre.length + run.length) : byteAt isTrimmed bytes i = true := by
  obtain ⟨k, rfl⟩ := Nat.exists_eq_add_of_le hlow
  have hk : k < run.length := by omega
  rw [hbytes, byteAt_inside hk, byteAt_of_lt hk]
  exact hrun _ (List.getElem_mem hk)

/-- An end among the trailing dots and hyphens is trimmed to where they begin. -/
theorem trimEnd_trailing (hbytes : bytes = pre ++ (run ++ rest))
    (hrun : ∀ b ∈ run, isTrimmed b = true) (hpre : pre.getLast?.any isAsciiAlphabetic = true)
    {low : Nat} (hlow : low ≤ pre.length) (hstart : pre.length ≤ stop)
    (hstop : stop ≤ pre.length + run.length) : trimEnd bytes low stop = pre.length := by
  rw [trimEnd_trims bytes hlow hstart fun i hi hlt => byteAt_trailing hbytes hrun hi (by omega)]
  rcases List.eq_nil_or_concat pre with rfl | ⟨front, b, rfl⟩
  · cases hpre
  · rw [List.concat_eq_append, List.length_append, List.length_singleton]
    apply trimEnd_stop
    have hlast : isAsciiAlphabetic b = true := by simpa using hpre
    rw [hbytes, List.concat_eq_append, List.append_assoc, byteAt_part]
    exact isTrimmed_of_alphabetic hlast

theorem boundary_trailing (hbytes : bytes = pre ++ (run ++ rest))
    (hrun : ∀ b ∈ run, isTrimmed b = true) (hrest : rest.head?.any isWordByte = false)
    (hstart : pre.length ≤ stop) (hstop : stop ≤ pre.length + run.length) :
    byteAt isWordByte bytes stop = false := by
  by_cases hend : stop = pre.length + run.length
  · rw [hend, hbytes, byteAt_part_end]
    exact hrest
  · obtain ⟨b, hb, htrim⟩ := byteAt_iff.mp (byteAt_trailing hbytes hrun hstart (by omega))
    rw [byteAt, hb, Option.any_some]
    exact isWordByte_of_trimmed htrim

end Trailing

/-- An address between texts that are no part of it is found at its `@`. -/
theorem findsAt_of_address (he : Validators.email e = true)
    (hu : (utf8 u).getLast?.any Validators.isEmailLocalChar = false) (hw : MayFollow w) :
    FindsAt (u ++ (e ++ w)) ((utf8 u).length + signAt e) e := by
  obtain ⟨localPart, domain, h⟩ := Validators.exists_address he
  obtain ⟨run, rest, hw, hrun, hrest⟩ := hw
  have hlocal := localRun_of_address (w := w) h hu
  have hdomain := domainRun_of_address (u := u) h hw hrun hrest
  have hmaxLocal := h.local_le
  have hmaxDomain := h.domain_le
  have hfront : utf8 (u ++ (e ++ w)) = (utf8 u ++ localPart) ++ 64 :: (domain ++ utf8 w) := by
    rw [utf8_append, utf8_append, h.bytes]
    simp
  have hback : utf8 (u ++ (e ++ w)) = (utf8 u ++ utf8 e) ++ (run ++ rest) := by
    rw [utf8_append, utf8_append, hw, List.append_assoc]
  have hlast : (utf8 u ++ utf8 e).getLast?.any isAsciiAlphabetic = true := by
    rw [h.bytes, ← List.append_assoc, ← List.singleton_append, ← List.append_assoc,
      List.getLast?_append_of_ne_nil _ h.domain_ne_nil]
    exact h.domain_last
  have hend : (utf8 u ++ utf8 e).length = (utf8 u).length + localPart.length + 1 + domain.length := by
    rw [List.length_append, h.bytes, List.length_append, List.length_cons]
    omega
  have hle : (utf8 u).length + localPart.length ≤ (utf8 (u ++ (e ++ w))).length := by
    rw [hfront, List.length_append, List.length_append]
    omega
  have hstop : domainStop (utf8 (u ++ (e ++ w))) ((utf8 u).length + localPart.length) =
      (utf8 u).length + localPart.length + 1 + min 253 (domain.length + run.length) := by
    rw [domainStop, hdomain, List.length_append]
  have hstart : candidateStart (utf8 (u ++ (e ++ w))) ((utf8 u).length + localPart.length) =
      (utf8 u).length := by
    rw [candidateStart, hlocal]
    omega
  rw [signAt_eq h]
  constructor
  · rw [hfront, ← List.length_append, byteAt_part]
    rfl
  · refine (found_eq_some hle).mpr ⟨?_, ?_, ?_, ?_, he⟩
    · rw [hlocal]
      exact h.local_ne_nil
    · rw [hdomain]
      exact List.append_ne_nil_of_left_ne_nil h.domain_ne_nil run
    · apply boundary_trailing hback hrun _ (by omega) (by omega)
      cases rest with
      | nil => rfl
      | cons b rest => exact (Bool.or_eq_false_iff.mp hrest).1
    · rw [trimEnd_trailing hback hrun hlast (by omega) (by omega) (by omega), hstart,
        List.length_append, slice]
      have hslice : slice? (u ++ (e ++ w)) (utf8 u).length ((utf8 u).length + (utf8 e).length) =
          some e := slice?_eq_some.mpr ⟨u.toList, w.toList, by simp, rfl, rfl⟩
      rw [hslice, Option.getD_some]

/-- At most one match for each `@`, in their order, and every address whose surroundings are no
part of it. -/
theorem email_scan_complete :
    (∀ value, ∃ found : List (Nat × String), scan value = found.map Prod.snd ∧
      found.Pairwise (fun a b => a.1 < b.1) ∧ (∀ p m, (p, m) ∈ found ↔ FindsAt value p m) ∧
      ∀ x ∈ found, byteAt (· == 64) (utf8 value) x.1 = true ∧ Validators.email x.2 = true) ∧
    ∀ u e w : String, Validators.email e = true →
      (utf8 u).getLast?.any Validators.isEmailLocalChar = false → MayFollow w →
      FindsAt (u ++ (e ++ w)) ((utf8 u).length + signAt e) e := by
  refine ⟨?_, fun u e w => findsAt_of_address⟩
  intro value
  have hmem : ∀ p m, (p, m) ∈ located (fun i => (step value i).1) (utf8 value).length ↔
      FindsAt value p m := by
    intro p m
    rw [mem_located, step_eq_some]
    exact ⟨fun h => h.2, fun h => ⟨lt_of_byteAt h.1, h⟩⟩
  refine ⟨located (fun i => (step value i).1) (utf8 value).length, ?_, located_pairwise _ _, hmem,
    ?_⟩
  · rw [located_snd]
    exact scan_eq_filterMap value
  · rintro ⟨p, m⟩ hx
    obtain ⟨hat, hfound⟩ := (hmem p m).mp hx
    exact ⟨hat, (Option.filter_eq_some_iff.mp hfound).2⟩

theorem email_scan_complete_sentence :
    FindsAt ("mail " ++ ("ann@example.org" ++ "...")) ((utf8 "mail ").length + signAt "ann@example.org")
      "ann@example.org" :=
  email_scan_complete.2 "mail " "ann@example.org" "..." (by decide) (by decide)
    ⟨utf8 "...", [], by simp, List.all_eq_true.mp (by decide), rfl⟩

end Complete

/-- A match is no piece of a longer run: no local-part character stands before it, and no letter
or digit behind it and the dots and hyphens there. -/
def Whole (value m : String) (p : Nat) : Prop :=
  ∃ a b : List Char, value.toList = a ++ (m.toList ++ b) ∧ (encode a).length + signAt m = p ∧
    (encode a).getLast?.any Validators.isEmailLocalChar = false ∧
    ((encode b).dropWhile isTrimmed).head?.any isAsciiAlphanumeric = false

/-- The runs around an `@` end within the caps of the two walks. -/
def RunsFit (bytes : List UInt8) (p : Nat) : Prop :=
  (localRun bytes p).length ≤ 64 ∧
    ∀ b ∈ (domainRun bytes p).drop 253, isAsciiAlphanumeric b = false

section Truncation
variable {value m : String} {bytes : List UInt8} {p : Nat}

theorem isTrimmed_or_alphanumeric {b : UInt8} (h : isDomainChar b = true) :
    isTrimmed b = !isAsciiAlphanumeric b := by
  rcases (isDomainChar_iff b).mp h with halnum | htrim
  · rw [halnum, Bool.not_true, ← Bool.not_eq_true]
    intro htrim
    have hword := isWordByte_of_trimmed htrim
    rw [isWordByte_of_alphanumeric b halnum] at hword
    cases hword
  · have hword := isWordByte_of_trimmed htrim
    rw [isWordByte, Bool.or_eq_false_iff] at hword
    rw [htrim, hword.1]
    rfl

/-- What stands before the local-part characters does not end in one. -/
theorem exists_front (bytes : List UInt8) (p : Nat) :
    ∃ front, bytes.take p = front ++ localRun bytes p ∧
      front.getLast?.any Validators.isEmailLocalChar = false := by
  refine ⟨(bytes.take p).rdropWhile Validators.isEmailLocalChar,
    List.rdropWhile_append_rtakeWhile.symm, ?_⟩
  by_cases hnil : (bytes.take p).rdropWhile Validators.isEmailLocalChar = []
  · rw [hnil]
    rfl
  · rw [List.getLast?_eq_some_getLast hnil, Option.any_some, ← Bool.not_eq_true]
    exact List.rdropWhile_last_not _ _ hnil

/-- The candidate starts where the local-part characters do, unless they are cut. -/
theorem getLast?_front_iff (hp : p ≤ bytes.length) :
    (bytes.take (candidateStart bytes p)).getLast?.any Validators.isEmailLocalChar = false ↔
      (localRun bytes p).length ≤ 64 := by
  have hchars : ∀ b ∈ localRun bytes p, Validators.isEmailLocalChar b = true :=
    fun b hb => List.mem_rtakeWhile_imp hb
  obtain ⟨front, hsplit, hfront⟩ := exists_front bytes p
  have hle : candidateStart bytes p ≤ p := Nat.sub_le p _
  have htake : bytes.take (candidateStart bytes p) =
      (front ++ localRun bytes p).take (candidateStart bytes p) := by
    rw [← hsplit, List.take_take, Nat.min_eq_left hle]
  have hlen := congrArg List.length hsplit
  rw [List.length_take_of_le hp, List.length_append] at hlen
  rw [htake]
  constructor
  · intro h
    by_contra hlong
    have hstart : candidateStart bytes p = front.length + ((localRun bytes p).length - 64) := by
      rw [candidateStart]
      omega
    have hne : (localRun bytes p).take ((localRun bytes p).length - 64) ≠ [] := by
      apply List.length_pos_iff.mp
      rw [List.length_take]
      omega
    have hlocal := hchars _ (List.mem_of_mem_take (List.getLast_mem hne))
    rw [hstart, List.take_length_add_append, List.getLast?_append_of_ne_nil _ hne,
      List.getLast?_eq_some_getLast hne, Option.any_some, hlocal] at h
    cases h
  · intro hshort
    have hstart : candidateStart bytes p = front.length := by
      rw [candidateStart]
      omega
    rw [hstart, List.take_left]
    exact hfront

/-- Behind the walk's cap no letter or digit is left exactly when what is not trimmed there is
outside the run. -/
theorem head?_dropWhile_iff {run tail : List UInt8} (hrun : ∀ b ∈ run, isDomainChar b = true)
    (htail : tail.head?.any isDomainChar = false) :
    ((run ++ tail).dropWhile isTrimmed).head?.any isAsciiAlphanumeric = false ↔
      ∀ b ∈ run, isAsciiAlphanumeric b = false := by
  induction run with
  | nil =>
    refine ⟨fun _ => List.forall_mem_nil _, fun _ => ?_⟩
    cases tail with
    | nil => rfl
    | cons b tail =>
      have hb : ¬ (isAsciiAlphanumeric b = true ∨ isTrimmed b = true) := by
        rw [← isDomainChar_iff]
        exact fun h => Bool.false_ne_true (htail.symm.trans h)
      rw [not_or, Bool.not_eq_true] at hb
      rw [List.nil_append, List.dropWhile_cons_of_neg hb.2]
      exact hb.1
  | cons b run ih =>
    obtain ⟨hb, hrun⟩ := List.forall_mem_cons.mp hrun
    have htrim := isTrimmed_or_alphanumeric hb
    rw [List.forall_mem_cons, List.cons_append]
    cases halnum : isAsciiAlphanumeric b with
    | true =>
      rw [halnum, Bool.not_true] at htrim
      rw [List.dropWhile_cons_of_neg (by simp [htrim]), List.head?_cons, Option.any_some, halnum]
      exact ⟨nofun, fun h => h.1⟩
    | false =>
      rw [halnum, Bool.not_false] at htrim
      rw [List.dropWhile_cons_of_pos htrim, ih hrun]
      exact ⟨fun h => ⟨rfl, h⟩, fun h => h.2⟩

theorem exists_tail (bytes : List UInt8) (p : Nat) :
    ∃ tail, bytes.drop (p + 1) = domainRun bytes p ++ tail ∧
      tail.head?.any isDomainChar = false := by
  refine ⟨(bytes.drop (p + 1)).dropWhile isDomainChar, List.takeWhile_append_dropWhile.symm, ?_⟩
  cases hrest : (bytes.drop (p + 1)).dropWhile isDomainChar with
  | nil => rfl
  | cons b rest =>
    have hne : (bytes.drop (p + 1)).dropWhile isDomainChar ≠ [] := by
      rw [hrest]
      exact List.cons_ne_nil b rest
    have hhead := List.head_dropWhile_not isDomainChar hne
    simp only [hrest, List.head_cons] at hhead
    exact hhead

theorem drop_domainStop {tail : List UInt8} (htail : bytes.drop (p + 1) = domainRun bytes p ++ tail) :
    bytes.drop (domainStop bytes p) = (domainRun bytes p).drop 253 ++ tail := by
  rw [domainStop, ← List.drop_drop, htail, List.drop_append_of_le_length (Nat.min_le_right _ _)]
  by_cases hlong : 253 ≤ (domainRun bytes p).length
  · rw [Nat.min_eq_left hlong]
  · have hshort : (domainRun bytes p).length ≤ 253 := by omega
    rw [Nat.min_eq_right hshort, List.drop_length, List.drop_eq_nil_of_le hshort]

/-- The bytes behind a candidate: those trimmed off it, then those behind the walk's end. -/
theorem exists_trimmed (bytes : List UInt8) (low stop : Nat) :
    ∃ trimmed, bytes.drop (trimEnd bytes low stop) = trimmed ++ bytes.drop stop ∧
      ∀ b ∈ trimmed, isTrimmed b = true := by
  have hle := trimEnd_le bytes low stop
  refine ⟨(bytes.drop (trimEnd bytes low stop)).take (stop - trimEnd bytes low stop), ?_, ?_⟩
  · have hjoin := List.take_append_drop (stop - trimEnd bytes low stop)
      (bytes.drop (trimEnd bytes low stop))
    rw [List.drop_drop, Nat.add_sub_cancel' hle] at hjoin
    exact hjoin.symm
  · intro b hb
    obtain ⟨k, hget⟩ := List.mem_iff_getElem?.mp hb
    rw [List.getElem?_take] at hget
    split at hget
    · rename_i hk
      rw [List.getElem?_drop] at hget
      have hlt : trimEnd bytes low stop + k < stop := by omega
      have hbyte := trimmed_of_trimEnd bytes (Nat.le_add_right _ k) hlt
      rw [byteAt, hget] at hbyte
      exact hbyte
    · cases hget

theorem Address.sign_unique {localPart domain : List UInt8}
    (h : Validators.Address m localPart domain) {k : Nat} (hk : (utf8 m)[k]? = some 64) :
    k = localPart.length := by
  rw [h.bytes] at hk
  rcases Nat.lt_trichotomy k localPart.length with hlt | heq | hlt
  · rw [List.getElem?_append_left hlt] at hk
    exact absurd (List.mem_of_getElem? hk) h.no_sign.1
  · exact heq
  · rw [List.getElem?_append_right (by omega)] at hk
    obtain ⟨i, hi⟩ := Nat.exists_eq_add_of_le (show 1 ≤ k - localPart.length by omega)
    rw [hi, Nat.add_comm, List.getElem?_cons_succ] at hk
    exact absurd (List.mem_of_getElem? hk) h.no_sign.2

/-- A match and its surroundings, as texts. -/
theorem split_of_findsAt (h : FindsAt value p m) :
    ∃ a b : List Char, value.toList = a ++ (m.toList ++ b) ∧ (encode a).length + signAt m = p ∧
      encode a = (utf8 value).take (candidateStart (utf8 value) p) ∧
      encode b = (utf8 value).drop
        (trimEnd (utf8 value) (p + 1) (domainStop (utf8 value) p)) := by
  have hp := Nat.le_of_lt (lt_of_byteAt h.1)
  have hstart : localStart (utf8 value) (p - 64) p = candidateStart (utf8 value) p :=
    localStart_eq (utf8 value) hp 64
  have hstop : candidateEnd (utf8 value) p =
      trimEnd (utf8 value) (p + 1) (domainStop (utf8 value) p) := by
    rw [candidateEnd, domainEnd_eq]
    rfl
  have hslice := slice_of_found h.2
  have hsign := sign_of_findsAt h
  have hle := localStart_le (utf8 value) (p - 64) p
  rw [hstart] at hslice hsign hle
  rw [hstop] at hslice
  obtain ⟨a, b, hvalue, ha, hlen⟩ := slice?_eq_some.mp hslice
  obtain ⟨localPart, domain, haddress⟩ :=
    Validators.exists_address (Option.filter_eq_some_iff.mp h.2).2
  have hbytes : utf8 value = encode a ++ (utf8 m ++ encode b) := by
    rw [utf8_eq_encode, hvalue, encode_append, encode_append]
    rfl
  refine ⟨a, b, hvalue, ?_, ?_, ?_⟩
  · rw [signAt_eq haddress, ← Address.sign_unique haddress hsign]
    omega
  · rw [← ha, hbytes, List.take_left]
  · rw [← hlen, ← ha, hbytes, ← List.append_assoc, ← List.length_append, List.drop_left]

theorem whole_iff_runsFit (h : FindsAt value p m) :
    Whole value m p ↔ RunsFit (utf8 value) p := by
  obtain ⟨a, b, hvalue, hpos, ha, hb⟩ := split_of_findsAt h
  have hsame : Whole value m p ↔ (encode a).getLast?.any Validators.isEmailLocalChar = false ∧
      ((encode b).dropWhile isTrimmed).head?.any isAsciiAlphanumeric = false := by
    constructor
    · rintro ⟨a', b', hvalue', hpos', hwhole⟩
      have hlen : (encode a').length = (encode a).length := by omega
      obtain ⟨d, rfl, hrest⟩ :=
        exists_append_of_le (hvalue'.symm.trans hvalue) (Nat.le_of_eq hlen)
      have hd : d = [] := by
        apply List.eq_nil_of_length_eq_zero
        have hle := length_le_encode d
        rw [encode_append, List.length_append] at hlen
        omega
      subst hd
      rw [List.nil_append] at hrest
      rw [List.append_nil, ← List.append_cancel_left hrest]
      exact hwhole
    · exact fun hwhole => ⟨a, b, hvalue, hpos, hwhole⟩
  obtain ⟨tail, htail, hhead⟩ := exists_tail (utf8 value) p
  obtain ⟨trimmed, htrimmed, hall⟩ :=
    exists_trimmed (utf8 value) (p + 1) (domainStop (utf8 value) p)
  have hchars : ∀ b ∈ (domainRun (utf8 value) p).drop 253, isDomainChar b = true :=
    fun b hb => List.mem_takeWhile_imp (List.mem_of_mem_drop hb)
  rw [hsame, ha, hb, getLast?_front_iff (Nat.le_of_lt (lt_of_byteAt h.1)), htrimmed,
    List.dropWhile_append_of_pos hall, drop_domainStop htail, head?_dropWhile_iff hchars hhead]
  rfl

theorem whole_iff_runsFit_short :
    Whole "write to ann@example.org. Thanks" "ann@example.org" 12 ↔
      RunsFit (utf8 "write to ann@example.org. Thanks") 12 :=
  whole_iff_runsFit (by unfold FindsAt; decide +kernel)

theorem Whole.front (h : Whole value m p) :
    byteBefore Validators.isEmailLocalChar (utf8 value) (p - signAt m) = false := by
  obtain ⟨a, b, hvalue, hpos, hlast, _⟩ := h
  have hstart : p - signAt m = (encode a).length := by omega
  rw [hstart, utf8_eq_encode, hvalue, encode_append, byteBefore_append]
  exact hlast

/-- An address behind a local part of 65 letters, which is cut to 64. -/
theorem cut_address_found : ¬ ∀ (value m : String) (p : Nat), FindsAt value p m → Whole value m p := by
  intro hall
  have hfound : FindsAt (String.ofList (List.replicate 65 'a' ++ "@example.org".toList)) 65
      (String.ofList (List.replicate 64 'a' ++ "@example.org".toList)) := by
    unfold FindsAt
    decide +kernel
  have hfront := (hall _ _ _ hfound).front
  have hletter : byteBefore Validators.isEmailLocalChar
      (utf8 (String.ofList (List.replicate 65 'a' ++ "@example.org".toList)))
      (65 - signAt (String.ofList (List.replicate 64 'a' ++ "@example.org".toList))) = true := by
    decide +kernel
  rw [hletter] at hfront
  cases hfront

end Truncation

end Email

end PgSense
