import PgSense.Library.Hashing
import PgSense.Library.Pieces
import PgSense.Rules.EmailMatches

/-! The grammar behind `validate = "email"`: two dotted lists around an `@`. -/

namespace PgSense
open Library
set_option autoImplicit false

namespace Validators

/-- A part of the local part between dots. -/
def IsAtom (atom : List UInt8) : Prop :=
  atom ≠ [] ∧ ∀ b ∈ atom, isEmailLocalChar b = true ∧ b ≠ 46

/-- Letters, digits and hyphens, no hyphen at either end. -/
structure IsLabel (label : List UInt8) : Prop where
  length_le : label.length ≤ 63
  chars : ∀ b ∈ label, isAsciiAlphanumeric b = true ∨ b = 45
  first : label.head?.any isAsciiAlphanumeric = true
  last : label.getLast?.any isAsciiAlphanumeric = true

def dotted (parts : List (List UInt8)) : List UInt8 := [46].intercalate parts

/-- An address with the atoms of its local part and the labels of its domain. -/
structure Mailbox (s : String) (parts : List (List UInt8) × List (List UInt8)) : Prop where
  bytes : utf8 s = dotted parts.1 ++ 64 :: dotted parts.2
  atoms : parts.1 ≠ [] ∧ ∀ atom ∈ parts.1, IsAtom atom
  local_le : (dotted parts.1).length ≤ 64
  labels : 2 ≤ parts.2.length ∧ ∀ label ∈ parts.2, IsLabel label
  domain_le : (dotted parts.2).length ≤ 253
  topLevel : ∀ label ∈ parts.2.getLast?, 2 ≤ label.length ∧ ∀ b ∈ label, isAsciiAlphabetic b = true

theorem splitOn_eq (sep : UInt8) (bs : List UInt8) : splitOn sep bs = bs.splitOn sep := by
  induction bs with
  | nil => rfl
  | cons b bs ih =>
    rw [splitOn, List.splitOn_cons_eq_if_modifyHead, ih]
    cases hsplit : bs.splitOn sep with
    | nil => exact absurd hsplit (List.splitOn_ne_nil sep bs)
    | cons first rest => rfl

theorem hasDoubleDot_eq_false (bs : List UInt8) :
    hasDoubleDot bs = false ↔ bs.IsChain fun a b => ¬ (a = 46 ∧ b = 46) := by
  induction bs with
  | nil => simp [hasDoubleDot]
  | cons a bs ih =>
    cases bs with
    | nil => simp [hasDoubleDot]
    | cons b bs =>
      rw [hasDoubleDot, List.isChain_cons_cons, ← ih, Bool.or_eq_false_iff]
      simp

theorem dotted_splitOn (bs : List UInt8) : dotted (bs.splitOn 46) = bs :=
  List.intercalate_splitOn 46

theorem splitOn_dotted {parts : List (List UInt8)} (hne : parts ≠ [])
    (h : ∀ part ∈ parts, 46 ∉ part) : (dotted parts).splitOn 46 = parts :=
  List.splitOn_intercalate 46 h hne

theorem IsAtom.no_dot {atom : List UInt8} (h : IsAtom atom) : 46 ∉ atom :=
  fun hmem => (h.2 46 hmem).2 rfl

theorem IsLabel.no_dot {label : List UInt8} (h : IsLabel label) : 46 ∉ label := by
  intro hmem
  rcases h.chars 46 hmem with hdot | hdot
  · cases hdot
  · cases hdot

/-- The dots stand where no atom is empty. -/
theorem emailLocalOk_iff (localPart : List UInt8) :
    emailLocalOk localPart = true ↔
      localPart.length ≤ 64 ∧ ∀ atom ∈ localPart.splitOn 46, IsAtom atom := by
  have hpieces := pieces_ne_nil_iff 46 localPart
  rw [← hasDoubleDot_eq_false] at hpieces
  have hchars : (∀ b ∈ localPart, isEmailLocalChar b = true) ↔
      ∀ atom ∈ localPart.splitOn 46, ∀ b ∈ atom, isEmailLocalChar b = true ∧ b ≠ 46 := by
    constructor
    · intro h atom hatom b hb
      obtain ⟨hmem, hne⟩ := mem_piece hatom hb
      exact ⟨h b hmem, hne⟩
    · intro h b hb
      rcases mem_splitOn 46 hb with rfl | ⟨atom, hatom, hmem⟩
      · rfl
      · rw [splitOn_eq] at hatom
        exact (h atom hatom b hmem).1
  have hsplit : (∀ atom ∈ localPart.splitOn 46, IsAtom atom) ↔
      (∀ atom ∈ localPart.splitOn 46, atom ≠ []) ∧
        ∀ atom ∈ localPart.splitOn 46, ∀ b ∈ atom, isEmailLocalChar b = true ∧ b ≠ 46 := by
    constructor
    · intro h
      exact ⟨fun atom hatom => (h atom hatom).1, fun atom hatom => (h atom hatom).2⟩
    · intro h atom hatom
      exact ⟨h.1 atom hatom, h.2 atom hatom⟩
  rw [hsplit, hpieces, ← hchars]
  simp only [emailLocalOk, Bool.and_eq_true, Bool.not_eq_true', Bool.or_eq_false_iff,
    List.isEmpty_eq_false_iff, decide_eq_false_iff_not, Nat.not_lt, beq_eq_false_iff_ne,
    List.all_eq_true, ne_eq]
  tauto

theorem emailLabelOk_iff (label : List UInt8) : emailLabelOk label = true ↔ IsLabel label := by
  simp only [emailLabelOk, Bool.and_eq_true, Bool.not_eq_true', Bool.or_eq_false_iff,
    List.isEmpty_eq_false_iff, decide_eq_false_iff_not, Nat.not_lt, beq_eq_false_iff_ne,
    List.all_eq_true, Bool.or_eq_true, beq_iff_eq, ne_eq]
  have hend : ∀ b ∈ label, (isAsciiAlphanumeric b = true ∨ b = 45) →
      (b ≠ 45 ↔ isAsciiAlphanumeric b = true) := by
    intro b _ hchar
    constructor
    · exact fun hne => hchar.resolve_right hne
    · rintro halnum rfl
      cases halnum
  constructor
  · rintro ⟨⟨⟨hne, hlength⟩, hfirst, hlast⟩, hchars⟩
    refine ⟨hlength, hchars, ?_, ?_⟩
    · rw [List.head?_eq_some_head hne] at hfirst ⊢
      have hmem := List.head_mem hne
      exact (hend _ hmem (hchars _ hmem)).mp fun heq => hfirst (congrArg some heq)
    · rw [List.getLast?_eq_some_getLast hne] at hlast ⊢
      have hmem := List.getLast_mem hne
      exact (hend _ hmem (hchars _ hmem)).mp fun heq => hlast (congrArg some heq)
  · rintro ⟨hlength, hchars, hfirst, hlast⟩
    have hne : label ≠ [] := by
      rintro rfl
      cases hfirst
    refine ⟨⟨⟨hne, hlength⟩, ?_, ?_⟩, hchars⟩
    · intro heq
      rw [heq] at hfirst
      cases hfirst
    · intro heq
      rw [heq] at hlast
      cases hlast

theorem emailDomainOk_iff (domain : List UInt8) :
    emailDomainOk domain = true ↔ domain.length ≤ 253 ∧
      (2 ≤ (domain.splitOn 46).length ∧ ∀ label ∈ domain.splitOn 46, IsLabel label) ∧
        ∀ label ∈ (domain.splitOn 46).getLast?,
          2 ≤ label.length ∧ ∀ b ∈ label, isAsciiAlphabetic b = true := by
  have hne := List.splitOn_ne_nil (46 : UInt8) domain
  have hlast : (domain.splitOn 46).getLastD [] = (domain.splitOn 46).getLast hne := by
    rw [List.getLastD_eq_getLast?, List.getLast?_eq_some_getLast hne, Option.getD_some]
  have hempty : 2 ≤ (domain.splitOn 46).length → domain ≠ [] := by
    rintro h rfl
    simp at h
  rw [List.getLast?_eq_some_getLast hne]
  simp only [emailDomainOk, splitOn_eq, hlast, Bool.and_eq_true, Bool.not_eq_true',
    Bool.or_eq_false_iff, List.isEmpty_eq_false_iff, decide_eq_false_iff_not, Nat.not_lt,
    decide_eq_true_eq, List.all_eq_true, emailLabelOk_iff, Option.mem_def, Option.some.injEq,
    forall_eq']
  tauto

theorem no_sign_local {localPart : List UInt8} (h : emailLocalOk localPart = true) :
    64 ∉ localPart := by
  intro hmem
  simp only [emailLocalOk, Bool.and_eq_true, List.all_eq_true] at h
  exact absurd (h.2 64 hmem) Bool.false_ne_true

theorem no_sign_domain {domain : List UInt8} (h : emailDomainOk domain = true) : 64 ∉ domain :=
  fun hmem => absurd (mem_emailDomain h 64 hmem) Bool.false_ne_true

theorem email_eq_true (s : String) :
    email s = true ↔ ∃ localPart domain, utf8 s = localPart ++ 64 :: domain ∧
      emailLocalOk localPart = true ∧ emailDomainOk domain = true := by
  unfold email
  rw [List.span_eq_takeWhile_dropWhile]
  constructor
  · intro h
    have hbytes := List.takeWhile_append_dropWhile (p := (· != 64)) (l := utf8 s)
    have hhead := List.head?_dropWhile_not (· != 64) (utf8 s)
    cases hrest : (utf8 s).dropWhile (· != 64) with
    | nil =>
      rw [hrest] at h
      cases h
    | cons sign domain =>
      rw [hrest] at h hhead hbytes
      have hsign : sign = 64 := by simpa using hhead
      subst hsign
      simp only [Bool.and_eq_true] at h
      exact ⟨_, domain, hbytes.symm, h.1.2, h.2⟩
  · rintro ⟨localPart, domain, hbytes, hlocal, hdomain⟩
    have htake : (utf8 s).takeWhile (· != 64) = localPart := by
      rw [hbytes, Email.takeWhile_append_stop _ rfl]
      intro b hb
      rw [bne_iff_ne]
      rintro rfl
      exact no_sign_local hlocal hb
    have hdrop : (utf8 s).dropWhile (· != 64) = 64 :: domain := by
      have hparts := List.takeWhile_append_dropWhile (p := (· != 64)) (l := utf8 s)
      rw [htake] at hparts
      exact List.append_cancel_left (hparts.trans hbytes)
    rw [htake, hdrop]
    simp [hlocal, hdomain, no_sign_domain hdomain]

section Mailboxes
variable {s : String} {parts : List (List UInt8) × List (List UInt8)}

theorem Mailbox.splitOn_local (h : Mailbox s parts) : (dotted parts.1).splitOn 46 = parts.1 :=
  splitOn_dotted h.atoms.1 fun atom hatom => (h.atoms.2 atom hatom).no_dot

theorem Mailbox.splitOn_domain (h : Mailbox s parts) : (dotted parts.2).splitOn 46 = parts.2 := by
  apply splitOn_dotted
  · intro hnil
    have hlength := h.labels.1
    rw [hnil] at hlength
    cases hlength
  · exact fun label hlabel => (h.labels.2 label hlabel).no_dot

theorem Mailbox.localOk (h : Mailbox s parts) : emailLocalOk (dotted parts.1) = true := by
  rw [emailLocalOk_iff, h.splitOn_local]
  exact ⟨h.local_le, h.atoms.2⟩

theorem Mailbox.domainOk (h : Mailbox s parts) : emailDomainOk (dotted parts.2) = true := by
  rw [emailDomainOk_iff, h.splitOn_domain]
  exact ⟨h.domain_le, h.labels, h.topLevel⟩

end Mailboxes

/-- What `email` accepts, by its grammar: dotted atoms, an `@` and at least two dotted
labels, each part within its length, the last label of letters only. An accepted text has
one such reading. -/
theorem email_iff (s : String) : email s = true ↔ ∃! parts, Mailbox s parts := by
  rw [email_eq_true]
  constructor
  · rintro ⟨localPart, domain, hbytes, hlocal, hdomain⟩
    have hsign := no_sign_local hlocal
    rw [emailLocalOk_iff] at hlocal
    rw [emailDomainOk_iff] at hdomain
    refine ⟨(localPart.splitOn 46, domain.splitOn 46), ?_, ?_⟩
    · constructor
      · rw [dotted_splitOn, dotted_splitOn, hbytes]
      · exact ⟨List.splitOn_ne_nil _ _, hlocal.2⟩
      · rw [dotted_splitOn]
        exact hlocal.1
      · exact hdomain.2.1
      · rw [dotted_splitOn]
        exact hdomain.1
      · exact hdomain.2.2
    · intro parts hmailbox
      obtain ⟨hsame, hsame'⟩ := SelfDelimiting.append_terminator_inj (no_sign_local hmailbox.localOk) hsign
        (hmailbox.bytes.symm.trans hbytes)
      rw [← hsame, ← hsame', hmailbox.splitOn_local, hmailbox.splitOn_domain]
  · rintro ⟨parts, hmailbox, _⟩
    exact ⟨_, _, hmailbox.bytes, hmailbox.localOk, hmailbox.domainOk⟩

end Validators

end PgSense
