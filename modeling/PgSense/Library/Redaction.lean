import Mathlib.Data.List.TakeDrop

/-! Redaction: a list whose inner elements are replaced by a filler. Only the length and
the elements at both ends can be told from the result. -/

namespace PgSense.Library
set_option autoImplicit false

universe u
variable {α : Type u}

/-- The first and the last `k` elements around fillers. -/
def redact (filler : α) (k : Nat) (xs : List α) : List α :=
  xs.take k ++ List.replicate (xs.length - 2 * k) filler ++ xs.drop (xs.length - k)

section Redact
variable (filler : α) {k : Nat} {xs ys : List α}

theorem length_redact (h : 2 * k ≤ xs.length) : (redact filler k xs).length = xs.length := by
  simp only [redact, List.length_append, List.length_take, List.length_replicate,
    List.length_drop]
  omega

theorem take_redact (h : 2 * k ≤ xs.length) : (redact filler k xs).take k = xs.take k := by
  have hlen : (xs.take k).length = k := List.length_take_of_le (by omega)
  rw [redact, List.append_assoc, List.take_left' hlen]

theorem drop_redact (h : 2 * k ≤ xs.length) :
    (redact filler k xs).drop (xs.length - k) = xs.drop (xs.length - k) := by
  have hlen : (xs.take k ++ List.replicate (xs.length - 2 * k) filler).length =
      xs.length - k := by
    rw [List.length_append, List.length_replicate, List.length_take_of_le (by omega)]
    omega
  rw [redact, List.drop_left' hlen]

/-- What is not at one of the ends is a filler. -/
theorem getElem?_redact (h : 2 * k ≤ xs.length) (i : Nat) : (redact filler k xs)[i]? =
    if k ≤ i ∧ i < xs.length - k then some filler else xs[i]? := by
  have hlen : (xs.take k).length = k := List.length_take_of_le (by omega)
  split
  · rename_i hinner
    rw [redact, List.append_assoc, List.getElem?_append_right (by omega),
      List.getElem?_append_left (by rw [List.length_replicate]; omega),
      List.getElem?_replicate_of_lt (by omega)]
  · rename_i houter
    by_cases hfirst : i < k
    · rw [← List.getElem?_take_of_lt hfirst, take_redact filler h, List.getElem?_take_of_lt hfirst]
    · have hlast : xs.length - k + (i - (xs.length - k)) = i := by omega
      have hdrop := congrArg (fun l => l[i - (xs.length - k)]?) (drop_redact filler h)
      simp only [List.getElem?_drop, hlast] at hdrop
      exact hdrop

/-- Redacted lists of one length are equal exactly when the lists agree at the ends. -/
theorem redact_eq_iff (h : 2 * k ≤ xs.length) (hlen : xs.length = ys.length) :
    redact filler k xs = redact filler k ys ↔
      xs.take k = ys.take k ∧ xs.drop (xs.length - k) = ys.drop (xs.length - k) := by
  have h' : 2 * k ≤ ys.length := by omega
  constructor
  · intro heq
    constructor
    · rw [← take_redact filler h, heq, take_redact filler h']
    · rw [← drop_redact filler h, heq, hlen, drop_redact filler h']
  · rintro ⟨hfront, hback⟩
    rw [redact, redact, hfront, hback, hlen]

theorem redact_redact (h : 2 * k ≤ xs.length) :
    redact filler k (redact filler k xs) = redact filler k xs := by
  have hlen := length_redact filler h
  apply (redact_eq_iff filler (by omega) hlen).mpr
  rw [hlen]
  exact ⟨take_redact filler h, drop_redact filler h⟩

end Redact

section Fillers
variable {filler c : α} {n : Nat} {r a b : List α}

theorem eq_nil_of_avoids_head (h : r <+: c :: b) (hr : c ∉ r) : r = [] := by
  cases r with
  | nil => rfl
  | cons d r =>
    obtain ⟨rfl, _⟩ := List.cons_prefix_cons.mp h
    exact absurd List.mem_cons_self hr

/-- A stretch without an element lies on one side of it. -/
theorem infix_of_avoids (h : r <:+: a ++ c :: b) (hr : c ∉ r) : r <:+: a ∨ r <:+: b := by
  rcases List.infix_append_iff.mp h with ha | hb | ⟨front, back, rfl, ha, hb⟩
  · exact .inl ha
  · rcases List.infix_cons_iff.mp hb with hhead | hb
    · rw [eq_nil_of_avoids_head hhead hr]
      exact .inl List.nil_infix
    · exact .inr hb
  · have hnot : c ∉ back := fun hc => hr (List.mem_append_right front hc)
    rw [eq_nil_of_avoids_head hb hnot, List.append_nil]
    exact .inl ha.isInfix

theorem infix_of_avoids_replicate (h : r <:+: List.replicate n filler ++ b) (hr : filler ∉ r) :
    r <:+: b := by
  induction n with
  | zero => exact h
  | succ n ih =>
    rcases infix_of_avoids (a := []) h hr with hnil | hrest
    · rw [List.infix_nil.mp hnil]
      exact List.nil_infix
    · exact ih hrest

/-- A stretch without fillers lies on one side of the fillers. -/
theorem infix_of_avoids_fillers (h : r <:+: a ++ (List.replicate n filler ++ b))
    (hr : filler ∉ r) (hn : 0 < n ∨ a = []) : r <:+: a ∨ r <:+: b := by
  cases n with
  | zero =>
    rw [hn.resolve_left (Nat.lt_irrefl 0)] at h
    exact .inr h
  | succ n => exact (infix_of_avoids h hr).imp_right fun hrest => infix_of_avoids_replicate hrest hr

end Fillers

end PgSense.Library
