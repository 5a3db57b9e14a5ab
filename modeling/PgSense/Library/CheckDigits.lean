import Mathlib.Data.Nat.Digits.Defs
import Mathlib.Data.Nat.ModEq

/-! Check digits. A numeral read symbol by symbol modulo `m`, and a sum with two weights in
turn: what each computes, and which errors in the symbols change the residue. -/

namespace PgSense.Library
set_option autoImplicit false

universe u
variable {α : Type u} {base m : Nat}

section Numerals

/-- The number that digits denote, the most significant first. -/
def numeral (base : Nat) (ds : List Nat) : Nat := Nat.ofDigits base ds.reverse

theorem numeral_append (xs ys : List Nat) :
    numeral base (xs ++ ys) = numeral base xs * base ^ ys.length + numeral base ys := by
  rw [numeral, List.reverse_append, Nat.ofDigits_append, List.length_reverse, Nat.add_comm,
    Nat.mul_comm]
  rfl

/-- One step of a reading modulo `m`: the digits of a symbol are shifted in. -/
theorem numeral_append_mod (xs ys : List Nat) :
    (numeral base xs % m * base ^ ys.length + numeral base ys) % m =
      numeral base (xs ++ ys) % m := by
  rw [numeral_append, Nat.add_mod, Nat.mod_mul_mod, ← Nat.add_mod]

/-- A reading that keeps the residue only. -/
theorem foldlM_residue {spell : α → List Nat} {step : Nat → α → Option Nat} {as : List α}
    (hstep : ∀ a ∈ as, ∀ r,
      step r a = some ((r * base ^ (spell a).length + numeral base (spell a)) % m))
    (front : List Nat) :
    as.foldlM step (numeral base front % m) =
      some (numeral base (front ++ as.flatMap spell) % m) := by
  induction as generalizing front with
  | nil => simp
  | cons a as ih =>
    have hrest := ih (fun a' ha' => hstep a' (List.mem_cons_of_mem a ha')) (front ++ spell a)
    rw [List.foldlM_cons, hstep a List.mem_cons_self, numeral_append_mod, Option.bind_eq_bind,
      Option.bind_some, hrest, List.flatMap_cons, List.append_assoc]

/-- With a base coprime to `m` every position counts. -/
theorem numeral_substitute (hcop : Nat.Coprime base m) {xs ys : List Nat}
    (hlen : xs.length = ys.length) (pre post : List Nat) :
    numeral base (pre ++ (xs ++ post)) ≡ numeral base (pre ++ (ys ++ post)) [MOD m] ↔
      numeral base xs ≡ numeral base ys [MOD m] := by
  have hsplit : ∀ zs : List Nat, numeral base (pre ++ (zs ++ post)) =
      numeral base pre * base ^ (zs.length + post.length) +
        (numeral base zs * base ^ post.length + numeral base post) := by
    intro zs
    rw [numeral_append, numeral_append, List.length_append]
  rw [hsplit, hsplit, hlen]
  constructor
  · intro h
    have hinner := Nat.ModEq.add_right_cancel' _ (Nat.ModEq.add_left_cancel' _ h)
    have hpow : Nat.gcd m (base ^ post.length) = 1 := (Nat.Coprime.pow_left _ hcop).symm
    exact Nat.ModEq.cancel_right_of_coprime hpow hinner
  · intro h
    exact Nat.ModEq.add_left _ (Nat.ModEq.add_right _ (Nat.ModEq.mul_right _ h))

end Numerals

section Alternating

/-- The sum with the weights `f` and `g` in turn. -/
def alternating (f g : α → Nat) : List α → Nat
  | [] => 0
  | a :: as => f a + alternating g f as

variable {f g : α → Nat}

theorem alternating_append (xs ys : List α) : alternating f g (xs ++ ys) =
    alternating f g xs +
      if xs.length % 2 = 0 then alternating f g ys else alternating g f ys := by
  induction xs generalizing f g with
  | nil => simp [alternating]
  | cons x xs ih =>
    rw [List.cons_append, alternating, alternating, ih, Nat.add_assoc, List.length_cons]
    rcases Nat.mod_two_eq_zero_or_one xs.length with heven | hodd
    · rw [if_pos heven, if_neg (by omega)]
    · rw [if_neg (by omega), if_pos (by omega)]

/-- The weights by position, counted from 0. -/
theorem alternating_eq_sum (xs : List α) (n : Nat) :
    (if n % 2 = 0 then alternating f g xs else alternating g f xs) =
      ((xs.zipIdx n).map fun p => if p.2 % 2 = 0 then f p.1 else g p.1).sum := by
  induction xs generalizing n with
  | nil => simp [alternating]
  | cons x xs ih =>
    rw [List.zipIdx_cons, List.map_cons, List.sum_cons, ← ih, alternating, alternating]
    rcases Nat.mod_two_eq_zero_or_one n with heven | hodd
    · rw [if_pos heven, if_pos heven, if_neg (by omega)]
    · rw [if_neg (by omega), if_neg (by omega), if_pos (by omega)]

/-- Where both weights separate two symbols, one cannot stand for the other. -/
theorem alternating_substitute {a b : α} (hf : f a ≡ f b [MOD m] → a = b)
    (hg : g a ≡ g b [MOD m] → a = b) {pre post : List α}
    (h : alternating f g (pre ++ a :: post) ≡ alternating f g (pre ++ b :: post) [MOD m]) :
    a = b := by
  rw [alternating_append, alternating_append] at h
  have hrest := Nat.ModEq.add_left_cancel' _ h
  split at hrest
  · exact hf (Nat.ModEq.add_right_cancel' _ hrest)
  · exact hg (Nat.ModEq.add_right_cancel' _ hrest)

/-- Neighbours can change places unnoticed where the weights do not tell their order. -/
theorem alternating_swap (a b : α) (pre post : List α) :
    alternating f g (pre ++ a :: b :: post) ≡ alternating f g (pre ++ b :: a :: post) [MOD m] ↔
      f a + g b ≡ f b + g a [MOD m] := by
  have hpair : ∀ (f g : α → Nat) (x y : α), alternating f g (x :: y :: post) =
      f x + g y + alternating f g post := by
    intro f g x y
    rw [alternating, alternating, Nat.add_assoc]
  rw [alternating_append, alternating_append]
  constructor
  · intro h
    have hrest := Nat.ModEq.add_left_cancel' _ h
    rw [hpair, hpair, hpair, hpair] at hrest
    split at hrest
    · exact Nat.ModEq.add_right_cancel' _ hrest
    · have hsame := Nat.ModEq.add_right_cancel' _ hrest
      rw [Nat.add_comm (g a), Nat.add_comm (g b)] at hsame
      exact hsame.symm
  · intro h
    apply Nat.ModEq.add_left
    rw [hpair, hpair, hpair, hpair]
    split
    · exact Nat.ModEq.add_right _ h
    · rw [Nat.add_comm (g a), Nat.add_comm (g b)]
      exact Nat.ModEq.add_right _ h.symm

end Alternating

end PgSense.Library
