import PgSense.Library.Outcome

/-! Operations that panic outside their range: indexing, array stores, unwrapping and
arithmetic in a type with a greatest value. Inside its range each returns the value of the
operation on lists or naturals. -/

namespace PgSense.Library
set_option autoImplicit false

/-- A computation that returns or panics. -/
abbrev Checked (α : Type) : Type := Outcome Empty α

namespace Checked
variable {α β : Type}

/-- The panic of a sum, difference or product that the type cannot hold. -/
def overflow : Checked α := .panic "arithmetic operation overflows"

/-- `n` has a place in a type whose greatest value is `max`. -/
def fits (max n : Nat) : Checked Unit := if n ≤ max then .ok () else overflow

def add (max a b : Nat) : Checked Nat := if a + b ≤ max then .ok (a + b) else overflow

def mul (max a b : Nat) : Checked Nat := if a * b ≤ max then .ok (a * b) else overflow

def sub (a b : Nat) : Checked Nat := if b ≤ a then .ok (a - b) else overflow

def index (xs : List α) (i : Nat) : Checked α :=
  match xs[i]? with
  | some x => .ok x
  | none => .panic "index out of bounds"

def store (xs : List α) (i : Nat) (x : α) : Checked (List α) :=
  if i < xs.length then .ok (xs.set i x) else .panic "index out of bounds"

/-- `xs[i..j]` -/
def range (xs : List α) (i j : Nat) : Checked (List α) :=
  if i ≤ j ∧ j ≤ xs.length then .ok ((xs.drop i).take (j - i))
  else .panic "range out of bounds"

def unwrap : Option α → Checked α
  | some x => .ok x
  | none => .panic "unwrap of a none value"

section Range
variable {max a b n i j : Nat} {xs : List α}

theorem fits_ok (h : n ≤ max) : fits max n = .ok () := if_pos h

theorem add_ok (h : a + b ≤ max) : add max a b = .ok (a + b) := if_pos h

theorem mul_ok (h : a * b ≤ max) : mul max a b = .ok (a * b) := if_pos h

theorem sub_ok (h : b ≤ a) : sub a b = .ok (a - b) := if_pos h

theorem index_ok {x : α} (h : xs[i]? = some x) : index xs i = .ok x := by
  rw [index, h]

theorem index_lt (h : i < xs.length) : index xs i = .ok xs[i] :=
  index_ok (List.getElem?_eq_getElem h)

theorem store_ok (x : α) (h : i < xs.length) : store xs i x = .ok (xs.set i x) := if_pos h

/-- A store at `i` appends to the `i` values before it. -/
theorem take_set_succ (x : α) (h : i < xs.length) :
    (xs.set i x).take (i + 1) = xs.take i ++ [x] := by
  have hset : i < (xs.set i x).length := by rw [List.length_set]; exact h
  rw [List.take_succ_eq_append_getElem hset, List.getElem_set_self,
    List.take_set_of_le (Nat.le_refl i)]

theorem range_ok (hij : i ≤ j) (hj : j ≤ xs.length) :
    range xs i j = .ok ((xs.drop i).take (j - i)) := if_pos ⟨hij, hj⟩

end Range

/-- A loop over a list whose every turn returns, returns. -/
theorem mapM_ok {f : α → Checked β} {g : α → β} {as : List α}
    (h : ∀ a ∈ as, f a = .ok (g a)) : as.mapM f = .ok (as.map g) := by
  induction as with
  | nil => rfl
  | cons a as ih =>
    have hrest := ih (fun b hb => h b (List.mem_cons_of_mem a hb))
    rw [List.mapM_cons, h a List.mem_cons_self, hrest]
    rfl

end Checked

end PgSense.Library
