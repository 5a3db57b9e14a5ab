import Mathlib.Data.List.Count

/-! Counters with labels, as a metrics registry keeps them: each increment is of one
label, and only the number of increments of a label can be read. -/

namespace PgSense.Library
set_option autoImplicit false

universe u v

structure CounterVec (κ : Type u) where
  increments : List κ

namespace CounterVec
variable {κ : Type u}

def zero : CounterVec κ := ⟨[]⟩

def inc (c : CounterVec κ) (label : κ) : CounterVec κ := ⟨c.increments ++ [label]⟩

/-- One increment for each label of a list. -/
def incEach (c : CounterVec κ) (labels : List κ) : CounterVec κ := ⟨c.increments ++ labels⟩

def value [DecidableEq κ] (c : CounterVec κ) (label : κ) : Nat := c.increments.countP fun l => l = label

/-- The sum of a counter over the labels with a property. -/
def sum (c : CounterVec κ) (p : κ → Bool) : Nat := c.increments.countP p

@[simp] theorem value_zero [DecidableEq κ] (label : κ) : (zero : CounterVec κ).value label = 0 := rfl

@[simp] theorem sum_zero (p : κ → Bool) : (zero : CounterVec κ).sum p = 0 := rfl

@[simp] theorem value_inc [DecidableEq κ] (c : CounterVec κ) (label other : κ) :
    (c.inc label).value other = c.value other + if label = other then 1 else 0 := by
  simp [value, inc, List.countP_append, List.countP_singleton]

@[simp] theorem value_incEach [DecidableEq κ] (c : CounterVec κ) (labels : List κ) (label : κ) :
    (c.incEach labels).value label = c.value label + labels.countP fun l => l = label := by
  simp [value, incEach, List.countP_append]

@[simp] theorem sum_incEach (c : CounterVec κ) (labels : List κ) (p : κ → Bool) :
    (c.incEach labels).sum p = c.sum p + labels.countP p := by
  simp [sum, incEach, List.countP_append]

end CounterVec

end PgSense.Library
