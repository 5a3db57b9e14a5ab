import Mathlib.Data.List.Forall2

/-! Fallible computations with three ways to end: a value, a returned error, or
a panic that unwinds past every caller. A caller can recover from the second
outcome only. -/

namespace PgSense.Library
set_option autoImplicit false

universe u
variable {ε α β γ : Type u}

inductive Outcome (ε α : Type u) : Type u where
  | ok (value : α)
  | err (error : ε)
  | panic (message : String)
  deriving DecidableEq, Repr

namespace Outcome

def bind : Outcome ε α → (α → Outcome ε β) → Outcome ε β
  | ok a, f => f a
  | err e, _ => err e
  | panic m, _ => panic m

instance : Monad (Outcome ε) where
  pure := ok
  bind := bind

@[simp] theorem pure_eq (a : α) : (pure a : Outcome ε α) = ok a := rfl

@[simp] theorem ok_bind (a : α) (f : α → Outcome ε β) : (ok a >>= f) = f a := rfl

@[simp] theorem err_bind (e : ε) (f : α → Outcome ε β) :
    ((err e : Outcome ε α) >>= f) = err e := rfl

@[simp] theorem panic_bind (m : String) (f : α → Outcome ε β) :
    ((panic m : Outcome ε α) >>= f) = panic m := rfl

instance : LawfulMonad (Outcome ε) :=
  LawfulMonad.mk' _ (by intro α x; cases x <;> rfl) (by intro α β a f; rfl)
    (by intro α β γ x f g; cases x <;> rfl)

theorem bind_eq_ok {x : Outcome ε α} {f : α → Outcome ε β} {b : β} :
    (x >>= f) = ok b ↔ ∃ a, x = ok a ∧ f a = ok b := by
  cases x <;> simp

/-- A step that is only there for its error. -/
theorem bind_unit_eq_ok {x : Outcome ε PUnit} {f : PUnit → Outcome ε β} {b : β} :
    (x >>= f) = ok b ↔ x = ok ⟨⟩ ∧ f ⟨⟩ = ok b := by
  cases x <;> simp

theorem bind_eq_panic {x : Outcome ε α} {f : α → Outcome ε β} {m : String} :
    (x >>= f) = panic m ↔ x = panic m ∨ ∃ a, x = ok a ∧ f a = panic m := by
  cases x <;> simp

def isOk : Outcome ε α → Bool
  | ok _ => true
  | _ => false

def isPanic : Outcome ε α → Bool
  | panic _ => true
  | _ => false

@[simp] theorem isOk_ok (a : α) : (ok a : Outcome ε α).isOk = true := rfl
@[simp] theorem isOk_err (e : ε) : (err e : Outcome ε α).isOk = false := rfl
@[simp] theorem isOk_panic (m : String) : (panic m : Outcome ε α).isOk = false := rfl
@[simp] theorem isPanic_ok (a : α) : (ok a : Outcome ε α).isPanic = false := rfl
@[simp] theorem isPanic_err (e : ε) : (err e : Outcome ε α).isPanic = false := rfl
@[simp] theorem isPanic_panic (m : String) : (panic m : Outcome ε α).isPanic = true := rfl

theorem isOk_iff {x : Outcome ε α} : x.isOk = true ↔ ∃ a, x = ok a := by
  cases x <;> simp

theorem isPanic_iff {x : Outcome ε α} : x.isPanic = true ↔ ∃ m, x = panic m := by
  cases x <;> simp

/-- A library call that cannot panic, lifted into the three-way outcome. -/
def ofExcept : Except ε α → Outcome ε α
  | .ok a => ok a
  | .error e => err e

@[simp] theorem ofExcept_ok (a : α) : ofExcept (.ok a : Except ε α) = ok a := rfl
@[simp] theorem ofExcept_error (e : ε) : ofExcept (.error e : Except ε α) = err e := rfl

def mapErr (f : ε → γ) : Outcome ε α → Outcome γ α
  | ok a => ok a
  | err e => err (f e)
  | panic m => panic m

@[simp] theorem mapErr_ok (f : ε → γ) (a : α) : (ok a : Outcome ε α).mapErr f = ok a := rfl

@[simp] theorem mapErr_eq_ok {f : ε → γ} {x : Outcome ε α} {a : α} :
    x.mapErr f = ok a ↔ x = ok a := by
  cases x <;> simp [mapErr]

@[simp] theorem mapErr_eq_panic {f : ε → γ} {x : Outcome ε α} {m : String} :
    x.mapErr f = panic m ↔ x = panic m := by
  cases x <;> simp [mapErr]

@[simp] theorem ofExcept_eq_ok {x : Except ε α} {a : α} : ofExcept x = ok a ↔ x = .ok a := by
  cases x <;> simp

@[simp] theorem ofExcept_ne_panic {x : Except ε α} {m : String} :
    ofExcept x ≠ (panic m : Outcome ε α) := by
  cases x <;> simp

theorem mapM_eq_ok {f : α → Outcome ε β} {as : List α} {bs : List β} :
    as.mapM f = ok bs ↔ List.Forall₂ (fun a b => f a = ok b) as bs := by
  induction as generalizing bs with
  | nil => cases bs <;> simp
  | cons a as ih =>
    rw [List.mapM_cons, bind_eq_ok]
    constructor
    · intro hmap
      obtain ⟨b, hb, h⟩ := hmap
      obtain ⟨rest, hrest, heq⟩ := bind_eq_ok.mp h
      cases heq
      exact .cons hb (ih.mp hrest)
    · intro h
      cases h with
      | cons hb hrest => exact ⟨_, hb, bind_eq_ok.mpr ⟨_, ih.mpr hrest, rfl⟩⟩

/-- The first element that does not return a value decides a panic. -/
theorem mapM_eq_panic {f : α → Outcome ε β} {as : List α} {m : String} :
    as.mapM f = panic m ↔ ∃ front a back, as = front ++ a :: back ∧
      (∀ x ∈ front, (f x).isOk = true) ∧ f a = panic m := by
  induction as with
  | nil => simp
  | cons a as ih =>
    rw [List.mapM_cons, bind_eq_panic]
    constructor
    · intro hpanic
      rcases hpanic with ha | ⟨b, hb, h⟩
      · exact ⟨[], a, as, rfl, by simp, ha⟩
      · have htail : as.mapM f = panic m := by
          rcases bind_eq_panic.mp h with h | ⟨_, _, h⟩
          · exact h
          · simp at h
        obtain ⟨front, c, back, rfl, hfront, hc⟩ := ih.mp htail
        refine ⟨a :: front, c, back, rfl, ?_, hc⟩
        intro x hx
        rcases List.mem_cons.mp hx with rfl | hx
        · rw [hb, isOk_ok]
        · exact hfront x hx
    · intro hsplit
      obtain ⟨front, c, back, heq, hfront, hc⟩ := hsplit
      cases front with
      | nil =>
        obtain ⟨rfl, rfl⟩ := List.cons.inj heq
        exact .inl hc
      | cons x front =>
        obtain ⟨rfl, rfl⟩ := List.cons.inj heq
        obtain ⟨b, hb⟩ := isOk_iff.mp (hfront a List.mem_cons_self)
        have htail := ih.mpr ⟨front, c, back, rfl,
          fun y hy => hfront y (List.mem_cons_of_mem a hy), hc⟩
        exact .inr ⟨b, hb, bind_eq_panic.mpr (.inl htail)⟩

/-- The value `a`, unless something on the way to it failed. -/
def guarded (error : Option ε) (a : α) : Outcome ε α :=
  match error with
  | some e => err e
  | none => ok a

@[simp] theorem guarded_none (a : α) : (guarded none a : Outcome ε α) = ok a := rfl

@[simp] theorem guarded_some (e : ε) (a : α) : guarded (some e) a = err e := rfl

theorem guarded_eq_ok {error : Option ε} {a b : α} :
    guarded error a = ok b ↔ error = none ∧ b = a := by
  cases error with
  | none => simp [eq_comm]
  | some e => simp

theorem guarded_ne_panic {error : Option ε} {a : α} {m : String} :
    guarded error a ≠ panic m := by
  cases error <;> nofun

/-- Of two checks in a row the first that fails gives the error. -/
theorem guarded_bind {first second : Option ε} {a : α} {b : β} {f : α → Outcome ε β}
    (h : f a = guarded second b) : (guarded first a >>= f) = guarded (first.or second) b := by
  cases first with
  | some e => rfl
  | none => exact h

theorem guarded_map {error : Option ε} {a : α} (f : α → β) :
    (guarded error a >>= fun x => ok (f x)) = guarded error (f a) := by
  cases error <;> rfl

/-- A list of checks fails with the error of the first element that fails. -/
theorem mapM_guarded (error : α → Option ε) (f : α → β) (as : List α) :
    as.mapM (fun a => guarded (error a) (f a)) = guarded (as.findSome? error) (as.map f) := by
  induction as with
  | nil => rfl
  | cons a as ih =>
    rw [List.mapM_cons, ih, List.findSome?_cons, List.map_cons]
    cases error a with
    | some e => rfl
    | none => cases as.findSome? error <;> rfl

/-- A list of calls that all return. -/
theorem mapM_map_total {f : β → Outcome ε γ} {g : α → β} {h : α → γ}
    (hreturns : ∀ a, f (g a) = ok (h a)) (as : List α) : (as.map g).mapM f = ok (as.map h) := by
  induction as with
  | nil => rfl
  | cons a as ih =>
    rw [List.map_cons, List.mapM_cons, hreturns, ih]
    rfl

/-- A check of an optional field that passes where there is none. -/
def field (check : α → Outcome ε β) : Option α → Outcome ε (Option β)
  | some a => check a >>= fun b => ok (some b)
  | none => ok none

theorem field_guarded (error : α → Option ε) (f : α → β) (a : Option α) :
    field (fun a => guarded (error a) (f a)) a = guarded (a.toList.findSome? error) (a.map f) := by
  cases a with
  | none => rfl
  | some a =>
    rw [field, guarded_map, Option.toList_some, List.findSome?_cons]
    cases error a <;> rfl

/-- The first error of nested lists is the first error of their elements in order. -/
theorem findSome?_flatMap (error : β → Option ε) (parts : α → List β) (as : List α) :
    (as.flatMap parts).findSome? error = as.findSome? fun a => (parts a).findSome? error := by
  rw [← List.head?_filterMap, List.filterMap_flatMap, List.head?_flatMap]
  simp only [List.head?_filterMap]

end Outcome

end PgSense.Library
