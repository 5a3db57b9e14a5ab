import Mathlib.Data.List.Basic

/-! Values published one after the other. A reader that always takes the latest one
sees them in the order of publication, some of them never and some of them often. -/

namespace PgSense.Library
set_option autoImplicit false

universe u
variable {α : Type u}

/-- What was read, against what was published: each reading is of the value of the
previous reading or of a later one. -/
inductive Drawn : List α → List α → Prop
  | nil (published : List α) : Drawn [] published
  | read {readings published : List α} {value : α} (h : Drawn readings (value :: published)) :
      Drawn (value :: readings) (value :: published)
  | skip {readings published : List α} (value : α) (h : Drawn readings published) :
      Drawn readings (value :: published)

namespace Drawn
variable {readings published : List α}

theorem publish (h : Drawn readings published) (more : List α) :
    Drawn readings (published ++ more) := by
  induction h with
  | nil published => exact .nil _
  | read _ ih => exact .read ih
  | skip value _ ih => exact .skip value ih

theorem read_latest (h : Drawn readings published) {value : α}
    (hlatest : published.getLast? = some value) : Drawn (readings ++ [value]) published := by
  induction h with
  | nil published =>
    induction published with
    | nil => cases hlatest
    | cons first rest ih =>
      cases rest with
      | nil =>
        cases hlatest
        exact .read (.nil _)
      | cons second rest => exact .skip first (ih (by rwa [List.getLast?_cons_cons] at hlatest))
  | read _ ih => exact .read (ih hlatest)
  | @skip readings published first h ih =>
    cases published with
    | nil =>
      cases h
      cases hlatest
      exact .read (.nil _)
    | cons second rest =>
      rw [List.getLast?_cons_cons] at hlatest
      exact .skip first (ih hlatest)

theorem mem (h : Drawn readings published) {value : α} (hmem : value ∈ readings) :
    value ∈ published := by
  induction h with
  | nil published => cases hmem
  | read _ ih =>
    rcases List.mem_cons.mp hmem with rfl | hmem
    · exact List.mem_cons_self
    · exact ih hmem
  | skip first _ ih => exact List.mem_cons_of_mem first (ih hmem)

end Drawn

end PgSense.Library
