import PgSense.Library.Machine
import PgSense.Library.Window
import Mathlib.Logic.Function.Basic

/-! A desk that watches several sources. Jobs queue up at each source; a job that is taken
up is examined under the rules of that moment, and each item found in it is decided on in
its turn: it passes unless an item with its key passed, from whatever source, less than
the window before. What passes is delivered to the sinks it is routed to. -/

namespace PgSense.Library
open Window
set_option autoImplicit false

universe u v w x y
variable {Job : Type u} {Rules : Type v} {Item : Type w} {κ : Type x} {Sink : Type y}

structure Desk (Job : Type u) (Rules : Type v) (Item : Type w) (κ : Type x) (Sink : Type y) where
  examine : Rules → Job → List Item
  key : Item → κ
  window : Nat
  routes : Item → List Sink

structure Decision (Item : Type w) where
  source : Nat
  item : Item
  time : Nat
  passed : Bool

structure Delivery (Item : Type w) (Sink : Type y) where
  source : Nat
  item : Item
  sink : Sink

/-- The histories have the latest first. -/
structure DeskState (Job : Type u) (Rules : Type v) (Item : Type w) (Sink : Type y) where
  rules : Rules
  taken : Nat → List (Rules × Job)
  queued : Nat → List Job
  pending : Nat → List Item
  outgoing : Nat → List (Item × Sink)
  decisions : List (Decision Item)
  deliveries : List (Delivery Item Sink)

inductive DeskLabel (Job : Type u) (Rules : Type v) where
  | accept (source : Nat) (job : Job)
  | publish (rules : Rules)
  | take (source : Nat)
  | decide (source now : Nat)
  | deliver (source : Nat)

def DeskState.start (rules : Rules) : DeskState Job Rules Item Sink :=
  ⟨rules, fun _ => [], fun _ => [], fun _ => [], fun _ => [], [], []⟩

namespace Desk
variable (desk : Desk Job Rules Item κ Sink)

/-- The keys that passed, with their times. -/
def passed (decisions : List (Decision Item)) : List (κ × Nat) :=
  (decisions.filter Decision.passed).map fun d => (desk.key d.item, d.time)

variable {desk} in
theorem passed_cons (d : Decision Item) (past : List (Decision Item)) :
    desk.passed (d :: past) =
      if d.passed then (desk.key d.item, d.time) :: desk.passed past else desk.passed past := by
  unfold passed
  cases hpassed : d.passed <;> simp [hpassed]

variable {desk} in
theorem recent_passed {decisions : List (Decision Item)} {k : κ} {now : Nat} :
    Recent desk.window (desk.passed decisions) k now ↔
      ∃ d ∈ decisions, d.passed = true ∧ desk.key d.item = k ∧ now - d.time < desk.window := by
  unfold Recent passed
  constructor
  · rintro ⟨s, hs, hlt⟩
    obtain ⟨d, hd, heq⟩ := List.mem_map.mp hs
    cases heq
    obtain ⟨hd, hpassed⟩ := List.mem_filter.mp hd
    exact ⟨d, hd, hpassed, rfl, hlt⟩
  · rintro ⟨d, hd, hpassed, rfl, hlt⟩
    exact ⟨d.time, List.mem_map.mpr ⟨d, List.mem_filter.mpr ⟨hd, hpassed⟩, rfl⟩, hlt⟩

section Step
variable [DecidableEq κ]

def suppressed (decisions : List (Decision Item)) (item : Item) (now : Nat) : Bool :=
  decisions.any fun d =>
    d.passed && desk.key d.item = desk.key item && decide (now - d.time < desk.window)

/-- Where an item goes once it is decided on. -/
def dispatch (passes : Bool) (item : Item) : List (Item × Sink) :=
  if passes then (desk.routes item).map fun sink => (item, sink) else []

def step (s : DeskState Job Rules Item Sink) :
    DeskLabel Job Rules → Option (DeskState Job Rules Item Sink)
  | .accept source job =>
    some { s with queued := Function.update s.queued source (s.queued source ++ [job]) }
  | .publish rules => some { s with rules }
  | .take source =>
    match s.pending source, s.queued source with
    | [], job :: queue =>
      some { s with
        taken := Function.update s.taken source (s.taken source ++ [(s.rules, job)])
        queued := Function.update s.queued source queue
        pending := Function.update s.pending source (desk.examine s.rules job) }
    | _, _ => none
  | .decide source now =>
    match s.pending source with
    | item :: later =>
      let passes := !desk.suppressed s.decisions item now
      some { s with
        pending := Function.update s.pending source later
        outgoing := Function.update s.outgoing source
          (s.outgoing source ++ desk.dispatch passes item)
        decisions := ⟨source, item, now, passes⟩ :: s.decisions }
    | [] => none
  | .deliver source =>
    match s.outgoing source with
    | (item, sink) :: later =>
      some { s with
        outgoing := Function.update s.outgoing source later
        deliveries := ⟨source, item, sink⟩ :: s.deliveries }
    | [] => none

def machine : Machine (DeskState Job Rules Item Sink) (DeskLabel Job Rules) := ⟨desk.step⟩

variable {s : DeskState Job Rules Item Sink} {source : Nat}

theorem run_take {job : Job} {queue : List Job} (hpending : s.pending source = [])
    (hqueued : s.queued source = job :: queue) :
    desk.machine.run s [.take source] = some { s with
      taken := Function.update s.taken source (s.taken source ++ [(s.rules, job)])
      queued := Function.update s.queued source queue
      pending := Function.update s.pending source (desk.examine s.rules job) } := by
  rw [Machine.run_single]
  simp only [machine, step, hpending, hqueued]

theorem run_decide {item : Item} {later : List Item} (hpending : s.pending source = item :: later)
    {now : Nat} {passes : Bool} (hpasses : passes = !desk.suppressed s.decisions item now) :
    desk.machine.run s [.decide source now] = some { s with
      pending := Function.update s.pending source later
      outgoing := Function.update s.outgoing source
        (s.outgoing source ++ desk.dispatch passes item)
      decisions := ⟨source, item, now, passes⟩ :: s.decisions } := by
  rw [Machine.run_single, hpasses]
  simp only [machine, step, hpending]

theorem run_deliver {item : Item} {sink : Sink} {later : List (Item × Sink)}
    (houtgoing : s.outgoing source = (item, sink) :: later) :
    desk.machine.run s [.deliver source] = some { s with
      outgoing := Function.update s.outgoing source later
      deliveries := ⟨source, item, sink⟩ :: s.deliveries } := by
  rw [Machine.run_single]
  simp only [machine, step, houtgoing]

end Step

/-- Each decision is right in view of those before it. -/
def Justified : List (Decision Item) → Prop
  | [] => True
  | d :: past =>
    (d.passed = true ↔ ¬ Recent desk.window (desk.passed past) (desk.key d.item) d.time) ∧
      Justified past

/-- What was decided on at a source, the earliest first. -/
def decidedOf (decisions : List (Decision Item)) (source : Nat) : List Item :=
  ((decisions.filter fun d => d.source == source).map Decision.item).reverse

/-- What was delivered from a source, the earliest first. -/
def deliveredOf (deliveries : List (Delivery Item Sink)) (source : Nat) : List (Item × Sink) :=
  ((deliveries.filter fun d => d.source == source).map fun d => (d.item, d.sink)).reverse

/-- What was delivered to a sink, the earliest first. -/
def deliveredTo [DecidableEq Sink] (deliveries : List (Delivery Item Sink)) (sink : Sink) :
    List Item :=
  ((deliveries.filter fun d => d.sink = sink).map Delivery.item).reverse

/-- Nothing is skipped, repeated or overtaken at a source. -/
structure Sound (s : DeskState Job Rules Item Sink) : Prop where
  justified : desk.Justified s.decisions
  decided : ∀ source, decidedOf s.decisions source ++ s.pending source =
    (s.taken source).flatMap fun job => desk.examine job.1 job.2
  delivered : ∀ source, deliveredOf s.deliveries source ++ s.outgoing source =
    (decidedOf (s.decisions.filter Decision.passed) source).flatMap (desk.dispatch true)

variable {desk}

theorem Justified.passed_iff {front past : List (Decision Item)} {d : Decision Item}
    (h : desk.Justified (front ++ d :: past)) :
    d.passed = true ↔ ¬ ∃ earlier ∈ past, earlier.passed = true ∧
      desk.key earlier.item = desk.key d.item ∧ d.time - earlier.time < desk.window := by
  induction front with
  | nil =>
    rw [← recent_passed]
    exact h.1
  | cons _ front ih => exact ih h.2

/-- An item was suppressed only for one that passed before it. -/
theorem Justified.passed_or_recent {front past : List (Decision Item)} {d : Decision Item}
    (h : desk.Justified (front ++ d :: past)) :
    d.passed = true ∨ d.passed = false ∧ ∃ earlier ∈ past, earlier.passed = true ∧
      desk.key earlier.item = desk.key d.item ∧ d.time - earlier.time < desk.window := by
  cases hpassed : d.passed with
  | true => exact .inl rfl
  | false =>
    refine .inr ⟨rfl, ?_⟩
    by_contra hnone
    rw [h.passed_iff.mpr hnone] at hpassed
    cases hpassed

theorem mem_decidedOf {decisions : List (Decision Item)} {source : Nat} {item : Item} :
    item ∈ decidedOf decisions source ↔ ∃ d ∈ decisions, d.source = source ∧ d.item = item := by
  simp only [decidedOf, List.mem_reverse, List.mem_map, List.mem_filter, beq_iff_eq, and_assoc]

theorem mem_deliveredOf {deliveries : List (Delivery Item Sink)} {source : Nat} {item : Item}
    {sink : Sink} :
    (item, sink) ∈ deliveredOf deliveries source ↔ ⟨source, item, sink⟩ ∈ deliveries := by
  simp only [deliveredOf, List.mem_reverse, List.mem_map, List.mem_filter, beq_iff_eq]
  constructor
  · rintro ⟨d, ⟨hd, rfl⟩, heq⟩
    cases heq
    exact hd
  · intro h
    exact ⟨_, ⟨h, rfl⟩, rfl⟩

theorem start_sound (rules : Rules) : desk.Sound (.start rules) :=
  ⟨trivial, fun _ => rfl, fun _ => rfl⟩

theorem decidedOf_cons (d : Decision Item) (past : List (Decision Item)) (source : Nat) :
    decidedOf (d :: past) source =
      decidedOf past source ++ if d.source = source then [d.item] else [] := by
  unfold decidedOf
  by_cases hsource : d.source = source
  · simp [hsource]
  · simp [hsource]

theorem deliveredOf_cons (d : Delivery Item Sink) (past : List (Delivery Item Sink))
    (source : Nat) : deliveredOf (d :: past) source =
      deliveredOf past source ++ if d.source = source then [(d.item, d.sink)] else [] := by
  unfold deliveredOf
  by_cases hsource : d.source = source
  · simp [hsource]
  · simp [hsource]

theorem deliveredTo_cons [DecidableEq Sink] (d : Delivery Item Sink)
    (past : List (Delivery Item Sink)) (sink : Sink) : deliveredTo (d :: past) sink =
      deliveredTo past sink ++ if d.sink = sink then [d.item] else [] := by
  unfold deliveredTo
  by_cases hsink : d.sink = sink
  · simp [hsink]
  · simp [hsink]

variable [DecidableEq κ]

theorem suppressed_iff {decisions : List (Decision Item)} {item : Item} {now : Nat} :
    desk.suppressed decisions item now = true ↔
      Recent desk.window (desk.passed decisions) (desk.key item) now := by
  rw [recent_passed, suppressed, List.any_eq_true]
  simp only [Bool.and_eq_true, decide_eq_true_eq, and_assoc]

section Steps
variable {s t : DeskState Job Rules Item Sink} {source : Nat}

theorem take_sound (hs : desk.Sound s) (h : desk.step s (.take source) = some t) :
    desk.Sound t := by
  simp only [step] at h
  split at h
  · next job queue hpending hqueued =>
    cases h
    refine ⟨hs.justified, fun other => ?_, hs.delivered⟩
    by_cases hother : other = source
    · subst hother
      have hdecided := hs.decided other
      rw [hpending, List.append_nil] at hdecided
      simp only [Function.update_self, List.flatMap_append, List.flatMap_singleton, hdecided]
    · simp only [Function.update_of_ne hother]
      exact hs.decided other
  · cases h

theorem decide_sound (hs : desk.Sound s) {now : Nat}
    (h : desk.step s (.decide source now) = some t) : desk.Sound t := by
  simp only [step] at h
  split at h
  · next item later hpending =>
    cases h
    refine ⟨⟨?_, hs.justified⟩, fun other => ?_, fun other => ?_⟩
    · rw [← suppressed_iff, Bool.not_eq_true', Bool.not_eq_true]
    · rw [decidedOf_cons]
      dsimp only
      by_cases hother : other = source
      · subst hother
        rw [← hs.decided other, hpending, Function.update_self, if_pos rfl, List.append_assoc]
        rfl
      · rw [Function.update_of_ne hother, if_neg (Ne.symm hother), List.append_nil]
        exact hs.decided other
    · dsimp only
      generalize (!desk.suppressed s.decisions item now) = passes
      have hdelivered := hs.delivered other
      cases passes with
      | false =>
        rw [List.filter_cons_of_neg Bool.false_ne_true, ← hdelivered]
        by_cases hother : other = source
        · subst hother
          rw [Function.update_self, dispatch, if_neg Bool.false_ne_true, List.append_nil]
        · rw [Function.update_of_ne hother]
      | true =>
        rw [List.filter_cons_of_pos rfl, decidedOf_cons, List.flatMap_append, ← hdelivered]
        by_cases hother : other = source
        · subst hother
          rw [Function.update_self, if_pos rfl, List.flatMap_singleton, List.append_assoc]
        · rw [Function.update_of_ne hother, if_neg (Ne.symm hother), List.flatMap_nil,
            List.append_nil]
  · cases h

theorem deliver_sound (hs : desk.Sound s) (h : desk.step s (.deliver source) = some t) :
    desk.Sound t := by
  simp only [step] at h
  split at h
  · next item sink later houtgoing =>
    cases h
    refine ⟨hs.justified, hs.decided, fun other => ?_⟩
    rw [deliveredOf_cons]
    dsimp only
    by_cases hother : other = source
    · subst hother
      rw [← hs.delivered other, houtgoing, Function.update_self, if_pos rfl, List.append_assoc]
      rfl
    · rw [Function.update_of_ne hother, if_neg (Ne.symm hother), List.append_nil]
      exact hs.delivered other
  · cases h

theorem step_sound {l : DeskLabel Job Rules} (hs : desk.Sound s)
    (h : desk.step s l = some t) : desk.Sound t := by
  cases l with
  | accept source job =>
    cases h
    exact ⟨hs.justified, hs.decided, hs.delivered⟩
  | publish rules =>
    cases h
    exact ⟨hs.justified, hs.decided, hs.delivered⟩
  | take source => exact take_sound hs h
  | decide source now => exact decide_sound hs h
  | deliver source => exact deliver_sound hs h

end Steps

theorem run_sound {s t : DeskState Job Rules Item Sink} {acts : List (DeskLabel Job Rules)}
    (hs : desk.Sound s) (h : desk.machine.run s acts = some t) : desk.Sound t := by
  apply Machine.run_invariant ?_ hs h
  intro s l t hs hstep
  exact step_sound hs hstep

end Desk

end PgSense.Library
