import PgSense.Library.Tally
import PgSense.Pipeline.History

/-! The loop of a database unit gets on: it waits for nothing but an empty queue, and
a batch costs it a bounded number of steps. -/

namespace PgSense
open Library
set_option autoImplicit false

namespace DatabaseUnit

section Costs
variable (cr : Crates) (channels : List NamedChannel)

/-- The steps left to walk the channels from a position on: at most a visit, a send, a
flush and a post for each, and the visit past the end. -/
def walkCost (i : Nat) : Nat := 1 + 4 * (channels.length - i)

def callCost : Nat := 1 + walkCost channels 0

/-- The steps left in a call of `dispatch`. -/
def callLeft : DispatchPc → Nat
  | .asking => callCost channels
  | .visiting i => walkCost channels i
  | .sending i => 3 + walkCost channels (i + 1)
  | .flushing i => 2 + walkCost channels (i + 1)
  | .posting i => 1 + walkCost channels (i + 1)

/-- The steps for scanning events and dispatching what is found, and the last one. -/
def eventsCost (engine : RuleEngine) : List ScanEvent → Nat
  | [] => 1
  | event :: rest =>
    1 + (scan cr engine event).length * callCost channels + eventsCost engine rest

/-- The steps a batch costs, its receipt included. -/
def batchCost (b : Batch × RuleEngine) : Nat := 1 + eventsCost cr channels b.2 b.1.events

def loopLeft : LoopPc → Nat
  | .idle => 0
  | .scanning _ engine rest => eventsCost cr channels engine rest
  | .dispatching _ engine rest _ later pc =>
    callLeft channels pc + later.length * callCost channels + eventsCost cr channels engine rest

/-- The steps left until the queue is empty and the loop idle, under one engine. -/
def toGo (engine : RuleEngine) (u : DatabaseUnit) : Nat :=
  loopLeft cr channels u.loop + tally (fun batch => batchCost cr channels (batch, engine)) u.queue

/-- A loop flushes Slack channels only. -/
def FlushesSlack : LoopPc → Prop
  | .dispatching _ _ _ _ _ (.flushing i) =>
    ∃ config, (channels[i]?).map NamedChannel.channel = some (.slack config)
  | _ => True

end Costs

section Steps
variable {cr : Crates} {channels : List NamedChannel}

theorem walkCost_succ {i : Nat} (h : i < channels.length) :
    walkCost channels (i + 1) + 4 = walkCost channels i := by
  unfold walkCost
  omega

theorem loopLeft_returned (u : DatabaseUnit) (batch : Batch) (engine : RuleEngine)
    (rest : List ScanEvent) (finding : Finding) (later : List Finding) :
    loopLeft cr channels (u.returned batch engine rest finding later).loop =
      later.length * callCost channels + eventsCost cr channels engine rest := by
  cases later with
  | nil => simp [returned, loopLeft]
  | cons next later =>
    simp only [returned, loopLeft, callLeft, List.length_cons, Nat.add_mul, Nat.one_mul]
    omega

theorem callLeft_pos (channels : List NamedChannel) (pc : DispatchPc) :
    1 ≤ callLeft channels pc := by
  cases pc <;> simp only [callLeft, callCost, walkCost] <;> omega

section Calls
variable {u : DatabaseUnit} {batch : Batch} {engine : RuleEngine} {rest : List ScanEvent}
  {finding : Finding} {later : List Finding} {pc : DispatchPc}

/-- A return pays with the last step of its call. -/
theorem returned_pays (hl : u.loop = .dispatching batch engine rest finding later pc) :
    FlushesSlack channels (u.returned batch engine rest finding later).loop ∧
      loopLeft cr channels (u.returned batch engine rest finding later).loop +
          tally (batchCost cr channels) u.taken + 1 ≤
        loopLeft cr channels u.loop +
          tally (batchCost cr channels) (u.returned batch engine rest finding later).taken := by
  have hpos := callLeft_pos channels pc
  refine ⟨by cases later <;> trivial, ?_⟩
  rw [loopLeft_returned, taken_returned hl, hl]
  simp only [loopLeft]
  omega

/-- A call of `dispatch` that stays on its finding has fewer steps left. -/
theorem dispatchAt_pays {pc' : DispatchPc}
    (hl : u.loop = .dispatching batch engine rest finding later pc)
    (hlower : callLeft channels pc' < callLeft channels pc)
    (hslack : FlushesSlack channels (u.dispatchAt batch engine rest finding later pc').loop) :
    FlushesSlack channels (u.dispatchAt batch engine rest finding later pc').loop ∧
      loopLeft cr channels (u.dispatchAt batch engine rest finding later pc').loop +
          tally (batchCost cr channels) u.taken + 1 ≤
        loopLeft cr channels u.loop +
          tally (batchCost cr channels) (u.dispatchAt batch engine rest finding later pc').taken := by
  refine ⟨hslack, ?_⟩
  rw [taken_dispatchAt pc' hl, hl]
  simp only [dispatchAt, loopLeft]
  omega

end Calls

/-- A step of the loop is paid for by what is left, or by the batch it takes on. -/
theorem loopStep_pays {u v : DatabaseUnit} {sh sh' : Shared} {l : LoopLabel}
    (h : u.loopStep cr channels sh l = some (v, sh')) :
    FlushesSlack channels v.loop ∧
      loopLeft cr channels v.loop + tally (batchCost cr channels) u.taken + 1 ≤
        loopLeft cr channels u.loop + tally (batchCost cr channels) v.taken := by
  cases loopStep_acts h with
  | received hl hq =>
    refine ⟨trivial, ?_⟩
    simp only [taken, hl, working, loopLeft, tally_append, tally_cons, tally_nil, batchCost]
    omega
  | completed hl =>
    refine ⟨trivial, ?_⟩
    simp only [taken, hl, working, loopLeft, eventsCost, List.append_nil]
    omega
  | nothingFound hl hs =>
    refine ⟨trivial, ?_⟩
    simp only [taken, hl, working, loopLeft, eventsCost, hs]
    omega
  | found hl hs =>
    refine ⟨trivial, ?_⟩
    simp only [taken, hl, working, loopLeft, eventsCost, hs, dispatchAt, callLeft, List.length_cons,
      Nat.add_mul, Nat.one_mul]
    omega
  | suppressed hl => exact returned_pays hl
  | finished hl => exact returned_pays hl
  | passed hl =>
    refine dispatchAt_pays hl ?_ trivial
    simp only [callLeft, callCost]
    omega
  | routed hl hi =>
    have hcost := walkCost_succ (List.getElem?_eq_some_iff.mp hi).1
    refine dispatchAt_pays hl ?_ trivial
    simp only [callLeft]
    omega
  | skipped hl hi =>
    have hcost := walkCost_succ (List.getElem?_eq_some_iff.mp hi).1
    refine dispatchAt_pays hl ?_ trivial
    simp only [callLeft]
    omega
  | filled hl hi => exact dispatchAt_pays hl (by simp only [callLeft]; omega) ⟨_, hi⟩
  | delivered hl | buffered hl | drained hl | emptied hl | posted hl =>
    exact dispatchAt_pays hl (by simp only [callLeft]; omega) trivial

theorem loopStep_toGo {u v : DatabaseUnit} {sh sh' : Shared} {l : LoopLabel}
    (h : u.loopStep cr channels sh l = some (v, sh')) :
    toGo cr channels sh.engine v + 1 ≤ toGo cr channels sh.engine u := by
  have hpays := (loopStep_pays h).2
  unfold toGo
  rcases loopStep_taken h with ⟨htaken, hqueue⟩ | ⟨batch, htaken, hqueue⟩
  · rw [htaken] at hpays
    rw [hqueue]
    omega
  · rw [htaken, tally_append, tally_cons, tally_nil] at hpays
    rw [hqueue, tally_cons]
    omega

/-- A loop that has something to do can do it. -/
theorem exists_loopStep (cr : Crates) {u : DatabaseUnit} (hu : FlushesSlack channels u.loop) (sh : Shared)
    (hbusy : u.loop ≠ .idle ∨ u.queue ≠ []) :
    ∃ l, (u.loopStep cr channels sh l).isSome = true := by
  cases hloop : u.loop with
  | idle =>
    rcases hbusy with hbusy | hbusy
    · exact absurd hloop hbusy
    · obtain ⟨batch, queue, hq⟩ := List.exists_cons_of_ne_nil hbusy
      refine ⟨.recv, ?_⟩
      simp only [loopStep, hloop, hq]
      rfl
  | scanning batch engine events =>
    refine ⟨.scanNext, ?_⟩
    cases events with
    | nil =>
      simp only [loopStep, hloop]
      rfl
    | cons event rest =>
      simp only [loopStep, hloop]
      split <;> rfl
  | dispatching batch engine rest finding later pc =>
    cases pc with
    | asking =>
      refine ⟨.ask 0 0, ?_⟩
      simp only [loopStep, hloop]
      split <;> rfl
    | visiting i =>
      refine ⟨.visit, ?_⟩
      simp only [loopStep, hloop]
      split
      · rfl
      · split <;> rfl
    | sending i =>
      refine ⟨.send 0, ?_⟩
      simp only [loopStep, hloop]
      split <;> rfl
    | flushing i =>
      rw [hloop] at hu
      obtain ⟨config, hslack⟩ := hu
      refine ⟨.drain 0, ?_⟩
      simp only [loopStep, hloop, hslack]
      rfl
    | posting i =>
      refine ⟨.posted, ?_⟩
      simp only [loopStep, hloop]
      rfl

/-- A loop that has nothing to do waits for the queue. -/
theorem loopStep_idle {u : DatabaseUnit} (hloop : u.loop = .idle) (hqueue : u.queue = [])
    (sh : Shared) (l : LoopLabel) : u.loopStep cr channels sh l = none := by
  cases l with
  | recv => simp only [loopStep, hloop, hqueue]
  | scanNext | ask | visit | send | drain | posted => simp only [loopStep, hloop]

end Steps

end DatabaseUnit

end PgSense
