import PgSense.Alerts.Dispatcher
import PgSense.Library.Machine
import Mathlib.Data.List.Nodup

/-! Concurrent calls of `dispatch`. Each call asks the deduplicator once and then
walks the channel list, sending to the channels its finding is routed to and
carrying on whatever a send returns. The calls interleave at every step. -/

namespace PgSense
open Library
set_option autoImplicit false

inductive Progress where
  | called
  | visiting (channel : Nat)
  | sending (channel : Nat)
  | returned
  deriving DecidableEq, Repr

structure DispatchCall where
  finding : Finding
  /-- the answer of `should_alert`, once asked -/
  passed : Option Bool
  progress : Progress

structure DispatchState where
  dedup : Deduplicator
  calls : List DispatchCall
  /-- the invocations of `send`: call and channel position -/
  sends : List (Nat × Nat)
  /-- the completed sends with their outcome -/
  outcomes : List (Nat × Nat × Bool)

namespace DispatchState

def start (window : Nat) : DispatchState := ⟨.new window, [], [], []⟩

def update (s : DispatchState) (c : Nat) (call : DispatchCall) : DispatchState :=
  { s with calls := s.calls.set c call }

end DispatchState

section Step
variable (cr : Crates) (channels : List NamedChannel)

/-- The channel positions below `n` that a finding is routed to, in order. -/
def routedBelow (finding : Finding) (n : Nat) : List Nat :=
  (List.range n).filter fun i => (channels[i]?).any fun nc => nc.routed finding.channels

def routedChannels (finding : Finding) : List Nat := routedBelow channels finding channels.length

def DispatchState.sendsOf (s : DispatchState) (c : Nat) : List Nat :=
  (s.sends.filter fun send => send.1 == c).map Prod.snd

/-- What a call must have sent, given how far it has got. -/
def DispatchCall.due (call : DispatchCall) : List Nat :=
  match call.progress with
  | .called => []
  | .visiting i => routedBelow channels call.finding i
  | .sending i => routedBelow channels call.finding (i + 1)
  | .returned => if call.passed = some true then routedChannels channels call.finding else []

/-- A call that walks the channels has passed deduplication and is within the list. -/
def DispatchCall.Sound (call : DispatchCall) : Prop :=
  match call.progress with
  | .called => call.passed = none
  | .visiting i => call.passed = some true ∧ i ≤ channels.length
  | .sending i => call.passed = some true ∧ i < channels.length
  | .returned => call.passed ≠ none

/-- Every call has sent exactly what is due, and nothing else was sent. -/
structure DispatchInv (s : DispatchState) : Prop where
  sound : ∀ {c : Nat} {call : DispatchCall}, s.calls[c]? = some call → call.Sound channels
  due : ∀ {c : Nat} {call : DispatchCall}, s.calls[c]? = some call →
    s.sendsOf c = call.due channels
  owned : ∀ send ∈ s.sends, send.1 < s.calls.length

/-- What one step does to the call that takes it: the call before, the channels it
sends to, the call after. -/
inductive DispatchCall.Moves : DispatchCall → List Nat → DispatchCall → Prop
  | answered (finding : Finding) (passed : Option Bool) (answer : Bool) :
      Moves ⟨finding, passed, .called⟩ []
        ⟨finding, some answer, if answer then .visiting 0 else .returned⟩
  | finished (finding : Finding) (passed : Option Bool) (i : Nat) (h : channels[i]? = none) :
      Moves ⟨finding, passed, .visiting i⟩ [] ⟨finding, passed, .returned⟩
  | sent (finding : Finding) (passed : Option Bool) (i : Nat) (nc : NamedChannel)
      (h : channels[i]? = some nc) (hrouted : nc.routed finding.channels = true) :
      Moves ⟨finding, passed, .visiting i⟩ [i] ⟨finding, passed, .sending i⟩
  | skipped (finding : Finding) (passed : Option Bool) (i : Nat) (nc : NamedChannel)
      (h : channels[i]? = some nc) (hrouted : nc.routed finding.channels = false) :
      Moves ⟨finding, passed, .visiting i⟩ [] ⟨finding, passed, .visiting (i + 1)⟩
  | completed (finding : Finding) (passed : Option Bool) (i : Nat) :
      Moves ⟨finding, passed, .sending i⟩ [] ⟨finding, passed, .visiting (i + 1)⟩

theorem routedBelow_succ (finding : Finding) (i : Nat) :
    routedBelow channels finding (i + 1) = routedBelow channels finding i ++
      if (channels[i]?).any (fun nc => nc.routed finding.channels) then [i] else [] := by
  unfold routedBelow
  rw [List.range_succ, List.filter_append, List.filter_singleton]
  cases (channels[i]?).any fun nc => nc.routed finding.channels <;> rfl

theorem Moves.sound {call call' : DispatchCall} {new : List Nat}
    (hm : call.Moves channels new call') (h : call.Sound channels) : call'.Sound channels := by
  cases hm with
  | answered finding passed answer =>
    cases answer <;> simp [DispatchCall.Sound]
  | finished finding passed i hnone =>
    intro hnone
    exact Option.some_ne_none true (h.1.symm.trans hnone)
  | sent finding passed i nc hsome hrouted =>
    exact ⟨h.1, (List.getElem?_eq_some_iff.mp hsome).1⟩
  | skipped finding passed i nc hsome hrouted =>
    exact ⟨h.1, (List.getElem?_eq_some_iff.mp hsome).1⟩
  | completed finding passed i => exact ⟨h.1, h.2⟩

theorem Moves.due {call call' : DispatchCall} {new : List Nat}
    (hm : call.Moves channels new call') (h : call.Sound channels) :
    call'.due channels = call.due channels ++ new := by
  cases hm with
  | answered finding passed answer =>
    cases answer <;> simp [DispatchCall.due, routedBelow]
  | finished finding passed i hnone =>
    obtain ⟨hpassed, hle⟩ := h
    have hi : i = channels.length := by
      have := List.getElem?_eq_none_iff.mp hnone
      omega
    simp only [DispatchCall.due, List.append_nil, hi]
    exact if_pos hpassed
  | sent finding passed i nc hsome hrouted =>
    simp [DispatchCall.due, routedBelow_succ, hsome, hrouted]
  | skipped finding passed i nc hsome hrouted =>
    simp [DispatchCall.due, routedBelow_succ, hsome, hrouted]
  | completed finding passed i => simp [DispatchCall.due]

theorem start_inv (window : Nat) : DispatchInv channels (.start window) := by
  refine ⟨?_, ?_, ?_⟩
  · intro c call hc
    cases hc
  · intro c call hc
    cases hc
  · intro send hsend
    cases hsend

def DispatchCall.quota (call : DispatchCall) (nc : NamedChannel) : Nat :=
  if call.passed = some true ∧ nc.routed call.finding.channels = true then 1 else 0

/-- One send for a finding that passed and whose `channels` is none or names the channel, and
none otherwise. -/
theorem quota_eq_one_iff {call : DispatchCall} {nc : NamedChannel} : call.quota nc = 1 ↔
    call.passed = some true ∧ (call.finding.channels = none ∨
      ∃ names, call.finding.channels = some names ∧ nc.name ∈ names) := by
  rw [DispatchCall.quota, ← NamedChannel.routed_iff]
  split
  · next h => exact iff_of_true rfl h
  · next h => exact iff_of_false Nat.zero_ne_one h

end Step

section Outcomes
variable (cr : Crates) (channels : List NamedChannel)

end Outcomes
end PgSense
