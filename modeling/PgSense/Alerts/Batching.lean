import PgSense.Alerts.Dedup
import PgSense.Alerts.Slack
import PgSense.Library.Machine

/-! A Slack channel shared by any number of callers: the dispatches, the flush task
and the final flush. A call gives up the buffer's lock between its sections. -/

namespace PgSense
open Library
set_option autoImplicit false

/-- Who called `Inner::flush`. -/
inductive FlushOrigin where
  | send
  | timer
  | final
  deriving DecidableEq, Repr

def FlushOrigin.force : FlushOrigin → Bool
  | .timer => false
  | _ => true

/-- An answer of the Slack API: `retryAfter` is the header as a `u64`, `body` the `ok`
and `error` fields of a body that is JSON. -/
structure SlackResponse where
  status : Nat
  statusText : String
  retryAfter : Option Nat
  body : Option (Option Bool × Option String)
  deriving DecidableEq, Repr

inductive AttemptResult where
  | retry (delaySecs : Nat)
  | failed (error : String)
  | delivered
  deriving DecidableEq, Repr

/-- One round of the loop of `send_batch`; there is no response when the request failed. -/
def attemptResult (config : SlackConfig) (attempt : Nat) : Option SlackResponse → AttemptResult
  | none => .failed "Slack API request failed"
  | some response =>
    if response.status = 429 then
      if attempt = config.maxRetries then
        .failed s!"Slack API rate-limited after {config.maxRetries} retries"
      -- a release build shifts by the count modulo 64
      else .retry (max (response.retryAfter.getD 0) (1 <<< (attempt % 64)))
    else
      match response.body with
      | none => .failed "failed to parse Slack API response"
      | some (ok, error) =>
        if response.status < 200 ∨ 300 ≤ response.status then
          .failed s!"Slack API returned HTTP {response.statusText}"
        else if ok = some true then .delivered
        else .failed (s!"Slack API error: " ++ error.getD "unknown")

inductive SlackCall where
  | pushing (finding : Finding)
  | locking (origin : FlushOrigin)
  | posting (origin : FlushOrigin) (batch : List Finding) (attempt : Nat)
  | returned
  deriving DecidableEq

/-- The calls keep their positions; the lists of findings and batches are histories,
and the two counters are those of `alerts_total`. -/
structure SlackChannel where
  buffer : BufferState
  calls : List SlackCall
  pushed : List Finding
  drained : List (List Finding)
  accepted : List (List Finding)
  dropped : List (List Finding)
  alertsOk : Nat
  alertsError : Nat

inductive SlackLabel where
  | send (finding : Finding)
  | flush (origin : FlushOrigin)
  | push (c now : Nat)
  | lock (c now : Nat)
  | respond (c : Nat) (response : Option SlackResponse)

namespace SlackChannel

def start : SlackChannel := ⟨.empty, [], [], [], [], [], 0, 0⟩

variable (config : SlackConfig) (s : SlackChannel)

def setCall (c : Nat) (call : SlackCall) : SlackChannel := { s with calls := s.calls.set c call }

/-- A call returns; `dispatch` counts the result of a `send`, the other callers log it. -/
def finish (c : Nat) (origin : FlushOrigin) (ok : Bool) : SlackChannel :=
  { s.setCall c .returned with
    alertsOk := s.alertsOk + if origin = .send ∧ ok = true then 1 else 0
    alertsError := s.alertsError + if origin = .send ∧ ok = false then 1 else 0 }

def hold (finding : Finding) (now : Nat) : SlackChannel :=
  { s with buffer := s.buffer.push finding now, pushed := s.pushed ++ [finding] }

def afterPush (c : Nat) (finding : Finding) (now : Nat) : SlackChannel :=
  if (s.buffer.push finding now).full config then
    (s.hold finding now).setCall c (.locking .send)
  else (s.hold finding now).finish c .send true

def afterLock (c : Nat) (origin : FlushOrigin) (now : Nat) : SlackChannel :=
  match s.buffer.drain config origin.force now with
  | (some batch, buffer) =>
    { s.setCall c (.posting origin batch 0) with buffer, drained := s.drained ++ [batch] }
  | (none, buffer) => { s.finish c origin true with buffer }

def afterResponse (c : Nat) (origin : FlushOrigin) (batch : List Finding) (attempt : Nat)
    (response : Option SlackResponse) : SlackChannel :=
  match attemptResult config attempt response with
  | .retry _ => s.setCall c (.posting origin batch (attempt + 1))
  | .failed _ => { s.finish c origin false with dropped := s.dropped ++ [batch] }
  | .delivered => { s.finish c origin true with accepted := s.accepted ++ [batch] }

def step : SlackLabel → Option SlackChannel
  | .send finding => some { s with calls := s.calls ++ [.pushing finding] }
  | .flush origin =>
    -- a `send` calls `flush` itself
    if origin = .send then none else some { s with calls := s.calls ++ [.locking origin] }
  | .push c now =>
    match s.calls[c]? with
    | some (.pushing finding) => some (s.afterPush config c finding now)
    | _ => none
  | .lock c now =>
    match s.calls[c]? with
    | some (.locking origin) => some (s.afterLock config c origin now)
    | _ => none
  | .respond c response =>
    match s.calls[c]? with
    | some (.posting origin batch attempt) =>
      some (s.afterResponse config c origin batch attempt response)
    | _ => none

def machine : Machine SlackChannel SlackLabel := ⟨fun s l => s.step config l⟩

/-- What a step can do. -/
inductive Moves : SlackChannel → SlackLabel → SlackChannel → Prop where
  | send (s : SlackChannel) (finding : Finding) :
    Moves s (.send finding) { s with calls := s.calls ++ [.pushing finding] }
  | flush (s : SlackChannel) {origin : FlushOrigin} (h : origin ≠ .send) :
    Moves s (.flush origin) { s with calls := s.calls ++ [.locking origin] }
  | fill {s : SlackChannel} {c : Nat} {finding : Finding} (now : Nat)
    (hc : s.calls[c]? = some (.pushing finding)) :
    Moves s (.push c now) ((s.hold finding now).setCall c (.locking .send))
  | store {s : SlackChannel} {c : Nat} {finding : Finding} (now : Nat)
    (hc : s.calls[c]? = some (.pushing finding))
    (hfull : (s.buffer.push finding now).full config = false) :
    Moves s (.push c now) ((s.hold finding now).finish c .send true)
  | pass {s : SlackChannel} {c : Nat} {origin : FlushOrigin} (now : Nat)
    (hc : s.calls[c]? = some (.locking origin))
    (hs : s.buffer.shouldDrain config origin.force now = false) :
    Moves s (.lock c now) (s.finish c origin true)
  | drain {s : SlackChannel} {c : Nat} {origin : FlushOrigin} (now : Nat)
    (hc : s.calls[c]? = some (.locking origin))
    (hs : s.buffer.shouldDrain config origin.force now = true) :
    Moves s (.lock c now)
      { s.setCall c (.posting origin s.buffer.findings 0) with
        buffer := .empty
        drained := s.drained ++ [s.buffer.findings] }
  | retry {s : SlackChannel} {c : Nat} {origin : FlushOrigin} {batch : List Finding}
    {attempt : Nat} {response : Option SlackResponse} {delaySecs : Nat}
    (hc : s.calls[c]? = some (.posting origin batch attempt))
    (hresult : attemptResult config attempt response = .retry delaySecs) :
    Moves s (.respond c response) (s.setCall c (.posting origin batch (attempt + 1)))
  | fail {s : SlackChannel} {c : Nat} {origin : FlushOrigin} {batch : List Finding}
    {attempt : Nat} {response : Option SlackResponse} {error : String}
    (hc : s.calls[c]? = some (.posting origin batch attempt))
    (hresult : attemptResult config attempt response = .failed error) :
    Moves s (.respond c response)
      { s.finish c origin false with dropped := s.dropped ++ [batch] }
  | deliver {s : SlackChannel} {c : Nat} {origin : FlushOrigin} {batch : List Finding}
    {attempt : Nat} {response : Option SlackResponse}
    (hc : s.calls[c]? = some (.posting origin batch attempt))
    (hresult : attemptResult config attempt response = .delivered) :
    Moves s (.respond c response)
      { s.finish c origin true with accepted := s.accepted ++ [batch] }

variable {config} {s}

theorem step_moves {t : SlackChannel} {l : SlackLabel} (h : s.step config l = some t) :
    Moves config s l t := by
  cases l with
  | send finding =>
    cases h
    exact .send s finding
  | flush origin =>
    simp only [step] at h
    split at h
    · cases h
    · next horigin =>
      cases h
      exact .flush s horigin
  | push c now =>
    simp only [step] at h
    split at h
    · next finding hc =>
      cases h
      unfold afterPush
      split
      · exact .fill now hc
      · next hfull => exact .store now hc (eq_false_of_ne_true hfull)
    · cases h
  | lock c now =>
    simp only [step] at h
    split at h
    · next origin hc =>
      cases h
      rcases s.buffer.drain_cases config origin.force now with hdrain | hpass
      · obtain ⟨hs, hdrain⟩ := hdrain
        have heq : s.afterLock config c origin now =
            { s.setCall c (.posting origin s.buffer.findings 0) with
              buffer := .empty
              drained := s.drained ++ [s.buffer.findings] } := by
          unfold afterLock
          rw [hdrain]
        rw [heq]
        exact .drain now hc hs
      · obtain ⟨hs, hpass⟩ := hpass
        have heq : s.afterLock config c origin now = s.finish c origin true := by
          unfold afterLock
          rw [hpass]
          rfl
        rw [heq]
        exact .pass now hc hs
    · cases h
  | respond c response =>
    simp only [step] at h
    split at h
    · next origin batch attempt hc =>
      cases h
      unfold afterResponse
      split
      · next hresult => exact .retry hc hresult
      · next hresult => exact .fail hc hresult
      · next hresult => exact .deliver hc hresult
    · cases h

/-- The buffer's invariant: nothing is lost or sent twice, and the time stamp tells
whether the buffer holds something. -/
structure Conserved (s : SlackChannel) : Prop where
  order : s.drained.flatten ++ s.buffer.findings = s.pushed
  stamp : s.buffer.firstBufferedAt.isSome = true ↔ s.buffer.findings ≠ []
  nonempty : ∀ batch ∈ s.drained, batch ≠ []

theorem start_conserved : start.Conserved := by
  refine ⟨rfl, ?_, nofun⟩
  simp [start, BufferState.empty]

/-- A drain finds something: when it is forced it tests for that, and otherwise the
time stamp vouches for it. -/
theorem Conserved.drain_nonempty (h : s.Conserved) {force : Bool} {now : Nat}
    (hs : s.buffer.shouldDrain config force now = true) : s.buffer.findings ≠ [] := by
  unfold BufferState.shouldDrain at hs
  cases force with
  | true =>
    intro hnil
    simp [hnil] at hs
  | false =>
    apply h.stamp.mp
    cases hfirst : s.buffer.firstBufferedAt with
    | none => simp [hfirst] at hs
    | some at_ => rfl

theorem Conserved.keep {t : SlackChannel} (h : s.Conserved) (hbuffer : t.buffer = s.buffer)
    (hdrained : t.drained = s.drained) (hpushed : t.pushed = s.pushed) : t.Conserved := by
  constructor
  · rw [hbuffer, hdrained, hpushed]
    exact h.order
  · rw [hbuffer]
    exact h.stamp
  · rw [hdrained]
    exact h.nonempty

theorem hold_conserved (h : s.Conserved) (finding : Finding) (now : Nat) :
    (s.hold finding now).Conserved := by
  refine ⟨?_, ?_, h.nonempty⟩
  · simp only [hold, BufferState.push]
    rw [← List.append_assoc, h.order]
  · simp [hold, BufferState.push]

theorem step_conserved {t : SlackChannel} {l : SlackLabel} (h : s.Conserved)
    (hstep : s.step config l = some t) : t.Conserved := by
  cases step_moves hstep with
  | send finding => exact h.keep rfl rfl rfl
  | flush horigin => exact h.keep rfl rfl rfl
  | @fill c finding now hc => exact (hold_conserved h finding now).keep rfl rfl rfl
  | @store c finding now hc hfull => exact (hold_conserved h finding now).keep rfl rfl rfl
  | pass now hc hs => exact h.keep rfl rfl rfl
  | drain now hc hs =>
    constructor
    · simp only [List.flatten_append, List.flatten_singleton, BufferState.empty, List.append_nil]
      exact h.order
    · simp [BufferState.empty]
    · intro batch hbatch
      rcases List.mem_append.mp hbatch with hbatch | hbatch
      · exact h.nonempty batch hbatch
      · rw [List.mem_singleton.mp hbatch]
        exact h.drain_nonempty hs
  | retry hc hresult => exact h.keep rfl rfl rfl
  | fail hc hresult => exact h.keep rfl rfl rfl
  | deliver hc hresult => exact h.keep rfl rfl rfl

variable (config)

theorem run_conserved {ls : List SlackLabel} (h : (machine config).run start ls = some s) :
    s.Conserved :=
  Machine.run_invariant (M := machine config) step_conserved start_conserved h

/-- In every interleaving the batches in the order in which they were drained,
followed by the buffer, are the findings in the order in which they were pushed;
no batch is empty, so the message is built without a panic. -/
theorem buffering_conserves {ls : List SlackLabel}
    (h : (machine config).run start ls = some s) :
    s.drained.flatten ++ s.buffer.findings = s.pushed ∧
      (s.buffer.firstBufferedAt.isSome = true ↔ s.buffer.findings ≠ []) ∧
      ∀ batch ∈ s.drained, batch ≠ [] ∧ (buildPayload config batch).isPanic = false := by
  have hs := run_conserved config h
  refine ⟨hs.order, hs.stamp, ?_⟩
  intro batch hbatch
  have hne := hs.nonempty batch hbatch
  refine ⟨hne, ?_⟩
  rw [← Bool.not_eq_true, buildPayload_isPanic]
  exact hne

/-- A batch is full with one finding. -/
def eager : SlackConfig := ⟨none, "xoxb", "#alerts", none, none, 5000, 1, 2000, 3⟩

/-- The timer flushes between a push and the flush of the sender that filled the batch. -/
def timerBetween : List SlackLabel :=
  [.send Deduplicator.ssnFinding, .push 0 0, .flush .timer, .lock 1 2000, .lock 0 2001]

theorem buffering_conserves_timer :
    ∃ s, (machine eager).run start timerBetween = some s ∧
      s.drained = [[Deduplicator.ssnFinding]] ∧
      (s.drained.flatten ++ s.buffer.findings = s.pushed ∧
        (s.buffer.firstBufferedAt.isSome = true ↔ s.buffer.findings ≠ []) ∧
        ∀ batch ∈ s.drained, batch ≠ [] ∧ (buildPayload eager batch).isPanic = false) :=
  ⟨_, rfl, rfl, buffering_conserves eager
    (show (machine eager).run start timerBetween = some _ from rfl)⟩

end SlackChannel

end PgSense
