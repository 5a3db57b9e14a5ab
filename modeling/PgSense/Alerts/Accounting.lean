import PgSense.Alerts.Batching
import PgSense.Library.Tally

/-! What the batches of a Slack channel amount to: how large they get, and what the
counters of `alerts_total` say about the findings in them. -/

namespace PgSense
open Library
set_option autoImplicit false

namespace SlackChannel

/-- A `send` on its way from the push to its flush. -/
def waiting : SlackCall → Nat
  | .locking .send => 1
  | _ => 0

section BatchSize
variable (config : SlackConfig)

/-- A finding is pushed only while the buffer holds fewer than `batch_size` findings:
no earlier `send` has filled it and still waits for the lock to flush it. -/
def PushedBelowSize (s : SlackChannel) : SlackLabel → Prop
  | .push _ _ => s.buffer.findings.length < config.batchSize
  | _ => True

/-- The findings beyond `batch_size`, over all batches and the buffer. -/
def excess (s : SlackChannel) : Nat :=
  tally (fun batch => batch.length - config.batchSize) s.drained +
    (s.buffer.findings.length - config.batchSize)

theorem excess_eq_zero (s : SlackChannel) : s.excess config = 0 ↔
    (∀ batch ∈ s.drained, batch.length ≤ config.batchSize) ∧
      s.buffer.findings.length ≤ config.batchSize := by
  unfold excess
  rw [Nat.add_eq_zero_iff, tally_eq_zero, Nat.sub_eq_zero_iff_le]
  simp only [Nat.sub_eq_zero_iff_le]

variable {config}

theorem step_excess {s t : SlackChannel} {l : SlackLabel} (hstep : s.step config l = some t) :
    s.excess config ≤ t.excess config ∧
      (t.excess config = s.excess config ↔ PushedBelowSize config s l) := by
  cases step_moves hstep with
  | send finding => exact ⟨Nat.le_refl _, fun _ => trivial, fun _ => rfl⟩
  | flush horigin => exact ⟨Nat.le_refl _, fun _ => trivial, fun _ => rfl⟩
  | fill now hc =>
    simp only [excess, PushedBelowSize, hold, setCall, BufferState.push, List.length_append,
      List.length_singleton]
    omega
  | store now hc hfull =>
    simp only [excess, PushedBelowSize, hold, finish, setCall, BufferState.push,
      List.length_append, List.length_singleton]
    omega
  | pass now hc hs => exact ⟨Nat.le_refl _, fun _ => trivial, fun _ => rfl⟩
  | @drain c origin now hc hs =>
    have heq : excess config
        { s.setCall c (.posting origin s.buffer.findings 0) with
          buffer := .empty
          drained := s.drained ++ [s.buffer.findings] } = s.excess config := by
      simp only [excess, tally_append, tally_cons, tally_nil, BufferState.empty, List.length_nil]
      omega
    exact ⟨Nat.le_of_eq heq.symm, fun _ => trivial, fun _ => heq⟩
  | retry hc hresult => exact ⟨Nat.le_refl _, fun _ => trivial, fun _ => rfl⟩
  | fail hc hresult => exact ⟨Nat.le_refl _, fun _ => trivial, fun _ => rfl⟩
  | deliver hc hresult => exact ⟨Nat.le_refl _, fun _ => trivial, fun _ => rfl⟩

variable (config)

/-- The batches sent and the one being collected keep to `batch_size` exactly in the
runs that push below it. -/
theorem batches_bounded_iff {s : SlackChannel} {ls : List SlackLabel}
    (h : (machine config).run start ls = some s) :
    ((∀ batch ∈ s.drained, batch.length ≤ config.batchSize) ∧
      s.buffer.findings.length ≤ config.batchSize) ↔
      (machine config).Along (PushedBelowSize config) start ls := by
  have hmono : ∀ {s l t}, True → (machine config).step s l = some t →
      s.excess config ≤ t.excess config :=
    fun _ hstep => (step_excess hstep).1
  have hkeep : ∀ {s l t}, True → (machine config).step s l = some t →
      (t.excess config = s.excess config ↔ PushedBelowSize config s l) :=
    fun _ hstep => (step_excess hstep).2
  have hmeasure := Machine.along_iff_measure (fun _ _ => trivial) hmono hkeep trivial h
  rw [← hmeasure.2, ← excess_eq_zero]
  simp [start, excess, BufferState.empty]

def twoSenders : List SlackLabel :=
  [.send Deduplicator.ssnFinding, .send Deduplicator.ssnFinding, .push 0 0, .push 1 0, .lock 0 0]

/-- Two senders push before the first of them flushes. -/
theorem batch_above_size :
    ∃ s, (machine eager).run start twoSenders = some s ∧ 1 ≤ eager.batchSize ∧
      ∃ batch ∈ s.drained, ¬ batch.length ≤ eager.batchSize := by
  refine ⟨_, rfl, Nat.le_refl _, _, List.mem_singleton.mpr rfl, ?_⟩
  decide

theorem batches_bounded_iff_timer :
    ∃ s, (machine eager).run start timerBetween = some s ∧
      (((∀ batch ∈ s.drained, batch.length ≤ eager.batchSize) ∧
        s.buffer.findings.length ≤ eager.batchSize) ↔
        (machine eager).Along (PushedBelowSize eager) start timerBetween) :=
  ⟨_, rfl, batches_bounded_iff eager
    (show (machine eager).run start timerBetween = some _ from rfl)⟩

end BatchSize

section Counters

/-- A dispatch that has pushed its finding and not counted it. -/
def uncounted : SlackCall → Nat
  | .locking .send => 1
  | .posting .send _ _ => 1
  | _ => 0

def inFlight : SlackCall → Nat
  | .posting _ batch _ => batch.length
  | _ => 0

def PostsSomething : SlackCall → Prop
  | .posting _ batch _ => batch ≠ []
  | _ => True

/-- Every pushed finding is counted or will be by its own dispatch, and every pushed
finding is accepted, dropped, in flight or buffered. -/
structure Counted (s : SlackChannel) : Prop where
  conserved : s.Conserved
  counts : s.alertsOk + s.alertsError + tally uncounted s.calls = s.pushed.length
  fates : s.accepted.flatten.length + s.dropped.flatten.length + tally inFlight s.calls +
    s.buffer.findings.length = s.pushed.length
  errors : s.alertsError ≤ s.dropped.flatten.length
  posts : ∀ call ∈ s.calls, PostsSomething call

theorem start_counted : start.Counted :=
  ⟨start_conserved, rfl, rfl, Nat.le_refl _, nofun⟩

variable {config : SlackConfig} {s t : SlackChannel} {l : SlackLabel}

theorem Counted.begin (h : s.Counted) {call : SlackCall} (hcounted : uncounted call = 0)
    (hflight : inFlight call = 0) (hcall : PostsSomething call) :
    ({ s with calls := s.calls ++ [call] } : SlackChannel).Counted := by
  refine ⟨h.conserved.keep rfl rfl rfl, ?_, ?_, h.errors, ?_⟩
  · simp only [tally_append, tally_cons, tally_nil, hcounted]
    exact h.counts
  · simp only [tally_append, tally_cons, tally_nil, hflight]
    exact h.fates
  · intro call' hmem
    rcases List.mem_append.mp hmem with hmem | hmem
    · exact h.posts call' hmem
    · rw [List.mem_singleton.mp hmem]
      exact hcall

/-- A step of one call keeps both balances when the call's own share does. -/
theorem Counted.advance (h : s.Counted) {c : Nat} {call call' : SlackCall}
    (hc : s.calls[c]? = some call) (hcalls : t.calls = s.calls.set c call')
    (hconserved : t.Conserved)
    (hcounts : t.alertsOk + t.alertsError + uncounted call' + s.pushed.length =
      s.alertsOk + s.alertsError + uncounted call + t.pushed.length)
    (hfates : t.accepted.flatten.length + t.dropped.flatten.length + inFlight call' +
      t.buffer.findings.length + s.pushed.length =
        s.accepted.flatten.length + s.dropped.flatten.length + inFlight call +
          s.buffer.findings.length + t.pushed.length)
    (herrors : t.alertsError ≤ t.dropped.flatten.length) (hposts : PostsSomething call') :
    t.Counted := by
  have hcounts' := h.counts
  have hfates' := h.fates
  have huncounted := tally_set uncounted hc call'
  have hflight := tally_set inFlight hc call'
  refine ⟨hconserved, ?_, ?_, herrors, ?_⟩
  · rw [hcalls]
    omega
  · rw [hcalls]
    omega
  · intro other hmem
    rw [hcalls] at hmem
    rcases List.mem_or_eq_of_mem_set hmem with hmem | heq
    · exact h.posts other hmem
    · rw [heq]
      exact hposts

theorem step_counted (h : s.Counted) (hstep : s.step config l = some t) : t.Counted := by
  have hconserved := step_conserved h.conserved hstep
  have herrors := h.errors
  cases step_moves hstep with
  | send finding => exact h.begin rfl rfl trivial
  | @flush origin horigin =>
    cases origin with
    | send => exact absurd rfl horigin
    | timer => exact h.begin rfl rfl trivial
    | final => exact h.begin rfl rfl trivial
  | fill now hc =>
    apply h.advance hc rfl hconserved
    · simp [hold, setCall, uncounted]
      omega
    · simp [hold, setCall, inFlight, BufferState.push]
      omega
    · exact herrors
    · trivial
  | store now hc hfull =>
    apply h.advance hc rfl hconserved
    · simp [hold, finish, setCall, uncounted]
      omega
    · simp [hold, finish, setCall, inFlight, BufferState.push]
      omega
    · exact herrors
    · trivial
  | @pass c origin now hc hs =>
    apply h.advance hc rfl hconserved
    · cases origin <;> simp [finish, setCall, uncounted]
      omega
    · simp [finish, setCall, inFlight]
    · simpa [finish, setCall] using herrors
    · trivial
  | @drain c origin now hc hs =>
    apply h.advance hc rfl hconserved
    · cases origin <;> rfl
    · simp [setCall, inFlight, BufferState.empty]
    · exact herrors
    · exact h.conserved.drain_nonempty hs
  | @retry c origin batch attempt response delaySecs hc hresult =>
    have hposts : batch ≠ [] := h.posts _ (List.mem_of_getElem? hc)
    apply h.advance hc rfl hconserved
    · cases origin <;> rfl
    · rfl
    · exact herrors
    · exact hposts
  | @fail c origin batch attempt response error hc hresult =>
    have hpos := List.length_pos_iff.mpr (h.posts _ (List.mem_of_getElem? hc))
    apply h.advance hc rfl hconserved
    · cases origin <;> simp [finish, setCall, uncounted]
      omega
    · simp [finish, setCall, inFlight]
      omega
    · simp only [finish, List.flatten_append, List.length_append, List.flatten_singleton]
      split <;> omega
    · trivial
  | @deliver c origin batch attempt response hc hresult =>
    apply h.advance hc rfl hconserved
    · cases origin <;> simp [finish, setCall, uncounted]
      omega
    · simp [finish, setCall, inFlight]
      omega
    · simpa [finish, setCall] using herrors
    · trivial

/-- A batch that fails is one finding, posted by the `send` that pushed it. -/
def FailsAlone (config : SlackConfig) (s : SlackChannel) : SlackLabel → Prop
  | .respond c response => ∀ origin batch attempt error,
      s.calls[c]? = some (.posting origin batch attempt) →
        attemptResult config attempt response = .failed error →
          origin = .send ∧ batch.length = 1
  | _ => True

/-- The dropped findings that no error counts. -/
def unreported (s : SlackChannel) : Nat := s.dropped.flatten.length - s.alertsError

theorem failsAlone_iff {c : Nat} {origin : FlushOrigin} {batch : List Finding} {attempt : Nat}
    {response : Option SlackResponse} (hc : s.calls[c]? = some (.posting origin batch attempt)) :
    FailsAlone config s (.respond c response) ↔
      ∀ error, attemptResult config attempt response = .failed error →
        origin = .send ∧ batch.length = 1 := by
  constructor
  · intro hall error
    exact hall origin batch attempt error hc
  · intro hone origin' batch' attempt' error hcall
    rw [hc] at hcall
    cases hcall
    exact hone error

theorem step_unreported (h : s.Counted) (hstep : s.step config l = some t) :
    s.unreported ≤ t.unreported ∧ (t.unreported = s.unreported ↔ FailsAlone config s l) := by
  have hsame : t.dropped = s.dropped → t.alertsError = s.alertsError → FailsAlone config s l →
      s.unreported ≤ t.unreported ∧ (t.unreported = s.unreported ↔ FailsAlone config s l) := by
    intro hdropped herror hl
    have heq : t.unreported = s.unreported := by
      unfold unreported
      rw [hdropped, herror]
    exact ⟨Nat.le_of_eq heq.symm, fun _ => hl, fun _ => heq⟩
  cases step_moves hstep with
  | send finding => exact hsame rfl rfl trivial
  | flush horigin => exact hsame rfl rfl trivial
  | fill now hc => exact hsame rfl rfl trivial
  | store now hc hfull => exact hsame rfl rfl trivial
  | pass now hc hs => exact hsame rfl (by simp [finish]) trivial
  | drain now hc hs => exact hsame rfl rfl trivial
  | retry hc hresult =>
    apply hsame rfl rfl
    rw [failsAlone_iff hc, hresult]
    nofun
  | deliver hc hresult =>
    apply hsame rfl (by simp [finish])
    rw [failsAlone_iff hc, hresult]
    nofun
  | @fail c origin batch attempt response error hc hresult =>
    have hpos := List.length_pos_iff.mpr (h.posts _ (List.mem_of_getElem? hc))
    have herrors := h.errors
    rw [failsAlone_iff hc, hresult]
    simp only [unreported, finish, List.flatten_append, List.length_append,
      List.flatten_singleton, AttemptResult.failed.injEq, forall_eq']
    -- only a `send` raises the error count, by one
    cases origin with
    | send =>
      simp only [and_self, if_true, true_and]
      omega
    | timer =>
      simp only [reduceCtorEq, false_and, if_false, iff_false]
      omega
    | final =>
      simp only [reduceCtorEq, false_and, if_false, iff_false]
      omega

theorem tally_waiting (hflight : tally inFlight s.calls = 0)
    (hposts : ∀ call ∈ s.calls, PostsSomething call) :
    tally uncounted s.calls = 0 ↔ .locking .send ∉ s.calls := by
  rw [tally_eq_zero] at hflight ⊢
  constructor
  · intro h hmem
    cases h _ hmem
  · intro h call hmem
    cases call with
    | pushing finding => rfl
    | locking origin =>
      cases origin with
      | send => exact absurd hmem h
      | timer => rfl
      | final => rfl
    | posting origin batch attempt =>
      have hbatch := hposts _ hmem
      exact absurd (List.length_eq_zero_iff.mp (hflight _ hmem)) hbatch
    | returned => rfl

/-- Once the buffer is empty and no batch is in flight, the counters tell the fate of
the findings exactly when every batch that failed was one finding posted by its own
`send`, and no `send` still waits to flush. -/
theorem alerts_counted_iff {ls : List SlackLabel} (h : (machine config).run start ls = some s)
    (hbuffer : s.buffer.findings = [])
    (hflight : ∀ origin batch attempt, .posting origin batch attempt ∉ s.calls) :
    (s.alertsOk = s.accepted.flatten.length ∧ s.alertsError = s.dropped.flatten.length) ↔
      (machine config).Along (FailsAlone config) start ls ∧ .locking .send ∉ s.calls := by
  have hinv : ∀ {s l t}, Counted s → (machine config).step s l = some t → Counted t :=
    fun hs hstep => step_counted hs hstep
  have hmono : ∀ {s l t}, Counted s → (machine config).step s l = some t →
      s.unreported ≤ t.unreported := fun hs hstep => (step_unreported hs hstep).1
  have hkeep : ∀ {s l t}, Counted s → (machine config).step s l = some t →
      (t.unreported = s.unreported ↔ FailsAlone config s l) :=
    fun hs hstep => (step_unreported hs hstep).2
  have hmeasure := (Machine.along_iff_measure hinv hmono hkeep start_counted h).2
  have hs := Machine.run_invariant hinv start_counted h
  have hposted : tally inFlight s.calls = 0 := by
    rw [tally_eq_zero]
    intro call hmem
    cases call with
    | posting origin batch attempt => exact absurd hmem (hflight origin batch attempt)
    | _ => rfl
  have hcounts := hs.counts
  have hfates := hs.fates
  have herrors := hs.errors
  rw [← hmeasure, ← tally_waiting hposted hs.posts]
  rw [hposted, hbuffer, List.length_nil] at hfates
  show _ ↔ s.dropped.flatten.length - s.alertsError = 0 ∧ _
  omega

def defaults : SlackConfig := { eager with batchSize := 8 }

def rateLimited : Option SlackResponse := some ⟨429, "429 Too Many Requests", some 1, none⟩

/-- A lone finding is flushed by the timer, and the API rate-limits it to the end. -/
def timerFails : List SlackLabel :=
  [.send Deduplicator.ssnFinding, .push 0 0, .flush .timer, .lock 1 2000, .respond 1 rateLimited,
    .respond 1 rateLimited, .respond 1 rateLimited, .respond 1 rateLimited]

theorem dropped_finding_counted_ok :
    ∃ s, (machine defaults).run start timerFails = some s ∧ s.buffer.findings = [] ∧
      (∀ origin batch attempt, .posting origin batch attempt ∉ s.calls) ∧
      s.alertsOk = 1 ∧ s.accepted.flatten.length = 0 ∧
      s.alertsError = 0 ∧ s.dropped.flatten.length = 1 := by
  refine ⟨_, rfl, rfl, ?_, rfl, rfl, rfl, rfl⟩
  intro origin batch attempt hmem
  have hcalls : SlackCall.posting origin batch attempt ∈ [.returned, .returned] := hmem
  simp at hcalls

def senderFails : List SlackLabel :=
  [.send Deduplicator.ssnFinding, .push 0 0, .lock 0 0, .respond 0 none]

theorem alerts_counted_iff_sender :
    ∃ s, (machine eager).run start senderFails = some s ∧
      ((s.alertsOk = s.accepted.flatten.length ∧ s.alertsError = s.dropped.flatten.length) ↔
        (machine eager).Along (FailsAlone eager) start senderFails ∧ .locking .send ∉ s.calls) := by
  refine ⟨_, rfl, ?_⟩
  apply alerts_counted_iff (show (machine eager).run start senderFails = some _ from rfl) rfl
  intro origin batch attempt hmem
  have hcalls : SlackCall.posting origin batch attempt ∈ [.returned] := hmem
  simp at hcalls

end Counters

end SlackChannel

end PgSense
