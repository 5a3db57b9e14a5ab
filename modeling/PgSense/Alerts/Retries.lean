import PgSense.Alerts.Accounting
import PgSense.Library.Retry

/-! One call of `send_batch` against any sequence of answers of the Slack API, and the steps
of the channel that it is. -/

namespace PgSense
open Library
set_option autoImplicit false

/-- The rounds of `send_batch` from `attempt` on: the requests made and the result. The range
has `rounds` attempts left, and after its end the code is marked unreachable. -/
def sendRounds (config : SlackConfig) (outcomes : Nat → Option SlackResponse) :
    Nat → Nat → Nat × Outcome Error Unit
  | 0, _ => (0, .panic "internal error: entered unreachable code")
  | rounds + 1, attempt =>
    match attemptResult config attempt (outcomes attempt) with
    | .retry _ =>
      let (requests, result) := sendRounds config outcomes rounds (attempt + 1)
      (requests + 1, result)
    | .failed error => (1, .err (.msg error))
    | .delivered => (1, .ok ())

/-- `Inner::send_batch`, where `outcomes attempt` answers the request of that attempt. -/
def sendBatch (config : SlackConfig) (findings : List Finding)
    (outcomes : Nat → Option SlackResponse) : Nat × Outcome Error Unit :=
  match buildPayload config findings with
  | .ok _ => sendRounds config outcomes (config.maxRetries + 1) 0
  | .err e => (0, .err e)
  | .panic m => (0, .panic m)

/-- HTTP 429, `TOO_MANY_REQUESTS`. -/
def RateLimited (outcome : Option SlackResponse) : Prop :=
  ∃ response, outcome = some response ∧ response.status = 429

/-- A 2xx response whose body has `ok = true`. -/
def Accepted (outcome : Option SlackResponse) : Prop :=
  ∃ response error, outcome = some response ∧ 200 ≤ response.status ∧ response.status < 300 ∧
    response.body = some (some true, error)

theorem Accepted.not_rateLimited {outcome : Option SlackResponse} (h : Accepted outcome) :
    ¬ RateLimited outcome := by
  rintro ⟨response', hsome', hstatus⟩
  obtain ⟨response, error, rfl, _, hhigh, _⟩ := h
  cases hsome'
  omega

section Rounds
variable (config : SlackConfig)

/-- How a round ends the loop, if it does. -/
def AttemptResult.ending : AttemptResult → Option (Outcome Error Unit)
  | .retry _ => none
  | .failed error => some (.err (.msg error))
  | .delivered => some (.ok ())

theorem sendRounds_eq (outcomes : Nat → Option SlackResponse) (rounds attempt : Nat) :
    sendRounds config outcomes rounds attempt =
      retryLoop (fun i => (attemptResult config i (outcomes i)).ending)
        (.panic "internal error: entered unreachable code") rounds attempt := by
  induction rounds generalizing attempt with
  | zero => rfl
  | succ rounds ih =>
    rw [sendRounds, retryLoop]
    cases attemptResult config attempt (outcomes attempt) with
    | retry delaySecs =>
      simp only [ih]
      rfl
    | failed error => rfl
    | delivered => rfl

/-- Only a 429 is tried again, and not on the last attempt; only an accepting response
succeeds. -/
theorem attemptResult_cases (attempt : Nat) (outcome : Option SlackResponse) :
    (RateLimited outcome ∧ attempt ≠ config.maxRetries ∧
        ∃ delaySecs, attemptResult config attempt outcome = .retry delaySecs) ∨
      (¬ (RateLimited outcome ∧ attempt ≠ config.maxRetries) ∧ ¬ Accepted outcome ∧
        ∃ error, attemptResult config attempt outcome = .failed error) ∨
      (Accepted outcome ∧ attemptResult config attempt outcome = .delivered) := by
  cases outcome with
  | none =>
    refine .inr (.inl ⟨?_, ?_, _, rfl⟩)
    · rintro ⟨⟨response, hsome, _⟩, _⟩
      cases hsome
    · rintro ⟨response, error, hsome, _⟩
      cases hsome
  | some response =>
    have hlimited : RateLimited (some response) ↔ response.status = 429 := by
      simp [RateLimited]
    have haccepted : Accepted (some response) ↔ 200 ≤ response.status ∧ response.status < 300 ∧
        ∃ error, response.body = some (some true, error) := by
      simp [Accepted]
    rw [hlimited, haccepted]
    obtain ⟨status, statusText, retryAfter, body⟩ := response
    dsimp only
    by_cases h429 : status = 429
    · by_cases hmax : attempt = config.maxRetries
      · exact .inr (.inl ⟨fun h => h.2 hmax, by omega, _, (if_pos h429).trans (if_pos hmax)⟩)
      · exact .inl ⟨h429, hmax, _, (if_pos h429).trans (if_neg hmax)⟩
    · have hother : ¬ (status = 429 ∧ attempt ≠ config.maxRetries) := fun h => h429 h.1
      match body with
      | none => exact .inr (.inl ⟨hother, by simp, _, if_neg h429⟩)
      | some (ok, error) =>
        by_cases hstatus : status < 200 ∨ 300 ≤ status
        · exact .inr (.inl ⟨hother, by omega, _, (if_neg h429).trans (if_pos hstatus)⟩)
        · by_cases hok : ok = some true
          · exact .inr (.inr ⟨⟨by omega, by omega, error, by rw [hok]⟩,
              (if_neg h429).trans ((if_neg hstatus).trans (if_pos hok))⟩)
          · exact .inr (.inl ⟨hother, by simp [hok], _,
              (if_neg h429).trans ((if_neg hstatus).trans (if_neg hok))⟩)

theorem ending_eq_none {attempt : Nat} {outcome : Option SlackResponse} :
    (attemptResult config attempt outcome).ending = none ↔
      RateLimited outcome ∧ attempt ≠ config.maxRetries := by
  rcases attemptResult_cases config attempt outcome with
    ⟨hlimited, hmax, _, heq⟩ | ⟨hother, _, _, heq⟩ | ⟨haccepted, heq⟩
  · simp [heq, AttemptResult.ending, hlimited, hmax]
  · simp [heq, AttemptResult.ending, hother]
  · simp [heq, AttemptResult.ending, haccepted.not_rateLimited]

theorem ending_eq_some {attempt : Nat} {outcome : Option SlackResponse}
    {result : Outcome Error Unit}
    (h : (attemptResult config attempt outcome).ending = some result) :
    (result = .ok () ↔ Accepted outcome) ∧ ∀ m, result ≠ .panic m := by
  rcases attemptResult_cases config attempt outcome with
    ⟨_, _, _, heq⟩ | ⟨_, hrefused, _, heq⟩ | ⟨haccepted, heq⟩
  · rw [heq] at h
    cases h
  · rw [heq] at h
    cases h
    simp [hrefused]
  · rw [heq] at h
    cases h
    simp [haccepted]

/-- The loop ends by itself: on the first attempt that is not rate-limited or on the last. -/
theorem sendRounds_leading (outcomes : Nat → Option SlackResponse) :
    ∃ (j : Nat) (result : Outcome Error Unit),
      (j : ℕ∞) = min (leading fun i => RateLimited (outcomes i)) config.maxRetries ∧
      sendRounds config outcomes (config.maxRetries + 1) 0 = (j + 1, result) ∧
      (result = .ok () ↔ Accepted (outcomes j)) ∧ ∀ m, result ≠ .panic m := by
  rw [sendRounds_eq]
  have hround : ∀ i < config.maxRetries,
      (attemptResult config i (outcomes i)).ending = none ↔ RateLimited (outcomes i) := by
    intro i hi
    rw [ending_eq_none]
    exact and_iff_left (Nat.ne_of_lt hi)
  have hlast : (attemptResult config config.maxRetries
      (outcomes config.maxRetries)).ending ≠ none := by
    intro hnone
    exact ((ending_eq_none config).mp hnone).2 rfl
  obtain ⟨j, result, hmin, hended, hloop⟩ := retryLoop_leading _
    (.panic "internal error: entered unreachable code") hround hlast
  exact ⟨j, result, hmin, hloop, ending_eq_some config hended⟩

theorem sendBatch_eq {findings : List Finding} (hne : findings ≠ [])
    (outcomes : Nat → Option SlackResponse) :
    sendBatch config findings outcomes =
      sendRounds config outcomes (config.maxRetries + 1) 0 := by
  obtain ⟨payload, hpayload⟩ := exists_payload config hne
  rw [sendBatch, hpayload]

end Rounds

/-- With `k` leading 429 answers, `send_batch` makes `min k max_retries + 1` requests. It
returns `Ok` exactly when `k ≤ max_retries` and answer `k` is accepting, and otherwise an
error: no run reaches the end of the loop. A flush never sends an empty batch. -/
theorem sendBatch_retries (config : SlackConfig) {findings : List Finding} (hne : findings ≠ [])
    (outcomes : Nat → Option SlackResponse) :
    let k := leading fun i => RateLimited (outcomes i)
    ((sendBatch config findings outcomes).1 : ℕ∞) = min k config.maxRetries + 1 ∧
    ((sendBatch config findings outcomes).2 = .ok () ↔
      ∃ n : Nat, k = n ∧ n ≤ config.maxRetries ∧ Accepted (outcomes n)) ∧
    ((sendBatch config findings outcomes).2 ≠ .ok () →
      ∃ e, (sendBatch config findings outcomes).2 = .err e) ∧
    (sendBatch config findings outcomes).2.isPanic = false := by
  obtain ⟨j, result, hmin, hloop, hok, hpanic⟩ := sendRounds_leading config outcomes
  have hend : result = .ok () ∨ ∃ e, result = .err e := by
    cases result with
    | ok value => exact .inl rfl
    | err e => exact .inr ⟨e, rfl⟩
    | panic m => exact absurd rfl (hpanic m)
  rw [sendBatch_eq config hne, hloop]
  dsimp only
  refine ⟨?_, ?_, hend.resolve_left, ?_⟩
  · rw [← hmin, Nat.cast_add, Nat.cast_one]
  · rw [hok]
    constructor
    · intro haccepted
      obtain ⟨hleading, hle⟩ := leading_of_min hmin haccepted.not_rateLimited
      exact ⟨j, hleading, hle, haccepted⟩
    · rintro ⟨n, hn, hle, haccepted⟩
      rwa [eq_of_leading hmin hn hle]
  · rcases hend with rfl | ⟨e, rfl⟩
    · rfl
    · rfl

/-- Two rate-limited answers before the accepting one. -/
def limitedTwice : Nat → Option SlackResponse
  | 0 | 1 => some ⟨429, "429 Too Many Requests", some 2, none⟩
  | _ => some ⟨200, "200 OK", none, some (some true, none)⟩

theorem sendBatch_retries_limitedTwice :
    sendBatch SlackChannel.eager [Deduplicator.ssnFinding] limitedTwice = (3, .ok ()) ∧
      ∃ n : Nat, (leading fun i => RateLimited (limitedTwice i)) = n ∧ n ≤ 3 ∧
        Accepted (limitedTwice n) := by
  have hne : [Deduplicator.ssnFinding] ≠ [] := List.cons_ne_nil _ _
  exact ⟨rfl, (sendBatch_retries SlackChannel.eager hne limitedTwice).2.1.mp rfl⟩

namespace SlackChannel
variable {config : SlackConfig}

/-- How a call of `send_batch` leaves the channel. -/
def conclude (s : SlackChannel) (c : Nat) (origin : FlushOrigin) (batch : List Finding) :
    Outcome Error Unit → SlackChannel
  | .ok _ => { s.finish c origin true with accepted := s.accepted ++ [batch] }
  | _ => { s.finish c origin false with dropped := s.dropped ++ [batch] }

theorem conclude_setCall (s : SlackChannel) (c : Nat) (origin : FlushOrigin)
    (batch : List Finding) (call : SlackCall) (result : Outcome Error Unit) :
    (s.setCall c call).conclude c origin batch result = s.conclude c origin batch result := by
  cases result <;> simp [conclude, finish, setCall]

/-- The steps of the channel with one call's answers are the rounds of that call. -/
theorem run_sendRounds {s : SlackChannel} {c : Nat} {origin : FlushOrigin}
    {batch : List Finding} {attempt : Nat} (hc : s.calls[c]? = some (.posting origin batch attempt))
    (outcomes : Nat → Option SlackResponse) {rounds requests : Nat} {result : Outcome Error Unit}
    (h : sendRounds config outcomes rounds attempt = (requests, result))
    (hpanic : ∀ m, result ≠ .panic m) :
    (machine config).run s
        ((List.range' attempt requests).map fun i => .respond c (outcomes i)) =
      some (s.conclude c origin batch result) := by
  induction rounds generalizing s attempt requests with
  | zero =>
    cases h
    exact absurd rfl (hpanic _)
  | succ rounds ih =>
    have hstep : (machine config).step s (.respond c (outcomes attempt)) =
        some (s.afterResponse config c origin batch attempt (outcomes attempt)) := by
      simp only [machine, step]
      rw [hc]
    rw [sendRounds] at h
    unfold afterResponse at hstep
    cases hresult : attemptResult config attempt (outcomes attempt) with
    | retry delaySecs =>
      rw [hresult] at h hstep
      obtain ⟨rfl, rfl⟩ := Prod.mk.inj h
      have hset : (s.setCall c (.posting origin batch (attempt + 1))).calls[c]? =
          some (.posting origin batch (attempt + 1)) := by
        have hlt := (List.getElem?_eq_some_iff.mp hc).1
        simp [setCall, hlt]
      rw [List.range'_succ, List.map_cons, Machine.run_cons, hstep, Option.bind_some,
        ih hset rfl, conclude_setCall]
    | failed error =>
      rw [hresult] at h hstep
      cases h
      rw [List.range'_one, List.map_singleton, Machine.run_cons, hstep]
      rfl
    | delivered =>
      rw [hresult] at h hstep
      cases h
      rw [List.range'_one, List.map_singleton, Machine.run_cons, hstep]
      rfl

/-- In every run a call that has drained a batch makes the requests of `send_batch` and
returns its result. -/
theorem run_sendBatch {s : SlackChannel} {ls : List SlackLabel}
    (h : (machine config).run start ls = some s) {c : Nat} {origin : FlushOrigin}
    {batch : List Finding} (hc : s.calls[c]? = some (.posting origin batch 0))
    (outcomes : Nat → Option SlackResponse) :
    (machine config).run s ((List.range (sendBatch config batch outcomes).1).map fun i =>
        .respond c (outcomes i)) =
      some (s.conclude c origin batch (sendBatch config batch outcomes).2) := by
  have hcounted : s.Counted :=
    Machine.run_invariant (M := machine config) step_counted start_counted h
  have hne : batch ≠ [] := hcounted.posts _ (List.mem_of_getElem? hc)
  obtain ⟨j, result, _, hloop, _, hpanic⟩ := sendRounds_leading config outcomes
  rw [sendBatch_eq config hne, hloop, List.range_eq_range']
  exact run_sendRounds hc outcomes hloop hpanic

end SlackChannel

end PgSense
