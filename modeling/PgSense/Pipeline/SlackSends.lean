import PgSense.Alerts.Accounting
import PgSense.Pipeline.Unit

/-! The sections of a Slack send, in the loop of a unit and in the channel's own calls. -/

namespace PgSense
open Library
set_option autoImplicit false

namespace DatabaseUnit

/-- Where the call of `dispatch` stands that the loop is in, if any. -/
def call (unit : DatabaseUnit) : Option DispatchPc :=
  match unit.loop with
  | .dispatching _ _ _ _ _ pc => some pc
  | _ => none

def standsAt (pc : DispatchPc) (unit : DatabaseUnit) : Nat := if unit.call = some pc then 1 else 0

/-- What a step of the loop does to the Slack channel at position `i`. -/
inductive SlackMoves (i : Nat) (config : SlackConfig) (u : DatabaseUnit) (sh : Shared) :
    LoopLabel → DatabaseUnit → Shared → Prop
  | apart {l : LoopLabel} {v : DatabaseUnit} {sh' : Shared}
      (hsend : ∀ now, l = .send now → u.call ≠ some (.sending i))
      (hdrain : ∀ now, l = .drain now → u.call ≠ some (.flushing i))
      (hbuffer : sh'.buffers i = sh.buffers i)
      (hflushing : v.call = some (.flushing i) ↔ u.call = some (.flushing i))
      (hposting : v.call = some (.posting i) ↔ u.call = some (.posting i)) :
      SlackMoves i config u sh l v sh'
  | push {now : Nat} {v : DatabaseUnit} {sh' : Shared} {batch : Batch} {engine : RuleEngine}
      {rest : List ScanEvent} {finding : Finding} {later : List Finding}
      (hl : u.loop = .dispatching batch engine rest finding later (.sending i))
      (hbuffer : sh'.buffers i = (sh.buffers i).push finding now)
      (hcall : v.call =
        some (if (sh'.buffers i).full config then .flushing i else .visiting (i + 1))) :
      SlackMoves i config u sh (.send now) v sh'
  | drain {now : Nat} {v : DatabaseUnit} {sh' : Shared} (hl : u.call = some (.flushing i))
      (hbuffer : sh'.buffers i = ((sh.buffers i).drain config true now).2)
      (hcall : v.call =
        some (if ((sh.buffers i).drain config true now).1.isSome then .posting i
          else .visiting (i + 1))) :
      SlackMoves i config u sh (.drain now) v sh'
  | posted {v : DatabaseUnit} {sh' : Shared} (hl : u.call = some (.posting i))
      (hbuffer : sh'.buffers i = sh.buffers i) (hcall : v.call = some (.visiting (i + 1))) :
      SlackMoves i config u sh .posted v sh'

section Steps
variable {cr : Crates} {channels : List NamedChannel} {u v : DatabaseUnit} {sh sh' : Shared}
  {l : LoopLabel} {i : Nat} {config : SlackConfig}

theorem standsAt_le (pc : DispatchPc) (u : DatabaseUnit) : standsAt pc u ≤ 1 := by
  unfold standsAt
  split <;> omega

theorem call_eq {batch : Batch} {engine : RuleEngine} {rest : List ScanEvent} {finding : Finding}
    {later : List Finding} {pc : DispatchPc}
    (hl : u.loop = .dispatching batch engine rest finding later pc) : u.call = some pc := by
  unfold call
  rw [hl]

@[simp] theorem call_dispatchAt (batch : Batch) (engine : RuleEngine) (rest : List ScanEvent)
    (finding : Finding) (later : List Finding) (pc : DispatchPc) :
    (u.dispatchAt batch engine rest finding later pc).call = some pc := rfl

/-- After its return a call of `dispatch` is over, or the next one is at its start. -/
theorem call_returned (batch : Batch) (engine : RuleEngine) (rest : List ScanEvent)
    (finding : Finding) (later : List Finding) {pc : DispatchPc} (hpc : pc ≠ .asking) :
    (u.returned batch engine rest finding later).call ≠ some pc := by
  intro h
  cases later with
  | nil => cases h
  | cons next later =>
    cases h
    exact hpc rfl

/-- Steps that neither push nor flush nor post leave the channel apart. -/
theorem SlackMoves.of_other (hsend : ∀ now, l ≠ .send now) (hdrain : ∀ now, l ≠ .drain now)
    (hbuffer : sh'.buffers i = sh.buffers i) (hu : u.call ≠ some (.flushing i))
    (hu' : u.call ≠ some (.posting i)) (hv : v.call ≠ some (.flushing i))
    (hv' : v.call ≠ some (.posting i)) : SlackMoves i config u sh l v sh' := by
  apply SlackMoves.apart ?_ ?_ hbuffer (iff_of_false hv hu) (iff_of_false hv' hu')
  · intro now h
    exact absurd h (hsend now)
  · intro now h
    exact absurd h (hdrain now)

/-- The sections of a send to another channel leave this one apart. -/
theorem SlackMoves.of_elsewhere {k : Nat} {pc : DispatchPc} (hk : k ≠ i)
    (hpc : pc = .sending k ∨ pc = .flushing k ∨ pc = .posting k) (hu : u.call = some pc)
    (hbuffer : sh'.buffers i = sh.buffers i)
    (hv : v.call = some (.visiting (k + 1)) ∨ v.call = some (.flushing k) ∨
      v.call = some (.posting k)) : SlackMoves i config u sh l v sh' := by
  have hnot : ∀ pc' : DispatchPc, pc' = .sending i ∨ pc' = .flushing i ∨ pc' = .posting i →
      u.call ≠ some pc' := by
    rcases hpc with rfl | rfl | rfl <;> simp [hu, hk]
  have hnot' : ∀ pc' : DispatchPc, pc' = .flushing i ∨ pc' = .posting i → v.call ≠ some pc' := by
    rcases hv with hv | hv | hv <;> simp [hv, hk]
  refine .apart (fun _ _ => hnot _ (.inl rfl)) (fun _ _ => hnot _ (.inr (.inl rfl))) hbuffer
    (iff_of_false ?_ ?_) (iff_of_false ?_ ?_)
  · exact hnot' _ (.inl rfl)
  · exact hnot _ (.inr (.inl rfl))
  · exact hnot' _ (.inr rfl)
  · exact hnot _ (.inr (.inr rfl))

theorem setBuffer_same (sh : Shared) (i : Nat) (buf : BufferState) :
    (sh.setBuffer i buf).buffers i = buf := if_pos rfl

theorem setBuffer_other (sh : Shared) {i k : Nat} (hk : k ≠ i) (buf : BufferState) :
    (sh.setBuffer k buf).buffers i = sh.buffers i := if_neg (Ne.symm hk)

theorem loopStep_slackMoves
    (hi : (channels[i]?).map NamedChannel.channel = some (.slack config))
    (h : u.loopStep cr channels sh l = some (v, sh')) : SlackMoves i config u sh l v sh' := by
  cases loopStep_acts h with
  | received hl | completed hl | nothingFound hl | found hl =>
    refine .of_other (by simp) (by simp) rfl ?_ ?_ ?_ ?_ <;> simp [call, hl, dispatchAt]
  | passed hl | routed hl | skipped hl =>
    have hu := call_eq hl
    refine .of_other (by simp) (by simp) rfl ?_ ?_ ?_ ?_ <;> simp [hu]
  | suppressed hl =>
    have hu := call_eq hl
    refine .of_other (by simp) (by simp) rfl (by simp [hu]) (by simp [hu]) ?_ ?_
    · exact call_returned _ _ _ _ _ (by simp)
    · exact call_returned _ _ _ _ _ (by simp)
  | finished hl =>
    have hu := call_eq hl
    refine .of_other (by simp) (by simp) rfl (by simp [hu]) (by simp [hu]) ?_ ?_
    · exact call_returned _ _ _ _ _ (by simp)
    · exact call_returned _ _ _ _ _ (by simp)
  | @delivered _ _ _ _ _ k _ hl hother =>
    have hk : k ≠ i := by
      rintro rfl
      exact hother config hi
    exact .of_elsewhere hk (.inl rfl) (call_eq hl) rfl (.inl rfl)
  | @buffered _ _ _ _ _ k _ config' hl hslack hroom =>
    by_cases hk : k = i
    · subst hk
      rw [hi] at hslack
      cases hslack
      refine .push hl (setBuffer_same ..) ?_
      rw [setBuffer_same, hroom]
      rfl
    · exact .of_elsewhere hk (.inl rfl) (call_eq hl) (setBuffer_other sh hk _) (.inl rfl)
  | @filled _ _ _ _ _ k _ config' hl hslack hfull =>
    by_cases hk : k = i
    · subst hk
      rw [hi] at hslack
      cases hslack
      refine .push hl (setBuffer_same ..) ?_
      rw [setBuffer_same, hfull]
      rfl
    · exact .of_elsewhere hk (.inl rfl) (call_eq hl) (setBuffer_other sh hk _) (.inr (.inl rfl))
  | @drained _ _ _ _ _ k _ config' hl hslack hdrained =>
    by_cases hk : k = i
    · subst hk
      rw [hi] at hslack
      cases hslack
      refine .drain (call_eq hl) (setBuffer_same ..) ?_
      rw [hdrained]
      rfl
    · exact .of_elsewhere hk (.inr (.inl rfl)) (call_eq hl) (setBuffer_other sh hk _)
        (.inr (.inr rfl))
  | @emptied _ _ _ _ _ k _ config' hl hslack hdrained =>
    by_cases hk : k = i
    · subst hk
      rw [hi] at hslack
      cases hslack
      refine .drain (call_eq hl) (setBuffer_same ..) ?_
      rw [hdrained]
      rfl
    · exact .of_elsewhere hk (.inr (.inl rfl)) (call_eq hl) (setBuffer_other sh hk _) (.inl rfl)
  | @posted _ _ _ _ _ k hl =>
    by_cases hk : k = i
    · subst hk
      exact .posted (call_eq hl) rfl rfl
    · exact .of_elsewhere hk (.inr (.inr rfl)) (call_eq hl) rfl (.inl rfl)

end Steps

end DatabaseUnit

namespace SlackChannel

/-- A batch posted for a caller of this kind. -/
def postingBy (origin : FlushOrigin) : SlackCall → Nat
  | .posting by_ _ _ => if by_ = origin then 1 else 0
  | _ => 0

theorem of_waiting {call : SlackCall} (h : 0 < waiting call) : call = .locking .send := by
  unfold waiting at h
  split at h
  · rfl
  · cases h

theorem of_postingBy {origin : FlushOrigin} {call : SlackCall} (h : 0 < postingBy origin call) :
    ∃ batch attempt, call = .posting origin batch attempt := by
  unfold postingBy at h
  split at h
  · split at h
    · next horigin =>
      subst horigin
      exact ⟨_, _, rfl⟩
    · cases h
  · cases h

section Runs
variable {config : SlackConfig} {s t : SlackChannel}

/-- A dispatch sends: it pushes, and flushes later if it has filled the batch. -/
theorem run_send (config : SlackConfig) (s : SlackChannel) (finding : Finding) (now : Nat) :
    ∃ t, (machine config).run s [.send finding, .push s.calls.length now] = some t ∧
      t.buffer = s.buffer.push finding now ∧ t.pushed = s.pushed ++ [finding] ∧
      t.drained = s.drained ∧
      tally waiting t.calls =
        tally waiting s.calls + (if (s.buffer.push finding now).full config then 1 else 0) ∧
      ∀ origin, tally (postingBy origin) t.calls = tally (postingBy origin) s.calls := by
  have hc : (s.calls ++ [SlackCall.pushing finding])[s.calls.length]? = some (.pushing finding) :=
    List.getElem?_concat_length
  have hset : ∀ weight : SlackCall → Nat, weight (.pushing finding) = 0 → ∀ call,
      tally weight ((s.calls ++ [SlackCall.pushing finding]).set s.calls.length call) =
        tally weight s.calls + weight call := by
    intro weight hzero call
    have h := tally_set weight hc call
    rw [tally_append, tally_cons, tally_nil, hzero] at h
    omega
  simp only [Machine.run_cons, machine, step, Option.bind_some, hc, Machine.run_nil, afterPush]
  split
  · refine ⟨_, rfl, rfl, rfl, rfl, hset waiting rfl _, ?_⟩
    intro origin
    exact hset (postingBy origin) rfl _
  · refine ⟨_, rfl, rfl, rfl, rfl, hset waiting rfl _, ?_⟩
    intro origin
    exact hset (postingBy origin) rfl _

/-- A caller gets the lock: it takes the batch out, or finds nothing to do. -/
theorem run_lock (config : SlackConfig) {c : Nat} {origin : FlushOrigin}
    (hc : s.calls[c]? = some (.locking origin)) (now : Nat) :
    ∃ t, (machine config).run s [.lock c now] = some t ∧
      t.buffer = (s.buffer.drain config origin.force now).2 ∧ t.pushed = s.pushed ∧
      t.drained = s.drained ++ (s.buffer.drain config origin.force now).1.toList ∧
      tally waiting t.calls + waiting (.locking origin) = tally waiting s.calls ∧
      ∀ o, tally (postingBy o) t.calls = tally (postingBy o) s.calls +
        if origin = o ∧ (s.buffer.drain config origin.force now).1.isSome then 1 else 0 := by
  have hset : ∀ (weight : SlackCall → Nat) call, tally weight (s.calls.set c call) +
      weight (.locking origin) = tally weight s.calls + weight call :=
    fun weight call => tally_set weight hc call
  rw [Machine.run_single]
  simp only [machine, step, hc, afterLock]
  rcases s.buffer.drain_cases config origin.force now with ⟨_, hdrain⟩ | ⟨_, hpass⟩
  · rw [hdrain]
    refine ⟨_, rfl, rfl, rfl, rfl, hset waiting _, ?_⟩
    intro o
    have h := hset (postingBy o) (.posting origin s.buffer.findings 0)
    simp only [postingBy] at h
    simpa [setCall] using h
  · rw [hpass]
    refine ⟨_, rfl, rfl, rfl, (List.append_nil _).symm, hset waiting _, ?_⟩
    intro o
    have h := hset (postingBy o) .returned
    simp only [postingBy] at h
    simpa [finish, setCall] using h

/-- The flush task and the final flush call `flush` and get the lock. -/
theorem run_flush (config : SlackConfig) (s : SlackChannel) {origin : FlushOrigin}
    (horigin : origin ≠ .send) (now : Nat) :
    ∃ t, (machine config).run s [.flush origin, .lock s.calls.length now] = some t ∧
      t.buffer = (s.buffer.drain config origin.force now).2 ∧ t.pushed = s.pushed ∧
      t.drained = s.drained ++ (s.buffer.drain config origin.force now).1.toList ∧
      tally waiting t.calls = tally waiting s.calls ∧
      ∀ o, tally (postingBy o) t.calls = tally (postingBy o) s.calls +
        if origin = o ∧ (s.buffer.drain config origin.force now).1.isSome then 1 else 0 := by
  have hc : (s.calls ++ [.locking origin])[s.calls.length]? = some (.locking origin) :=
    List.getElem?_concat_length
  obtain ⟨t, ht, hbuffer, hpushed, hdrained, hwaiting, hposting⟩ :=
    run_lock config (s := { s with calls := s.calls ++ [.locking origin] }) hc now
  refine ⟨t, ?_, hbuffer, hpushed, hdrained, ?_, ?_⟩
  · rw [Machine.run_cons]
    simp only [machine, step, if_neg horigin, Option.bind_some]
    exact ht
  · rw [tally_append, tally_cons, tally_nil] at hwaiting
    omega
  · intro o
    rw [hposting o, tally_append, tally_cons, tally_nil]
    rfl

/-- A post comes to its end. -/
theorem run_ended (config : SlackConfig) {c : Nat} {origin : FlushOrigin} {batch : List Finding}
    {attempt : Nat} (hc : s.calls[c]? = some (.posting origin batch attempt)) :
    ∃ t, (machine config).run s [.respond c none] = some t ∧ t.buffer = s.buffer ∧
      t.pushed = s.pushed ∧ t.drained = s.drained ∧
      tally waiting t.calls = tally waiting s.calls ∧
      ∀ o, tally (postingBy o) t.calls + (if origin = o then 1 else 0) =
        tally (postingBy o) s.calls := by
  rw [Machine.run_single]
  simp only [machine, step, hc]
  refine ⟨_, rfl, rfl, rfl, rfl, ?_, ?_⟩
  · exact tally_set waiting hc .returned
  · intro o
    exact tally_set (postingBy o) hc .returned

/-- The buffer holds less than a batch, and one finding for each dispatch that has yet to
flush. -/
def Below (config : SlackConfig) (s : SlackChannel) : Prop :=
  s.buffer.findings.length ≤ config.batchSize - 1 + tally waiting s.calls

theorem step_below {l : SlackLabel} (h : s.Below config) (hstep : s.step config l = some t) :
    t.Below config := by
  have hposted : ∀ {c origin batch attempt call},
      s.calls[c]? = some (.posting origin batch attempt) → t.calls = s.calls.set c call →
        t.buffer = s.buffer → t.Below config := by
    intro c origin batch attempt call hc hcalls hbuffer
    have hset := tally_set waiting hc call
    simp only [waiting] at hset
    unfold Below at h ⊢
    rw [hbuffer, hcalls]
    omega
  unfold Below at h
  cases step_moves hstep with
  | send finding =>
    simp only [Below, tally_append]
    omega
  | flush horigin =>
    simp only [Below, tally_append]
    omega
  | fill now hc =>
    have hset := tally_set waiting hc (.locking .send)
    simp only [waiting] at hset
    simp only [Below, setCall, hold, BufferState.push, List.length_append, List.length_singleton]
    omega
  | store now hc hfull =>
    have hroom : ¬ config.batchSize ≤ (s.buffer.push _ now).findings.length :=
      of_decide_eq_false hfull
    simp only [BufferState.push, List.length_append, List.length_singleton] at hroom
    simp only [Below, finish, setCall, hold, BufferState.push, List.length_append,
      List.length_singleton]
    omega
  | @pass c origin now hc hs =>
    have hset := tally_set waiting hc .returned
    simp only [Below, finish, setCall]
    cases origin with
    | send =>
      -- a forced flush passes over an empty buffer only
      have hnil : s.buffer.findings = [] := by
        simpa [BufferState.shouldDrain, FlushOrigin.force] using hs
      rw [hnil]
      exact Nat.zero_le _
    | timer =>
      simp only [waiting] at hset
      omega
    | final =>
      simp only [waiting] at hset
      omega
  | drain now hc hs => exact Nat.zero_le _
  | retry hc hresult => exact hposted hc rfl rfl
  | fail hc hresult => exact hposted hc rfl rfl
  | deliver hc hresult => exact hposted hc rfl rfl

theorem run_below {ls : List SlackLabel} (h : (machine config).run start ls = some s) :
    s.Below config :=
  Machine.run_invariant (M := machine config) step_below (Nat.zero_le _) h

end Runs

end SlackChannel

end PgSense
