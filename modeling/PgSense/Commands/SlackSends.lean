import PgSense.Commands.Alerting
import PgSense.Pipeline.SlackSends

/-! The Slack channels of the whole scanner: its tasks are the callers of a channel. -/

namespace PgSense
open Library
set_option autoImplicit false

namespace ScanState

/-- The batch that a step takes from the buffer of the channel at position `i`, if any. -/
def drains (config : SlackConfig) (i : Nat) (s : ScanState) : ScanLabel → Option (List Finding)
  | .loop u (.drain now) =>
    if (s.units[u]?).bind DatabaseUnit.call = some (.flushing i) then
      ((s.shared.buffers i).drain config true now).1
    else none
  | .timer k now => if k = i then ((s.shared.buffers i).drain config false now).1 else none
  | .flush now =>
    if s.main = .flushing i then ((s.shared.buffers i).drain config true now).1 else none
  | _ => none

end ScanState

/-- The scanner with a journal and a list of the batches drained at position `i`. -/
def batchesMachine (cr : Crates) (channels : List NamedChannel) (config : SlackConfig) (i : Nat) :
    Machine ((ScanState × Journal) × List (List Finding)) ScanLabel :=
  (journalMachine cr channels).observed id
    fun batches s l _ => batches ++ (s.1.drains config i l).toList

namespace ScanState

/-- What a Slack channel shows of the scanner. Its calls are those of the scan loops and of
the final flush; a call of the flush task is over at once, but for its post. -/
structure SlackShown (i : Nat) (s : ScanState) (j : Journal) (batches : List (List Finding))
    (c : SlackChannel) : Prop where
  buffer : c.buffer = s.shared.buffers i
  pushed : c.pushed = Desk.deliveredTo j.deliveries i
  drained : c.drained = batches
  flushing : tally SlackChannel.waiting c.calls =
    tally (DatabaseUnit.standsAt (.flushing i)) s.units
  posting : tally (SlackChannel.postingBy .send) c.calls =
    tally (DatabaseUnit.standsAt (.posting i)) s.units
  final : tally (SlackChannel.postingBy .final) c.calls = if s.main = .posting i then 1 else 0

section Steps
variable {cr : Crates} {channels : List NamedChannel} {config : SlackConfig} {i : Nat}
  {s t : ScanState} {j : Journal} {batches : List (List Finding)} {c : SlackChannel}

theorem start_slackShown (engine : RuleEngine) (window : Nat)
    (databases : List (String × ScanFilter)) :
    SlackShown i (start engine window databases) .empty [] .start := by
  have hunits : ∀ pc, tally (DatabaseUnit.standsAt pc) (start engine window databases).units = 0 := by
    intro pc
    rw [tally_eq_zero]
    intro unit hunit
    obtain ⟨db, _, rfl⟩ := List.mem_map.mp hunit
    rfl
  exact ⟨rfl, rfl, rfl, (hunits _).symm, (hunits _).symm, rfl⟩

/-- A step that leaves the channel alone. -/
theorem SlackShown.keep (h : SlackShown i s j batches c)
    (hbuffer : t.shared.buffers i = s.shared.buffers i)
    (hunits : ∀ pc, tally (DatabaseUnit.standsAt pc) t.units =
      tally (DatabaseUnit.standsAt pc) s.units)
    (hmain : t.main = .posting i ↔ s.main = .posting i) : SlackShown i t j batches c := by
  refine ⟨h.buffer.trans hbuffer.symm, h.pushed, h.drained, ?_, ?_, ?_⟩
  · rw [hunits, h.flushing]
  · rw [hunits, h.posting]
  · simp only [hmain, h.final]

theorem tally_units_set {k : Nat} {unit : DatabaseUnit} (hk : s.units[k]? = some unit)
    (pc : DispatchPc) (v : DatabaseUnit) :
    tally (DatabaseUnit.standsAt pc) (s.setUnit k v).units + DatabaseUnit.standsAt pc unit =
      tally (DatabaseUnit.standsAt pc) s.units + DatabaseUnit.standsAt pc v :=
  tally_set (DatabaseUnit.standsAt pc) hk v

theorem standsAt_eq {unit : DatabaseUnit} {pc pc' : DispatchPc} (h : unit.call = some pc') :
    DatabaseUnit.standsAt pc unit = if pc' = pc then 1 else 0 := by
  unfold DatabaseUnit.standsAt
  simp [h]

/-- The call of a unit that stands at `pc` is among the calls of the channel. -/
theorem exists_call {weight : SlackCall → Nat} {k : Nat} {unit : DatabaseUnit} {pc : DispatchPc}
    (hk : s.units[k]? = some unit) (hcall : unit.call = some pc)
    (hcount : tally weight c.calls = tally (DatabaseUnit.standsAt pc) s.units) :
    ∃ (n : Nat) (call : SlackCall), c.calls[n]? = some call ∧ 0 < weight call := by
  apply exists_of_tally_pos
  have hset := tally_units_set hk pc (.start "" ⟨.empty, .empty, .empty⟩)
  rw [standsAt_eq hcall, if_pos rfl] at hset
  have hzero : DatabaseUnit.standsAt pc (.start "" ⟨.empty, .empty, .empty⟩) = 0 := rfl
  omega

theorem delivered_apart {k : Nat} {unit : DatabaseUnit} {ll : DatabaseUnit.LoopLabel}
    (hk : s.units[k]? = some unit)
    (hsend : ∀ now, ll = .send now → unit.call ≠ some (.sending i)) :
    Desk.deliveredTo ((s.delivery (.loop k ll)).toList ++ j.deliveries) i =
      Desk.deliveredTo j.deliveries i := by
  cases ll with
  | send now =>
    simp only [delivery, hk, Option.map_some]
    split
    · next k' hl =>
      rw [Option.toList_some, List.singleton_append, Desk.deliveredTo_cons, if_neg, List.append_nil]
      rintro rfl
      exact hsend now rfl (DatabaseUnit.call_eq (Option.some.inj hl))
    · rfl
  | _ => rfl

/-- A unit whose call moves leaves one place and takes another. -/
theorem tally_units_move {k : Nat} {unit v : DatabaseUnit} {old new : DispatchPc}
    (hk : s.units[k]? = some unit) (hold : unit.call = some old) (hnew : v.call = some new)
    (pc : DispatchPc) :
    tally (DatabaseUnit.standsAt pc) (s.setUnit k v).units + (if old = pc then 1 else 0) =
      tally (DatabaseUnit.standsAt pc) s.units + (if new = pc then 1 else 0) := by
  have hset := tally_units_set hk pc v
  rwa [standsAt_eq hold, standsAt_eq hnew] at hset

section Calls
variable {k : Nat} {unit v : DatabaseUnit} {sh : Shared}

/-- A step of a scan loop outside the sends to the channel. -/
theorem SlackShown.apart (h : SlackShown i s j batches c) {ll : DatabaseUnit.LoopLabel}
    (hk : s.units[k]? = some unit)
    (hsend : ∀ now, ll = .send now → unit.call ≠ some (.sending i))
    (hdrain : ∀ now, ll = .drain now → unit.call ≠ some (.flushing i))
    (hbuffer : sh.buffers i = s.shared.buffers i)
    (hflushing : v.call = some (.flushing i) ↔ unit.call = some (.flushing i))
    (hposting : v.call = some (.posting i) ↔ unit.call = some (.posting i)) :
    SlackShown i { s.setUnit k v with shared := sh } (journal cr j s (.loop k ll) t)
      (batches ++ (s.drains config i (.loop k ll)).toList) c := by
  refine ⟨h.buffer.trans hbuffer.symm, ?_, ?_, ?_, ?_, h.final⟩
  · rw [h.pushed]
    exact (delivered_apart hk hsend).symm
  · have hnone : s.drains config i (.loop k ll) = none := by
      cases ll with
      | drain now =>
        simp only [drains, hk, Option.bind_some]
        exact if_neg (hdrain now rfl)
      | _ => rfl
    rw [hnone, h.drained]
    exact (List.append_nil _).symm
  · have hflush := tally_units_set hk (.flushing i) v
    simp only [DatabaseUnit.standsAt, hflushing] at hflush
    rw [h.flushing]
    exact (Nat.add_right_cancel hflush).symm
  · have hpost := tally_units_set hk (.posting i) v
    simp only [DatabaseUnit.standsAt, hposting] at hpost
    rw [h.posting]
    exact (Nat.add_right_cancel hpost).symm

/-- The loop pushes its finding: its call is a new caller of the channel. -/
theorem SlackShown.push (h : SlackShown i s j batches c) {now : Nat} {batch : Batch}
    {engine : RuleEngine} {rest : List ScanEvent} {finding : Finding} {later : List Finding}
    (hk : s.units[k]? = some unit)
    (hl : unit.loop = .dispatching batch engine rest finding later (.sending i))
    (hbuffer : sh.buffers i = (s.shared.buffers i).push finding now)
    (hcall : v.call = some (if (sh.buffers i).full config then .flushing i else .visiting (i + 1))) :
    ∃ acts c', (SlackChannel.machine config).run c acts = some c' ∧
      SlackShown i { s.setUnit k v with shared := sh } (journal cr j s (.loop k (.send now)) t)
        batches c' := by
  obtain ⟨c', hrun, hbuffer', hpushed, hdrained, hwaiting, hpostings⟩ :=
    SlackChannel.run_send config c finding now
  have hmove := tally_units_move hk (DatabaseUnit.call_eq hl) hcall
  refine ⟨_, c', hrun, ?_, ?_, hdrained.trans h.drained, ?_, ?_, ?_⟩
  · rw [hbuffer', h.buffer]
    exact hbuffer.symm
  · have hdelivery : s.delivery (.loop k (.send now)) = some ⟨k, finding, i⟩ := by
      simp only [delivery, hk, Option.map_some, hl]
    simp only [journal, hdelivery]
    rw [hpushed, h.pushed, Option.toList_some, List.singleton_append, Desk.deliveredTo_cons,
      if_pos rfl]
  · have hflush := hmove (.flushing i)
    rw [if_neg (by simp), Nat.add_zero, hbuffer] at hflush
    rw [hwaiting, h.flushing, h.buffer]
    refine Eq.trans ?_ hflush.symm
    cases ((s.shared.buffers i).push finding now).full config <;> simp
  · have hpost := hmove (.posting i)
    rw [if_neg (by simp), if_neg (by split <;> simp)] at hpost
    rw [hpostings, h.posting]
    exact hpost.symm
  · rw [hpostings]
    exact h.final

/-- The loop drains the buffer, or finds it drained: its caller of the channel goes on. -/
theorem SlackShown.lock (h : SlackShown i s j batches c) {now : Nat}
    (hk : s.units[k]? = some unit) (hl : unit.call = some (.flushing i))
    (hbuffer : sh.buffers i = ((s.shared.buffers i).drain config true now).2)
    (hcall : v.call = some (if ((s.shared.buffers i).drain config true now).1.isSome
      then .posting i else .visiting (i + 1))) :
    ∃ acts c', (SlackChannel.machine config).run c acts = some c' ∧
      SlackShown i { s.setUnit k v with shared := sh } j
        (batches ++ (s.drains config i (.loop k (.drain now))).toList) c' := by
  obtain ⟨n, call, hn, hpos⟩ := exists_call hk hl h.flushing
  obtain rfl := SlackChannel.of_waiting hpos
  obtain ⟨c', hrun, hbuffer', hpushed, hdrained, hwaiting, hpostings⟩ :=
    SlackChannel.run_lock config hn now
  rw [h.buffer] at hbuffer' hdrained hpostings
  have hmove := tally_units_move hk hl hcall
  refine ⟨_, c', hrun, hbuffer'.trans hbuffer.symm, hpushed.trans h.pushed, ?_, ?_, ?_, ?_⟩
  · rw [hdrained, h.drained]
    simp only [drains, hk, Option.bind_some, hl, if_true]
    rfl
  · have hflush := hmove (.flushing i)
    rw [if_pos rfl, if_neg (by split <;> simp)] at hflush
    simp only [SlackChannel.waiting, h.flushing] at hwaiting
    exact Nat.add_right_cancel (hwaiting.trans hflush.symm)
  · have hpost := hmove (.posting i)
    rw [if_neg (by simp), Nat.add_zero] at hpost
    rw [hpostings, h.posting]
    refine Eq.trans ?_ hpost.symm
    cases hsome : ((s.shared.buffers i).drain config true now).1.isSome <;>
      simp [FlushOrigin.force, hsome]
  · rw [hpostings, if_neg (by simp), Nat.add_zero]
    exact h.final

/-- The loop has posted its batch: its caller of the channel returns. -/
theorem SlackShown.ended (h : SlackShown i s j batches c) (hk : s.units[k]? = some unit)
    (hl : unit.call = some (.posting i)) (hbuffer : sh.buffers i = s.shared.buffers i)
    (hcall : v.call = some (.visiting (i + 1))) :
    ∃ acts c', (SlackChannel.machine config).run c acts = some c' ∧
      SlackShown i { s.setUnit k v with shared := sh } j batches c' := by
  obtain ⟨n, call, hn, hpos⟩ := exists_call hk hl h.posting
  obtain ⟨batch, attempt, rfl⟩ := SlackChannel.of_postingBy hpos
  obtain ⟨c', hrun, hbuffer', hpushed, hdrained, hwaiting, hpostings⟩ :=
    SlackChannel.run_ended config hn
  have hmove := tally_units_move hk hl hcall
  refine ⟨_, c', hrun, (hbuffer'.trans h.buffer).trans hbuffer.symm, hpushed.trans h.pushed,
    hdrained.trans h.drained, ?_, ?_, ?_⟩
  · have hflush := hmove (.flushing i)
    rw [if_neg (by simp), if_neg (by simp)] at hflush
    rw [hwaiting, h.flushing]
    exact hflush.symm
  · have hpost := hmove (.posting i)
    rw [if_pos rfl, if_neg (by simp)] at hpost
    have hone := hpostings .send
    rw [if_pos rfl, h.posting] at hone
    exact Nat.add_right_cancel (hone.trans hpost.symm)
  · have hnone := hpostings .final
    rw [if_neg (by simp), Nat.add_zero] at hnone
    exact hnone.trans h.final

end Calls

theorem SlackShown.loop (h : SlackShown i s j batches c)
    (hi : (channels[i]?).map NamedChannel.channel = some (.slack config)) {k : Nat}
    {ll : DatabaseUnit.LoopLabel} (hstep : s.step cr channels (.loop k ll) = some t) :
    ∃ acts c', (SlackChannel.machine config).run c acts = some c' ∧
      SlackShown i t (journal cr j s (.loop k ll) t)
        (batches ++ (s.drains config i (.loop k ll)).toList) c' := by
  obtain ⟨unit, v, sh, hk, hv, rfl⟩ := step_loop hstep
  cases DatabaseUnit.loopStep_slackMoves hi hv with
  | apart hsend hdrain hbuffer hflushing hposting =>
    exact ⟨[], c, rfl, h.apart hk hsend hdrain hbuffer hflushing hposting⟩
  | push hl hbuffer hcall =>
    simp only [drains, Option.toList_none, List.append_nil]
    exact h.push hk hl hbuffer hcall
  | drain hl hbuffer hcall => exact h.lock hk hl hbuffer hcall
  | posted hl hbuffer hcall =>
    simp only [drains, Option.toList_none, List.append_nil]
    exact h.ended hk hl hbuffer hcall

theorem SlackShown.timer (h : SlackShown i s j batches c)
    (hi : (channels[i]?).map NamedChannel.channel = some (.slack config)) {k now : Nat}
    (hstep : s.step cr channels (.timer k now) = some t) :
    ∃ acts c', (SlackChannel.machine config).run c acts = some c' ∧
      SlackShown i t j (batches ++ (s.drains config i (.timer k now)).toList) c' := by
  cases step_acts hstep with
  | timed hslack =>
    simp only [drains]
    by_cases hk : k = i
    · subst hk
      rw [hi] at hslack
      cases hslack
      rw [if_pos rfl]
      have htimer : FlushOrigin.timer ≠ .send := by simp
      obtain ⟨c', hrun, hbuffer, hpushed, hdrained, hwaiting, hpostings⟩ :=
        SlackChannel.run_flush config c htimer now
      rw [h.buffer] at hbuffer hdrained
      refine ⟨_, c', hrun, ?_, hpushed.trans h.pushed, ?_, hwaiting.trans h.flushing, ?_, ?_⟩
      · rw [hbuffer]
        exact (if_pos rfl).symm
      · rw [hdrained, h.drained]
        rfl
      · rw [hpostings, if_neg (by simp), Nat.add_zero]
        exact h.posting
      · rw [hpostings, if_neg (by simp), Nat.add_zero]
        exact h.final
    · rw [if_neg hk, Option.toList_none, List.append_nil]
      exact ⟨[], c, rfl, h.keep (if_neg (Ne.symm hk)) (fun _ => rfl) Iff.rfl⟩

theorem SlackShown.flush (h : SlackShown i s j batches c)
    (hi : (channels[i]?).map NamedChannel.channel = some (.slack config)) {now : Nat}
    (hstep : s.step cr channels (.flush now) = some t) :
    ∃ acts c', (SlackChannel.machine config).run c acts = some c' ∧
      SlackShown i t j (batches ++ (s.drains config i (.flush now)).toList) c' := by
  cases step_acts hstep with
  | @flushed k _ hmain =>
    simp only [drains, hmain, MainPc.flushing.injEq]
    by_cases hk : k = i
    · subst hk
      obtain ⟨nc, hnc, hslack⟩ := Option.map_eq_some_iff.mp hi
      have hfinal : FlushOrigin.final ≠ .send := by simp
      obtain ⟨c', hrun, hbuffer, hpushed, hdrained, hwaiting, hpostings⟩ :=
        SlackChannel.run_flush config c hfinal now
      rw [h.buffer] at hbuffer hdrained hpostings
      simp only [if_true, stepFlush, hnc, hslack]
      refine ⟨_, c', hrun, ?_, hpushed.trans h.pushed, ?_, hwaiting.trans h.flushing, ?_, ?_⟩
      · rw [hbuffer]
        exact (if_pos rfl).symm
      · rw [hdrained, h.drained]
        rfl
      · rw [hpostings, if_neg (by simp), Nat.add_zero]
        exact h.posting
      · have hnone : ¬ s.main = .posting k := by simp [hmain]
        rw [hpostings, h.final, if_neg hnone, Nat.zero_add]
        cases hsome : ((s.shared.buffers k).drain config true now).1.isSome <;>
          simp [FlushOrigin.force, hsome]
    · rw [if_neg hk, Option.toList_none, List.append_nil]
      refine ⟨[], c, rfl, h.keep ?_ ?_ ?_⟩
      · unfold stepFlush
        split
        · rfl
        · split
          · exact if_neg (Ne.symm hk)
          · rfl
      · intro pc
        rw [stepFlush_units]
      · refine iff_of_false ?_ (by simp [hmain])
        unfold stepFlush
        split
        · simp
        · split
          · dsimp only
            split <;> simp [hk]
          · simp

theorem SlackShown.posted (h : SlackShown i s j batches c)
    (hstep : s.step cr channels .posted = some t) :
    ∃ acts c', (SlackChannel.machine config).run c acts = some c' ∧
      SlackShown i t j batches c' := by
  cases step_acts hstep with
  | @posted k hmain =>
    by_cases hk : k = i
    · subst hk
      have hfinal := h.final
      rw [if_pos hmain] at hfinal
      obtain ⟨n, call, hn, hpos⟩ := exists_of_tally_pos (Nat.lt_of_lt_of_eq Nat.one_pos hfinal.symm)
      obtain ⟨batch, attempt, rfl⟩ := SlackChannel.of_postingBy hpos
      obtain ⟨c', hrun, hbuffer, hpushed, hdrained, hwaiting, hpostings⟩ :=
        SlackChannel.run_ended config hn
      refine ⟨_, c', hrun, hbuffer.trans h.buffer, hpushed.trans h.pushed,
        hdrained.trans h.drained, hwaiting.trans h.flushing, ?_, ?_⟩
      · have hsend := hpostings .send
        rw [if_neg (by simp), Nat.add_zero] at hsend
        exact hsend.trans h.posting
      · have hended := hpostings .final
        rw [if_pos rfl, hfinal] at hended
        rw [if_neg (by simp)]
        exact Nat.add_right_cancel hended
    · refine ⟨[], c, rfl, h.keep rfl (fun _ => rfl) ?_⟩
      simp [hmain, hk]

/-- A unit that keeps its loop keeps its place in the sends. -/
theorem standsAt_setUnit {u : Nat} {unit v : DatabaseUnit} (hu : s.units[u]? = some unit)
    (hloop : v.loop = unit.loop) (pc : DispatchPc) :
    tally (DatabaseUnit.standsAt pc) (s.setUnit u v).units =
      tally (DatabaseUnit.standsAt pc) s.units := by
  have hset := tally_units_set hu pc v
  have hcall : DatabaseUnit.standsAt pc v = DatabaseUnit.standsAt pc unit := by
    unfold DatabaseUnit.standsAt DatabaseUnit.call
    rw [hloop]
  rw [hcall] at hset
  exact Nat.add_right_cancel hset

/-- The steps of the other tasks leave the channel alone. -/
theorem SlackShown.other (h : SlackShown i s j batches c) {l : ScanLabel}
    (hloop : ∀ u ll, l ≠ .loop u ll) (htimer : ∀ k now, l ≠ .timer k now)
    (hflush : ∀ now, l ≠ .flush now) (hposted : l ≠ .posted)
    (hstep : s.step cr channels l = some t) : SlackShown i t j batches c := by
  cases step_acts hstep with
  | monitored hu => exact h.keep rfl (standsAt_setUnit hu rfl) Iff.rfl
  | signalled hu => exact h.keep rfl (standsAt_setUnit hu rfl) Iff.rfl
  | written hu hv =>
    obtain ⟨hsame, _, _, _⟩ := DatabaseUnit.writeStep_queue hv
    exact h.keep rfl (standsAt_setUnit hu hsame) Iff.rfl
  | looped => exact absurd rfl (hloop _ _)
  | timed => exact absurd rfl (htimer _ _)
  | flushed => exact absurd rfl (hflush _)
  | posted => exact absurd rfl hposted
  | received hmain =>
    refine h.keep rfl (fun _ => rfl) (iff_of_false ?_ (by simp [hmain]))
    dsimp only
    split <;> simp
  | reloading hmain => exact h.keep rfl (fun _ => rfl) (by simp [hmain])
  | reloaded hmain => exact h.keep rfl (fun _ => rfl) (by simp [hmain])
  | interrupted =>
    refine h.keep rfl ?_ Iff.rfl
    intro pc
    unfold requestShutdown
    apply tally_map
    intro unit
    rfl

theorem step_slackShown (hi : (channels[i]?).map NamedChannel.channel = some (.slack config))
    {x y : (ScanState × Journal) × List (List Finding)} {l : ScanLabel}
    (h : SlackShown i x.1.1 x.1.2 x.2 c)
    (hstep : (batchesMachine cr channels config i).step x l = some y) :
    ∃ acts c', (SlackChannel.machine config).run c acts = some c' ∧
      SlackShown i y.1.1 y.1.2 y.2 c' := by
  obtain ⟨⟨s, j⟩, batches⟩ := x
  obtain ⟨⟨t, j'⟩, batches'⟩ := y
  obtain ⟨hjournal, hbatches⟩ := (Machine.observed_eq_some ..).mp hstep
  obtain ⟨hscan, hj⟩ := (Machine.observed_eq_some ..).mp hjournal
  dsimp only at hbatches hj
  change s.step cr channels l = some t at hscan
  subst hbatches hj
  have hquiet : ∀ {l : ScanLabel}, s.drains config i l = none →
      ∀ {c}, SlackShown i t j batches c →
        SlackShown i t j (batches ++ (s.drains config i l).toList) c := by
    intro l hnone c hshown
    rw [hnone, Option.toList_none, List.append_nil]
    exact hshown
  cases l with
  | loop k ll => exact h.loop hi hscan
  | timer k now => exact h.timer hi hscan
  | flush now => exact h.flush hi hscan
  | posted =>
    obtain ⟨acts, c', hrun, hshown⟩ := h.posted hscan
    exact ⟨acts, c', hrun, hquiet rfl hshown⟩
  | monitor u ml =>
    exact ⟨[], c, rfl, hquiet rfl (h.other (by simp) (by simp) (by simp) (by simp) hscan)⟩
  | write u wl =>
    exact ⟨[], c, rfl, hquiet rfl (h.other (by simp) (by simp) (by simp) (by simp) hscan)⟩
  | recvExit =>
    exact ⟨[], c, rfl, hquiet rfl (h.other (by simp) (by simp) (by simp) (by simp) hscan)⟩
  | startReload =>
    exact ⟨[], c, rfl, hquiet rfl (h.other (by simp) (by simp) (by simp) (by simp) hscan)⟩
  | endReload engine =>
    exact ⟨[], c, rfl, hquiet rfl (h.other (by simp) (by simp) (by simp) (by simp) hscan)⟩
  | ctrlC =>
    exact ⟨[], c, rfl, hquiet rfl (h.other (by simp) (by simp) (by simp) (by simp) hscan)⟩

/-- A step takes out the whole buffer. -/
theorem drains_eq {l : ScanLabel} {batch : List Finding} (h : s.drains config i l = some batch) :
    batch = (s.shared.buffers i).findings := by
  have hdrain : ∀ {force now}, ((s.shared.buffers i).drain config force now).1 = some batch →
      batch = (s.shared.buffers i).findings := by
    intro force now hsome
    rcases (s.shared.buffers i).drain_cases config force now with ⟨_, heq⟩ | ⟨_, heq⟩
    · rw [heq] at hsome
      exact (Option.some.inj hsome).symm
    · rw [heq] at hsome
      cases hsome
  cases l with
  | loop u ll =>
    cases ll with
    | drain now =>
      simp only [drains] at h
      split at h
      · exact hdrain h
      · cases h
    | _ => cases h
  | timer k now =>
    simp only [drains] at h
    split at h
    · exact hdrain h
    · cases h
  | flush now =>
    simp only [drains] at h
    split at h
    · exact hdrain h
    · cases h
  | _ => cases h

/-- With each unit at most one finding is above the size of a batch, less the last. -/
theorem SlackShown.below (h : SlackShown i s j batches c) (hbelow : c.Below config) :
    (s.shared.buffers i).findings.length ≤ config.batchSize - 1 + s.units.length := by
  have hcount := tally_le_length (DatabaseUnit.standsAt_le (.flushing i)) s.units
  unfold SlackChannel.Below at hbelow
  rw [h.buffer, h.flushing] at hbelow
  omega

/-- The channel has run along with the scanner, and its batches keep to their bound. -/
structure Sized (config : SlackConfig) (i n : Nat)
    (x : (ScanState × Journal) × List (List Finding)) : Prop where
  units : x.1.1.units.length = n
  shown : ∃ acts c, (SlackChannel.machine config).run .start acts = some c ∧
    SlackShown i x.1.1 x.1.2 x.2 c
  batches : ∀ batch ∈ x.2, batch.length ≤ config.batchSize - 1 + n

theorem start_sized (engine : RuleEngine) (window : Nat) (databases : List (String × ScanFilter)) :
    Sized config i databases.length ((start engine window databases, .empty), []) := by
  refine ⟨List.length_map _, ⟨[], .start, rfl, start_slackShown engine window databases⟩, ?_⟩
  intro batch hbatch
  cases hbatch

theorem Sized.buffer {n : Nat} {x : (ScanState × Journal) × List (List Finding)}
    (h : Sized config i n x) :
    (x.1.1.shared.buffers i).findings.length ≤ config.batchSize - 1 + n := by
  obtain ⟨acts, c, hrun, hshown⟩ := h.shown
  rw [← h.units]
  exact hshown.below (SlackChannel.run_below hrun)

theorem Sized.step (hi : (channels[i]?).map NamedChannel.channel = some (.slack config)) {n : Nat}
    {x y : (ScanState × Journal) × List (List Finding)} {l : ScanLabel} (h : Sized config i n x)
    (hstep : (batchesMachine cr channels config i).step x l = some y) : Sized config i n y := by
  obtain ⟨acts, c, hrun, hshown⟩ := h.shown
  obtain ⟨more, c', hmore, hshown'⟩ := step_slackShown hi hshown hstep
  obtain ⟨hjournal, hbatches⟩ := (Machine.observed_eq_some ..).mp hstep
  obtain ⟨hscan, _⟩ := (Machine.observed_eq_some ..).mp hjournal
  change x.1.1.step cr channels l = some y.1.1 at hscan
  refine ⟨(step_units hscan).1.trans h.units, ⟨acts ++ more, c', ?_, hshown'⟩, ?_⟩
  · rw [Machine.run_append, hrun]
    exact hmore
  · intro batch hbatch
    rw [hbatches] at hbatch
    rcases List.mem_append.mp hbatch with hbatch | hbatch
    · exact h.batches batch hbatch
    · rw [drains_eq (Option.mem_toList.mp hbatch)]
      exact h.buffer

end Steps

section Runs
variable (cr : Crates) (channels : List NamedChannel) (engine : RuleEngine) (window : Nat)
variable (databases : List (String × ScanFilter)) {config : SlackConfig} {i : Nat}
  {ls : List ScanLabel} {t : ScanState} {j : Journal} {batches : List (List Finding)}

theorem run_slackShown (hi : (channels[i]?).map NamedChannel.channel = some (.slack config))
    {x : (ScanState × Journal) × List (List Finding)}
    (h : (batchesMachine cr channels config i).run
      ((start engine window databases, .empty), []) ls = some x) :
    ∃ acts c, (SlackChannel.machine config).run .start acts = some c ∧
      SlackShown i x.1.1 x.1.2 x.2 c := by
  apply Machine.run_simulated (P := fun _ _ => True) (fun hs _ hstep => step_slackShown hi hs hstep)
    (start_slackShown engine window databases) ?_ h
  exact Machine.along_of_forall _ (fun _ _ _ => trivial) _

theorem run_of_batches {x : (ScanState × Journal) × List (List Finding)}
    (h : (batchesMachine cr channels config i).run
      ((start engine window databases, .empty), []) ls = some x) :
    (journalMachine cr channels).run (start engine window databases, .empty) ls = some x.1 := by
  have hrun := Machine.run_of_observed h
  rwa [List.map_id] at hrun

theorem exists_batches
    (h : (journalMachine cr channels).run (start engine window databases, .empty) ls =
      some (t, j)) (config : SlackConfig) (i : Nat) :
    ∃ batches, (batchesMachine cr channels config i).run
      ((start engine window databases, .empty), []) ls = some ((t, j), batches) := by
  apply Machine.exists_observed
  rwa [List.map_id]

/-- A return after a quiet break leaves no finding in a Slack buffer. -/
theorem run_flushed (h : (scanMachine cr channels).run (start engine window databases) ls = some t)
    (hquiet : (scanMachine cr channels).Along QuietShutdown (start engine window databases) ls)
    (hreturned : t.main = .returned) : ∀ k config,
      (channels[k]?).map NamedChannel.channel = some (.slack config) →
        (t.shared.buffers k).findings = [] := by
  have hkeep : ∀ {s l t}, Inv cr channels s → QuietShutdown s l →
      (scanMachine cr channels).step s l = some t → Inv cr channels t :=
    fun hs hl hstep => step_inv hs hl hstep
  have hsound := (Machine.run_invariant_along hkeep (start_inv engine window databases) hquiet h).main
  unfold MainSound at hsound
  rw [hreturned] at hsound
  intro k config hslack
  obtain ⟨nc, hk, _⟩ := Option.map_eq_some_iff.mp hslack
  obtain ⟨hlt, _⟩ := List.getElem?_eq_some_iff.mp hk
  exact hsound.2 k hlt config hslack

end Runs

section Sample

def slackOnly : List NamedChannel := [⟨"slack", .slack SlackChannel.eager⟩]

def untilPosted : List ScanLabel :=
  untilFound ++ [.loop 0 (.ask 0 0), .loop 0 .visit, .loop 0 (.send 0), .loop 0 (.drain 0),
    .loop 0 .posted]

/-- A finding that passes a fresh deduplicator fills a batch of one, which is posted. -/
theorem run_posted {s : ScanState} (hmain : s.main = .selecting) {window : Nat}
    (hdedup : s.shared.dedup = .new window) (hbuffer : s.shared.buffers 0 = .empty)
    {unit : DatabaseUnit} (hu : s.units[0]? = some unit)
    {batch : Batch} {engine : RuleEngine} {rest : List ScanEvent} {finding : Finding}
    {later : List Finding} (hrouted : finding.channels = none)
    (hl : unit.loop = .dispatching batch engine rest finding later .asking) :
    ∃ t, (scanMachine .sample slackOnly).run s
      [.loop 0 (.ask 0 0), .loop 0 .visit, .loop 0 (.send 0), .loop 0 (.drain 0), .loop 0 .posted] =
        some t := by
  let at_ (pc : DispatchPc) := unit.dispatchAt batch engine rest finding later pc
  have hrouted' : (⟨"slack", .slack SlackChannel.eager⟩ : NamedChannel).routed finding.channels =
      true := by
    rw [hrouted]
    rfl
  have hpassed : ∃ sh, (DatabaseUnit.loopMachine .sample slackOnly).run (unit, s.shared)
      [.ask 0 0, .visit] = some (at_ (.sending 0), sh) ∧ sh.buffers 0 = .empty := by
    simp [Machine.run_cons, DatabaseUnit.loopMachine, DatabaseUnit.loopStep, hl, hdedup,
      Deduplicator.new_shouldAlert, DatabaseUnit.dispatchAt, slackOnly, hrouted', hbuffer, at_]
  obtain ⟨sh, hpassed, hempty⟩ := hpassed
  have hpushed : (DatabaseUnit.loopMachine .sample slackOnly).run (at_ (.sending 0), sh) [.send 0] =
      some (at_ (.flushing 0), sh.setBuffer 0 ⟨[finding], some 0⟩) := by
    rw [Machine.run_single]
    simp [DatabaseUnit.loopMachine, DatabaseUnit.loopStep, slackOnly, hempty, at_,
      DatabaseUnit.dispatchAt, BufferState.push, BufferState.empty, BufferState.full,
      SlackChannel.eager]
  have hdrained : ∃ sh', (DatabaseUnit.loopMachine .sample slackOnly).run
      (at_ (.flushing 0), sh.setBuffer 0 ⟨[finding], some 0⟩) [.drain 0, .posted] =
        some (at_ (.visiting 1), sh') := by
    simp [Machine.run_cons, DatabaseUnit.loopMachine, DatabaseUnit.loopStep, slackOnly, at_,
      DatabaseUnit.dispatchAt, Shared.setBuffer, BufferState.drain, BufferState.shouldDrain]
  obtain ⟨sh', hdrained⟩ := hdrained
  have hloop : (DatabaseUnit.loopMachine .sample slackOnly).run (unit, s.shared)
      ([.ask 0 0, .visit] ++ ([.send 0] ++ [.drain 0, .posted])) = some (at_ (.visiting 1), sh') := by
    rw [Machine.run_append, hpassed, Option.bind_some, Machine.run_append, hpushed]
    exact hdrained
  exact ⟨_, run_loop_alone (by simp [hmain]) hu hloop⟩

theorem untilPosted_run : ∃ t j batches,
    (batchesMachine .sample slackOnly SlackChannel.eager 0).run
      ((start ssnEngine 10 oneDatabase, .empty), []) untilPosted = some ((t, j), batches) := by
  have hfound : ∃ s unit,
      (scanMachine .sample slackOnly).run (start ssnEngine 10 oneDatabase) untilFound = some s ∧
        s.main = .selecting ∧ s.shared.dedup = .new 10 ∧ s.shared.buffers 0 = .empty ∧
        s.units[0]? = some unit ∧ ∃ batch engine rest finding later, finding.channels = none ∧
          unit.loop = .dispatching batch engine rest finding later .asking :=
    ⟨_, _, rfl, rfl, rfl, rfl, rfl, _, _, _, _, _, rfl, rfl⟩
  obtain ⟨s, unit, hs, hmain, hdedup, hbuffer, hu, batch, engine, rest, finding, later, hrouted,
    hl⟩ := hfound
  obtain ⟨t, ht⟩ := run_posted hmain hdedup hbuffer hu hrouted hl
  have hrun : (scanMachine .sample slackOnly).run (start ssnEngine 10 oneDatabase) untilPosted =
      some t := by
    rw [untilPosted, Machine.run_append, hs]
    exact ht
  obtain ⟨j, hj⟩ := exists_journal .sample slackOnly ssnEngine 10 oneDatabase hrun
  obtain ⟨batches, hbatches⟩ :=
    exists_batches .sample slackOnly ssnEngine 10 oneDatabase hj SlackChannel.eager 0
  exact ⟨t, j, batches, hbatches⟩

end Sample

section Results
variable (cr : Crates) (channels : List NamedChannel) (engine : RuleEngine) (window : Nat)
variable (databases : List (String × ScanFilter)) {config : SlackConfig} {i : Nat}
  {ls : List ScanLabel} {t : ScanState} {j : Journal} {batches : List (List Finding)}

/-- Every run of the scanner is, for each Slack channel, a run of that channel alone under
concurrent callers: the same buffer, the findings pushed in the order in which they were
sent, the same batches drained, and as many calls about to flush or posting as there are
units that are. -/
theorem refines_slack (hi : (channels[i]?).map NamedChannel.channel = some (.slack config))
    (h : (batchesMachine cr channels config i).run
      ((start engine window databases, .empty), []) ls = some ((t, j), batches)) :
    ∃ acts c, (SlackChannel.machine config).run .start acts = some c ∧
      c.buffer = t.shared.buffers i ∧ c.pushed = Desk.deliveredTo j.deliveries i ∧
      c.drained = batches ∧
      tally SlackChannel.waiting c.calls = tally (DatabaseUnit.standsAt (.flushing i)) t.units ∧
      tally (SlackChannel.postingBy .send) c.calls =
        tally (DatabaseUnit.standsAt (.posting i)) t.units := by
  obtain ⟨acts, c, hrun, hshown⟩ := run_slackShown cr channels engine window databases hi h
  exact ⟨acts, c, hrun, hshown.buffer, hshown.pushed, hshown.drained, hshown.flushing,
    hshown.posting⟩

theorem refines_slack_posted :
    (slackOnly[0]?).map NamedChannel.channel = some (.slack SlackChannel.eager) ∧
    ∃ t j batches, (batchesMachine .sample slackOnly SlackChannel.eager 0).run
        ((start ssnEngine 10 oneDatabase, .empty), []) untilPosted = some ((t, j), batches) ∧
      ∃ acts c, (SlackChannel.machine SlackChannel.eager).run .start acts = some c ∧
        c.buffer = t.shared.buffers 0 ∧ c.pushed = Desk.deliveredTo j.deliveries 0 ∧
        c.drained = batches ∧
        tally SlackChannel.waiting c.calls = tally (DatabaseUnit.standsAt (.flushing 0)) t.units ∧
        tally (SlackChannel.postingBy .send) c.calls =
          tally (DatabaseUnit.standsAt (.posting 0)) t.units := by
  obtain ⟨t, j, batches, h⟩ := untilPosted_run
  exact ⟨rfl, t, j, batches, h, refines_slack .sample slackOnly ssnEngine 10 oneDatabase rfl h⟩

/-- What was sent to a Slack channel, by whatever unit, is in the batches drained and the
buffer, each finding once and in the order of the sends, and every batch has a message.
When the scanner has returned from a quiet break of its main loop, all is in the batches. -/
theorem slack_batches_exact (hi : (channels[i]?).map NamedChannel.channel = some (.slack config))
    (h : (batchesMachine cr channels config i).run
      ((start engine window databases, .empty), []) ls = some ((t, j), batches)) :
    batches.flatten ++ (t.shared.buffers i).findings = Desk.deliveredTo j.deliveries i ∧
      (∀ batch ∈ batches, ∃ payload, buildPayload config batch = .ok payload) ∧
      ((scanMachine cr channels).Along QuietShutdown (start engine window databases) ls →
        t.main = .returned → batches.flatten = Desk.deliveredTo j.deliveries i) := by
  obtain ⟨acts, c, hrun, hshown⟩ := run_slackShown cr channels engine window databases hi h
  have hconserved := SlackChannel.run_conserved config hrun
  have horder : batches.flatten ++ (t.shared.buffers i).findings =
      Desk.deliveredTo j.deliveries i := by
    have horder := hconserved.order
    rwa [hshown.drained, hshown.buffer, hshown.pushed] at horder
  refine ⟨horder, ?_, ?_⟩
  · intro batch hbatch
    apply exists_payload
    apply hconserved.nonempty
    rw [hshown.drained]
    exact hbatch
  · intro hquiet hreturned
    have hscan := run_of_journal cr channels engine window databases
      (run_of_batches cr channels engine window databases h)
    have hflushed := run_flushed cr channels engine window databases hscan hquiet hreturned
    rw [hflushed i config hi, List.append_nil] at horder
    exact horder

theorem slack_batches_exact_posted :
    (slackOnly[0]?).map NamedChannel.channel = some (.slack SlackChannel.eager) ∧
    ∃ t j batches, (batchesMachine .sample slackOnly SlackChannel.eager 0).run
        ((start ssnEngine 10 oneDatabase, .empty), []) untilPosted = some ((t, j), batches) ∧
      batches.flatten ++ (t.shared.buffers 0).findings = Desk.deliveredTo j.deliveries 0 ∧
      ∀ batch ∈ batches, ∃ payload, buildPayload SlackChannel.eager batch = .ok payload := by
  obtain ⟨t, j, batches, h⟩ := untilPosted_run
  obtain ⟨horder, hpayload, _⟩ :=
    slack_batches_exact .sample slackOnly ssnEngine 10 oneDatabase rfl h
  exact ⟨rfl, t, j, batches, h, horder, hpayload⟩

/-- With n databases no Slack batch has more than n - 1 findings above `batch_size`, where a
`batch_size` of 0 drains like 1; with one database none is above it. -/
theorem slack_batches_bounded (hi : (channels[i]?).map NamedChannel.channel = some (.slack config))
    (h : (batchesMachine cr channels config i).run
      ((start engine window databases, .empty), []) ls = some ((t, j), batches)) :
    let size := max config.batchSize 1
    (∀ batch ∈ batches, batch.length ≤ size - 1 + databases.length) ∧
      (t.shared.buffers i).findings.length ≤ size - 1 + databases.length ∧
      (databases.length = 1 → ∀ batch ∈ batches, batch.length ≤ size) := by
  intro size
  have hsized : Sized config i databases.length ((t, j), batches) :=
    Machine.run_invariant (fun hs hstep => hs.step hi hstep)
      (start_sized engine window databases) h
  have hsize : config.batchSize - 1 = size - 1 := by omega
  refine ⟨?_, ?_, ?_⟩
  · intro batch hbatch
    rw [← hsize]
    exact hsized.batches batch hbatch
  · rw [← hsize]
    exact hsized.buffer
  · intro hone batch hbatch
    have hbound := hsized.batches batch hbatch
    omega

theorem slack_batches_bounded_posted :
    (slackOnly[0]?).map NamedChannel.channel = some (.slack SlackChannel.eager) ∧
    ∃ t j batches, (batchesMachine .sample slackOnly SlackChannel.eager 0).run
        ((start ssnEngine 10 oneDatabase, .empty), []) untilPosted = some ((t, j), batches) ∧
      ∀ batch ∈ batches, batch.length ≤ 1 := by
  obtain ⟨t, j, batches, h⟩ := untilPosted_run
  obtain ⟨_, _, hone⟩ := slack_batches_bounded .sample slackOnly ssnEngine 10 oneDatabase rfl h
  exact ⟨rfl, t, j, batches, h, hone rfl⟩

end Results

end ScanState

end PgSense
