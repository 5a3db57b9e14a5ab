import PgSense.Library.Window
import PgSense.Scanner
import Std.Data.HashMap.Lemmas

/-! Deduplication: a finding is let through unless one with the same key was let
through within the window. The cache is the memory of a suppression window, and
its bulk pruning is not observable. -/

namespace PgSense
open Library.Window
set_option autoImplicit false

def pruneThreshold : Nat := 10000

/-- Instants and durations are nanoseconds. -/
structure Deduplicator where
  seen : Std.HashMap UInt64 Nat
  window : Nat

def Deduplicator.new (window : Nat) : Deduplicator := ⟨∅, window⟩

/-- The bytes `str::hash` feeds to a hasher. -/
def strHash (s : String) : List UInt8 := utf8 s ++ [0xFF]

/-- The bytes `u64::hash` feeds to a hasher. -/
def u64Hash (n : UInt64) : List UInt8 :=
  (List.range 8).map fun i => (n >>> UInt64.ofNat (8 * i)).toUInt8

def dedupBytes (finding : Finding) : List UInt8 :=
  strHash finding.database ++ strHash finding.schemaName ++ strHash finding.tableName ++
    strHash finding.columnName ++ strHash finding.ruleId ++ u64Hash finding.valueHash

def dedupKey (cr : Crates) (finding : Finding) : UInt64 := cr.defaultHash (dedupBytes finding)

/-- The sweep above the threshold; `now` is the clock reading it makes. -/
def Deduplicator.prune (d : Deduplicator) (now : Nat) : Deduplicator :=
  if d.seen.size > pruneThreshold then
    { d with seen := d.seen.filter fun _ last => now - last < d.window }
  else d

/-- The critical section of `should_alert`. The clock is read at `sweepNow` if the
cache is swept and at `now` for the decision; `duration_since` saturates. -/
def Deduplicator.shouldAlert (cr : Crates) (d : Deduplicator) (finding : Finding)
    (sweepNow now : Nat) : Bool × Deduplicator :=
  let d := d.prune sweepNow
  let key := dedupKey cr finding
  match d.seen[key]? with
  | some last =>
    if now - last < d.window then (false, d)
    else (true, { d with seen := d.seen.insert key now })
  | none => (true, { d with seen := d.seen.insert key now })

namespace Deduplicator

@[simp] theorem prune_window (d : Deduplicator) (now : Nat) : (d.prune now).window = d.window := by
  unfold prune
  split <;> rfl

theorem new_shouldAlert (cr : Crates) (window : Nat) (finding : Finding) (sweepNow now : Nat) :
    (new window).shouldAlert cr finding sweepNow now =
      (true, ⟨(∅ : Std.HashMap UInt64 Nat).insert (dedupKey cr finding) now, window⟩) := by
  have hkept : (new window).prune sweepNow = new window := by
    simp [prune, new]
  unfold shouldAlert
  simp only [hkept]
  simp [new]

section Remembered
variable {d : Deduplicator} {passed : List (UInt64 × Nat)} {c : Nat}

def memory (d : Deduplicator) (key : UInt64) : Option Nat := d.seen[key]?

theorem new_remembers (window start : Nat) :
    Remembers window (new window).memory [] start := by
  have hmemory : (new window).memory = fun _ => none := by
    funext k
    exact Std.HashMap.getElem?_empty
  rw [hmemory]
  exact remembers_nothing start

theorem prune_remembers (h : Remembers d.window d.memory passed c) {sweepNow : Nat}
    (hc : c ≤ sweepNow) : Remembers d.window (d.prune sweepNow).memory passed sweepNow := by
  by_cases hsize : d.seen.size > pruneThreshold
  · have hmemory : (d.prune sweepNow).memory =
        fun k => (d.memory k).filter fun last => decide (sweepNow - last < d.window) := by
      funext k
      simp only [prune, if_pos hsize, memory]
      exact Std.HashMap.getElem?_filter'
    rw [hmemory]
    exact h.prune hc
  · rw [show d.prune sweepNow = d from if_neg hsize]
    exact h.later hc

theorem shouldAlert_cases (cr : Crates) (d : Deduplicator) (finding : Finding)
    (sweepNow now : Nat) :
    let swept := d.prune sweepNow
    let key := dedupKey cr finding
    ((∃ last, swept.memory key = some last ∧ now - last < d.window) ∧
        d.shouldAlert cr finding sweepNow now = (false, swept)) ∨
      (¬ (∃ last, swept.memory key = some last ∧ now - last < d.window) ∧
        d.shouldAlert cr finding sweepNow now =
          (true, ⟨swept.seen.insert key now, d.window⟩)) := by
  unfold shouldAlert memory
  dsimp only
  rw [prune_window]
  cases (d.prune sweepNow).seen[dedupKey cr finding]? with
  | none => exact .inr ⟨by simp, rfl⟩
  | some last =>
    by_cases hlt : now - last < d.window
    · exact .inl ⟨⟨last, rfl, hlt⟩, if_pos hlt⟩
    · exact .inr ⟨by simpa using hlt, if_neg hlt⟩

theorem shouldAlert_spec (cr : Crates) (h : Remembers d.window d.memory passed c)
    (finding : Finding) {sweepNow now : Nat} (hc : c ≤ sweepNow) (hnow : sweepNow ≤ now) :
    ∃ answer d', d.shouldAlert cr finding sweepNow now = (answer, d') ∧
      d'.window = d.window ∧
      (answer = true ↔ ¬ Recent d.window passed (dedupKey cr finding) now) ∧
      Remembers d.window d'.memory
        (if answer then (dedupKey cr finding, now) :: passed else passed) now := by
  have hswept := (prune_remembers h hc).later hnow
  have hrecent := hswept (dedupKey cr finding) now (Nat.le_refl now)
  rcases shouldAlert_cases cr d finding sweepNow now with ⟨hfresh, heq⟩ | ⟨hstale, heq⟩
  · have hrec := hrecent.mp hfresh
    exact ⟨_, _, heq, prune_window d sweepNow, by simp [hrec], hswept⟩
  · rw [hrecent] at hstale
    refine ⟨_, _, heq, rfl, by simp [hstale], ?_⟩
    have hmemory : (⟨(d.prune sweepNow).seen.insert (dedupKey cr finding) now, d.window⟩ :
          Deduplicator).memory =
        fun k => if dedupKey cr finding = k then some now else (d.prune sweepNow).memory k := by
      funext k
      simp only [memory, Std.HashMap.getElem?_insert, beq_iff_eq]
    rw [hmemory]
    exact hswept.record (Nat.le_refl now) hstale

end Remembered

/-- One call of `should_alert`, with its clock readings. -/
structure Call where
  finding : Finding
  sweepNow : Nat
  now : Nat

/-- Calls one after the other, as the lock serialises them. -/
def answers (cr : Crates) (d : Deduplicator) : List Call → List Bool
  | [] => []
  | call :: calls =>
    let (answer, d') := d.shouldAlert cr call.finding call.sweepNow call.now
    answer :: d'.answers cr calls

/-- The clock never runs backwards, from reading `c` on. -/
def ClockFrom : Nat → List Call → Prop
  | _, [] => True
  | c, call :: calls => c ≤ call.sweepNow ∧ call.sweepNow ≤ call.now ∧ ClockFrom call.now calls

section Runs
variable (cr : Crates)

theorem answers_length (d : Deduplicator) (calls : List Call) :
    (d.answers cr calls).length = calls.length := by
  induction calls generalizing d with
  | nil => rfl
  | cons call calls ih => simp [answers, ih]

theorem answers_iff {d : Deduplicator} {passed : List (UInt64 × Nat)} {c : Nat}
    {calls : List Call} (h : Remembers d.window d.memory passed c) (hclock : ClockFrom c calls)
    {k : Nat} {call : Call} (hk : calls[k]? = some call) :
    (d.answers cr calls)[k]? = some true ↔
      ¬ Recent d.window passed (dedupKey cr call.finding) call.now ∧
        ∀ (j : Nat) (earlier : Call), j < k → calls[j]? = some earlier →
          (d.answers cr calls)[j]? = some true → dedupKey cr earlier.finding = dedupKey cr call.finding →
            ¬ call.now - earlier.now < d.window := by
  induction calls generalizing d passed c k with
  | nil => cases hk
  | cons first calls ih =>
    obtain ⟨hsweep, hnow, hclock⟩ := hclock
    obtain ⟨answer, d', heq, hwindow, hanswer, hremembers⟩ :=
      shouldAlert_spec cr h first.finding hsweep hnow
    have hrun : d.answers cr (first :: calls) = answer :: d'.answers cr calls := by
      simp [answers, heq]
    rw [hrun]
    cases k with
    | zero =>
      cases hk
      simp [hanswer]
    | succ k =>
      rw [← hwindow] at hremembers
      rw [List.getElem?_cons_succ, ih hremembers hclock hk, hwindow]
      -- the first call joins the history exactly when it passed
      have hhistory : Recent d.window
            (if answer then (dedupKey cr first.finding, first.now) :: passed else passed)
            (dedupKey cr call.finding) call.now ↔
          (answer = true ∧ dedupKey cr first.finding = dedupKey cr call.finding ∧
              call.now - first.now < d.window) ∨
            Recent d.window passed (dedupKey cr call.finding) call.now := by
        cases answer with
        | false => simp
        | true => simp [recent_cons]
      rw [hhistory, not_or]
      constructor
      · intro hboth
        obtain ⟨⟨hfirst, hpassed⟩, hrest⟩ := hboth
        refine ⟨hpassed, ?_⟩
        intro j earlier hj hearlier hyes hkey hlt
        cases j with
        | zero =>
          cases hearlier
          exact hfirst ⟨Option.some.inj hyes, hkey, hlt⟩
        | succ j => exact hrest j earlier (by omega) hearlier hyes hkey hlt
      · intro hboth
        obtain ⟨hpassed, hrest⟩ := hboth
        refine ⟨⟨?_, hpassed⟩, fun j earlier hj hearlier hyes hkey => ?_⟩
        · intro hearlier
          obtain ⟨hyes, hkey, hlt⟩ := hearlier
          exact hrest 0 first (by omega) rfl (by rw [hyes]; rfl) hkey hlt
        · exact hrest (j + 1) earlier (by omega) hearlier hyes hkey

/-- Over a whole run a finding is let through iff no finding with its key was let
through less than the window before; with a zero window every finding is. -/
theorem should_alert_iff (window start : Nat) {calls : List Call} (hclock : ClockFrom start calls) :
    ((new window).answers cr calls).length = calls.length ∧
    (∀ (k : Nat) (call : Call), calls[k]? = some call →
      (((new window).answers cr calls)[k]? = some true ↔
        ¬ ∃ (j : Nat) (earlier : Call), j < k ∧ calls[j]? = some earlier ∧
          dedupKey cr earlier.finding = dedupKey cr call.finding ∧
            ((new window).answers cr calls)[j]? = some true ∧
              call.now - earlier.now < window)) ∧
    (window = 0 → ∀ answer ∈ (new window).answers cr calls, answer = true) := by
  have hall : ∀ (k : Nat) (call : Call), calls[k]? = some call →
      (((new window).answers cr calls)[k]? = some true ↔
        ¬ ∃ (j : Nat) (earlier : Call), j < k ∧ calls[j]? = some earlier ∧
          dedupKey cr earlier.finding = dedupKey cr call.finding ∧
            ((new window).answers cr calls)[j]? = some true ∧
              call.now - earlier.now < window) := by
    intro k call hk
    rw [answers_iff cr (new_remembers window start) hclock hk]
    constructor
    · intro hboth hcounter
      obtain ⟨_, hrest⟩ := hboth
      obtain ⟨j, earlier, hj, hearlier, hkey, hyes, hlt⟩ := hcounter
      exact hrest j earlier hj hearlier hyes hkey hlt
    · intro hnone
      refine ⟨not_recent_nil _ _, ?_⟩
      intro j earlier hj hearlier hyes hkey hlt
      exact hnone ⟨j, earlier, hj, hearlier, hkey, hyes, hlt⟩
  refine ⟨answers_length cr _ calls, hall, ?_⟩
  intro hzero answer hanswer
  obtain ⟨k, hk, rfl⟩ := List.getElem_of_mem hanswer
  have hk' : k < calls.length := by rwa [answers_length] at hk
  have hyes := (hall k calls[k] (List.getElem?_eq_getElem hk')).mpr (by
    intro hsome
    obtain ⟨_, _, _, _, _, _, hlt⟩ := hsome
    omega)
  rw [List.getElem?_eq_getElem hk] at hyes
  exact Option.some.inj hyes

def ssnFinding : Finding where
  database := "db"
  ruleId := "ssn"
  description := "Social security number"
  category := "pii"
  severity := .high
  schemaName := "public"
  tableName := "customers"
  columnName := "ssn"
  maskedSample := "21*******99"
  valueHash := 11
  primaryKeys := []
  lsn := 0
  channels := none

def repeatedCalls : List Call := [⟨ssnFinding, 0, 0⟩, ⟨ssnFinding, 4, 5⟩]

theorem should_alert_iff_repeated :
    ((new 10).answers .sample repeatedCalls)[1]? = some true ↔
      ¬ ∃ (j : Nat) (earlier : Call), j < 1 ∧ repeatedCalls[j]? = some earlier ∧
        dedupKey .sample earlier.finding = dedupKey .sample ssnFinding ∧
          ((new 10).answers .sample repeatedCalls)[j]? = some true ∧ 5 - earlier.now < 10 := by
  have hclock : ClockFrom 0 repeatedCalls := by
    simp [ClockFrom, repeatedCalls]
  exact (should_alert_iff .sample 10 0 hclock).2.1 1 ⟨ssnFinding, 4, 5⟩ rfl

end Runs
end Deduplicator

end PgSense
