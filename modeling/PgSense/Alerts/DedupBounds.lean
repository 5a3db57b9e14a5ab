import Mathlib.Data.List.Nodup
import Mathlib.Data.List.Perm.Subperm
import PgSense.Library.Spacing
import PgSense.Alerts.Dedup

/-! What the deduplicator promises over time: alerts for one key are rare, and its
cache does not grow without bound. -/

namespace PgSense
open Library.Window
set_option autoImplicit false

namespace Deduplicator

section Passes
variable (cr : Crates)

/-- The keys and times of the findings let through, in order. -/
def passes (d : Deduplicator) : List Call → List (UInt64 × Nat)
  | [] => []
  | call :: calls =>
    let (answer, d') := d.shouldAlert cr call.finding call.sweepNow call.now
    (if answer then [(dedupKey cr call.finding, call.now)] else []) ++ d'.passes calls

/-- The deduplicator after the calls. -/
def after (d : Deduplicator) : List Call → Deduplicator
  | [] => d
  | call :: calls => (d.shouldAlert cr call.finding call.sweepNow call.now).2.after calls

/-- The times at which a key was let through. -/
def passTimes (d : Deduplicator) (calls : List Call) (key : UInt64) : List Nat :=
  ((d.passes cr calls).filter fun p => p.1 == key).map Prod.snd

variable {cr} {d : Deduplicator} {passed : List (UInt64 × Nat)} {c : Nat} {calls : List Call}

theorem passTimes_cons (call : Call) (key : UInt64) {answer : Bool} {d' : Deduplicator}
    (h : d.shouldAlert cr call.finding call.sweepNow call.now = (answer, d')) :
    d.passTimes cr (call :: calls) key =
      (if answer && dedupKey cr call.finding == key then [call.now] else []) ++
        d'.passTimes cr calls key := by
  unfold passTimes
  simp only [passes, h, List.filter_append, List.map_append]
  cases answer with
  | false => rfl
  | true => cases hkey : dedupKey cr call.finding == key <;> simp [hkey]

/-- What is let through keeps its distance from what was let through before. -/
theorem passTimes_spaced (h : Remembers d.window d.memory passed c) (hclock : ClockFrom c calls)
    (key : UInt64) : Spaced d.window (d.passTimes cr calls key) ∧
      ∀ t ∈ d.passTimes cr calls key, ¬ Recent d.window passed key t := by
  induction calls generalizing d passed c with
  | nil => exact ⟨List.Pairwise.nil, nofun⟩
  | cons call calls ih =>
    obtain ⟨hsweep, hnow, hclock⟩ := hclock
    obtain ⟨answer, d', heq, hwindow, hanswer, hremembers⟩ :=
      shouldAlert_spec cr h call.finding hsweep hnow
    rw [← hwindow] at hremembers
    obtain ⟨hspaced, hfar⟩ := ih hremembers hclock
    rw [hwindow] at hspaced hfar
    have hbefore : ∀ t ∈ d'.passTimes cr calls key, ¬ Recent d.window passed key t := by
      intro t ht hrecent
      apply hfar t ht
      cases answer with
      | false => exact hrecent
      | true => exact recent_cons.mpr (.inr hrecent)
    rw [passTimes_cons call key heq]
    by_cases hfirst : answer = true ∧ dedupKey cr call.finding = key
    · obtain ⟨rfl, rfl⟩ := hfirst
      simp only [beq_self_eq_true, Bool.and_self, if_true, List.singleton_append]
      constructor
      · apply List.Pairwise.cons _ hspaced
        intro t ht hlt
        exact hfar t ht (recent_cons.mpr (.inl ⟨rfl, hlt⟩))
      · exact List.forall_mem_cons.mpr ⟨hanswer.mp rfl, hbefore⟩
    · have hnone : (answer && dedupKey cr call.finding == key) = false := by
        apply Bool.eq_false_iff.mpr
        simpa only [ne_eq, Bool.and_eq_true, beq_iff_eq] using hfirst
      rw [hnone]
      exact ⟨hspaced, hbefore⟩

variable (cr)

/-- Repeated findings cannot flood the channels: however the calls come, any stretch of
`n` windows lets a key through at most `n` times. -/
theorem alerts_rate_bounded (window start : Nat) {calls : List Call}
    (hclock : ClockFrom start calls) (key : UInt64) (from_ n : Nat) :
    (((new window).passTimes cr calls key).countP fun t =>
      from_ ≤ t && t < from_ + n * window) ≤ n :=
  (passTimes_spaced (new_remembers window start) hclock key).1.count_interval from_ n

theorem alerts_rate_bounded_repeated : ClockFrom 0 repeatedCalls ∧
    (((new 10).passTimes .sample repeatedCalls (dedupKey .sample ssnFinding)).countP fun t =>
      0 ≤ t && t < 0 + 1 * 10) ≤ 1 := by
  have hclock : ClockFrom 0 repeatedCalls := by
    simp [ClockFrom, repeatedCalls]
  exact ⟨hclock, alerts_rate_bounded .sample 10 0 hclock (dedupKey .sample ssnFinding) 0 1⟩

end Passes

section Memory
variable (cr : Crates) {d : Deduplicator} {passed : List (UInt64 × Nat)}

/-- Every entry of the cache is a finding that was let through. -/
def Known (d : Deduplicator) (passed : List (UInt64 × Nat)) : Prop :=
  ∀ (key : UInt64) (last : Nat), d.seen[key]? = some last → (key, last) ∈ passed

theorem Known.prune (h : d.Known passed) (now : Nat) : (d.prune now).Known passed := by
  intro key last hlast
  unfold Deduplicator.prune at hlast
  split at hlast
  · rw [Std.HashMap.getElem?_filter'] at hlast
    exact h key last (Option.filter_eq_some_iff.mp hlast).1
  · exact h key last hlast

theorem Known.shouldAlert (h : d.Known passed) (finding : Finding) (sweepNow now : Nat) :
    let result := d.shouldAlert cr finding sweepNow now
    result.2.Known (passed ++ if result.1 then [(dedupKey cr finding, now)] else []) ∧
      result.2.seen.size ≤ (d.prune sweepNow).seen.size + 1 := by
  have hswept := h.prune sweepNow
  rcases shouldAlert_cases cr d finding sweepNow now with ⟨_, heq⟩ | ⟨_, heq⟩
  · rw [heq]
    refine ⟨?_, Nat.le_succ _⟩
    intro key last hlast
    exact List.mem_append_left _ (hswept key last hlast)
  · rw [heq]
    refine ⟨?_, Std.HashMap.size_insert_le⟩
    intro key last hlast
    rw [Std.HashMap.getElem?_insert] at hlast
    split at hlast
    · next hkey =>
      cases hlast
      rw [← beq_iff_eq.mp hkey]
      exact List.mem_append_right _ (List.mem_singleton.mpr rfl)
    · exact List.mem_append_left _ (hswept key last hlast)

/-- A sweep leaves one entry at most for each finding let through within the window. -/
theorem Known.sweep_size (h : d.Known passed) (now : Nat) (hsize : d.seen.size > pruneThreshold) :
    (d.prune now).seen.size ≤ passed.countP fun p => now - p.2 < d.window := by
  have hkept : (d.prune now).seen = d.seen.filter fun _ last => now - last < d.window := by
    unfold Deduplicator.prune
    rw [if_pos hsize]
  rw [hkept, ← Std.HashMap.length_toList, List.countP_eq_length_filter]
  apply List.Subperm.length_le
  apply List.Nodup.subperm
  · apply List.Nodup.of_map Prod.fst
    rw [Std.HashMap.map_fst_toList_eq_keys]
    exact Std.HashMap.nodup_keys
  · intro entry hentry
    obtain ⟨key, last⟩ := entry
    rw [Std.HashMap.mem_toList_iff_getElem?_eq_some, Std.HashMap.getElem?_filter',
      Option.filter_eq_some_iff] at hentry
    exact List.mem_filter.mpr ⟨h key last hentry.1, hentry.2⟩

/-- Above the threshold a sweep has left nothing but entries within the window. -/
theorem prune_fresh {now : Nat} (hsize : (d.prune now).seen.size > pruneThreshold) {key : UInt64}
    {last : Nat} (hlast : (d.prune now).seen[key]? = some last) : now - last < d.window := by
  unfold Deduplicator.prune at hsize hlast
  split at hlast
  · rw [Std.HashMap.getElem?_filter', Option.filter_eq_some_iff] at hlast
    exact of_decide_eq_true hlast.2
  · next hsmall =>
    rw [if_neg hsmall] at hsize
    exact absurd hsize hsmall

theorem shouldAlert_fresh (finding : Finding) (sweepNow now : Nat) {key : UInt64} {last : Nat}
    (hsize : (d.shouldAlert cr finding sweepNow now).2.seen.size > pruneThreshold + 1)
    (hlast : (d.shouldAlert cr finding sweepNow now).2.seen[key]? = some last) :
    key = dedupKey cr finding ∨ sweepNow - last < d.window := by
  rcases shouldAlert_cases cr d finding sweepNow now with ⟨_, heq⟩ | ⟨_, heq⟩
  · rw [heq] at hsize hlast
    exact .inr (prune_fresh (Nat.lt_of_succ_lt hsize) hlast)
  · rw [heq] at hsize hlast
    have hbefore : (d.prune sweepNow).seen.size > pruneThreshold :=
      Nat.lt_of_succ_lt_succ (Nat.lt_of_lt_of_le hsize Std.HashMap.size_insert_le)
    rw [Std.HashMap.getElem?_insert] at hlast
    split at hlast
    · next hkey => exact .inl (beq_iff_eq.mp hkey).symm
    · exact .inr (prune_fresh hbefore hlast)

theorem shouldAlert_window (d : Deduplicator) (call : Call) :
    (d.shouldAlert cr call.finding call.sweepNow call.now).2.window = d.window := by
  rcases shouldAlert_cases cr d call.finding call.sweepNow call.now with ⟨_, heq⟩ | ⟨_, heq⟩
  · rw [heq]
    exact prune_window d call.sweepNow
  · rw [heq]

theorem Known.after (h : d.Known passed) (calls : List Call) :
    (d.after cr calls).Known (passed ++ d.passes cr calls) ∧
      (d.after cr calls).window = d.window := by
  induction calls generalizing d passed with
  | nil =>
    rw [passes, List.append_nil]
    exact ⟨h, rfl⟩
  | cons call calls ih =>
    have hstep := (h.shouldAlert cr call.finding call.sweepNow call.now).1
    have hsame := shouldAlert_window cr d call
    obtain ⟨hknown, hwindow⟩ := ih hstep
    rw [List.append_assoc] at hknown
    exact ⟨hknown, hwindow.trans hsame⟩

theorem after_append (d : Deduplicator) (front back : List Call) :
    d.after cr (front ++ back) = (d.after cr front).after cr back := by
  induction front generalizing d with
  | nil => rfl
  | cons call calls ih => exact ih _

/-- The cache is bounded by its threshold and by what is within the window: after every
call it holds at most 10001 entries, or one more than there were findings let through
within the window of the sweep this call made; and if it holds more than 10001, each of
them is this call's own or was within the window of its sweep. -/
theorem cache_bounded (window : Nat) (calls : List Call) (call : Call) :
    let cache := ((new window).after cr (calls ++ [call])).seen
    cache.size ≤ max (pruneThreshold + 1)
      (1 + ((new window).passes cr calls).countP fun p => call.sweepNow - p.2 < window) ∧
    (cache.size > pruneThreshold + 1 → ∀ (key : UInt64) (last : Nat), cache[key]? = some last →
      key = dedupKey cr call.finding ∨ call.sweepNow - last < window) := by
  intro cache
  have hempty : (new window).Known [] := by
    intro key last hlast
    simp [new] at hlast
  obtain ⟨hknown, hwindow⟩ := hempty.after cr calls
  rw [List.nil_append] at hknown
  have hlast : cache = (((new window).after cr calls).shouldAlert cr call.finding call.sweepNow
      call.now).2.seen := congrArg seen (after_append cr (new window) calls [call])
  have hinsert := (hknown.shouldAlert cr call.finding call.sweepNow call.now).2
  rw [hlast]
  generalize (new window).after cr calls = d at hknown hwindow hinsert
  constructor
  · apply Nat.le_trans hinsert
    by_cases hsize : d.seen.size > pruneThreshold
    · have hsweep := hknown.sweep_size call.sweepNow hsize
      rw [hwindow] at hsweep
      apply Nat.le_trans _ (Nat.le_max_right _ _)
      rw [Nat.add_comm]
      exact Nat.add_le_add_left hsweep 1
    · have hkept : d.prune call.sweepNow = d := if_neg hsize
      rw [hkept]
      apply Nat.le_trans _ (Nat.le_max_left _ _)
      omega
  · intro hsize key last hkey
    have hfresh := shouldAlert_fresh cr call.finding call.sweepNow call.now hsize hkey
    rwa [hwindow] at hfresh

end Memory

end Deduplicator

end PgSense
