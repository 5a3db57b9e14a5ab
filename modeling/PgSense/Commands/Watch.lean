import PgSense.Commands.Reload
import PgSense.Commands.Validate
import PgSense.Library.Machine
import Mathlib.Data.List.DropRight

/-! Watching the rules file: edits, the events they raise, the callback that puts a
token into a channel of capacity one, and the reload arm of the main loop. -/

namespace PgSense
open Library
set_option autoImplicit false

inductive ModifyKind where
  | any
  | data
  | metadata
  | name
  | other
  deriving DecidableEq, Repr

inductive EventKind where
  | any
  | access
  | create
  | modify (kind : ModifyKind)
  | remove
  | other
  deriving DecidableEq, Repr

structure FsEvent where
  kind : EventKind
  paths : List String
  deriving DecidableEq, Repr

def EventKind.isDataChange : EventKind → Bool
  | .modify .data => true
  | .modify .any => true
  | .create => true
  | _ => false

/-- The test of the watcher's callback. -/
def FsEvent.accepted (watchedPath : String) (event : FsEvent) : Bool :=
  event.kind.isDataChange && event.paths.any (· == watchedPath)

/-- What the set-up of the watcher asks of the file system and the notification library. -/
structure NotifyCrate where
  /-- `Path::canonicalize` -/
  canonicalize : String → Except String String
  /-- `notify::recommended_watcher` -/
  recommendedWatcher : Except String Unit
  /-- `Watcher::watch`, not recursive -/
  watch : String → Except String Unit

/-- `Path::parent` of a canonical path -/
def parentOf (canonical : String) : Option String :=
  if canonical = "/" then none
  else
    let front := canonical.toList.rdropWhile (· != '/')
    some (if front = ['/'] then "/" else String.ofList front.dropLast)

/-- The set-up of `watch_file`: the path that its callback compares with. -/
def watchFile (notify : NotifyCrate) (path : String) : Outcome Error String := do
  let canonical ← callWithContext s!"failed to canonicalize rules path: {path}"
    (notify.canonicalize path)
  callWithContext "failed to create file watcher" notify.recommendedWatcher
  let parent ← requireField "rules file has no parent directory" (parentOf canonical)
  callWithContext "failed to watch rules file directory" (notify.watch parent)
  .ok canonical

theorem watchFile_eq_ok {notify : NotifyCrate} {path canonical : String} :
    watchFile notify path = .ok canonical ↔
      notify.canonicalize path = .ok canonical ∧ notify.recommendedWatcher = .ok () ∧
        ∃ parent, parentOf canonical = some parent ∧ notify.watch parent = .ok () := by
  simp only [watchFile, Outcome.bind_eq_ok, callWithContext_eq_ok, requireField_eq_ok,
    Outcome.ok.injEq]
  constructor
  · rintro ⟨_, hcanonical, _, hwatcher, parent, hparent, _, hwatch, rfl⟩
    exact ⟨hcanonical, hwatcher, parent, hparent, hwatch⟩
  · rintro ⟨hcanonical, hwatcher, parent, hparent, hwatch⟩
    exact ⟨_, hcanonical, _, hwatcher, parent, hparent, _, hwatch, rfl⟩

inductive EditKind where
  | write
  | create
  /-- a rename onto the path -/
  | rename
  deriving DecidableEq, Repr

/-- How the notification library reports an edit of the rules file. -/
def EditKind.event (path : String) : EditKind → FsEvent
  | .write => ⟨.modify .data, [path]⟩
  | .create => ⟨.create, [path]⟩
  | .rename => ⟨.modify .name, [path]⟩

/-- Where `run` stands: before `watch_file` has registered the watch, in `select!`, in
the stages of the reload arm, or past the loop. -/
inductive WatchPc where
  | starting
  | selecting
  | sleeping
  | draining
  | building
  | ended
  deriving DecidableEq, Repr

structure WatchState where
  pc : WatchPc
  files : Files
  watching : Bool
  undelivered : List FsEvent
  /-- the token in the channel -/
  pending : Bool
  process : Process
  /-- the files as they were at each build of the reload arm -/
  reads : List Files
  /-- what the last `build_scanner` read at the rules path -/
  lastRead : Except String String

inductive WatchLabel where
  | edit (kind : EditKind) (content : String)
  | remove
  /-- an event of another file, or of a kind that is no edit -/
  | noise (event : FsEvent)
  | deliver
  | watch
  | recv
  | wake
  | tryRecv
  | build
  /-- the other arms of `select!`, and whether the loop breaks there -/
  | otherArm (breaks : Bool)

namespace WatchState

section Machine
variable (cr : Crates) (parse : String → Except String (List RuleConfig)) (path : String)

def start (files : Files) (engine : RuleEngine) : WatchState where
  pc := .starting
  files := files
  watching := false
  undelivered := []
  pending := false
  process := .running engine
  reads := []
  lastRead := files path

variable (s : WatchState)

def raise (event : FsEvent) : WatchState :=
  if s.watching then { s with undelivered := s.undelivered ++ [event] } else s

def setFile (file : Except String String) : WatchState :=
  { s with files := fun p => if p = path then file else s.files p }

def afterBuild : WatchState :=
  let process := s.process.reload cr parse path s.files
  { s with
    process
    reads := s.reads ++ [s.files]
    lastRead := s.files path
    pc := match process with
      | .running _ => .selecting
      | .aborted _ => .ended }

def step : WatchLabel → Option WatchState
  | .edit kind content => some ((s.setFile path (.ok content)).raise (kind.event path))
  | .remove => some ((s.setFile path (.error "not found")).raise ⟨.remove, [path]⟩)
  | .noise event => some (s.raise event)
  | .deliver =>
    match s.undelivered with
    | [] => none
    | event :: undelivered =>
      -- `try_send` fails without effect when the channel is full
      some { s with undelivered, pending := s.pending || event.accepted path }
  | .watch =>
    if s.pc = .starting then some { s with pc := .selecting, watching := true } else none
  | .recv =>
    if s.pc = .selecting ∧ s.pending = true then some { s with pc := .sleeping, pending := false }
    else none
  | .wake => if s.pc = .sleeping then some { s with pc := .draining } else none
  | .tryRecv =>
    if s.pc = .draining then
      some (if s.pending then { s with pending := false } else { s with pc := .building })
    else none
  | .build => if s.pc = .building then some (s.afterBuild cr parse path) else none
  | .otherArm breaks =>
    if s.pc = .selecting then some (if breaks then { s with pc := .ended } else s) else none

def machine : Machine WatchState WatchLabel := ⟨fun s l => s.step cr parse path l⟩

/-- Every event is delivered, the channel is empty and the loop is in `select!`. -/
def Quiet : Prop := s.undelivered = [] ∧ s.pending = false ∧ s.pc = .selecting

/-- The last content read is the current content of the file, if there is one. -/
def UpToDate : Prop := ∀ content, s.files path = .ok content → s.lastRead = .ok content

/-- The edit is a write or a creation, made after the watch was registered. -/
def Reported : WatchLabel → Prop
  | .edit kind _ => s.watching = true ∧ kind ≠ .rename
  | _ => True

/-- A read of the file is still to come: the loop is ahead of its build, or something
will take it there. -/
def ReadAhead : Prop :=
  (∃ event ∈ s.undelivered, event.accepted path = true) ∨ s.pending = true ∨
    s.pc = .sleeping ∨ s.pc = .draining ∨ s.pc = .building

structure Inv : Prop where
  fresh : s.pc = .ended ∨ s.UpToDate path ∨ s.ReadAhead path
  watched : s.pc ≠ .starting → s.watching = true

end Machine

section Steps
variable {cr : Crates} {parse : String → Except String (List RuleConfig)} {path : String}
  {s t : WatchState}

theorem event_accepted {kind : EditKind} (h : kind ≠ .rename) :
    (kind.event path).accepted path = true := by
  cases kind with
  | write => simp [EditKind.event, FsEvent.accepted, EventKind.isDataChange]
  | create => simp [EditKind.event, FsEvent.accepted, EventKind.isDataChange]
  | rename => exact absurd rfl h

theorem raise_undelivered (h : s.watching = true) (event : FsEvent) :
    event ∈ (s.raise event).undelivered := by
  simp [raise, h]

/-- Raising an event changes the queue of undelivered events alone, and takes nothing
out of it. -/
theorem raise_cases (s : WatchState) (event : FsEvent) :
    ∃ undelivered, s.raise event = { s with undelivered } ∧
      ∀ other ∈ s.undelivered, other ∈ undelivered := by
  unfold raise
  split
  · exact ⟨_, rfl, fun other h => List.mem_append_left _ h⟩
  · exact ⟨_, rfl, fun other h => h⟩

theorem ReadAhead.more (h : s.ReadAhead path) (hpending : t.pending = s.pending)
    (hpc : t.pc = s.pc) (hevents : ∀ event ∈ s.undelivered, event ∈ t.undelivered) :
    t.ReadAhead path := by
  unfold ReadAhead at h ⊢
  rw [hpending, hpc]
  rcases h with h | h
  · obtain ⟨event, hmem, hacc⟩ := h
    exact .inl ⟨event, hevents event hmem, hacc⟩
  · exact .inr h

theorem Inv.raise (h : s.Inv path) (event : FsEvent) : (s.raise event).Inv path := by
  obtain ⟨undelivered, heq, hkeep⟩ := raise_cases s event
  rw [heq]
  refine ⟨?_, h.watched⟩
  rcases h.fresh with hended | hcurrent | hahead
  · exact .inl hended
  · exact .inr (.inl hcurrent)
  · exact .inr (.inr (hahead.more rfl rfl hkeep))

/-- A reported edit leaves its event behind, whatever it wrote. -/
theorem edit_inv (h : s.Inv path) {kind : EditKind} {content : String}
    (hl : s.Reported (.edit kind content)) :
    ((s.setFile path (.ok content)).raise (kind.event path)).Inv path := by
  obtain ⟨hwatching, hkind⟩ := hl
  have hmem := raise_undelivered (s := s.setFile path (.ok content)) hwatching (kind.event path)
  obtain ⟨undelivered, heq, _⟩ := raise_cases (s.setFile path (.ok content)) (kind.event path)
  rw [heq] at hmem ⊢
  exact ⟨.inr (.inr (.inl ⟨_, hmem, event_accepted hkind⟩)), h.watched⟩

theorem remove_inv (h : s.Inv path) (error : String) :
    (s.setFile path (.error error)).Inv path := by
  refine ⟨.inr (.inl ?_), h.watched⟩
  intro content hcontent
  simp [setFile] at hcontent

theorem deliver_inv (h : s.Inv path) {event : FsEvent} {undelivered : List FsEvent}
    (hevents : s.undelivered = event :: undelivered) :
    ({ s with undelivered, pending := s.pending || event.accepted path } : WatchState).Inv path := by
  refine ⟨?_, h.watched⟩
  rcases h.fresh with hended | hcurrent | hahead
  · exact .inl hended
  · exact .inr (.inl hcurrent)
  · refine .inr (.inr ?_)
    rcases hahead with hevent | hpending | hpc
    · obtain ⟨other, hmem, hacc⟩ := hevent
      rw [hevents] at hmem
      rcases List.mem_cons.mp hmem with heq | hmem
      · -- the token now stands for the event
        rw [heq] at hacc
        exact .inr (.inl (by simp [hacc]))
      · exact .inl ⟨other, hmem, hacc⟩
    · exact .inr (.inl (by simp [hpending]))
    · exact .inr (.inr hpc)

theorem Inv.watching_at (h : s.Inv path) {pc : WatchPc} (hpc : s.pc = pc) (hne : pc ≠ .starting) :
    s.watching = true := by
  apply h.watched
  rw [hpc]
  exact hne

/-- The build reads the file as it is, so whatever was ahead of it is served. -/
theorem afterBuild_inv (h : s.Inv path) (hpc : s.pc = .building) :
    (s.afterBuild cr parse path).Inv path :=
  ⟨.inr (.inl fun _ hcontent => hcontent), fun _ => h.watching_at hpc nofun⟩

theorem step_inv {l : WatchLabel} (h : s.Inv path) (hl : s.Reported l)
    (hstep : s.step cr parse path l = some t) : t.Inv path := by
  cases l with
  | edit kind content =>
    cases hstep
    exact edit_inv h hl
  | remove =>
    cases hstep
    exact (remove_inv h _).raise _
  | noise event =>
    cases hstep
    exact h.raise event
  | deliver =>
    simp only [step] at hstep
    split at hstep
    · cases hstep
    · next event undelivered hevents =>
      cases hstep
      exact deliver_inv h hevents
  | watch =>
    simp only [step] at hstep
    split at hstep
    · next hpc =>
      cases hstep
      refine ⟨?_, fun _ => rfl⟩
      rcases h.fresh with hended | hcurrent | hevent | hpending | hpc' | hpc' | hpc'
      · rw [hpc] at hended
        cases hended
      · exact .inr (.inl hcurrent)
      · exact .inr (.inr (.inl hevent))
      · exact .inr (.inr (.inr (.inl hpending)))
      all_goals
        rw [hpc] at hpc'
        cases hpc'
    · cases hstep
  | recv =>
    simp only [step] at hstep
    split at hstep
    · next hpc =>
      cases hstep
      exact ⟨.inr (.inr (.inr (.inr (.inl rfl)))), fun _ => h.watching_at hpc.1 nofun⟩
    · cases hstep
  | wake =>
    simp only [step] at hstep
    split at hstep
    · next hpc =>
      cases hstep
      exact ⟨.inr (.inr (.inr (.inr (.inr (.inl rfl))))), fun _ => h.watching_at hpc nofun⟩
    · cases hstep
  | tryRecv =>
    simp only [step] at hstep
    split at hstep
    · next hpc =>
      have hwatching := h.watching_at hpc nofun
      cases hstep
      split
      · exact ⟨.inr (.inr (.inr (.inr (.inr (.inl hpc))))), fun _ => hwatching⟩
      · exact ⟨.inr (.inr (.inr (.inr (.inr (.inr rfl))))), fun _ => hwatching⟩
    · cases hstep
  | build =>
    simp only [step] at hstep
    split at hstep
    · next hpc =>
      cases hstep
      exact afterBuild_inv h hpc
    · cases hstep
  | otherArm breaks =>
    simp only [step] at hstep
    split at hstep
    · next hpc =>
      cases hstep
      split
      · exact ⟨.inl rfl, fun _ => h.watching_at hpc nofun⟩
      · exact h
    · cases hstep

theorem start_inv (path : String) (files : Files) (engine : RuleEngine) :
    (start path files engine).Inv path :=
  ⟨.inr (.inl fun _ hcontent => hcontent), fun h => absurd rfl h⟩

theorem Inv.upToDate (h : s.Inv path) (hquiet : s.Quiet) : s.UpToDate path := by
  obtain ⟨hevents, hpending, hpc⟩ := hquiet
  rcases h.fresh with hended | hcurrent | hevent | hpending' | hpc' | hpc' | hpc'
  · rw [hpc] at hended
    cases hended
  · exact hcurrent
  · obtain ⟨event, hmem, _⟩ := hevent
    rw [hevents] at hmem
    cases hmem
  · rw [hpending] at hpending'
    cases hpending'
  all_goals
    rw [hpc] at hpc'
    cases hpc'

end Steps

variable (cr : Crates) (parse : String → Except String (List RuleConfig)) (path : String)

/-- Whenever the system is quiet, the file's content is the one last read, in every run
whose edits are writes and creations made after the watch was registered. -/
theorem reported_edits_read {files : Files} {engine : RuleEngine} {ls : List WatchLabel}
    {s : WatchState} (h : (machine cr parse path).run (start path files engine) ls = some s)
    (hreported : (machine cr parse path).Along Reported (start path files engine) ls)
    (hquiet : s.Quiet) : s.UpToDate path := by
  have hkeep : ∀ {s l t}, Inv path s → Reported s l → (machine cr parse path).step s l = some t →
      Inv path t := fun hs hl hstep => step_inv hs hl hstep
  exact (Machine.run_invariant_along hkeep (start_inv path files engine) hreported h).upToDate
    hquiet

/-- A rename in a quiet system leads to a quiet system that has not read the file. -/
theorem rename_unread {s : WatchState} (hquiet : s.Quiet) (hwatching : s.watching = true)
    {content : String} (hnew : s.lastRead ≠ .ok content) :
    ∃ t, (machine cr parse path).run s [.edit .rename content, .deliver] = some t ∧
      t.Quiet ∧ ¬ t.UpToDate path := by
  obtain ⟨hevents, hpending, hpc⟩ := hquiet
  refine ⟨{ s.setFile path (.ok content) with undelivered := [], pending := false }, ?_,
    ⟨rfl, rfl, hpc⟩, fun hcurrent => hnew (hcurrent content (by simp [setFile]))⟩
  simp [Machine.run, machine, step, raise, setFile, hwatching, hevents, hpending,
    EditKind.event, FsEvent.accepted, EventKind.isDataChange]

/-- So does any edit between the first read and the registration of the watch. -/
theorem early_edit_unread (files : Files) (engine : RuleEngine) (kind : EditKind)
    {content : String} (hnew : files path ≠ .ok content) :
    ∃ t, (machine cr parse path).run (start path files engine) [.edit kind content, .watch] =
        some t ∧ t.Quiet ∧ ¬ t.UpToDate path :=
  ⟨_, rfl, ⟨rfl, rfl, rfl⟩, fun hcurrent => hnew (hcurrent content (by simp [start, setFile, raise]))⟩

/-- The process is what reloading the files of every build made of it. -/
theorem run_process {files : Files} {engine : RuleEngine} {ls : List WatchLabel} {s : WatchState}
    (h : (machine cr parse path).run (start path files engine) ls = some s) :
    s.process = (Process.running engine).reloads cr parse path s.reads := by
  have hstep : ∀ {s l t},
      s.process = (Process.running engine).reloads cr parse path s.reads →
        (machine cr parse path).step s l = some t →
          t.process = (Process.running engine).reloads cr parse path t.reads := by
    intro s l t hs hstep
    simp only [machine] at hstep
    cases l with
    | edit kind content =>
      cases hstep
      obtain ⟨undelivered, heq, _⟩ := raise_cases _ _
      rw [heq]
      exact hs
    | remove =>
      cases hstep
      obtain ⟨undelivered, heq, _⟩ := raise_cases _ _
      rw [heq]
      exact hs
    | noise event =>
      cases hstep
      obtain ⟨undelivered, heq, _⟩ := raise_cases _ _
      rw [heq]
      exact hs
    | build =>
      simp only [step] at hstep
      split at hstep
      · cases hstep
        simp only [afterBuild]
        rw [reloads_concat, ← hs]
      · cases hstep
    | _ =>
      simp only [step] at hstep
      split at hstep
      · cases hstep <;> (try split) <;> exact hs
      · cases hstep <;> exact hs
  exact Machine.run_invariant hstep rfl h

section Sample

theorem renamed_file_unread :
    ∃ engine rules s,
      buildScanner .sample sampleParse "rules.toml" (fun _ => .ok luhnContent) =
          .ok (engine, rules) ∧
        (machine .sample sampleParse "rules.toml").run
            (start "rules.toml" (fun _ => .ok luhnContent) engine)
            [.watch, .edit .rename "", .deliver] = some s ∧
          s.Quiet ∧ ¬ s.UpToDate "rules.toml" := by
  refine ⟨_, _, _, rfl, rfl, ⟨rfl, rfl, rfl⟩, ?_⟩
  intro hcurrent
  have hread := hcurrent "" rfl
  exact absurd hread (by decide +kernel)

def writtenOnce : List WatchLabel :=
  [.watch, .edit .write "", .deliver, .recv, .wake, .tryRecv, .build]

theorem writtenOnce_reported (engine : RuleEngine) :
    (machine .sample sampleParse "rules.toml").Along Reported
      (start "rules.toml" (fun _ => .ok luhnContent) engine) writtenOnce := by
  have hlater : ∀ l ∈ writtenOnce.drop 2, ∀ s, Reported s l := by
    simp [writtenOnce, Reported]
  apply (Machine.along_cons _ _ rfl).mpr
  constructor
  · trivial
  · apply (Machine.along_cons _ _ rfl).mpr
    constructor
    · exact ⟨rfl, nofun⟩
    · exact Machine.along_of_forall _ hlater _

theorem reported_edits_read_once :
    ∃ engine rules s,
      buildScanner .sample sampleParse "rules.toml" (fun _ => .ok luhnContent) =
          .ok (engine, rules) ∧
        (machine .sample sampleParse "rules.toml").run
            (start "rules.toml" (fun _ => .ok luhnContent) engine) writtenOnce = some s ∧
          s.files "rules.toml" = .ok "" ∧ s.Quiet ∧ s.UpToDate "rules.toml" := by
  refine ⟨_, _, _, rfl, rfl, rfl, ⟨rfl, rfl, rfl⟩, ?_⟩
  exact reported_edits_read .sample sampleParse "rules.toml"
    (show (machine .sample sampleParse "rules.toml").run _ writtenOnce = some _ from rfl)
    (writtenOnce_reported _) ⟨rfl, rfl, rfl⟩

end Sample

end WatchState

end PgSense
