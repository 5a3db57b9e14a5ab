import PgSense.Config.Load
import PgSense.Pipeline.Ids

/-! Starting the pipelines: from the entry of a database to the running pipeline, step by
step, and over all units of the supervisor. -/

namespace PgSense
open Library
set_option autoImplicit false

/-- The part of `etl::config::PipelineConfig` that a start can fail by. -/
structure PipelineConfig where
  id : UInt64
  publicationName : String
  pgConnection : Unresolved.PgConnectionConfig

/-- The calls of a start that reach the source database. -/
structure EtlCrate where
  /-- `source_bootstrap::apply` -/
  bootstrap : Unresolved.PgConnectionConfig → Except Error Unit
  /-- `PostgresStore::new` -/
  postgresStore : UInt64 → Unresolved.PgConnectionConfig → Except String Unit
  /-- `Pipeline::start` -/
  pipelineStart : PipelineConfig → Except String Unit

def toPipelineConfig (id : UInt64) (publicationName : String)
    (pgConnection : Unresolved.PgConnectionConfig) : Outcome Error PipelineConfig :=
  if publicationName = "" then .err (.msg "publication name must not be empty")
  else .ok ⟨id, publicationName, pgConnection⟩

namespace PipelineRunner
variable (etl : EtlCrate) (store : StoreType) (db : Unresolved.DatabaseConfig)

def openStore (pgConnection : Unresolved.PgConnectionConfig) : Outcome Error Unit :=
  match store with
  | .memory => .ok ()
  | .postgres => (Outcome.ofExcept (etl.postgresStore db.pipelineId pgConnection)).mapErr fun e =>
      .msg s!"Postgres store init failed: {e}"

/-- `PipelineRunner::build_pipeline`, as far as it can fail. -/
def buildPipeline (pgConnection : Unresolved.PgConnectionConfig) :
    Outcome Error PipelineConfig := do
  let config ← withContext "failed to build pipeline config"
    (toPipelineConfig db.pipelineId db.publication pgConnection)
  openStore etl store db pgConnection
  .ok config

def bootstrapSource (pgConnection : Unresolved.PgConnectionConfig) : Outcome Error Unit :=
  if store = .memory then
    withContext "source database bootstrap failed" (Outcome.ofExcept (etl.bootstrap pgConnection))
  else .ok ()

/-- `PipelineRunner::new`; the runner is the configuration of its pipeline. -/
def new : Outcome Error PipelineConfig := do
  let pgConnection ← db.toPgConnectionConfig
  bootstrapSource etl store pgConnection
  buildPipeline etl store db pgConnection

/-- `PipelineRunner::start` -/
def start (config : PipelineConfig) : Outcome Error Unit :=
  (Outcome.ofExcept (etl.pipelineStart config)).mapErr fun e => .msg s!"pipeline start failed: {e}"

end PipelineRunner

section Units
variable (etl : EtlCrate) (store : StoreType)

/-- `DatabaseUnit::start` of a unit that has not been started before. -/
def startUnit (db : Unresolved.DatabaseConfig) : Outcome Error Unit := do
  let runner ← withContext s!"failed to create pipeline for {db.databaseId}"
    (PipelineRunner.new etl store db)
  withContext s!"failed to start pipeline for {db.databaseId}" (PipelineRunner.start etl runner)

/-- `Supervisor::new` collects the units by their id. -/
def supervisorUnits (databases : List Unresolved.DatabaseConfig) : List Unresolved.DatabaseConfig :=
  databases.foldl (fun units db => units.filter (·.databaseId != db.databaseId) ++ [db]) []

/-- `Supervisor::start`, in the order in which the units were collected; the order of the
map only decides which of several errors is returned. -/
def startUnits : List Unresolved.DatabaseConfig → Outcome Error Unit
  | [] => .ok ()
  | db :: rest => do
    startUnit etl store db
    startUnits rest

theorem startUnits_eq_ok {units : List Unresolved.DatabaseConfig} :
    startUnits etl store units = .ok () ↔ ∀ db ∈ units, startUnit etl store db = .ok () := by
  induction units with
  | nil => simp [startUnits]
  | cons db rest ih => simp [startUnits, Outcome.bind_unit_eq_ok, ih]

end Units

theorem supervisorUnits_eq {databases : List Unresolved.DatabaseConfig}
    (h : (databases.map fun db => db.databaseId).Nodup) : supervisorUnits databases = databases := by
  induction databases using List.reverseRecOn with
  | nil => rfl
  | append_singleton front db ih =>
    rw [List.map_append, List.nodup_append] at h
    obtain ⟨hfront, _, hnew⟩ := h
    have hkeep : front.filter (·.databaseId != db.databaseId) = front := by
      rw [List.filter_eq_self]
      intro other hother
      have hne := hnew other.databaseId (List.mem_map_of_mem hother) db.databaseId (by simp)
      simpa using hne
    have hstep : supervisorUnits (front ++ [db]) =
        (supervisorUnits front).filter (·.databaseId != db.databaseId) ++ [db] := by
      simp [supervisorUnits, List.foldl_append]
    rw [hstep, ih hfront, hkeep]

section Ready
variable {etl : EtlCrate} {store : StoreType} {db : Unresolved.DatabaseConfig}
  {pgConnection : Unresolved.PgConnectionConfig}

namespace PipelineRunner

theorem bootstrapSource_eq_ok : bootstrapSource etl store pgConnection = .ok () ↔
    (store = .memory → etl.bootstrap pgConnection = .ok ()) := by
  cases store with
  | memory => simp [bootstrapSource]
  | postgres => simp [bootstrapSource]

theorem openStore_eq_ok : openStore etl store db pgConnection = .ok () ↔
    (store = .postgres → etl.postgresStore db.pipelineId pgConnection = .ok ()) := by
  cases store with
  | memory => simp [openStore]
  | postgres => simp [openStore]

theorem new_eq_ok (hconnection : db.toPgConnectionConfig = .ok pgConnection)
    (hpublication : db.publication ≠ "") {runner : PipelineConfig} :
    PipelineRunner.new etl store db = .ok runner ↔
      (store = .memory → etl.bootstrap pgConnection = .ok ()) ∧
      (store = .postgres → etl.postgresStore db.pipelineId pgConnection = .ok ()) ∧
      runner = ⟨db.pipelineId, db.publication, pgConnection⟩ := by
  have hconfig : toPipelineConfig db.pipelineId db.publication pgConnection =
      .ok ⟨db.pipelineId, db.publication, pgConnection⟩ := if_neg hpublication
  rw [PipelineRunner.new, hconnection, Outcome.ok_bind, Outcome.bind_unit_eq_ok,
    bootstrapSource_eq_ok, buildPipeline, hconfig]
  refine and_congr_right fun _ => ?_
  rw [withContext, Outcome.mapErr_ok, Outcome.ok_bind, Outcome.bind_unit_eq_ok, openStore_eq_ok,
    Outcome.ok.injEq, eq_comm (a := runner)]

end PipelineRunner

/-- What stands between a database of a loaded configuration and its pipeline: the source
database has to answer, but no secret and no blank publication can get in the way. -/
theorem startUnit_eq_ok (hconnection : db.toPgConnectionConfig = .ok pgConnection)
    (hpublication : db.publication ≠ "") :
    startUnit etl store db = .ok () ↔
      (store = .memory → etl.bootstrap pgConnection = .ok ()) ∧
      (store = .postgres → etl.postgresStore db.pipelineId pgConnection = .ok ()) ∧
      etl.pipelineStart ⟨db.pipelineId, db.publication, pgConnection⟩ = .ok () := by
  simp only [startUnit, Outcome.bind_eq_ok, withContext_eq_ok,
    PipelineRunner.new_eq_ok hconnection hpublication]
  constructor
  · rintro ⟨_, ⟨hbootstrap, hstore, rfl⟩, hstart⟩
    exact ⟨hbootstrap, hstore, by simpa [PipelineRunner.start] using hstart⟩
  · rintro ⟨hbootstrap, hstore, hstart⟩
    exact ⟨_, ⟨hbootstrap, hstore, rfl⟩, by simpa [PipelineRunner.start] using hstart⟩

end Ready

end PgSense
