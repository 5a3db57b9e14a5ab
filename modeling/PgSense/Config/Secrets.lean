import PgSense.Commands.Supervision
import PgSense.Alerts.Dispatcher
import PgSense.Logging
import Mathlib.Data.List.DropRight

/-! A configuration as it is read: its secrets may still be files, and are resolved in
one walk over the databases and the alert channels. -/

namespace PgSense
open Library
set_option autoImplicit false

inductive Secret where
  | inline (text : String)
  | file (path : String)
  deriving DecidableEq

/-- `str::trim_end` -/
def trimEnd (s : String) : String := String.ofList (s.toList.rdropWhile isWhiteSpace)

namespace Secret

def resolve (files : Files) : Secret → Outcome Error Secret
  | inline text => .ok (.inline text)
  | file path => do
    let content ← withContext s!"failed to read secret file: {path}"
      ((Outcome.ofExcept (files path)).mapErr Error.msg)
    .ok (.inline (trimEnd content))

def expose : Secret → Outcome Error String
  | inline text => .ok text
  | file path => .panic s!"Secret::expose called on unresolved File variant ({path})"

/-- The text that a secret stands for, as far as its file can be read. -/
def text (files : Files) : Secret → String
  | inline text => text
  | file path =>
    match files path with
    | .ok content => trimEnd content
    | .error _ => ""

def readError (files : Files) : Secret → Option Error
  | inline _ => none
  | file path =>
    match files path with
    | .ok _ => none
    | .error e => some ⟨[s!"failed to read secret file: {path}", e]⟩

theorem resolve_eq (files : Files) (s : Secret) :
    s.resolve files = .guarded (s.readError files) (.inline (s.text files)) := by
  cases s with
  | inline text => rfl
  | file path => cases h : files path <;> simp [resolve, readError, text, h, withContext,
      Outcome.mapErr, Outcome.ofExcept, Error.msg, Error.context]

theorem readError_eq_none {files : Files} {s : Secret} :
    s.readError files = none ↔ ∀ path, s = .file path → ∃ content, files path = .ok content := by
  cases s with
  | inline text => simp [readError]
  | file path => cases h : files path <;> simp [readError, h]

end Secret

namespace Unresolved

structure DatabaseConfig extends PgSense.DatabaseConfig where
  password : Option Secret
  tls : TlsSettings

structure PostgresAlertConfig where
  name : Option String
  host : String
  port : Nat
  dbname : String
  username : String
  password : Option Secret
  schema : String
  table : String
  tls : TlsSettings

structure WebhookConfig where
  name : Option String
  url : String
  headers : List (String × Secret)
  timeoutMs : Nat

structure SlackConfig where
  name : Option String
  token : Secret
  channel : String
  username : Option String
  iconEmoji : Option String
  timeoutMs : Nat
  batchSize : Nat
  batchWindowMs : Nat
  maxRetries : Nat

structure AlertsConfig where
  dedupWindowSeconds : Nat
  logEnabled : Bool
  stdoutEnabled : Bool
  jsonl : JsonlAlertConfig
  webhooks : List WebhookConfig
  slack : List SlackConfig
  postgres : Option PostgresAlertConfig

end Unresolved

inductive StoreType where
  | memory
  | postgres
  deriving DecidableEq

structure Config where
  log : LogConfig
  telemetry : TelemetryConfig
  databases : List Unresolved.DatabaseConfig
  store : StoreType
  rulesFile : Option String
  scan : ScanFilter
  alerts : Unresolved.AlertsConfig

namespace Unresolved
variable (files : Files)

/-! Each kind of entry has a step of the walk, the secrets it holds in the order of
the step, and the update of those secrets. -/

def DatabaseConfig.resolveSecrets (db : DatabaseConfig) : Outcome Error DatabaseConfig := do
  let password ← Outcome.field (Secret.resolve files) db.password
  .ok { db with password }

def DatabaseConfig.mapSecrets (g : Secret → Secret) (db : DatabaseConfig) : DatabaseConfig :=
  { db with password := db.password.map g }

def PostgresAlertConfig.resolveSecrets (pg : PostgresAlertConfig) :
    Outcome Error PostgresAlertConfig := do
  let password ← Outcome.field (Secret.resolve files) pg.password
  .ok { pg with password }

def PostgresAlertConfig.mapSecrets (g : Secret → Secret) (pg : PostgresAlertConfig) :
    PostgresAlertConfig :=
  { pg with password := pg.password.map g }

def SlackConfig.resolveSecrets (s : SlackConfig) : Outcome Error SlackConfig := do
  let token ← s.token.resolve files
  .ok { s with token }

def SlackConfig.mapSecrets (g : Secret → Secret) (s : SlackConfig) : SlackConfig :=
  { s with token := g s.token }

def resolveHeader (header : String × Secret) : Outcome Error (String × Secret) := do
  let value ← header.2.resolve files
  .ok (header.1, value)

def WebhookConfig.resolveSecrets (w : WebhookConfig) : Outcome Error WebhookConfig := do
  let headers ← w.headers.mapM (resolveHeader files)
  .ok { w with headers }

def WebhookConfig.mapSecrets (g : Secret → Secret) (w : WebhookConfig) : WebhookConfig :=
  { w with headers := w.headers.map fun h => (h.1, g h.2) }

def AlertsConfig.secrets (a : AlertsConfig) : List Secret :=
  (a.postgres.toList.flatMap fun pg => pg.password.toList) ++ a.slack.map SlackConfig.token ++
    a.webhooks.flatMap fun w => w.headers.map Prod.snd

def AlertsConfig.mapSecrets (g : Secret → Secret) (a : AlertsConfig) : AlertsConfig :=
  { a with
    postgres := a.postgres.map (·.mapSecrets g)
    slack := a.slack.map (·.mapSecrets g)
    webhooks := a.webhooks.map (·.mapSecrets g) }

/-! The constructors of the connections expose their secrets, and panic at one that is
still a file. -/

/-- What a pipeline connects to its database with. -/
structure PgConnectionConfig where
  host : String
  port : Nat
  name : String
  username : String
  password : Option String
  tls : TlsSettings

def DatabaseConfig.toPgConnectionConfig (db : DatabaseConfig) :
    Outcome Error PgConnectionConfig := do
  let password ← Outcome.field Secret.expose db.password
  .ok ⟨db.host, db.port, db.dbname, db.username, password, db.tls⟩

def PostgresAlertConfig.expose (pg : PostgresAlertConfig) :
    Outcome Error PgSense.PostgresAlertConfig := do
  let password ← Outcome.field Secret.expose pg.password
  .ok ⟨pg.name, pg.host, pg.port, pg.dbname, pg.username, password, pg.schema, pg.table, pg.tls⟩

def SlackConfig.expose (s : SlackConfig) : Outcome Error PgSense.SlackConfig := do
  let token ← s.token.expose
  .ok ⟨s.name, token, s.channel, s.username, s.iconEmoji, s.timeoutMs, s.batchSize,
    s.batchWindowMs, s.maxRetries⟩

def exposeHeader (header : String × Secret) : Outcome Error (String × String) := do
  let value ← header.2.expose
  .ok (header.1, value)

def WebhookConfig.expose (w : WebhookConfig) : Outcome Error PgSense.WebhookConfig := do
  let headers ← w.headers.mapM exposeHeader
  .ok ⟨w.name, w.url, headers, w.timeoutMs⟩

/-- The configurations that the channels are opened with. -/
def AlertsConfig.expose (a : AlertsConfig) : Outcome Error PgSense.AlertsConfig := do
  let webhooks ← a.webhooks.mapM WebhookConfig.expose
  let slack ← a.slack.mapM SlackConfig.expose
  let postgres ← Outcome.field PostgresAlertConfig.expose a.postgres
  .ok ⟨a.dedupWindowSeconds, a.logEnabled, a.stdoutEnabled, a.jsonl, webhooks, slack, postgres⟩

end Unresolved

namespace Config
variable (files : Files)

def resolveSecrets (config : Config) : Outcome Error Config := do
  let databases ← config.databases.mapM (·.resolveSecrets files)
  let postgres ← Outcome.field (·.resolveSecrets files) config.alerts.postgres
  let slack ← config.alerts.slack.mapM (·.resolveSecrets files)
  let webhooks ← config.alerts.webhooks.mapM (·.resolveSecrets files)
  .ok { config with databases, alerts := { config.alerts with postgres, slack, webhooks } }

/-- All secrets, in the order in which they are resolved. -/
def secrets (config : Config) : List Secret :=
  (config.databases.flatMap fun db => db.password.toList) ++ config.alerts.secrets

def mapSecrets (g : Secret → Secret) (config : Config) : Config :=
  { config with
    databases := config.databases.map (·.mapSecrets g)
    alerts := config.alerts.mapSecrets g }

/-- Every secret replaced by the text it stands for. -/
def resolved (config : Config) : Config := config.mapSecrets fun s => .inline (s.text files)

theorem secrets_mapSecrets (g : Secret → Secret) (config : Config) :
    (config.mapSecrets g).secrets = config.secrets.map g := by
  have hpassword : ∀ password : Option Secret,
      (password.map g).toList = password.toList.map g := by
    intro password
    cases password <;> rfl
  simp only [secrets, mapSecrets, Unresolved.AlertsConfig.secrets,
    Unresolved.AlertsConfig.mapSecrets, List.map_append, List.map_flatMap, List.flatMap_map,
    List.map_map]
  congr 1
  · apply List.flatMap_congr
    intro db _
    exact hpassword db.password
  congr 1
  · congr 1
    cases config.alerts.postgres with
    | none => rfl
    | some pg =>
      simp only [Option.map_some, Option.toList_some, List.flatMap_singleton]
      exact hpassword pg.password
  · apply List.flatMap_congr
    intro w _
    simp [Unresolved.WebhookConfig.mapSecrets]

theorem mapSecrets_mapSecrets (g h : Secret → Secret) (config : Config) :
    (config.mapSecrets g).mapSecrets h = config.mapSecrets fun s => h (g s) := by
  simp only [mapSecrets, Unresolved.AlertsConfig.mapSecrets, Unresolved.DatabaseConfig.mapSecrets,
    Unresolved.PostgresAlertConfig.mapSecrets, Unresolved.SlackConfig.mapSecrets,
    Unresolved.WebhookConfig.mapSecrets, List.map_map, Option.map_map, Function.comp_def]

/-- Resolved secrets stand for their text, whatever becomes of the files. -/
theorem resolved_resolved (later : Files) (config : Config) :
    (config.resolved files).resolved later = config.resolved files :=
  mapSecrets_mapSecrets _ _ config

end Config

section Steps
variable (files : Files)

theorem Unresolved.DatabaseConfig.resolveSecrets_eq (db : Unresolved.DatabaseConfig) :
    db.resolveSecrets files =
      .guarded (db.password.toList.findSome? (Secret.readError files))
        (db.mapSecrets fun s => .inline (s.text files)) := by
  rw [resolveSecrets, funext (Secret.resolve_eq files), Outcome.field_guarded]
  exact Outcome.guarded_map fun password => { db with password }

theorem Unresolved.PostgresAlertConfig.resolveSecrets_eq (pg : Unresolved.PostgresAlertConfig) :
    pg.resolveSecrets files =
      .guarded (pg.password.toList.findSome? (Secret.readError files))
        (pg.mapSecrets fun s => .inline (s.text files)) := by
  rw [resolveSecrets, funext (Secret.resolve_eq files), Outcome.field_guarded]
  exact Outcome.guarded_map fun password => { pg with password }

theorem Unresolved.SlackConfig.resolveSecrets_eq (s : Unresolved.SlackConfig) :
    s.resolveSecrets files =
      .guarded (s.token.readError files) (s.mapSecrets fun s => .inline (s.text files)) := by
  rw [resolveSecrets, s.token.resolve_eq]
  exact Outcome.guarded_map fun token => { s with token }

theorem Unresolved.WebhookConfig.resolveSecrets_eq (w : Unresolved.WebhookConfig) :
    w.resolveSecrets files =
      .guarded ((w.headers.map Prod.snd).findSome? (Secret.readError files))
        (w.mapSecrets fun s => .inline (s.text files)) := by
  have hheader : ∀ h : String × Secret, Unresolved.resolveHeader files h =
      .guarded (h.2.readError files) (h.1, .inline (h.2.text files)) := by
    intro h
    rw [Unresolved.resolveHeader, h.2.resolve_eq]
    exact Outcome.guarded_map fun value => (h.1, value)
  rw [resolveSecrets, funext hheader, Outcome.mapM_guarded, List.findSome?_map]
  exact Outcome.guarded_map fun headers => { w with headers }

/-- Resolution is one walk: it fails at the first secret that cannot be read, or
replaces every secret and nothing else. -/
theorem Config.resolveSecrets_eq (config : Config) :
    config.resolveSecrets files =
      .guarded (config.secrets.findSome? (Secret.readError files)) (config.resolved files) := by
  rw [secrets, Unresolved.AlertsConfig.secrets, List.findSome?_append, List.findSome?_append,
    List.findSome?_append, List.findSome?_map, Outcome.findSome?_flatMap,
    Outcome.findSome?_flatMap, Outcome.findSome?_flatMap, Option.or_assoc]
  simp only [resolveSecrets, Unresolved.DatabaseConfig.resolveSecrets_eq,
    Unresolved.PostgresAlertConfig.resolveSecrets_eq, Unresolved.SlackConfig.resolveSecrets_eq,
    Unresolved.WebhookConfig.resolveSecrets_eq, Outcome.mapM_guarded, Outcome.field_guarded]
  apply Outcome.guarded_bind
  apply Outcome.guarded_bind
  apply Outcome.guarded_bind
  exact Outcome.guarded_map _

end Steps

/-! With every secret inline, exposing returns. -/

section Exposing
variable (text : Secret → String)

theorem Secret.field_expose (password : Option Secret) :
    Outcome.field Secret.expose (password.map fun s => .inline (text s)) =
      .ok (password.map text) := by
  cases password <;> rfl

namespace Unresolved

def PostgresAlertConfig.exposed (pg : PostgresAlertConfig) : PgSense.PostgresAlertConfig :=
  ⟨pg.name, pg.host, pg.port, pg.dbname, pg.username, pg.password.map text, pg.schema, pg.table,
    pg.tls⟩

def SlackConfig.exposed (s : SlackConfig) : PgSense.SlackConfig :=
  ⟨s.name, text s.token, s.channel, s.username, s.iconEmoji, s.timeoutMs, s.batchSize,
    s.batchWindowMs, s.maxRetries⟩

def WebhookConfig.exposed (w : WebhookConfig) : PgSense.WebhookConfig :=
  ⟨w.name, w.url, w.headers.map fun h => (h.1, text h.2), w.timeoutMs⟩

def AlertsConfig.exposed (a : AlertsConfig) : PgSense.AlertsConfig :=
  ⟨a.dedupWindowSeconds, a.logEnabled, a.stdoutEnabled, a.jsonl,
    a.webhooks.map (·.exposed text), a.slack.map (·.exposed text),
    a.postgres.map (·.exposed text)⟩

theorem PostgresAlertConfig.expose_mapSecrets (pg : PostgresAlertConfig) :
    (pg.mapSecrets fun s => .inline (text s)).expose = .ok (pg.exposed text) := by
  rw [expose, mapSecrets, Secret.field_expose]
  rfl

theorem WebhookConfig.expose_mapSecrets (w : WebhookConfig) :
    (w.mapSecrets fun s => .inline (text s)).expose = .ok (w.exposed text) := by
  have hheaders := Outcome.mapM_map_total (f := exposeHeader)
    (g := fun h : String × Secret => (h.1, .inline (text h.2))) (fun _ => rfl) w.headers
  rw [expose, mapSecrets, hheaders]
  rfl

/-- The channels are opened with the texts that the secrets stand for. -/
theorem AlertsConfig.expose_mapSecrets (a : AlertsConfig) :
    (a.mapSecrets fun s => .inline (text s)).expose = .ok (a.exposed text) := by
  have hslack : ∀ s : SlackConfig,
      (s.mapSecrets fun s => .inline (text s)).expose = .ok (s.exposed text) := fun _ => rfl
  have hpostgres : Outcome.field PostgresAlertConfig.expose
      (a.postgres.map (·.mapSecrets fun s => .inline (text s))) =
        .ok (a.postgres.map (·.exposed text)) := by
    cases a.postgres with
    | none => rfl
    | some pg =>
      rw [Option.map_some, Outcome.field, pg.expose_mapSecrets]
      rfl
  rw [expose, mapSecrets, hpostgres,
    Outcome.mapM_map_total (WebhookConfig.expose_mapSecrets text),
    Outcome.mapM_map_total hslack]
  rfl

theorem DatabaseConfig.toPgConnectionConfig_mapSecrets (db : DatabaseConfig) :
    (db.mapSecrets fun s => .inline (text s)).toPgConnectionConfig =
      .ok ⟨db.host, db.port, db.dbname, db.username, db.password.map text, db.tls⟩ := by
  rw [toPgConnectionConfig, mapSecrets, Secret.field_expose]
  rfl

end Unresolved

end Exposing

end PgSense
