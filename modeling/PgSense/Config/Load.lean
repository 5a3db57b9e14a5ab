import PgSense.Config.Secrets

/-! Loading a configuration: which ones are accepted, and what is left of them. -/

namespace PgSense
open Library
set_option autoImplicit false

/-- The `{e:#}` of an error. -/
def Error.alternate (e : Error) : String := ": ".intercalate e.chain

def isValidIdentifier (s : String) : Bool :=
  !s.toList.isEmpty && s.toList.all fun c => c.isAlphanum || c == '_'

def startsWith (s start : String) : Bool := start.toList.isPrefixOf s.toList

section Validate
variable (openers : Openers)

def JsonlAlertConfig.validate (j : JsonlAlertConfig) (name : String) : List String :=
  match openers.jsonl j with
  | .ok _ => []
  | .error e => [s!"jsonl '{name}': {e.alternate}"]

namespace Unresolved

inductive ChannelRef where
  | log
  | stdout
  | jsonl (config : JsonlAlertConfig)
  | webhook (config : WebhookConfig)
  | slack (config : SlackConfig)
  | postgres (config : PostgresAlertConfig)

def WebhookConfig.validate (w : WebhookConfig) (name : String) : List String :=
  if trimsToEmpty w.url then [s!"webhook '{name}': url is empty"]
  else if !(startsWith w.url "http://" || startsWith w.url "https://") then
    [s!"webhook '{name}': url must start with http:// or https://"]
  else []

def SlackConfig.validate (s : SlackConfig) (name : String) : List String :=
  (match s.token with
    | .inline text => if text = "" then [s!"slack '{name}': token is empty"] else []
    | .file _ => []) ++
  if trimsToEmpty s.channel then [s!"slack '{name}': channel is empty"] else []

def PostgresAlertConfig.validate (pg : PostgresAlertConfig) (name : String) : List String :=
  (if !isValidIdentifier pg.schema then
    [s!"postgres '{name}': invalid schema name '{pg.schema}' " ++
      "(must be ASCII alphanumeric or underscore)"] else []) ++
  if !isValidIdentifier pg.table then
    [s!"postgres '{name}': invalid table name '{pg.table}' " ++
      "(must be ASCII alphanumeric or underscore)"] else []

namespace AlertsConfig
variable (config : AlertsConfig)

/-- `AlertsConfig::channels`, before the secrets are resolved. -/
def channels : List (String × ChannelRef) :=
  (if config.logEnabled then [("log", .log)] else []) ++
  (if config.stdoutEnabled then [("stdout", .stdout)] else []) ++
  (if config.jsonl.enabled then [("jsonl", .jsonl config.jsonl)] else []) ++
  (config.webhooks.zipIdx.map fun (w, i) => (w.name.getD (numbered "webhook" i), .webhook w)) ++
  (config.slack.zipIdx.map fun (s, i) => (s.name.getD (numbered "slack" i), .slack s)) ++
  (config.postgres.toList.map fun pg => ("postgres", .postgres pg))

def validateChannel (name : String) : ChannelRef → List String
  | .log | .stdout => []
  | .jsonl j => j.validate openers name
  | .webhook w => w.validate name
  | .slack s => s.validate name
  | .postgres pg => pg.validate name

def validate : List String :=
  config.channels.flatMap fun (name, ch) => validateChannel openers name ch

end AlertsConfig

end Unresolved

namespace Config

def errs (config : Config) : List String :=
  databaseErrors (config.databases.map (·.toDatabaseConfig)) ++ config.alerts.validate openers

def validate (config : Config) : Outcome Error Unit :=
  let errs := config.errs openers
  if errs.isEmpty then .ok ()
  else .err (.msg ("config invalid:\n  - " ++ "\n  - ".intercalate errs))

/-- A database without a filter of its own gets the global one. -/
def fillScan (config : Config) : Config :=
  { config with
    databases := config.databases.map fun db =>
      if db.scan.isNone then
        { db with toDatabaseConfig := { db.toDatabaseConfig with scan := some config.scan } }
      else db }

/-- `Config::load`, on what the config crate reads from the file and the environment. -/
def load (files : Files) (read : Except Error Config) : Outcome Error Config := do
  let config ← Outcome.ofExcept read
  let config ← withContext "failed to resolve secret files" (config.resolveSecrets files)
  let config := config.fillScan
  config.validate openers
  .ok config

end Config

end Validate

/-! What a usable configuration is. -/

def NotBlank (s : String) : Prop := ∃ c ∈ s.toList, isWhiteSpace c = false

def Identifier (s : String) : Prop := s ≠ "" ∧ ∀ c ∈ s.toList, c.isAlphanum = true ∨ c = '_'

structure DatabaseConfig.WellFormed (db : DatabaseConfig) : Prop where
  host : NotBlank db.host
  port : db.port ≠ 0
  dbname : NotBlank db.dbname
  username : NotBlank db.username
  publication : NotBlank db.publication

namespace Unresolved

structure SlackConfig.WellFormed (s : SlackConfig) : Prop where
  token : s.token ≠ .inline ""
  channel : NotBlank s.channel

def WebhookConfig.WellFormed (w : WebhookConfig) : Prop :=
  "http://".toList <+: w.url.toList ∨ "https://".toList <+: w.url.toList

structure PostgresAlertConfig.WellFormed (pg : PostgresAlertConfig) : Prop where
  schema : Identifier pg.schema
  table : Identifier pg.table

structure AlertsConfig.WellFormed (openers : Openers) (a : AlertsConfig) : Prop where
  jsonl : a.jsonl.enabled = true → openers.jsonl a.jsonl = .ok ()
  webhooks : ∀ w ∈ a.webhooks, w.WellFormed
  slack : ∀ s ∈ a.slack, s.WellFormed
  postgres : ∀ pg ∈ a.postgres, pg.WellFormed

end Unresolved

structure Config.WellFormed (openers : Openers) (config : Config) : Prop where
  nonempty : config.databases ≠ []
  ids : (config.databases.map (·.databaseId)).Nodup
  databases : ∀ db ∈ config.databases, db.toDatabaseConfig.WellFormed
  alerts : config.alerts.WellFormed openers

section Checks
variable (openers : Openers)

theorem trimsToEmpty_eq_false {s : String} : trimsToEmpty s = false ↔ NotBlank s := by
  simp [trimsToEmpty, NotBlank]

theorem isValidIdentifier_iff {s : String} : isValidIdentifier s = true ↔ Identifier s := by
  simp [isValidIdentifier, Identifier]

/-- One check of a field adds nothing when the field is fine. -/
theorem check_eq_nil {bad : Bool} {message : String} :
    (if bad then [message] else []) = [] ↔ bad = false := by
  cases bad <;> simp

theorem DatabaseConfig.validate_eq_nil {db : DatabaseConfig} {name : String} :
    db.validate name = [] ↔ db.WellFormed := by
  simp only [validate, List.append_eq_nil_iff, ite_eq_right_iff, reduceCtorEq, imp_false,
    Bool.not_eq_true, trimsToEmpty_eq_false]
  constructor
  · intro h
    obtain ⟨⟨⟨⟨hhost, hport⟩, hdbname⟩, husername⟩, hpublication⟩ := h
    exact ⟨hhost, hport, hdbname, husername, hpublication⟩
  · intro h
    exact ⟨⟨⟨⟨h.host, h.port⟩, h.dbname⟩, h.username⟩, h.publication⟩

namespace Unresolved

/-- A URL with a scheme is not blank, so the order of the two checks does not matter. -/
theorem WebhookConfig.validate_eq_nil {w : WebhookConfig} {name : String} :
    w.validate name = [] ↔ w.WellFormed := by
  have hscheme : w.WellFormed ↔
      (startsWith w.url "http://" || startsWith w.url "https://") = true := by
    rw [Bool.or_eq_true, startsWith, startsWith, List.isPrefixOf_iff_prefix,
      List.isPrefixOf_iff_prefix]
    rfl
  have hblank : w.WellFormed → trimsToEmpty w.url = false := by
    intro h
    rw [trimsToEmpty_eq_false]
    have hletter : isWhiteSpace 'h' = false := rfl
    rcases h with h | h
    · exact ⟨'h', h.subset List.mem_cons_self, hletter⟩
    · exact ⟨'h', h.subset List.mem_cons_self, hletter⟩
  unfold validate
  rw [hscheme] at hblank ⊢
  cases hs : startsWith w.url "http://" || startsWith w.url "https://" with
  | true =>
    rw [hblank hs]
    simp
  | false => cases trimsToEmpty w.url <;> simp

theorem SlackConfig.validate_eq_nil {s : SlackConfig} {name : String} :
    s.validate name = [] ↔ s.WellFormed := by
  have htoken : (match s.token with
      | .inline text => if text = "" then [s!"slack '{name}': token is empty"] else []
      | .file _ => []) = [] ↔ s.token ≠ .inline "" := by
    cases s.token <;> simp
  rw [validate, List.append_eq_nil_iff, htoken, check_eq_nil, trimsToEmpty_eq_false]
  exact ⟨fun h => ⟨h.1, h.2⟩, fun h => ⟨h.token, h.channel⟩⟩

theorem PostgresAlertConfig.validate_eq_nil {pg : PostgresAlertConfig} {name : String} :
    pg.validate name = [] ↔ pg.WellFormed := by
  simp only [validate, List.append_eq_nil_iff, check_eq_nil, Bool.not_eq_false',
    isValidIdentifier_iff]
  exact ⟨fun h => ⟨h.1, h.2⟩, fun h => ⟨h.schema, h.table⟩⟩

end Unresolved

theorem JsonlAlertConfig.validate_eq_nil {j : JsonlAlertConfig} {name : String} :
    j.validate openers name = [] ↔ openers.jsonl j = .ok () := by
  unfold validate
  cases openers.jsonl j <;> simp

namespace Unresolved

def ChannelRef.WellFormed : ChannelRef → Prop
  | .log | .stdout => True
  | .jsonl j => openers.jsonl j = .ok ()
  | .webhook w => w.WellFormed
  | .slack s => s.WellFormed
  | .postgres pg => pg.WellFormed

namespace AlertsConfig

theorem validateChannel_eq_nil {name : String} {ch : ChannelRef} :
    validateChannel openers name ch = [] ↔ ch.WellFormed openers := by
  cases ch with
  | log => exact iff_of_true rfl trivial
  | stdout => exact iff_of_true rfl trivial
  | jsonl j => exact JsonlAlertConfig.validate_eq_nil openers
  | webhook w => exact WebhookConfig.validate_eq_nil
  | slack s => exact SlackConfig.validate_eq_nil
  | postgres pg => exact PostgresAlertConfig.validate_eq_nil

theorem channels_refs (a : AlertsConfig) : a.channels.map Prod.snd =
      (if a.logEnabled then [.log] else []) ++ (if a.stdoutEnabled then [.stdout] else []) ++
      (if a.jsonl.enabled then [.jsonl a.jsonl] else []) ++ a.webhooks.map .webhook ++
      a.slack.map .slack ++ a.postgres.toList.map .postgres := by
  have hentries : ∀ {C : Type} (entries : List C) (name : C × Nat → String)
      (make : C → ChannelRef),
      (entries.zipIdx.map fun x => (name x, make x.1)).map Prod.snd = entries.map make := by
    intro C entries name make
    rw [List.map_map]
    conv_rhs => rw [← List.zipIdx_map_fst 0 entries, List.map_map]
    rfl
  simp only [channels, List.map_append, hentries]
  congr 1
  · cases a.logEnabled <;> cases a.stdoutEnabled <;> cases a.jsonl.enabled <;> rfl
  · cases a.postgres <;> rfl

/-- Only the entries matter for whether the channels are valid, not their names. -/
theorem validate_eq_nil {a : AlertsConfig} : a.validate openers = [] ↔ a.WellFormed openers := by
  have hrefs : a.validate openers = [] ↔
      ∀ ch ∈ a.channels.map Prod.snd, ch.WellFormed openers := by
    simp only [validate, List.flatMap_eq_nil_iff, List.forall_mem_map, validateChannel_eq_nil]
  have hswitch : ∀ (on : Bool) (ch : ChannelRef),
      (∀ c ∈ (if on then [ch] else []), c.WellFormed openers) ↔
        (on = true → ch.WellFormed openers) := by
    intro on ch
    cases on <;> simp
  rw [hrefs, channels_refs]
  simp only [List.forall_mem_append, List.forall_mem_map, hswitch, Option.mem_toList]
  constructor
  · intro h
    obtain ⟨⟨⟨⟨_, hjsonl⟩, hwebhooks⟩, hslack⟩, hpostgres⟩ := h
    exact ⟨hjsonl, hwebhooks, hslack, hpostgres⟩
  · intro h
    exact ⟨⟨⟨⟨⟨fun _ => trivial, fun _ => trivial⟩, h.jsonl⟩, h.webhooks⟩, h.slack⟩, h.postgres⟩

end AlertsConfig

end Unresolved

namespace Config

theorem errs_eq_nil {config : Config} :
    config.errs openers = [] ↔ config.WellFormed openers := by
  rw [errs, List.append_eq_nil_iff, databaseErrors_eq_nil,
    Unresolved.AlertsConfig.validate_eq_nil, List.map_map]
  simp only [List.forall_mem_map, DatabaseConfig.validate_eq_nil, ne_eq, List.map_eq_nil_iff]
  constructor
  · intro h
    obtain ⟨⟨hnonempty, hids, hdatabases⟩, halerts⟩ := h
    exact ⟨hnonempty, hids, hdatabases, halerts⟩
  · intro h
    exact ⟨⟨h.nonempty, h.ids, h.databases⟩, h.alerts⟩

theorem validate_eq_ok {config : Config} :
    config.validate openers = .ok () ↔ config.WellFormed openers := by
  rw [← errs_eq_nil, validate]
  cases config.errs openers <;> simp

theorem validate_ne_panic (config : Config) (m : String) : config.validate openers ≠ .panic m := by
  rw [validate]
  cases config.errs openers <;> simp

variable (files : Files)

def Readable (config : Config) : Prop :=
  ∀ path, Secret.file path ∈ config.secrets → ∃ content, files path = .ok content

/-- What is left of a configuration that is accepted. -/
def loaded (config : Config) : Config := (config.resolved files).fillScan

theorem findSome?_readError_eq_none {config : Config} :
    config.secrets.findSome? (Secret.readError files) = none ↔ config.Readable files := by
  simp only [List.findSome?_eq_none_iff, Secret.readError_eq_none]
  constructor
  · intro h path hpath
    exact h _ hpath path rfl
  · intro h s hs path heq
    rw [heq] at hs
    exact h path hs

theorem load_eq_ok {read : Except Error Config} {config : Config} :
    load openers files read = .ok config ↔
      ∃ raw, read = .ok raw ∧ raw.Readable files ∧ (raw.loaded files).WellFormed openers ∧
        config = raw.loaded files := by
  simp only [load, Outcome.bind_eq_ok, Outcome.ofExcept_eq_ok, withContext_eq_ok,
    resolveSecrets_eq, Outcome.guarded_eq_ok, findSome?_readError_eq_none]
  constructor
  · intro h
    obtain ⟨raw, hread, resolved, ⟨hreadable, rfl⟩, _, hvalid, heq⟩ := h
    exact ⟨raw, hread, hreadable, (validate_eq_ok openers).mp hvalid, (Outcome.ok.inj heq).symm⟩
  · intro h
    obtain ⟨raw, hread, hreadable, hformed, rfl⟩ := h
    exact ⟨raw, hread, _, ⟨hreadable, rfl⟩, (), (validate_eq_ok openers).mpr hformed, rfl⟩

theorem load_ne_panic (read : Except Error Config) (m : String) :
    load openers files read ≠ .panic m := by
  intro h
  simp only [load, Outcome.bind_eq_panic, Outcome.ofExcept_ne_panic, withContext_eq_panic,
    resolveSecrets_eq, Outcome.guarded_ne_panic, validate_ne_panic, false_or, reduceCtorEq,
    and_false, exists_false] at h

/-- A configuration is accepted exactly if all its secret files can be read and what comes
of it is well formed; of the files that cannot be read the error names the first; and
nothing in it makes loading panic. -/
theorem load_accepts_iff (read : Except Error Config) :
    (∀ config, load openers files read = .ok config ↔
      ∃ raw, read = .ok raw ∧ raw.Readable files ∧ (raw.loaded files).WellFormed openers ∧
        config = raw.loaded files) ∧
    (∀ raw front path back e, read = .ok raw → raw.secrets = front ++ .file path :: back →
      (∀ p, Secret.file p ∈ front → ∃ content, files p = .ok content) → files path = .error e →
        load openers files read = .err ⟨["failed to resolve secret files",
          s!"failed to read secret file: {path}", e]⟩) ∧
    ∀ m, load openers files read ≠ .panic m := by
  refine ⟨fun _ => load_eq_ok openers files, ?_, load_ne_panic openers files read⟩
  intro raw front path back e hread hsecrets hfront hpath
  have hbefore : front.findSome? (Secret.readError files) = none := by
    simp only [List.findSome?_eq_none_iff, Secret.readError_eq_none]
    intro s hs p heq
    rw [heq] at hs
    exact hfront p hs
  rw [hread, load, Outcome.ofExcept_ok, Outcome.ok_bind, resolveSecrets_eq, hsecrets,
    List.findSome?_append, hbefore, List.findSome?_cons, Secret.readError, hpath]
  rfl

section Loaded
variable (later : Files)

theorem secrets_fillScan (config : Config) : config.fillScan.secrets = config.secrets := by
  simp only [secrets, fillScan, List.flatMap_map]
  congr 1
  apply List.flatMap_congr
  intro db _
  cases db.scan <;> rfl

theorem fillScan_fillScan (config : Config) : config.fillScan.fillScan = config.fillScan := by
  simp only [fillScan, List.map_map]
  congr 1
  apply List.map_congr_left
  intro db _
  cases h : db.scan <;> simp [h]

theorem mapSecrets_fillScan (g : Secret → Secret) (config : Config) :
    config.fillScan.mapSecrets g = (config.mapSecrets g).fillScan := by
  simp only [mapSecrets, fillScan, List.map_map]
  congr 1
  apply List.map_congr_left
  intro db _
  cases h : db.scan <;> simp [h, Unresolved.DatabaseConfig.mapSecrets]

theorem readable_loaded (config : Config) : (config.loaded files).Readable later := by
  intro path hpath
  rw [loaded, secrets_fillScan, resolved, secrets_mapSecrets] at hpath
  obtain ⟨s, _, hs⟩ := List.mem_map.mp hpath
  cases hs

theorem resolved_loaded (config : Config) :
    (config.loaded files).resolved later = config.loaded files := by
  rw [loaded, resolved, mapSecrets_fillScan]
  exact congrArg fillScan (resolved_resolved files later config)

theorem loaded_loaded (config : Config) :
    (config.loaded files).loaded later = config.loaded files := by
  rw [loaded, resolved_loaded, loaded, fillScan_fillScan]

theorem database_loaded {raw : Config} {db : Unresolved.DatabaseConfig}
    (hdb : db ∈ (raw.loaded files).databases) : db.scan.isSome = true ∧
      ∃ connection, db.toPgConnectionConfig = .ok connection := by
  obtain ⟨resolved, hresolved, rfl⟩ := List.mem_map.mp hdb
  obtain ⟨original, _, rfl⟩ := List.mem_map.mp hresolved
  have hconnection := original.toPgConnectionConfig_mapSecrets (Secret.text files)
  split
  · exact ⟨rfl, _, hconnection⟩
  · next hscan =>
    rw [Option.isNone_eq_false_iff.mp (eq_false_of_ne_true hscan)]
    exact ⟨rfl, _, hconnection⟩

/-- A configuration that was accepted needs its secret files no more: whatever becomes of them,
resolving its secrets or loading it again changes nothing (a JSONL file that is written to has
to open again), the channels are opened with the texts the secrets stood for, no connection
panics over one, and every database has a filter. -/
theorem loaded_config_ready {read : Except Error Config} {config : Config}
    (h : load openers files read = .ok config) :
    config.resolveSecrets later = .ok config ∧
    load openers later (.ok config) = .ok config ∧
    (∃ raw, read = .ok raw ∧ config.alerts.expose = .ok (raw.alerts.exposed (Secret.text files))) ∧
    ∀ db ∈ config.databases, db.scan.isSome = true ∧
      ∃ connection, db.toPgConnectionConfig = .ok connection := by
  obtain ⟨raw, hread, _, hformed, rfl⟩ := (load_eq_ok openers files).mp h
  have hnone := (findSome?_readError_eq_none later).mpr (readable_loaded files later raw)
  refine ⟨?_, ?_, ⟨raw, hread, ?_⟩, ?_⟩
  · rw [resolveSecrets_eq, hnone, resolved_loaded, Outcome.guarded_none]
  · apply (load_eq_ok openers later).mpr
    refine ⟨_, rfl, readable_loaded files later raw, ?_, ?_⟩
    · rwa [loaded_loaded]
    · rw [loaded_loaded]
  · exact raw.alerts.expose_mapSecrets (Secret.text files)
  · intro db hdb
    exact database_loaded files hdb

end Loaded

end Config
end Checks

section Sample

/-- A database password and a Slack token in files. -/
def fileBacked : Config where
  log := ⟨.stderr⟩
  telemetry := ⟨false, "http://localhost:4317", .grpc⟩
  databases := [{
    host := "localhost"
    port := 5432
    dbname := "shop"
    username := "postgres"
    publication := "pgsense_pub"
    scan := none
    password := some (.file "/run/secrets/db")
    tls := ⟨false, ""⟩ }]
  store := .memory
  rulesFile := some "rules.toml"
  scan := ⟨.empty, .empty, .empty⟩
  alerts := {
    dedupWindowSeconds := 300
    logEnabled := true
    stdoutEnabled := false
    jsonl := ⟨false, none, "alerts.jsonl"⟩
    webhooks := []
    slack := [⟨none, .file "/run/secrets/slack", "#alerts", none, none, 5000, 8, 2000, 3⟩]
    postgres := none }

def mountedFiles : Files := fun path =>
  if path == "rules.toml" then .ok "[[rules]]\n"
  else if path == "/run/secrets/db" then .ok "s3cret\n"
  else if path == "/run/secrets/slack" then .ok "xoxb-1\n"
  else .error "No such file or directory (os error 2)"

theorem fileBacked_loads :
    Config.load .sample mountedFiles (.ok fileBacked) = .ok (fileBacked.loaded mountedFiles) := by
  apply (Config.load_eq_ok .sample mountedFiles).mpr
  refine ⟨fileBacked, rfl, ?_, ?_, rfl⟩
  · intro path hpath
    rcases List.mem_cons.mp hpath with heq | hpath
    · exact ⟨"s3cret\n", by rw [Secret.file.inj heq]; rfl⟩
    · exact ⟨"xoxb-1\n", by rw [Secret.file.inj (List.mem_singleton.mp hpath)]; rfl⟩
  · rw [← Config.errs_eq_nil]
    decide +kernel

/-- Without the files the database password is the first to be missed. -/
theorem load_accepts_iff_unmounted :
    Config.load .sample (fun _ => .error "gone") (.ok fileBacked) =
      .err ⟨["failed to resolve secret files", "failed to read secret file: /run/secrets/db",
        "gone"]⟩ ∧
    ∃ config, Config.load .sample mountedFiles (.ok fileBacked) = .ok config := by
  obtain ⟨_, hnames, _⟩ :=
    Config.load_accepts_iff .sample (fun _ => .error "gone") (.ok fileBacked)
  refine ⟨hnames fileBacked [] "/run/secrets/db" _ "gone" rfl rfl ?_ rfl, _, fileBacked_loads⟩
  exact fun p hp => absurd hp List.not_mem_nil

/-- The token that Slack is called with has lost the newline of its file, and the files may
go afterwards. -/
theorem loaded_config_ready_files : ∃ config,
    Config.load .sample mountedFiles (.ok fileBacked) = .ok config ∧
    config.resolveSecrets (fun _ => .error "gone") = .ok config ∧
    Config.load .sample (fun _ => .error "gone") (.ok config) = .ok config ∧
    (∃ raw, (.ok fileBacked : Except Error Config) = .ok raw ∧
      config.alerts.expose = .ok (raw.alerts.exposed (Secret.text mountedFiles))) ∧
    (∀ db ∈ config.databases, db.scan.isSome = true ∧
      ∃ connection, db.toPgConnectionConfig = .ok connection) ∧
    (fileBacked.alerts.exposed (Secret.text mountedFiles)).slack.map SlackConfig.token =
      ["xoxb-1"] := by
  obtain ⟨hagain, hload, hexpose, hdatabases⟩ :=
    Config.loaded_config_ready .sample mountedFiles (fun _ => .error "gone") fileBacked_loads
  exact ⟨_, fileBacked_loads, hagain, hload, hexpose, hdatabases, by decide +kernel⟩

end Sample

end PgSense
