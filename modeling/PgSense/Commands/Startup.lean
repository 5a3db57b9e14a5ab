import PgSense.Commands.Watch
import PgSense.Pipeline.Runner

/-! The way of the `scan` command to its main loop, and the `validate` command, which
predicts it: both read the same configuration and the same rules. -/

namespace PgSense
open Library
set_option autoImplicit false

inductive IssueSeverity where
  | ok
  | warning
  | error
  deriving DecidableEq

structure ValidationIssue where
  phase : String
  severity : IssueSeverity
  message : String
  deriving DecidableEq

def errorCount (report : List ValidationIssue) : Nat :=
  report.countP fun i => i.severity = .error

/-- The names without repetition, sorted and joined. -/
def joinedNames (names : List String) : String :=
  ", ".intercalate (names.dedup.mergeSort fun a b => decide (a ≤ b))

/-- The loop of `validate_databases`, over the ids seen so far. -/
def databaseIssues (seen : List String) : List DatabaseConfig → List ValidationIssue
  | [] => []
  | db :: rest =>
    let id := db.databaseId
    (if seen.contains id then [⟨"databases", .warning,
      s!"duplicate database '{id}' — host/dbname combination must be unique"⟩] else []) ++
      (db.validate id).map (⟨"databases", .error, ·⟩) ++ databaseIssues (id :: seen) rest

def validateDatabases (databases : List DatabaseConfig) : List ValidationIssue :=
  if databases.isEmpty then [⟨"databases", .error, "no databases configured"⟩]
  else
    let hadError := databases.any fun db => !(db.validate db.databaseId).isEmpty
    databaseIssues [] databases ++
      if hadError then []
      else [⟨"databases", .ok, s!"{databases.length} database(s) configured " ++
        s!"({joinedNames (databases.map DatabaseConfig.databaseId)})"⟩]

def StoreType.display : StoreType → String
  | memory => "memory"
  | postgres => "postgres"

def validateStore : StoreType → List ValidationIssue
  | .memory => [⟨"store", .ok, "memory (state lost on restart)"⟩]
  | .postgres =>
    [⟨"store", .ok, "postgres (state persisted in source DB under `etl` schema)"⟩]

/-- The first loop of `validate_alerts`, over the names seen so far. -/
def duplicateNames (seen : List String) : List String → List ValidationIssue
  | [] => []
  | name :: rest =>
    (if seen.contains name then [⟨"alerts", .warning,
      s!"duplicate alert channel name '{name}' — routing may be ambiguous"⟩] else []) ++
      duplicateNames (name :: seen) rest

section Commands
variable (cr : Crates) (parse : String → Except String (List RuleConfig)) (openers : Openers)
  (files : Files)

def validateAlerts (alerts : Unresolved.AlertsConfig) : List ValidationIssue :=
  let names := alerts.channels.map Prod.fst
  let errors := alerts.validate openers
  duplicateNames [] names ++ errors.map (⟨"alerts", .error, ·⟩) ++
    if errors.isEmpty then [⟨"alerts", .ok,
      s!"{names.dedup.length} channels configured ({joinedNames names})"⟩]
    else []

/-- What one rule adds to the report: nothing if it would compile. -/
def ruleIssue (rule : RuleConfig) : Outcome Error (List ValidationIssue) :=
  match validateRule cr files rule with
  | .ok _ => .ok []
  | .err e => .ok [⟨"rules", .error, s!"rule '{rule.id}': {e.alternate}"⟩]
  | .panic m => .panic m

/-- The channel loop at the end of `validate_rules`, over the configured names. -/
def routingIssues (configured : List String) (rules : List RuleConfig) : List ValidationIssue :=
  rules.flatMap fun rule =>
    ((rule.channels.getD []).filter fun ch => !configured.contains ch).map
      fun ch => ⟨"rules", .warning, (⟨rule.id, ch⟩ : ChannelWarning).text⟩

def countType (t : RuleType) (rules : List RuleConfig) : Nat := rules.countP (·.ruleType = t)

def validateRules (rulesPath : Option String) (alerts : Unresolved.AlertsConfig) :
    Outcome Error (List ValidationIssue) :=
  match rulesPath with
  | none => .ok [⟨"rules", .warning, "no rules file specified — skipping rule validation"⟩]
  | some path =>
    match loadRules parse path files with
    | .err e => .ok [⟨"rules", .error, e.alternate⟩]
    | .panic m => .panic m
    | .ok rules => do
      let issues ← rules.mapM (ruleIssue cr files)
      let compiledOk := issues.countP (·.isEmpty)
      .ok (issues.flatten ++
        [⟨"rules", .ok, s!"{compiledOk}/{rules.length} rules compiled " ++
          s!"({countType .regex rules} regex, {countType .builtin rules} builtin, " ++
          s!"{countType .script rules} script)"⟩] ++
        routingIssues (alerts.channels.map Prod.fst) rules)

/-- The report of the `validate` command, without its `--connect` phase. -/
def validateReport (read : Except Error Config) (override : Option String) :
    Outcome Error (List ValidationIssue) :=
  match Config.load openers files read with
  | .err e => .ok [⟨"config", .error, e.alternate⟩]
  | .panic m => .panic m
  | .ok config => do
    let rules ← validateRules cr parse files (override.or config.rulesFile) config.alerts
    .ok ([⟨"config", .ok, s!"parsed successfully ({config.databases.length} databases, " ++
        s!"store={config.store.display})"⟩] ++
      validateDatabases (config.databases.map (·.toDatabaseConfig)) ++
      validateStore config.store ++ rules ++ validateAlerts openers config.alerts)

/-- The exit of the `validate` command. -/
def validateCommand (read : Except Error Config) (override : Option String) :
    Outcome Error Unit := do
  let report ← validateReport cr parse openers files read override
  let errors := errorCount report
  if errors > 0 then .err (.msg s!"validation failed with {errors} error(s)") else .ok ()

/-- What the `scan` command starts besides the rules and the channels. -/
structure Surroundings where
  logging : LogCrates
  etl : EtlCrate
  notify : NotifyCrate

structure StartedScan where
  config : Config
  dispatcher : Dispatcher
  /-- the path that the callback of the watcher compares with -/
  watchedPath : String
  /-- what the main loop starts in -/
  state : ScanState

/-- The `scan` command up to its main loop. -/
def startScan (surroundings : Surroundings) (read : Except Error Config)
    (override : Option String) : Outcome Error StartedScan := do
  let config ← withContext "failed to load configuration" (Config.load openers files read)
  withContext "failed to initialize logging"
    (surroundings.logging.setup config.log config.telemetry)
  let rulesPath ← requireField
    "no rules file specified — use --rules <FILE> or set rules_file in config"
    (override.or config.rulesFile)
  let (engine, _) ← buildScanner cr parse rulesPath files
  let alerts ← config.alerts.expose
  let dispatcher ← withContext "failed to initialize alert dispatcher"
    (Dispatcher.fromConfig openers alerts)
  let units := supervisorUnits config.databases
  startUnits surroundings.etl config.store units
  let watchedPath ← withContext "failed to set up rules file watcher"
    (watchFile surroundings.notify rulesPath)
  .ok ⟨config, dispatcher, watchedPath, ScanState.start engine
    (alerts.dedupWindowSeconds * 1000000000) (units.map fun db => db.unit)⟩

end Commands

/-! A report without errors. -/

def Clean (report : List ValidationIssue) : Prop := ∀ i ∈ report, i.severity ≠ .error

theorem errorCount_eq_zero {report : List ValidationIssue} :
    errorCount report = 0 ↔ Clean report := by
  simp [errorCount, Clean, List.countP_eq_zero]

theorem clean_append {front back : List ValidationIssue} :
    Clean (front ++ back) ↔ Clean front ∧ Clean back :=
  List.forall_mem_append

theorem clean_singleton {phase message : String} {severity : IssueSeverity} :
    Clean [⟨phase, severity, message⟩] ↔ severity ≠ .error := by
  simp [Clean]

theorem clean_ok {phase message : String} : Clean [⟨phase, .ok, message⟩] :=
  clean_singleton.mpr nofun

theorem clean_warning {phase message : String} : Clean [⟨phase, .warning, message⟩] :=
  clean_singleton.mpr nofun

theorem not_clean_error {phase message : String} : ¬ Clean [⟨phase, .error, message⟩] :=
  fun h => clean_singleton.mp h rfl

theorem clean_errors {phase : String} {messages : List String} :
    Clean (messages.map (⟨phase, .error, ·⟩)) ↔ messages = [] := by
  cases messages <;> simp [Clean]

theorem clean_duplicateNames (seen names : List String) : Clean (duplicateNames seen names) := by
  induction names generalizing seen with
  | nil => exact fun i hi => absurd hi List.not_mem_nil
  | cons name rest ih =>
    rw [duplicateNames, clean_append]
    refine ⟨?_, ih (name :: seen)⟩
    split
    · exact clean_warning
    · exact fun i hi => absurd hi List.not_mem_nil

theorem clean_routingIssues (configured : List String) (rules : List RuleConfig) :
    Clean (routingIssues configured rules) := by
  intro i hi
  obtain ⟨rule, _, hi⟩ := List.mem_flatMap.mp hi
  obtain ⟨ch, _, rfl⟩ := List.mem_map.mp hi
  nofun

/-- Databases that `Config::validate` accepts are reported in one line. -/
theorem validateDatabases_eq {databases : List DatabaseConfig} (h : databaseErrors databases = []) :
    validateDatabases databases = [⟨"databases", .ok,
      s!"{databases.length} database(s) configured " ++
        s!"({joinedNames (databases.map DatabaseConfig.databaseId)})"⟩] := by
  obtain ⟨hnonempty, hids, hfields⟩ := databaseErrors_eq_nil.mp h
  have hloop : ∀ (seen : List String) (dbs : List DatabaseConfig),
      databaseLoop seen dbs = [] → databaseIssues seen dbs = [] := by
    intro seen dbs
    induction dbs generalizing seen with
    | nil => exact fun _ => rfl
    | cons db rest ih =>
      intro hnil
      rw [databaseLoop, List.append_eq_nil_iff, List.append_eq_nil_iff] at hnil
      obtain ⟨⟨hseen, hvalid⟩, hrest⟩ := hnil
      have hnew : db.databaseId ∉ seen := by
        intro hmem
        rw [if_pos (List.contains_iff_mem.mpr hmem)] at hseen
        cases hseen
      simp [databaseIssues, hvalid, hnew, ih _ hrest]
  have hnone : (databases.any fun db => !(db.validate db.databaseId).isEmpty) = false := by
    rw [List.any_eq_false]
    intro db hdb
    simp [hfields db hdb]
  have hsome : databases.isEmpty = false := by
    rw [List.isEmpty_eq_false_iff]
    exact hnonempty
  have hissues := hloop [] databases (List.append_eq_nil_iff.mp h).2
  simp [validateDatabases, hsome, hissues, hnone]

section Commands
variable (cr : Crates) (parse : String → Except String (List RuleConfig)) (openers : Openers)
  (files : Files)

theorem clean_validateAlerts {alerts : Unresolved.AlertsConfig}
    (h : alerts.validate openers = []) : Clean (validateAlerts openers alerts) := by
  rw [validateAlerts, clean_append, clean_append, clean_errors]
  refine ⟨⟨clean_duplicateNames _ _, h⟩, ?_⟩
  rw [h, List.isEmpty_nil, if_pos rfl]
  exact clean_ok

theorem ruleIssue_report (rule : RuleConfig) :
    ∃ issues, ruleIssue cr files rule = .ok issues ∧
      (Clean issues ↔ validateRule cr files rule = .ok ()) := by
  unfold ruleIssue
  cases h : validateRule cr files rule with
  | ok _ => exact ⟨[], rfl, iff_of_true (fun i hi => absurd hi List.not_mem_nil) rfl⟩
  | err e => exact ⟨_, rfl, iff_of_false not_clean_error nofun⟩
  | panic m => exact absurd h (validateRule_ne_panic cr files rule m)

/-- The rule phase always reports, and reports no error exactly if there is no rules file,
or one that loads and whose rules compile. -/
theorem validateRules_report (rulesPath : Option String) (alerts : Unresolved.AlertsConfig) :
    ∃ report, validateRules cr parse files rulesPath alerts = .ok report ∧
      (Clean report ↔ ∀ path, rulesPath = some path → ∃ rules,
        loadRules parse path files = .ok rules ∧
          ∀ rule ∈ rules, validateRule cr files rule = .ok ()) := by
  cases rulesPath with
  | none => exact ⟨_, rfl, iff_of_true clean_warning nofun⟩
  | some path =>
    simp only [validateRules, Option.some.injEq, forall_eq']
    cases hload : loadRules parse path files with
    | err e =>
      refine ⟨_, rfl, iff_of_false not_clean_error ?_⟩
      intro hrules
      obtain ⟨_, hok, _⟩ := hrules
      cases hok
    | panic m => exact absurd hload (loadRules_ne_panic parse path files m)
    | ok rules =>
      choose issues hissues hclean using ruleIssue_report cr files
      have hall : rules.mapM (ruleIssue cr files) = .ok (rules.map issues) := by
        simpa using Outcome.mapM_map_total (g := id) hissues rules
      dsimp only
      rw [hall]
      refine ⟨_, rfl, ?_⟩
      rw [clean_append, clean_append, and_iff_left (clean_routingIssues _ _),
        and_iff_left clean_ok]
      simp only [Outcome.ok.injEq, exists_eq_left', ← hclean]
      simp only [Clean, List.mem_flatten, List.mem_map, exists_exists_and_eq_and]
      constructor
      · exact fun h rule hrule i hi => h i ⟨rule, hrule, hi⟩
      · intro h i hi
        obtain ⟨rule, hrule, hi⟩ := hi
        exact h rule hrule i hi

/-- The command always reports; once the configuration is loaded only the rules can be the
reason for an error. -/
theorem validateReport_clean (read : Except Error Config) (override : Option String) :
    ∃ report, validateReport cr parse openers files read override = .ok report ∧
      (Clean report ↔ ∃ config, Config.load openers files read = .ok config ∧
        ∀ path, override.or config.rulesFile = some path → ∃ rules,
          loadRules parse path files = .ok rules ∧
            ∀ rule ∈ rules, validateRule cr files rule = .ok ()) := by
  unfold validateReport
  cases hload : Config.load openers files read with
  | err e =>
    refine ⟨_, rfl, iff_of_false not_clean_error ?_⟩
    intro h
    obtain ⟨_, hok, _⟩ := h
    cases hok
  | panic m => exact absurd hload (Config.load_ne_panic openers files read m)
  | ok config =>
    obtain ⟨rules, hrules, hiff⟩ := validateRules_report cr parse files
      (override.or config.rulesFile) config.alerts
    obtain ⟨raw, _, _, hformed, heq⟩ := (Config.load_eq_ok openers files).mp hload
    rw [← heq, ← Config.errs_eq_nil, Config.errs, List.append_eq_nil_iff] at hformed
    have hstore : Clean (validateStore config.store) := by
      cases config.store with
      | memory => exact clean_ok
      | postgres => exact clean_ok
    dsimp only
    rw [hrules]
    refine ⟨_, rfl, ?_⟩
    rw [clean_append, clean_append, clean_append, clean_append, validateDatabases_eq hformed.1,
      and_iff_left (clean_validateAlerts openers hformed.2), and_iff_right clean_ok,
      and_iff_right clean_ok, and_iff_right hstore, hiff]
    simp only [Outcome.ok.injEq, exists_eq_left']

theorem validateCommand_eq_ok {read : Except Error Config} {override : Option String} :
    validateCommand cr parse openers files read override = .ok () ↔
      ∃ config, Config.load openers files read = .ok config ∧
        ∀ path, override.or config.rulesFile = some path → ∃ rules,
          loadRules parse path files = .ok rules ∧
            ∀ rule ∈ rules, validateRule cr files rule = .ok () := by
  obtain ⟨report, hreport, hiff⟩ := validateReport_clean cr parse openers files read override
  rw [← hiff, ← errorCount_eq_zero, validateCommand, hreport, Outcome.ok_bind]
  by_cases h : errorCount report = 0
  · simp [h]
  · simp [h, Nat.pos_of_ne_zero h]

end Commands

/-- The surroundings let the scanner start: the log file opens, traces can be exported where
they are to be, no other subscriber is installed, every source database answers, and the
directory of the rules file can be watched. -/
structure Surroundings.Ready (surroundings : Surroundings) (config : Config) (rulesPath : String) :
    Prop where
  logFile : ∀ path, config.log.output = .file path → surroundings.logging.openAppend path = .ok ()
  exporter : surroundings.logging.otel = true → config.telemetry.enabled = true →
    surroundings.logging.spanExporter config.telemetry.protocol config.telemetry.endpoint = .ok ()
  subscriber : surroundings.logging.tryInit = .ok ()
  units : ∀ db ∈ config.databases, ∃ pgConnection, db.toPgConnectionConfig = .ok pgConnection ∧
    (config.store = .memory → surroundings.etl.bootstrap pgConnection = .ok ()) ∧
    (config.store = .postgres →
      surroundings.etl.postgresStore db.pipelineId pgConnection = .ok ()) ∧
    surroundings.etl.pipelineStart ⟨db.pipelineId, db.publication, pgConnection⟩ = .ok ()
  watcher : ∃ canonical parent, surroundings.notify.canonicalize rulesPath = .ok canonical ∧
    surroundings.notify.recommendedWatcher = .ok () ∧ parentOf canonical = some parent ∧
    surroundings.notify.watch parent = .ok ()

section Prediction
variable (cr : Crates) (parse : String → Except String (List RuleConfig)) (openers : Openers)
  (files : Files) (surroundings : Surroundings) (read : Except Error Config)
  (override : Option String)

/-- What the `scan` command needs to start, step by step. -/
theorem startScan_eq_ok {started : StartedScan} :
    startScan cr parse openers files surroundings read override = .ok started ↔
      ∃ config path engine rules alerts dispatcher watchedPath,
        Config.load openers files read = .ok config ∧
        surroundings.logging.setup config.log config.telemetry = .ok () ∧
        override.or config.rulesFile = some path ∧
        loadRules parse path files = .ok rules ∧ RuleEngine.new cr files rules = .ok engine ∧
        config.alerts.expose = .ok alerts ∧ Dispatcher.fromConfig openers alerts = .ok dispatcher ∧
        startUnits surroundings.etl config.store (supervisorUnits config.databases) = .ok () ∧
        watchFile surroundings.notify path = .ok watchedPath ∧
        started = ⟨config, dispatcher, watchedPath,
          ScanState.start engine (alerts.dedupWindowSeconds * 1000000000)
            ((supervisorUnits config.databases).map fun db => db.unit)⟩ := by
  simp only [startScan, buildScanner, Outcome.bind_eq_ok, withContext_eq_ok, requireField_eq_ok]
  constructor
  · intro h
    obtain ⟨config, hload, _, hlogging, path, hpath, _, ⟨rules, hrules, engine, hengine, heq⟩,
      alerts, hexpose, dispatcher, hdispatcher, _, hunits, watchedPath, hwatch, hstarted⟩ := h
    cases heq
    exact ⟨config, path, engine, rules, alerts, dispatcher, watchedPath, hload, hlogging, hpath,
      hrules, hengine, hexpose, hdispatcher, hunits, hwatch, (Outcome.ok.inj hstarted).symm⟩
  · intro h
    obtain ⟨config, path, engine, rules, alerts, dispatcher, watchedPath, hload, hlogging, hpath,
      hrules, hengine, hexpose, hdispatcher, hunits, hwatch, rfl⟩ := h
    exact ⟨config, hload, (), hlogging, path, hpath, _, ⟨rules, hrules, engine, hengine, rfl⟩,
      alerts, hexpose, dispatcher, hdispatcher, (), hunits, watchedPath, hwatch, rfl⟩

/-- In a configuration that was loaded every database has its unit. -/
theorem supervisorUnits_of_load {openers : Openers} {files : Files} {read : Except Error Config}
    {config : Config} (h : Config.load openers files read = .ok config) :
    databaseErrors (config.databases.map (·.toDatabaseConfig)) = [] ∧
      supervisorUnits config.databases = config.databases := by
  obtain ⟨raw, _, _, hformed, heq⟩ := (Config.load_eq_ok openers files).mp h
  rw [← heq, ← Config.errs_eq_nil, Config.errs, List.append_eq_nil_iff] at hformed
  have hids := (databaseErrors_eq_nil.mp hformed.1).2.1
  rw [List.map_map] at hids
  exact ⟨hformed.1, supervisorUnits_eq hids⟩

/-- For a configuration that was loaded the steps of the start succeed exactly if the
surroundings are ready. -/
theorem Surroundings.ready_iff {openers : Openers} {files : Files} {read : Except Error Config}
    {config : Config} (h : Config.load openers files read = .ok config)
    (surroundings : Surroundings) (path : String) :
    surroundings.Ready config path ↔
      surroundings.logging.setup config.log config.telemetry = .ok () ∧
      startUnits surroundings.etl config.store (supervisorUnits config.databases) = .ok () ∧
      ∃ watchedPath, watchFile surroundings.notify path = .ok watchedPath := by
  obtain ⟨herrors, hsupervised⟩ := supervisorUnits_of_load h
  have hpublication : ∀ db ∈ config.databases, db.publication ≠ "" := by
    intro db hdb hblank
    have hvalid := (databaseErrors_eq_nil.mp herrors).2.2 _ (List.mem_map_of_mem hdb)
    obtain ⟨c, hc, _⟩ := (DatabaseConfig.validate_eq_nil.mp hvalid).publication
    rw [hblank] at hc
    cases hc
  obtain ⟨raw, _, _, _, hloaded⟩ := (Config.load_eq_ok openers files).mp h
  rw [hsupervised, startUnits_eq_ok, LogCrates.setup_eq_ok]
  constructor
  · intro hready
    obtain ⟨canonical, parent, hcanonical, hwatcher, hparent, hwatch⟩ := hready.watcher
    refine ⟨⟨hready.logFile, hready.exporter, hready.subscriber⟩, ?_, canonical,
      watchFile_eq_ok.mpr ⟨hcanonical, hwatcher, parent, hparent, hwatch⟩⟩
    intro db hdb
    obtain ⟨pgConnection, hconnection, hanswers⟩ := hready.units db hdb
    exact (startUnit_eq_ok hconnection (hpublication db hdb)).mpr hanswers
  · rintro ⟨⟨hfile, hexporter, hsubscriber⟩, hunits, canonical, hwatched⟩
    obtain ⟨hcanonical, hwatcher, parent, hparent, hwatch⟩ := watchFile_eq_ok.mp hwatched
    refine ⟨hfile, hexporter, hsubscriber, ?_, canonical, parent, hcanonical, hwatcher, hparent,
      hwatch⟩
    intro db hdb
    obtain ⟨pgConnection, hconnection⟩ := (Config.database_loaded files (hloaded ▸ hdb)).2
    exact ⟨pgConnection, hconnection,
      (startUnit_eq_ok hconnection (hpublication db hdb)).mp (hunits db hdb)⟩

/-- The rules of a file compile together if they pass one by one, and only then. -/
theorem exists_engine {cr : Crates} {files : Files} (hset : CompilesEach cr)
    {rules : List RuleConfig} :
    (∃ engine, RuleEngine.new cr files rules = .ok engine) ↔
      ∀ rule ∈ rules, validateRule cr files rule = .ok () := by
  constructor
  · intro h
    obtain ⟨engine, hengine⟩ := h
    exact forall_validateRule.mpr ⟨engine.rules, ((new_eq_ok cr files).mp hengine).1⟩
  · intro h
    obtain ⟨compiled, hcompiled⟩ := forall_validateRule.mp h
    obtain ⟨set, hcompile⟩ := exists_regexSet hset hcompiled
    exact ⟨⟨compiled, set, compiled.findIdxs (·.kind.isRegex), compiled.findIdxs (·.kind.isBuiltin),
      compiled.findIdxs (·.kind.isScript)⟩,
      (new_eq_ok cr files).mpr ⟨hcompiled, hcompile, rfl, rfl, rfl⟩⟩

/-- `validate` predicts `scan`: the scanner reaches its main loop exactly if `validate` passes,
a rules file is named, which `validate` only warns about, the channels can be opened, and the
surroundings are ready, which `validate` does not try. It then starts with the databases of the
configuration, whose ids are distinct. -/
theorem validate_predicts_scan (hset : CompilesEach cr) :
    ((∃ started, startScan cr parse openers files surroundings read override = .ok started) ↔
      validateCommand cr parse openers files read override = .ok () ∧
        ∃ config path alerts dispatcher, Config.load openers files read = .ok config ∧
          override.or config.rulesFile = some path ∧ config.alerts.expose = .ok alerts ∧
          Dispatcher.fromConfig openers alerts = .ok dispatcher ∧
          surroundings.Ready config path) ∧
    ∀ started, startScan cr parse openers files surroundings read override = .ok started →
      databaseErrors (started.config.databases.map (·.toDatabaseConfig)) = [] ∧
        ∃ engine window, started.state = ScanState.start engine window
          (started.config.databases.map fun db => db.unit) := by
  simp only [startScan_eq_ok, validateCommand_eq_ok]
  refine ⟨⟨?_, ?_⟩, ?_⟩
  · intro h
    obtain ⟨_, config, path, engine, rules, alerts, dispatcher, watchedPath, hload, hlogging, hpath,
      hrules, hengine, hexpose, hdispatcher, hunits, hwatch, _⟩ := h
    refine ⟨⟨config, hload, ?_⟩, config, path, alerts, dispatcher, hload, hpath, hexpose,
      hdispatcher,
      (surroundings.ready_iff hload path).mpr ⟨hlogging, hunits, watchedPath, hwatch⟩⟩
    intro other hother
    rw [hpath] at hother
    cases hother
    exact ⟨rules, hrules, (exists_engine hset).mp ⟨engine, hengine⟩⟩
  · intro h
    obtain ⟨⟨config, hload, hvalid⟩, loaded, path, alerts, dispatcher, hloaded, hpath, hexpose,
      hdispatcher, hready⟩ := h
    rw [hload] at hloaded
    cases hloaded
    obtain ⟨rules, hrules, hall⟩ := hvalid path hpath
    obtain ⟨engine, hengine⟩ := (exists_engine hset).mpr hall
    obtain ⟨hlogging, hunits, watchedPath, hwatch⟩ := (surroundings.ready_iff hload path).mp hready
    exact ⟨_, config, path, engine, rules, alerts, dispatcher, watchedPath, hload, hlogging,
      hpath, hrules, hengine, hexpose, hdispatcher, hunits, hwatch, rfl⟩
  · intro started h
    obtain ⟨config, _, engine, _, alerts, _, _, hload, _, _, _, _, _, _, _, _, rfl⟩ := h
    obtain ⟨herrors, hunits⟩ := supervisorUnits_of_load hload
    refine ⟨herrors, engine, alerts.dedupWindowSeconds * 1000000000, ?_⟩
    rw [hunits]

end Prediction

section Sample

def oneRuleParse : String → Except String (List RuleConfig) := fun _ => .ok [luhnRule]

/-- A host where everything answers; the rules file lies in the working directory. -/
def Surroundings.sample : Surroundings where
  logging := ⟨false, fun _ => .ok (), fun _ _ => .ok (), .ok ()⟩
  etl := ⟨fun _ => .ok (), fun _ _ => .ok (), fun _ => .ok ()⟩
  notify := ⟨fun path => .ok ("/etc/pgsense/" ++ path), .ok (), fun _ => .ok ()⟩

theorem fileBacked_starts : ∃ started,
    startScan .sample oneRuleParse .sample mountedFiles .sample (.ok fileBacked) none =
      .ok started := by
  obtain ⟨d, hd⟩ : ∃ d, Dispatcher.fromConfig .sample
      (fileBacked.alerts.exposed (Secret.text mountedFiles)) = .ok d := ⟨_, rfl⟩
  obtain ⟨engine, hengine⟩ : ∃ engine, RuleEngine.new .sample mountedFiles [luhnRule] = .ok engine :=
    ⟨_, rfl⟩
  have hparent : parentOf "/etc/pgsense/rules.toml" = some "/etc/pgsense" := rfl
  exact ⟨_, (startScan_eq_ok .sample oneRuleParse .sample mountedFiles .sample
    (.ok fileBacked) none).mpr
    ⟨_, "rules.toml", engine, [luhnRule], _, d, "/etc/pgsense/rules.toml", fileBacked_loads, rfl,
      rfl, rfl, hengine, fileBacked.alerts.expose_mapSecrets (Secret.text mountedFiles), hd, rfl,
      watchFile_eq_ok.mpr ⟨rfl, rfl, _, hparent, rfl⟩, rfl⟩⟩

theorem validate_predicts_scan_sample :
    validateCommand .sample oneRuleParse .sample mountedFiles (.ok fileBacked) none = .ok () ∧
    ∃ started, startScan .sample oneRuleParse .sample mountedFiles .sample (.ok fileBacked) none =
        .ok started ∧
      databaseErrors (started.config.databases.map (·.toDatabaseConfig)) = [] ∧
      ∃ engine window, started.state = ScanState.start engine window
        (started.config.databases.map fun db => db.unit) := by
  obtain ⟨started, hstarted⟩ := fileBacked_starts
  obtain ⟨hiff, hstate⟩ := validate_predicts_scan .sample oneRuleParse .sample mountedFiles
    .sample (.ok fileBacked) none Crates.sample_compilesEach
  obtain ⟨hvalidate, _⟩ := hiff.mp ⟨started, hstarted⟩
  obtain ⟨hdatabases, hstart⟩ := hstate started hstarted
  exact ⟨hvalidate, started, hstarted, hdatabases, hstart⟩

end Sample

end PgSense
