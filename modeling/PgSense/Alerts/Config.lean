import PgSense.Rules.Config

/-! The alert section of a configuration, and the channel names it resolves to. -/

namespace PgSense
set_option autoImplicit false

structure TlsSettings where
  enabled : Bool
  trustedRootCerts : String
  deriving DecidableEq

structure PostgresAlertConfig where
  name : Option String
  host : String
  port : Nat
  dbname : String
  username : String
  password : Option String
  schema : String
  table : String
  tls : TlsSettings
  deriving DecidableEq

structure JsonlAlertConfig where
  enabled : Bool
  name : Option String
  path : String
  deriving DecidableEq

structure WebhookConfig where
  name : Option String
  url : String
  headers : List (String × String)
  timeoutMs : Nat
  deriving DecidableEq

structure SlackConfig where
  name : Option String
  token : String
  channel : String
  username : Option String
  iconEmoji : Option String
  timeoutMs : Nat
  batchSize : Nat
  batchWindowMs : Nat
  maxRetries : Nat
  deriving DecidableEq

structure AlertsConfig where
  dedupWindowSeconds : Nat
  logEnabled : Bool
  stdoutEnabled : Bool
  jsonl : JsonlAlertConfig
  webhooks : List WebhookConfig
  slack : List SlackConfig
  postgres : Option PostgresAlertConfig
  deriving DecidableEq

inductive ChannelRef where
  | log
  | stdout
  | jsonl (config : JsonlAlertConfig)
  | webhook (config : WebhookConfig)
  | slack (config : SlackConfig)
  | postgres (config : PostgresAlertConfig)
  deriving DecidableEq

/-- The default name of the `i`-th entry of a kind, counted from one. -/
def numbered (kind : String) (i : Nat) : String := s!"{kind}-{i + 1}"

namespace AlertsConfig
variable (config : AlertsConfig)

/-- The enabled channels paired with their resolved name. -/
def channels : List (String × ChannelRef) :=
  (if config.logEnabled then [("log", .log)] else []) ++
  (if config.stdoutEnabled then [("stdout", .stdout)] else []) ++
  (if config.jsonl.enabled then [("jsonl", .jsonl config.jsonl)] else []) ++
  (config.webhooks.zipIdx.map fun (w, i) => (w.name.getD (numbered "webhook" i), .webhook w)) ++
  (config.slack.zipIdx.map fun (s, i) => (s.name.getD (numbered "slack" i), .slack s)) ++
  (config.postgres.toList.map fun pg => ("postgres", .postgres pg))

def names : List String := config.channels.map Prod.fst

end AlertsConfig

/-- A warning of `validate`: the rule routes to a channel that is not configured. -/
structure ChannelWarning where
  ruleId : String
  channel : String
  deriving DecidableEq

def ChannelWarning.text (w : ChannelWarning) : String :=
  s!"rule '{w.ruleId}' routes to channel '{w.channel}' which is not configured"

/-- The channel loop at the end of `validate_rules`. -/
def channelWarnings (config : AlertsConfig) (rules : List RuleConfig) : List ChannelWarning :=
  rules.flatMap fun rule =>
    ((rule.channels.getD []).filter fun ch => !config.names.contains ch).map
      fun ch => ⟨rule.id, ch⟩

end PgSense
