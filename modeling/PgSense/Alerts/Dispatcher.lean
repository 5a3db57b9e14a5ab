import PgSense.Alerts.Config
import PgSense.Alerts.Dedup

/-! Building the dispatcher, and when the names it gives its channels are the
names that the configuration lists. -/

namespace PgSense
open Library
set_option autoImplicit false

/-- The constructors of the channels that can fail: files, HTTP clients and
database connections. -/
structure Openers where
  jsonl : JsonlAlertConfig → Except Error Unit
  webhook : WebhookConfig → Except Error Unit
  slack : SlackConfig → Except Error Unit
  postgres : PostgresAlertConfig → Except Error Unit

structure NamedChannel where
  name : String
  channel : ChannelRef
  deriving DecidableEq

/-- The routing test of `dispatch`. -/
def NamedChannel.routed (nc : NamedChannel) (allowed : Option (List String)) : Bool :=
  match allowed with
  | some names => names.any (· == nc.name)
  | none => true

/-- A finding goes to every channel, or to those that its list names. -/
theorem NamedChannel.routed_iff {nc : NamedChannel} {allowed : Option (List String)} :
    nc.routed allowed = true ↔
      allowed = none ∨ ∃ names, allowed = some names ∧ nc.name ∈ names := by
  cases allowed <;> simp [routed]

structure Dispatcher where
  channels : List NamedChannel
  dedup : Deduplicator

/-- A webhook or Slack name: an only entry is not numbered. -/
def entryName (base : String) (count i : Nat) (name : Option String) : String :=
  name.getD (if count == 1 then base else numbered base i)

/-- One loop of `from_config` over the entries of a kind. -/
def openAll {C : Type} (opener : C → Except Error Unit) (make : C → Nat → NamedChannel)
    (configs : List C) : Outcome Error (List NamedChannel) :=
  configs.zipIdx.mapM fun (c, i) => Outcome.ofExcept (opener c) >>= fun _ => .ok (make c i)

def Dispatcher.fromConfig (openers : Openers) (config : AlertsConfig) :
    Outcome Error Dispatcher := do
  let log := if config.logEnabled then [⟨"log", .log⟩] else []
  let stdout := if config.stdoutEnabled then [⟨"stdout", .stdout⟩] else []
  let jsonl ← openAll openers.jsonl (fun c _ => ⟨c.name.getD "jsonl", .jsonl c⟩)
    (if config.jsonl.enabled then [config.jsonl] else [])
  let webhooks ← openAll openers.webhook
    (fun c i => ⟨entryName "webhook" config.webhooks.length i c.name, .webhook c⟩) config.webhooks
  let slack ← openAll openers.slack
    (fun c i => ⟨entryName "slack" config.slack.length i c.name, .slack c⟩) config.slack
  let postgres ← openAll openers.postgres (fun c _ => ⟨c.name.getD "postgres", .postgres c⟩)
    config.postgres.toList
  .ok ⟨log ++ stdout ++ jsonl ++ webhooks ++ slack ++ postgres,
    .new (config.dedupWindowSeconds * 1000000000)⟩

theorem openAll_channels {C : Type} {opener : C → Except Error Unit}
    {make : C → Nat → NamedChannel} {configs : List C} {channels : List NamedChannel}
    (h : openAll opener make configs = .ok channels) :
    channels = configs.zipIdx.map fun x => make x.1 x.2 := by
  have hall := Outcome.mapM_eq_ok.mp h
  rw [← List.forall₂_eq_eq_eq, List.forall₂_map_right_iff]
  refine List.Forall₂.flip (hall.imp fun x nc hx => ?_)
  obtain ⟨_, _, hx⟩ := Outcome.bind_eq_ok.mp hx
  exact (Outcome.ok.inj hx).symm

theorem entryNames_agree_iff (base : String) (hbase : numbered base 0 ≠ base)
    (names : List (Option String)) :
    (names.zipIdx.map fun x => x.1.getD (numbered base x.2)) =
        (names.zipIdx.map fun x => entryName base names.length x.2 x.1) ↔
      names ≠ [none] := by
  match names with
  | [] => simp
  | [name] =>
    cases name with
    | none => simpa [entryName] using hbase
    | some name => simp [entryName]
  | name :: next :: rest => simp [entryName]

section Naming
variable {openers : Openers} {config : AlertsConfig} {d : Dispatcher}

/-- The configurations whose listed names are the names the dispatcher uses. -/
structure NamesAgree (config : AlertsConfig) : Prop where
  jsonl : config.jsonl.enabled = true → config.jsonl.name.getD "jsonl" = "jsonl"
  webhooks : config.webhooks.map WebhookConfig.name ≠ [none]
  slack : config.slack.map SlackConfig.name ≠ [none]
  postgres : ∀ pg, config.postgres = some pg → pg.name.getD "postgres" = "postgres"

theorem fromConfig_names (h : Dispatcher.fromConfig openers config = .ok d) :
    d.channels.map NamedChannel.name =
      (if config.logEnabled then ["log"] else []) ++
      (if config.stdoutEnabled then ["stdout"] else []) ++
      (if config.jsonl.enabled then [config.jsonl.name.getD "jsonl"] else []) ++
      ((config.webhooks.map WebhookConfig.name).zipIdx.map fun x =>
        entryName "webhook" (config.webhooks.map WebhookConfig.name).length x.2 x.1) ++
      ((config.slack.map SlackConfig.name).zipIdx.map fun x =>
        entryName "slack" (config.slack.map SlackConfig.name).length x.2 x.1) ++
      (config.postgres.toList.map fun pg => pg.name.getD "postgres") := by
  obtain ⟨jsonl, hjsonl, h⟩ := Outcome.bind_eq_ok.mp h
  obtain ⟨webhooks, hwebhooks, h⟩ := Outcome.bind_eq_ok.mp h
  obtain ⟨slack, hslack, h⟩ := Outcome.bind_eq_ok.mp h
  obtain ⟨postgres, hpostgres, h⟩ := Outcome.bind_eq_ok.mp h
  cases h
  rw [openAll_channels hjsonl, openAll_channels hwebhooks, openAll_channels hslack,
    openAll_channels hpostgres]
  simp only [List.map_append, List.map_map, List.zipIdx_map, List.length_map]
  congr 1
  congr 1
  congr 1
  congr 1
  · cases config.logEnabled <;> cases config.stdoutEnabled <;> rfl
  · cases config.jsonl.enabled <;> rfl
  · cases config.postgres <;> rfl

theorem config_names (config : AlertsConfig) : config.names =
      (if config.logEnabled then ["log"] else []) ++
      (if config.stdoutEnabled then ["stdout"] else []) ++
      (if config.jsonl.enabled then ["jsonl"] else []) ++
      ((config.webhooks.map WebhookConfig.name).zipIdx.map fun x =>
        x.1.getD (numbered "webhook" x.2)) ++
      ((config.slack.map SlackConfig.name).zipIdx.map fun x => x.1.getD (numbered "slack" x.2)) ++
      (config.postgres.toList.map fun _ => "postgres") := by
  unfold AlertsConfig.names AlertsConfig.channels
  simp only [List.map_append, List.map_map, List.zipIdx_map]
  congr 1
  congr 1
  congr 1
  congr 1
  · cases config.logEnabled <;> cases config.stdoutEnabled <;> rfl
  · cases config.jsonl.enabled <;> rfl

theorem names_agree_iff (h : Dispatcher.fromConfig openers config = .ok d) :
    config.names = d.channels.map NamedChannel.name ↔ NamesAgree config := by
  rw [fromConfig_names h, config_names]
  have hwebhooks := entryNames_agree_iff "webhook" (by decide)
    (config.webhooks.map WebhookConfig.name)
  have hslack := entryNames_agree_iff "slack" (by decide) (config.slack.map SlackConfig.name)
  constructor
  · intro heq
    obtain ⟨heq, hpg⟩ := List.append_inj' heq (by simp)
    obtain ⟨heq, hsl⟩ := List.append_inj' heq (by simp)
    obtain ⟨heq, hwh⟩ := List.append_inj' heq (by simp)
    obtain ⟨_, hjs⟩ := List.append_inj' heq (by cases config.jsonl.enabled <;> rfl)
    refine ⟨?_, hwebhooks.mp hwh, hslack.mp hsl, ?_⟩
    · intro henabled
      simp only [henabled, if_true, List.cons.injEq, and_true] at hjs
      exact hjs.symm
    · intro pg hsome
      simp only [hsome, Option.toList_some, List.map_cons, List.map_nil, List.cons.injEq,
        and_true] at hpg
      exact hpg.symm
  · intro hagree
    obtain ⟨hjs, hwh, hsl, hpg⟩ := hagree
    rw [hwebhooks.mpr hwh, hslack.mpr hsl]
    congr 1
    · congr 2
      congr 1
      cases henabled : config.jsonl.enabled with
      | false => rfl
      | true => simp [hjs henabled]
    · cases hsome : config.postgres with
      | none => rfl
      | some pg => simp [hpg pg hsome]

theorem mem_channelWarnings {rule : RuleConfig} {ch : String}
    (hch : ch ∈ rule.channels.getD []) :
    ⟨rule.id, ch⟩ ∈ channelWarnings config [rule] ↔ ch ∉ config.names := by
  simp only [channelWarnings, List.flatMap_cons, List.flatMap_nil, List.append_nil, List.mem_map,
    List.mem_filter, ChannelWarning.mk.injEq, true_and, exists_eq_right, hch, Bool.not_eq_true',
    List.contains_eq_mem, decide_eq_false_iff_not]

theorem routed_single_iff (ch : String) :
    (∀ nc ∈ d.channels, nc.routed (some [ch]) = false) ↔
      ch ∉ d.channels.map NamedChannel.name := by
  simp only [NamedChannel.routed, List.any_cons, List.any_nil, Bool.or_false, beq_eq_false_iff_ne,
    List.mem_map, not_exists, not_and]
  exact forall₂_congr fun nc _ => ne_comm

/-- Listed and built names agree, and with them the warnings of `validate`, for
exactly the configurations of `NamesAgree`. -/
theorem validate_agrees_with_dispatcher_iff
    (h : Dispatcher.fromConfig openers config = .ok d) :
    (config.names = d.channels.map NamedChannel.name ∧
      ∀ rule : RuleConfig, ∀ ch ∈ rule.channels.getD [],
        (⟨rule.id, ch⟩ ∈ channelWarnings config [rule] ↔
          ∀ nc ∈ d.channels, nc.routed (some [ch]) = false)) ↔
      NamesAgree config := by
  rw [names_agree_iff h]
  refine ⟨fun hboth => hboth.1, fun hagree => ⟨hagree, fun rule ch hch => ?_⟩⟩
  rw [mem_channelWarnings hch, routed_single_iff, (names_agree_iff h).mpr hagree]

end Naming

section Sample

def Openers.sample : Openers :=
  ⟨fun _ => .ok (), fun _ => .ok (), fun _ => .ok (), fun _ => .ok ()⟩

def oneWebhook : AlertsConfig where
  dedupWindowSeconds := 300
  logEnabled := true
  stdoutEnabled := false
  jsonl := ⟨false, none, "alerts.jsonl"⟩
  webhooks := [⟨none, "https://hooks.example.com", [], 5000⟩]
  slack := []
  postgres := none

def webhookRule : RuleConfig := { ssnRule with channels := some ["webhook", "webhook-1"] }

/-- The listed name of an only webhook is `webhook-1`, the dispatcher calls it
`webhook`: one name is warned about although it is routed, the other is routed
nowhere without a warning. -/
theorem only_webhook_misnamed :
    ∃ d, Dispatcher.fromConfig .sample oneWebhook = .ok d ∧
      oneWebhook.names ≠ d.channels.map NamedChannel.name ∧
      (⟨"ssn", "webhook"⟩ ∈ channelWarnings oneWebhook [webhookRule] ∧
        ¬ ∀ nc ∈ d.channels, nc.routed (some ["webhook"]) = false) ∧
      (⟨"ssn", "webhook-1"⟩ ∉ channelWarnings oneWebhook [webhookRule] ∧
        ∀ nc ∈ d.channels, nc.routed (some ["webhook-1"]) = false) := by
  refine ⟨_, rfl, ?_, ⟨?_, ?_⟩, ?_, ?_⟩ <;> decide +kernel

theorem validate_agrees_with_dispatcher_iff_one_webhook :
    ∃ d, Dispatcher.fromConfig .sample oneWebhook = .ok d ∧
      ((oneWebhook.names = d.channels.map NamedChannel.name ∧
        ∀ rule : RuleConfig, ∀ ch ∈ rule.channels.getD [],
          (⟨rule.id, ch⟩ ∈ channelWarnings oneWebhook [rule] ↔
            ∀ nc ∈ d.channels, nc.routed (some [ch]) = false)) ↔
        NamesAgree oneWebhook) := by
  refine ⟨_, rfl, ?_⟩
  have hbuilt : Dispatcher.fromConfig .sample oneWebhook = .ok _ := rfl
  exact validate_agrees_with_dispatcher_iff hbuilt

end Sample

end PgSense
