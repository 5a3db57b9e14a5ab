import PgSense.Alerts.Config
import PgSense.Scanner

/-! The batch buffer of a Slack channel, the two sections under its lock, and the
message built from a drained batch. -/

namespace PgSense
open Library
set_option autoImplicit false

structure BufferState where
  findings : List Finding
  firstBufferedAt : Option Nat

namespace BufferState
variable (buf : BufferState)

def empty : BufferState := ⟨[], none⟩

/-- The section of `Inner::send`. -/
def push (finding : Finding) (now : Nat) : BufferState :=
  ⟨buf.findings ++ [finding], some (buf.firstBufferedAt.getD now)⟩

/-- What `Inner::send` decides under the lock, after its push. -/
def full (config : SlackConfig) : Bool := config.batchSize ≤ buf.findings.length

/-- The test of `Inner::flush`; times are milliseconds. -/
def shouldDrain (config : SlackConfig) (force : Bool) (now : Nat) : Bool :=
  if force then !buf.findings.isEmpty
  else buf.firstBufferedAt.any fun t => config.batchWindowMs ≤ now - t

/-- The section of `Inner::flush`: the batch to send, if any, and the buffer left. -/
def drain (config : SlackConfig) (force : Bool) (now : Nat) : Option (List Finding) × BufferState :=
  if buf.shouldDrain config force now then (some buf.findings, empty) else (none, buf)

theorem drain_forced (config : SlackConfig) (now : Nat) :
    (buf.drain config true now).2.findings = [] := by
  unfold drain shouldDrain
  cases hf : buf.findings with
  | nil => simp [hf]
  | cons f fs => simp [empty]

theorem drain_of_nil {buf : BufferState} (h : buf.findings = []) (config : SlackConfig)
    (force : Bool) (now : Nat) : (buf.drain config force now).2.findings = [] := by
  unfold drain
  split
  · rfl
  · exact h

/-- What a drain takes out, and what it leaves. -/
theorem drain_cases (config : SlackConfig) (force : Bool) (now : Nat) :
    (buf.shouldDrain config force now = true ∧
        buf.drain config force now = (some buf.findings, empty)) ∨
      (buf.shouldDrain config force now = false ∧
        buf.drain config force now = (none, buf)) := by
  unfold drain
  cases hs : buf.shouldDrain config force now with
  | true => exact .inl ⟨rfl, rfl⟩
  | false => exact .inr ⟨rfl, rfl⟩

end BufferState

section Payload

def severityRank : Severity → Nat
  | .critical => 0
  | .high => 1
  | .medium => 2
  | .low => 3
  | .info => 4

def severityColor : Severity → String
  | .critical => "#d32f2f"
  | .high => "#e65100"
  | .medium => "#f9a825"
  | .low => "#1565c0"
  | .info => "#757575"

def severityEmoji : Severity → String
  | .critical => "🔴"
  | .high => "🟠"
  | .medium => "🟡"
  | .low => "🔵"
  | .info => "⚪"

/-- The block types of a message; the texts of all but the header are markdown. -/
inductive Block where
  | header (text : String)
  | divider
  | sectionText (text : String)
  | sectionFields (fields : List String)
  | context (text : String)
  deriving DecidableEq, Repr

structure SlackPayload where
  channel : String
  color : String
  blocks : List Block
  username : Option String
  iconEmoji : Option String
  deriving DecidableEq, Repr

/-- `iter().min_by_key(severity_rank)`: the first of the most severe ones. -/
def highestSeverity : List Severity → Option Severity
  | [] => none
  | s :: rest =>
    match highestSeverity rest with
    | none => some s
    | some best => if severityRank s ≤ severityRank best then some s else some best

def singlePayload (config : SlackConfig) (finding : Finding) : SlackPayload where
  channel := config.channel
  color := severityColor finding.severity
  blocks :=
    [.sectionText
        s!"{severityEmoji finding.severity} *{finding.severity.display}* — {finding.description}",
      .sectionFields
        [s!"*Rule*\n{finding.ruleId}", s!"*Category*\n{finding.category}",
          s!"*Database*\n{finding.database}",
          s!"*Table*\n{finding.schemaName}.{finding.tableName}",
          s!"*Column*\n{finding.columnName}"],
      .sectionText ("*Sample*\n`" ++ finding.maskedSample ++ "`"),
      .context s!"LSN: {finding.lsn}"]
  username := config.username
  iconEmoji := config.iconEmoji

/-- The two blocks of a finding in a message for several. -/
def findingBlocks (finding : Finding) : List Block :=
  [.sectionText
      (severityEmoji finding.severity ++ " *" ++ finding.severity.display ++ "* — " ++
        finding.description ++ "\nSample: `" ++ finding.maskedSample ++ "`"),
    .context
      ("`" ++ finding.database ++ "` · `" ++ finding.schemaName ++ "." ++ finding.tableName ++
        "." ++ finding.columnName ++ "` · Rule: *" ++ finding.ruleId ++ "* · Category: *" ++
        finding.category ++ "* · LSN: `" ++ toString finding.lsn ++ "`")]

/-- `unwrap` on the highest severity panics for an empty batch. -/
def buildPayload (config : SlackConfig) (findings : List Finding) : Outcome Error SlackPayload :=
  match findings with
  | [finding] => .ok (singlePayload config finding)
  | _ =>
    match highestSeverity (findings.map Finding.severity) with
    | none => .panic "called `Option::unwrap()` on a `None` value"
    | some severity => .ok
        { channel := config.channel
          color := severityColor severity
          blocks :=
            .header s!"{severityEmoji severity} {findings.length} Sensitive Data Findings" ::
              List.intercalate [.divider] (findings.map findingBlocks)
          username := config.username
          iconEmoji := config.iconEmoji }

theorem highestSeverity_isSome {severities : List Severity} (h : severities ≠ []) :
    (highestSeverity severities).isSome = true := by
  cases severities with
  | nil => exact absurd rfl h
  | cons s rest =>
    unfold highestSeverity
    cases highestSeverity rest with
    | none => rfl
    | some best => dsimp only; split <;> rfl

/-- A batch with a finding has a message. -/
theorem exists_payload (config : SlackConfig) {findings : List Finding} (h : findings ≠ []) :
    ∃ payload, buildPayload config findings = .ok payload := by
  match findings with
  | [] => exact absurd rfl h
  | [finding] => exact ⟨_, rfl⟩
  | first :: second :: rest =>
    have hsome : (highestSeverity ((first :: second :: rest).map Finding.severity)).isSome = true :=
      highestSeverity_isSome (by simp)
    obtain ⟨severity, hsev⟩ := Option.isSome_iff_exists.mp hsome
    unfold buildPayload
    rw [hsev]
    exact ⟨_, rfl⟩

theorem buildPayload_isPanic (config : SlackConfig) (findings : List Finding) :
    (buildPayload config findings).isPanic = true ↔ findings = [] := by
  by_cases h : findings = []
  · simp [h, buildPayload, highestSeverity]
  · obtain ⟨payload, hpayload⟩ := exists_payload config h
    simp [h, hpayload]

end Payload

end PgSense
