import PgSense.Crates

/-! Setting up logging: the calls that can fail, and the sections of the configuration
that decide them. -/

namespace PgSense
open Library
set_option autoImplicit false

inductive LogOutput where
  | stderr
  | stdout
  | file (path : String)
  deriving DecidableEq

structure LogConfig where
  output : LogOutput
  deriving DecidableEq

inductive OtlpProtocol where
  | grpc
  | http
  deriving DecidableEq

structure TelemetryConfig where
  enabled : Bool
  endpoint : String
  protocol : OtlpProtocol
  deriving DecidableEq

/-- What `logging::setup` asks of the system and of the tracing crates. -/
structure LogCrates where
  /-- the `otel` feature of the build -/
  otel : Bool
  /-- `OpenOptions::open`, creating and appending -/
  openAppend : String → Except String Unit
  /-- `build` of the `SpanExporter` for an endpoint -/
  spanExporter : OtlpProtocol → String → Except String Unit
  /-- `try_init` of the registry -/
  tryInit : Except String Unit

namespace LogCrates
variable (crates : LogCrates)

/-- `telemetry::init_tracer` -/
def initTracer (telemetry : TelemetryConfig) : Outcome Error Unit :=
  match telemetry.protocol with
  | .grpc => callWithContext "failed to build OTLP gRPC span exporter"
      (crates.spanExporter .grpc telemetry.endpoint)
  | .http => callWithContext "failed to build OTLP HTTP span exporter"
      (crates.spanExporter .http telemetry.endpoint)

def openOutput : LogOutput → Outcome Error Unit
  | .stderr | .stdout => .ok ()
  | .file path => callWithContext s!"Failed to open log file: {path}" (crates.openAppend path)

/-- The layer that exports traces, in a build with the feature. -/
def otelLayer (telemetry : TelemetryConfig) : Outcome Error Unit :=
  if crates.otel && telemetry.enabled then
    withContext "failed to initialize OpenTelemetry tracer" (crates.initTracer telemetry)
  else .ok ()

/-- `logging::setup` -/
def setup (config : LogConfig) (telemetry : TelemetryConfig) : Outcome Error Unit := do
  crates.openOutput config.output
  crates.otelLayer telemetry
  callWithContext "Failed to initialize logging" crates.tryInit

/-- Logging starts exactly if the log file opens, the exporter is built where traces are
exported, and no other subscriber is installed. -/
theorem setup_eq_ok {config : LogConfig} {telemetry : TelemetryConfig} :
    crates.setup config telemetry = .ok () ↔
      (∀ path, config.output = .file path → crates.openAppend path = .ok ()) ∧
      (crates.otel = true → telemetry.enabled = true →
        crates.spanExporter telemetry.protocol telemetry.endpoint = .ok ()) ∧
      crates.tryInit = .ok () := by
  have hopen : ∀ output, crates.openOutput output = .ok () ↔
      ∀ path, output = .file path → crates.openAppend path = .ok () := by
    intro output
    cases output <;> simp [openOutput]
  have htracer : crates.initTracer telemetry = .ok () ↔
      crates.spanExporter telemetry.protocol telemetry.endpoint = .ok () := by
    unfold initTracer
    cases telemetry.protocol <;> simp
  have hlayer : crates.otelLayer telemetry = .ok () ↔
      (crates.otel = true → telemetry.enabled = true →
        crates.spanExporter telemetry.protocol telemetry.endpoint = .ok ()) := by
    rw [otelLayer, ← htracer]
    cases crates.otel <;> cases telemetry.enabled <;> simp
  simp [setup, Outcome.bind_eq_ok, hopen, hlayer]

end LogCrates

end PgSense
