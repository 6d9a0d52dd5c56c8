import Replanning.Digest
import Replanning.Encoding.Config
import Replanning.Encoding.Controller
import Replanning.Json.Canonical
import Replanning.Sink

/-! An ensemble that cannot be decided on leaves the engine as it was; a sink that refuses an event
does not keep the iteration from counting. -/
namespace Replanning

/-- The state of an engine that a later run needs, and the digest of its configuration. -/
structure EngineSnapshot where
  iteration : UInt64
  streamState : UInt64
  controller : ControllerSnapshot
  configHash : String

inductive EngineError where
  | invalidConfig (cause : ConfigError)
  | capacityOverflow
  | ensemble (cause : EnsembleError)
  | ensembleSizeMismatch (expected : UInt64) (actual : Nat)
  | unreadableConfig
  | unreadableSnapshot
  | invalidSnapshot (cause : RestoreError)
  | configMismatch (expected actual : String)
  | sink (kind : String) (iteration : UInt64) (reason : String)

def EngineError.message : EngineError → String
  | .invalidConfig cause => "Invalid config: " ++ cause.message
  | .capacityOverflow => CreateError.capacityOverflow.message
  | .ensemble cause => "Ensemble error: " ++ cause.message
  | .ensembleSizeMismatch expected actual =>
    "Ensemble has " ++ Nat.repr actual ++ " replications, engine expects R = " ++
      Nat.repr expected.toNat
  | .unreadableConfig => "Serialization error: Config parse failed"
  | .unreadableSnapshot => "Serialization error: Snapshot parse failed"
  | .invalidSnapshot cause => "Serialization error: Invalid manager snapshot: " ++ cause.message
  | .configMismatch expected actual =>
    "Config mismatch: snapshot hash " ++ expected ++ ", config hash " ++ actual
  | .sink kind iteration reason =>
    "Event sink failed: " ++ kind ++ " at iteration " ++ Nat.repr iteration.toNat ++ ": " ++ reason

def EngineError.ofCreate : CreateError → EngineError
  | .invalid cause => .invalidConfig cause
  | .capacityOverflow => .capacityOverflow

/-- A snapshot is not to blame for a window that cannot be laid out. -/
def EngineError.ofRestore : RestoreError → EngineError
  | .create .capacityOverflow => .capacityOverflow
  | cause => .invalidSnapshot cause

/-- The digest of the canonical text of a configuration. -/
def EngineConfig.hash (c : EngineConfig) : String :=
  Digest.sha256 (Writer.bytes c.toJson.canonical)

namespace EngineSnapshot

def toJson (s : EngineSnapshot) : Json :=
  .object [
    ("iteration", Json.ofNat s.iteration.toNat),
    ("rng_state", Json.ofNat s.streamState.toNat),
    ("manager", s.controller.toJson),
    ("config_hash", .string s.configHash)]

def ofJson? (v : Json) : Option EngineSnapshot := do
  let f ← Json.fields? ["iteration", "rng_state", "manager", "config_hash"] v
  return {
    iteration := ← f.required "iteration" Json.word64?
    streamState := ← f.required "rng_state" Json.word64?
    controller := ← f.required "manager" ControllerSnapshot.ofJson?
    configHash := ← f.required "config_hash" Json.string? }

def text (s : EngineSnapshot) : String :=
  s.toJson.compact

def ofText? (text : String) : Option EngineSnapshot :=
  (Json.read text).bind ofJson?

end EngineSnapshot

structure IterationResult where
  iteration : UInt64
  meanGap : Float
  /-- The regime that the iteration was decided under. -/
  regime : Regime
  /-- The regime of the next iteration. -/
  next : Regime
  stationarity : Option DickeyFuller
  adaptation : Option Adaptation
  scheduleExhausted : Bool
  selection : Selection

structure Engine (σ : Type) where
  config : EngineConfig
  configHash : String
  controller : Controller
  stream : RandomStream
  /-- The iteration that comes next. -/
  iteration : UInt64
  sink : σ

namespace Engine

variable {σ : Type}

def create (c : EngineConfig) (sink : σ) : Except EngineError (Engine σ) := do
  c.validate.mapError .invalidConfig
  let controller ← (Controller.create c.adaptation).mapError .ofCreate
  return ⟨c, c.hash, controller, .ofSeed c.seed, 0, sink⟩

/-- An engine that goes on from a snapshot, which has to be of the same configuration. -/
def restore (c : EngineConfig) (saved : EngineSnapshot) (sink : σ) :
    Except EngineError (Engine σ) := do
  let fresh ← create c sink
  if saved.configHash ≠ fresh.configHash then
    throw (.configMismatch saved.configHash fresh.configHash)
  let controller ← (Controller.restore c.adaptation saved.controller).mapError .ofRestore
  return { fresh with
    controller := controller
    stream := .ofSeed saved.streamState
    iteration := saved.iteration }

def snapshot (engine : Engine σ) : EngineSnapshot :=
  ⟨engine.iteration, engine.stream.state, engine.controller.snapshot, engine.configHash⟩

/-- The limit of forbidden halvings is reached. -/
def scheduleExhausted (engine : Engine σ) : Bool :=
  engine.config.maxImpossibleReductions.any (· ≤ engine.controller.impossibleReductions)

/-- The size of the ensemble is right, and the policy has decided on it: the mean gaps, the
selection and the stream behind them. -/
def decide (engine : Engine σ) (e : Ensemble) :
    Except EngineError (List Float × Selection × RandomStream) := do
  if e.replications ≠ engine.controller.regime.replications.toNat then
    throw (.ensembleSizeMismatch engine.controller.regime.replications e.replications)
  let estimate ← (e.estimate engine.config.selfExclusion).mapError .ensemble
  let (ranked, stream) := rank estimate.candidates engine.stream
  let (selection, stream) ←
    (engine.config.policy.select e ranked engine.controller.regime.trustRegion stream).mapError
      .ensemble
  return (estimate.meanGaps, selection, stream)

def events (r : IterationResult) (outcome : SampleOutcome) (impossibleReductions : UInt32) :
    List Event :=
  .ofSelection r.iteration r.selection ::
    (outcome.test.toList.map fun test =>
      .stationarityChecked r.iteration outcome.windowLen outcome.minRequired test.tStatistic
        test.stationary) ++
    (outcome.adaptation.toList.map fun a => .ofAdaptation r.iteration a impossibleReductions) ++
    [.iterationRecord r.iteration r.meanGap r.regime.trustRegion r.regime.replications
      (outcome.adaptation.map (·.withinVariance)) (outcome.adaptation.map (·.betweenVariance))
      (outcome.test.bind (·.tStatistic))]

/-- The engine behind an iteration that has been decided, its result and its events. -/
def advance (engine : Engine σ) (meanGaps : List Float) (selection : Selection)
    (stream : RandomStream) : Engine σ × IterationResult × List Event :=
  let sample : GapSample := ⟨engine.iteration, meanGaps⟩
  let (outcome, controller) := engine.controller.register sample
  let next := { engine with
    controller := controller
    stream := stream
    iteration := engine.iteration + 1 }
  let result : IterationResult := {
    iteration := engine.iteration
    meanGap := sample.mean
    regime := engine.controller.regime
    next := controller.regime
    stationarity := outcome.test
    adaptation := outcome.adaptation
    scheduleExhausted := next.scheduleExhausted
    selection := selection }
  (next, result, events result outcome controller.impossibleReductions)

def run [EventSink σ] (engine : Engine σ) (e : Ensemble) :
    Except EngineError IterationResult × Engine σ :=
  match engine.decide e with
  | .error cause => (.error cause, engine)
  | .ok (meanGaps, selection, stream) =>
    let (next, result, events) := engine.advance meanGaps selection stream
    -- the iteration has happened, whatever the sink answers
    match offer events next.sink with
    | (.ok (), sink) => (.ok result, { next with sink := sink })
    | (.error (e, reason), sink) =>
      (.error (.sink e.kind result.iteration reason), { next with sink := sink })

end Engine

end Replanning
