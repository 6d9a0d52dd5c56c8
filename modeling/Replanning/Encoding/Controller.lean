import Replanning.Controller
import Replanning.RandomStream
import Replanning.Json.Record

namespace Replanning

open Json

namespace RandomStream

def toJson (s : RandomStream) : Json :=
  .object [("state", ofNat s.state.toNat)]

def ofJson? (v : Json) : Option RandomStream := do
  let f ← fields? ["state"] v
  return ⟨← f.required "state" word64?⟩

end RandomStream

namespace GapSample

def toJson (s : GapSample) : Json :=
  .object [
    ("iteration", ofNat s.iteration.toNat),
    ("replication_gaps", .array (s.gaps.map ofFloat))]

def ofJson? (v : Json) : Option GapSample := do
  let f ← fields? ["iteration", "replication_gaps"] v
  return ⟨← f.required "iteration" word64?, ← f.required "replication_gaps" (list? float?)⟩

end GapSample

namespace DickeyFuller

def fieldNames : List String :=
  ["sample_size", "mean", "delta", "intercept", "residual_variance", "t_statistic",
   "variance_of_mean", "stationary"]

def toJson (d : DickeyFuller) : Json :=
  .object [
    ("sample_size", ofNat d.sampleSize.toNat),
    ("mean", ofFloat d.mean),
    ("delta", ofOption ofFloat d.delta),
    ("intercept", ofOption ofFloat d.intercept),
    ("residual_variance", ofOption ofFloat d.residualVariance),
    ("t_statistic", ofOption ofFloat d.tStatistic),
    ("variance_of_mean", ofOption ofFloat d.varianceOfMean),
    ("stationary", .bool d.stationary)]

def ofJson? (v : Json) : Option DickeyFuller := do
  let f ← fields? fieldNames v
  return {
    sampleSize := ← f.required "sample_size" word64?
    mean := ← f.required "mean" float?
    delta := ← f.optional "delta" float?
    intercept := ← f.optional "intercept" float?
    residualVariance := ← f.optional "residual_variance" float?
    tStatistic := ← f.optional "t_statistic" float?
    varianceOfMean := ← f.optional "variance_of_mean" float?
    stationary := ← f.required "stationary" bool? }

end DickeyFuller

namespace AdaptationAction

def toJson : AdaptationAction → Json
  | .trustRegionHalved old new =>
    .object [
      ("action", .string "trust_region_halved"),
      ("from", ofNat old.toNat),
      ("to", ofNat new.toNat)]
  | .replicationsDoubled old new floorHit =>
    .object [
      ("action", .string "replications_doubled"),
      ("from", ofNat old.toNat),
      ("to", ofNat new.toNat),
      ("floor_hit", .bool floorHit)]

/-- Reads an action that stands inside `outer` containers. -/
def ofJson? (outer : Nat) (v : Json) : Option AdaptationAction := do
  let (name, content) ← tagged? outer "action" v
  match name with
  | "trust_region_halved" =>
    let f ← fields? ["from", "to"] content
    return .trustRegionHalved (← f.required "from" word32?) (← f.required "to" word32?)
  | "replications_doubled" =>
    let f ← fields? ["from", "to", "floor_hit"] content
    return .replicationsDoubled (← f.required "from" word64?) (← f.required "to" word64?)
      (← f.required "floor_hit" bool?)
  | _ => none

end AdaptationAction

namespace Adaptation

def fieldNames : List String :=
  ["iteration", "action", "within_variance", "between_variance", "t_statistic", "window_len"]

def toJson (a : Adaptation) : Json :=
  .object [
    ("iteration", ofNat a.iteration.toNat),
    ("action", a.action.toJson),
    ("within_variance", ofFloat a.withinVariance),
    ("between_variance", ofFloat a.betweenVariance),
    ("t_statistic", ofOption ofFloat a.tStatistic),
    ("window_len", ofNat a.windowLen.toNat)]

def ofJson? (v : Json) : Option Adaptation := do
  let f ← fields? fieldNames v
  return {
    iteration := ← f.required "iteration" word64?
    action := ← f.required "action" (AdaptationAction.ofJson? 1)
    withinVariance := ← f.required "within_variance" float?
    betweenVariance := ← f.required "between_variance" float?
    tStatistic := ← f.optional "t_statistic" float?
    windowLen := ← f.required "window_len" word64? }

end Adaptation

namespace Regime

def toJson (s : Regime) : Json :=
  .object [
    ("trust_region", ofNat s.trustRegion.toNat),
    ("replications", ofNat s.replications.toNat)]

def ofJson? (v : Json) : Option Regime := do
  let f ← fields? ["trust_region", "replications"] v
  return ⟨← f.required "trust_region" word32?, ← f.required "replications" word64?⟩

end Regime

namespace ControllerSnapshot

def toJson (s : ControllerSnapshot) : Json :=
  .object [
    ("state", s.regime.toJson),
    ("impossible_reductions", ofNat s.impossibleReductions.toNat),
    ("window", .array (s.window.map GapSample.toJson))]

def ofJson? (v : Json) : Option ControllerSnapshot := do
  let f ← fields? ["state", "impossible_reductions", "window"] v
  return {
    regime := ← f.required "state" Regime.ofJson?
    impossibleReductions := ← f.required "impossible_reductions" word32?
    window := ← f.required "window" (list? GapSample.ofJson?) }

end ControllerSnapshot

end Replanning
