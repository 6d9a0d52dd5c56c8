import Replanning.EngineConfig
import Replanning.Json.Record

namespace Replanning

open Json

def Aggregate.names : List (String × Aggregate) :=
  [("mean", .mean), ("worst", .worst)]

def Aggregate.toJson : Aggregate → Json
  | .mean => .string "mean"
  | .worst => .string "worst"

namespace PackerConfig

def fieldNames : List String :=
  ["count_vacated_slots", "admit_negative_gaps", "aggregation"]

def members (c : PackerConfig) : List (String × Json) :=
  [("count_vacated_slots", .bool c.countVacatedSlots),
   ("admit_negative_gaps", .bool c.admitNegativeGaps),
   ("aggregation", c.aggregation.toJson)]

def toJson (c : PackerConfig) : Json :=
  .object c.members

/-- Reads the options, each with its default, given how to read an aggregate. -/
def ofJsonWith? (aggregate : Json → Option Aggregate) (v : Json) : Option PackerConfig := do
  let f ← fields? fieldNames v
  return {
    countVacatedSlots := ← f.defaulted "count_vacated_slots" bool? false
    admitNegativeGaps := ← f.defaulted "admit_negative_gaps" bool? false
    aggregation := ← f.defaulted "aggregation" aggregate .mean }

def ofJson? (v : Json) : Option PackerConfig :=
  ofJsonWith? (name? Aggregate.names) v

end PackerConfig

namespace Policy

def toJson (p : Policy) : Json :=
  let parameters :=
    match p with
    | .trustRegion packer => packer.members
    | .uniform rate admitNegativeGaps =>
      [("replanning_rate", ofFloat rate), ("admit_negative_gaps", .bool admitNegativeGaps)]
    | .topShare share admitNegativeGaps =>
      [("share", ofFloat share), ("admit_negative_gaps", .bool admitNegativeGaps)]
  .object (("type", .string p.name) :: parameters)

/-- Reads a policy that stands inside `outer` containers. -/
def ofJson? (outer : Nat) (v : Json) : Option Policy := do
  let (name, content) ← tagged? outer "type" v
  match name with
  | "trust_region" =>
    return .trustRegion (← PackerConfig.ofJsonWith? (innerName? Aggregate.names) content)
  | "uniform" =>
    let f ← fields? ["replanning_rate", "admit_negative_gaps"] content
    return .uniform (← f.required "replanning_rate" float?)
      (← f.defaulted "admit_negative_gaps" bool? false)
  | "top_share" =>
    let f ← fields? ["share", "admit_negative_gaps"] content
    return .topShare (← f.required "share" float?) (← f.defaulted "admit_negative_gaps" bool? false)
  | _ => none

end Policy

namespace AdaptationConfig

def fieldNames : List String :=
  ["initial_trust_region", "initial_replications", "min_evaluated_iterations", "max_window",
   "critical_value"]

def toJson (c : AdaptationConfig) : Json :=
  .object [
    ("initial_trust_region", ofNat c.initialTrustRegion.toNat),
    ("initial_replications", ofNat c.initialReplications.toNat),
    ("min_evaluated_iterations", ofNat c.minEvaluatedIterations.toNat),
    ("max_window", ofNat c.maxWindow.toNat),
    ("critical_value", ofFloat c.criticalValue)]

def ofJson? (v : Json) : Option AdaptationConfig := do
  let f ← fields? fieldNames v
  let standard : AdaptationConfig := {}
  return {
    initialTrustRegion := ← f.defaulted "initial_trust_region" word32? standard.initialTrustRegion
    initialReplications := ← f.defaulted "initial_replications" word64? standard.initialReplications
    minEvaluatedIterations :=
      ← f.defaulted "min_evaluated_iterations" word64? standard.minEvaluatedIterations
    maxWindow := ← f.defaulted "max_window" word64? standard.maxWindow
    criticalValue := ← f.defaulted "critical_value" float? standard.criticalValue }

end AdaptationConfig

def scoringToJson (selfExclusion : Bool) : Json :=
  .object [("self_exclusion", .bool selfExclusion)]

/-- Reads the scoring options, which have no default of their own. -/
def scoringOfJson? (v : Json) : Option Bool := do
  (← fields? ["self_exclusion"] v).required "self_exclusion" bool?

namespace EngineConfig

def fieldNames : List String :=
  ["rng_seed", "score", "policy", "adaptation", "max_impossible_reductions"]

def toJson (c : EngineConfig) : Json :=
  .object [
    ("rng_seed", ofNat c.seed.toNat),
    ("score", scoringToJson c.selfExclusion),
    ("policy", c.policy.toJson),
    ("adaptation", c.adaptation.toJson),
    ("max_impossible_reductions",
      ofOption (fun n => ofNat n.toNat) c.maxImpossibleReductions)]

def ofJson? (v : Json) : Option EngineConfig := do
  let f ← fields? fieldNames v
  let standard : EngineConfig := {}
  return {
    seed := ← f.defaulted "rng_seed" word64? standard.seed
    selfExclusion := ← f.defaulted "score" scoringOfJson? standard.selfExclusion
    policy := ← f.defaulted "policy" (Policy.ofJson? 1) standard.policy
    adaptation := ← f.defaulted "adaptation" AdaptationConfig.ofJson? standard.adaptation
    maxImpossibleReductions :=
      ← f.defaulted "max_impossible_reductions" (optional? word32?) none }

def ofText? (text : String) : Option EngineConfig :=
  (read text).bind ofJson?

def text (c : EngineConfig) : String :=
  c.toJson.indented

end EngineConfig

end Replanning
