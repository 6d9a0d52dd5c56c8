import Replanning.Event
import Replanning.Json.Record

namespace Replanning.Event

open Json

def toJson : Event → Json
  | .selectionCompleted iteration policy candidates accepted rejectedInfeasible rejectedNegativeGap
      rejectedByPolicy acceptedScore =>
    .object [
      ("type", .string "selection_completed"),
      ("iteration", ofNat iteration.toNat),
      ("policy", .string policy),
      ("candidates", ofNat candidates.toNat),
      ("accepted", ofNat accepted.toNat),
      ("rejected_infeasible", ofNat rejectedInfeasible.toNat),
      ("rejected_negative_gap", ofNat rejectedNegativeGap.toNat),
      ("rejected_by_policy", ofNat rejectedByPolicy.toNat),
      ("accepted_score", ofFloat acceptedScore)]
  | .stationarityChecked iteration windowLen minRequired tStatistic stationary =>
    .object [
      ("type", .string "stationarity_checked"),
      ("iteration", ofNat iteration.toNat),
      ("window_len", ofNat windowLen.toNat),
      ("min_required", ofNat minRequired.toNat),
      ("t_statistic", ofOption ofFloat tStatistic),
      ("stationary", .bool stationary)]
  | .trustRegionHalved iteration old new withinVariance betweenVariance =>
    .object [
      ("type", .string "trust_region_halved"),
      ("iteration", ofNat iteration.toNat),
      ("old_trust_region", ofNat old.toNat),
      ("new_trust_region", ofNat new.toNat),
      ("within_variance", ofFloat withinVariance),
      ("between_variance", ofFloat betweenVariance)]
  | .replicationsDoubled iteration old new floorHit impossibleReductions withinVariance
      betweenVariance =>
    .object [
      ("type", .string "replications_doubled"),
      ("iteration", ofNat iteration.toNat),
      ("old_replications", ofNat old.toNat),
      ("new_replications", ofNat new.toNat),
      ("floor_hit", .bool floorHit),
      ("impossible_reductions", ofNat impossibleReductions.toNat),
      ("within_variance", ofFloat withinVariance),
      ("between_variance", ofFloat betweenVariance)]
  | .iterationRecord iteration meanGap trustRegion replications withinVariance betweenVariance
      tStatistic =>
    .object [
      ("type", .string "iteration_record"),
      ("iteration", ofNat iteration.toNat),
      ("mean_gap", ofFloat meanGap),
      ("trust_region", ofNat trustRegion.toNat),
      ("replications", ofNat replications.toNat),
      ("within_variance", ofOption ofFloat withinVariance),
      ("between_variance", ofOption ofFloat betweenVariance),
      ("t_statistic", ofOption ofFloat tStatistic)]

def selectionFields : List String :=
  ["iteration", "policy", "candidates", "accepted", "rejected_infeasible", "rejected_negative_gap",
   "rejected_by_policy", "accepted_score"]

def doublingFields : List String :=
  ["iteration", "old_replications", "new_replications", "floor_hit", "impossible_reductions",
   "within_variance", "between_variance"]

def recordFields : List String :=
  ["iteration", "mean_gap", "trust_region", "replications", "within_variance", "between_variance",
   "t_statistic"]

def ofJson? (v : Json) : Option Event := do
  let (name, content) ← tagged? 0 "type" v
  match name with
  | "selection_completed" =>
    let f ← fields? selectionFields content
    return .selectionCompleted (← f.required "iteration" word64?) (← f.required "policy" string?)
      (← f.required "candidates" word64?) (← f.required "accepted" word64?)
      (← f.required "rejected_infeasible" word64?) (← f.required "rejected_negative_gap" word64?)
      (← f.required "rejected_by_policy" word64?) (← f.required "accepted_score" float?)
  | "stationarity_checked" =>
    let f ← fields? ["iteration", "window_len", "min_required", "t_statistic", "stationary"] content
    return .stationarityChecked (← f.required "iteration" word64?)
      (← f.required "window_len" word64?) (← f.required "min_required" word64?)
      (← f.optional "t_statistic" float?) (← f.required "stationary" bool?)
  | "trust_region_halved" =>
    let f ← fields? ["iteration", "old_trust_region", "new_trust_region", "within_variance",
      "between_variance"] content
    return .trustRegionHalved (← f.required "iteration" word64?)
      (← f.required "old_trust_region" word32?) (← f.required "new_trust_region" word32?)
      (← f.required "within_variance" float?) (← f.required "between_variance" float?)
  | "replications_doubled" =>
    let f ← fields? doublingFields content
    return .replicationsDoubled (← f.required "iteration" word64?)
      (← f.required "old_replications" word64?) (← f.required "new_replications" word64?)
      (← f.required "floor_hit" bool?) (← f.required "impossible_reductions" word32?)
      (← f.required "within_variance" float?) (← f.required "between_variance" float?)
  | "iteration_record" =>
    let f ← fields? recordFields content
    return .iterationRecord (← f.required "iteration" word64?) (← f.required "mean_gap" float?)
      (← f.required "trust_region" word32?) (← f.required "replications" word64?)
      (← f.optional "within_variance" float?) (← f.optional "between_variance" float?)
      (← f.optional "t_statistic" float?)
  | _ => none

end Replanning.Event
