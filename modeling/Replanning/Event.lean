import Replanning.Controller
import Replanning.Selection

namespace Replanning

inductive Event where
  | selectionCompleted (iteration : UInt64) (policy : String) (candidates accepted
      rejectedInfeasible rejectedNegativeGap rejectedByPolicy : UInt64) (acceptedScore : Float)
  | stationarityChecked (iteration windowLen minRequired : UInt64) (tStatistic : Option Float)
      (stationary : Bool)
  | trustRegionHalved (iteration : UInt64) (old new : UInt32)
      (withinVariance betweenVariance : Float)
  | replicationsDoubled (iteration old new : UInt64) (floorHit : Bool)
      (impossibleReductions : UInt32) (withinVariance betweenVariance : Float)
  | iterationRecord (iteration : UInt64) (meanGap : Float) (trustRegion : UInt32)
      (replications : UInt64) (withinVariance betweenVariance tStatistic : Option Float)

namespace Event

def iteration : Event → UInt64
  | .selectionCompleted i .. => i
  | .stationarityChecked i .. => i
  | .trustRegionHalved i .. => i
  | .replicationsDoubled i .. => i
  | .iterationRecord i .. => i

def kind : Event → String
  | .selectionCompleted .. => "SelectionCompleted"
  | .stationarityChecked .. => "StationarityChecked"
  | .trustRegionHalved .. => "TrustRegionHalved"
  | .replicationsDoubled .. => "ReplicationsDoubled"
  | .iterationRecord .. => "IterationRecord"

def isAdaptation : Event → Bool
  | .trustRegionHalved .. => true
  | .replicationsDoubled .. => true
  | _ => false

def ofSelection (iteration : UInt64) (s : Selection) : Event :=
  .selectionCompleted iteration s.policy s.decisions.length.toUInt64 (s.count .accepted).toUInt64
    (s.count .rejectedInfeasible).toUInt64 (s.count .rejectedNegativeGap).toUInt64
    (s.count .rejectedByPolicy).toUInt64 s.acceptedScore

/-- The report on an adaptation, with the count of forbidden halvings behind it. -/
def ofAdaptation (iteration : UInt64) (a : Adaptation) (impossibleReductions : UInt32) : Event :=
  match a.action with
  | .trustRegionHalved old new =>
    .trustRegionHalved iteration old new a.withinVariance a.betweenVariance
  | .replicationsDoubled old new floorHit =>
    .replicationsDoubled iteration old new floorHit impossibleReductions a.withinVariance
      a.betweenVariance

end Event

end Replanning
