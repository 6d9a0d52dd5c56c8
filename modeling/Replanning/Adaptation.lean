import Replanning.ConfigError
import Replanning.DickeyFuller

namespace Replanning

structure AdaptationConfig where
  initialTrustRegion : UInt32 := 16
  initialReplications : UInt64 := 2
  /-- How many samples a test needs at two replications. -/
  minEvaluatedIterations : UInt64 := 10
  maxWindow : UInt64 := 50
  criticalValue : Float := defaultCriticalValue

namespace AdaptationConfig

/-- How many samples a test needs: with more replications the samples are less noisy, by the root of
their number. -/
def minSamples (c : AdaptationConfig) (replications : UInt64) : UInt64 :=
  let scale := (2.0 / (max replications 1).toFloat).sqrt
  max (Binary64.ceilWord (c.minEvaluatedIterations.toFloat * scale)) minSeries.toUInt64

/-- The settings are in range, and the window is long enough for a first test. -/
def validate (c : AdaptationConfig) : Except ConfigError Unit := do
  if c.initialTrustRegion < 1 then throw .noTrustRegion
  if c.initialReplications < 1 then throw .noReplications
  if !c.criticalValue.isFinite then throw (.criticalValueNotFinite c.criticalValue)
  let required := c.minSamples c.initialReplications
  if c.maxWindow < required then
    throw (.windowTooShort c.maxWindow required c.initialReplications)

end AdaptationConfig

/-- The trust region and the replication count in force. -/
structure Regime where
  trustRegion : UInt32
  replications : UInt64
deriving DecidableEq, Repr

inductive AdaptationAction where
  | trustRegionHalved (old new : UInt32)
  /-- `floorHit` marks a doubling in place of a halving that the floor forbids. -/
  | replicationsDoubled (old new : UInt64) (floorHit : Bool)
deriving DecidableEq, Repr

structure Adaptation where
  iteration : UInt64
  action : AdaptationAction
  withinVariance : Float
  betweenVariance : Float
  tStatistic : Option Float
  windowLen : UInt64

/-- Twice a count, or the largest one. -/
def doubled (n : UInt64) : UInt64 :=
  if n < 0x8000000000000000 then 2 * n else 0xFFFFFFFFFFFFFFFF

namespace Regime

/-- The change that a stationary series calls for. -/
def action (s : Regime) (within between : Float) : AdaptationAction :=
  if within < between then
    if 1 < s.trustRegion then .trustRegionHalved s.trustRegion (max (s.trustRegion / 2) 1)
    else .replicationsDoubled s.replications (doubled s.replications) true
  else .replicationsDoubled s.replications (doubled s.replications) false

def apply (s : Regime) : AdaptationAction → Regime
  | .trustRegionHalved _ new => { s with trustRegion := new }
  | .replicationsDoubled _ new _ => { s with replications := new }

end Regime

/-- The count of halvings that the floor forbade in a row, after one more change. -/
def impossibleAfter (count : UInt32) : AdaptationAction → UInt32
  | .trustRegionHalved .. => 0
  | .replicationsDoubled _ _ true => if count < 0xFFFFFFFF then count + 1 else count
  | .replicationsDoubled _ _ false => count

end Replanning
