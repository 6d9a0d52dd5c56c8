import Replanning.Policy
import Replanning.Adaptation

namespace Replanning

/-- A configuration; the defaults make a trust-region engine. -/
structure EngineConfig where
  seed : UInt64 := 4711
  selfExclusion : Bool := true
  policy : Policy := .trustRegion {}
  adaptation : AdaptationConfig := {}
  /-- After so many forbidden halvings in a row the schedule counts as exhausted. -/
  maxImpossibleReductions : Option UInt32 := none

def EngineConfig.validate (c : EngineConfig) : Except ConfigError Unit := do
  c.policy.validate
  c.adaptation.validate
  if c.maxImpossibleReductions = some 0 then throw .exhaustionLimitZero

end Replanning
