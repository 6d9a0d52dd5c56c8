import Replanning.Layout

namespace Replanning

inductive ConfigError where
  | outsideUnitInterval (parameter : String) (value : Float)
  | noTrustRegion
  | noReplications
  | criticalValueNotFinite (value : Float)
  | windowTooShort (maxWindow required replications : UInt64)
  | exhaustionLimitZero

def ConfigError.message : ConfigError → String
  | .outsideUnitInterval parameter value =>
    parameter ++ " must be within [0, 1], got " ++ plainText value
  | .noTrustRegion => "initial_trust_region must be at least 1"
  | .noReplications => "initial_replications must be at least 1"
  | .criticalValueNotFinite value => "critical_value must be finite, got " ++ plainText value
  | .windowTooShort maxWindow required replications =>
    "max_window " ++ Nat.repr maxWindow.toNat ++ " is shorter than the " ++
      Nat.repr required.toNat ++ " samples required at R = " ++ Nat.repr replications.toNat
  | .exhaustionLimitZero => "max_impossible_reductions must be at least 1 when set"

/-- Why nothing starts: the settings are invalid, or the room for their window is more than can be
addressed. -/
inductive CreateError where
  | invalid (cause : ConfigError)
  | capacityOverflow

def CreateError.message : CreateError → String
  | .invalid cause => cause.message
  | .capacityOverflow => "capacity overflow"

inductive RestoreError where
  | create (cause : CreateError)
  | belowFloor (trustRegion : UInt32) (replications : UInt64)
  | windowTooLong (samples : Nat) (maxWindow : UInt64)

def RestoreError.message : RestoreError → String
  | .create cause => cause.message
  | .belowFloor trustRegion replications =>
    "snapshot state T = " ++ Nat.repr trustRegion.toNat ++ ", R = " ++
      Nat.repr replications.toNat ++ " violates the floor of 1"
  | .windowTooLong samples maxWindow =>
    "snapshot window holds " ++ Nat.repr samples ++ " samples, max_window is " ++
      Nat.repr maxWindow.toNat

end Replanning
