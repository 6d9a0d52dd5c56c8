import Replanning.Statistics

namespace Replanning

structure GapSample where
  iteration : UInt64
  gaps : List Float

namespace GapSample

/-- The same gap on every replication, of which there is at least one. -/
def uniform (iteration : UInt64) (value : Float) (replications : Nat) : GapSample :=
  ⟨iteration, List.replicate (max replications 1) value⟩

def mean (s : GapSample) : Float :=
  (mean? s.gaps).getD 0.0

/-- The variance of the mean that comes from the replications. It is infinite below two of them,
where it cannot be judged. -/
def withinVariance (s : GapSample) : Float :=
  match sampleVariance? s.gaps with
  | some v => v / ofCount s.gaps.length
  | none => 1.0 / 0.0

end GapSample

end Replanning
