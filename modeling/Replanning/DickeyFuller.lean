import Replanning.Statistics

namespace Replanning

/-- The shortest series that leaves the regression a degree of freedom. -/
def minSeries : Nat :=
  4

def defaultCriticalValue : Float :=
  -3.0

/-- The outcome of one test. Without a usable standard error there are no estimates. -/
structure DickeyFuller where
  sampleSize : UInt64
  mean : Float
  delta : Option Float
  intercept : Option Float
  residualVariance : Option Float
  tStatistic : Option Float
  varianceOfMean : Option Float
  stationary : Bool

/-- `a ^ k` by squaring; `fuel` bounds the number of squarings. -/
def powAux : Nat → Float → Nat → Float → Float
  | 0, _, _, r => r
  | fuel + 1, a, k, r =>
    let r := if k % 2 = 1 then r * a else r
    if k / 2 = 0 then r else powAux fuel (a * a) (k / 2) r

def pow (a : Float) (k : Nat) : Float :=
  powAux (k.log2 + 1) a k 1.0

/-- The variance of the mean of `k` values of an autoregression with persistence `a`. There is none
near the unit root, or if it is not a finite number from zero up. -/
def ar1VarianceOfMean (residualVariance a : Float) (k : Nat) : Option Float :=
  let gap := 1.0 - a
  if gap.abs < 1e-6 then none
  else
    let n := ofCount k
    let correction := 2.0 * a * (n * gap - (1.0 - pow a (min k 2147483647))) / (gap * gap)
    let value := residualVariance / (n * n) * (n + correction)
    if value.isFinite && 0.0 ≤ value then some value else none

namespace DickeyFuller

/-- The persistence of the series, one more than the slope. -/
def persistence (d : DickeyFuller) : Option Float :=
  d.delta.map (· + 1.0)

def degenerate (size : Nat) (mean : Float) : DickeyFuller where
  sampleSize := size.toUInt64
  mean := mean
  delta := none
  intercept := none
  residualVariance := none
  tStatistic := none
  varianceOfMean := none
  stationary := false

/-- Sums over the regression points, with levels and differences taken from their means. -/
structure Moments where
  levels : Float
  products : Float
  squares : Float

def moments (points : List (Float × Float)) (levelMean stepMean : Float) : Moments :=
  points.foldl (fun m (z, y) =>
    let dz := z - levelMean
    ⟨m.levels + dz * dz, m.products + dz * (y - stepMean), m.squares + z * z⟩) ⟨0.0, 0.0, 0.0⟩

/-- The level varies by more than rounding errors. -/
def varies (m : Moments) : Bool :=
  let scale := if 2.2250738585072014e-308 < m.squares then m.squares else 2.2250738585072014e-308
  m.levels > 1e-12 * scale

def test (critical : Float) (series : List Float) : DickeyFuller :=
  let k := series.length
  let mean := (mean? series).getD 0.0
  if k < minSeries || !mean.isFinite then degenerate k mean
  else
    -- the steps are regressed on the levels before them
    let levels := series.dropLast
    let steps := List.zipWith (fun now later => later - now) series (series.drop 1)
    let n := ofCount (k - 1)
    let levelMean := sum levels / n
    let stepMean := sum steps / n
    let points := levels.zip steps
    let m := moments points levelMean stepMean
    if !varies m then degenerate k mean
    else
      let delta := m.products / m.levels
      let intercept := stepMean - delta * levelMean
      let squaredErrors := sum (points.map fun (z, y) =>
        -- what the fitted line leaves of a step
        let e := y - delta * z - intercept
        e * e)
      let residualVariance := squaredErrors / ofCount (k - 3)
      let standardError := (residualVariance / m.levels).sqrt
      -- without an error there is nothing to measure the slope in
      if !standardError.isFinite || standardError ≤ 0.0 then degenerate k mean
      else
        let t := delta / standardError
        { sampleSize := k.toUInt64
          mean := mean
          delta := some delta
          intercept := some intercept
          residualVariance := some residualVariance
          tStatistic := some t
          varianceOfMean := ar1VarianceOfMean residualVariance (delta + 1.0) k
          stationary := t < critical }

end DickeyFuller

end Replanning
