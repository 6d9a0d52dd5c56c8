import Replanning.Binary64

namespace Replanning

/-- The sum from left to right. Nothing sums to the negative zero, which is neutral for every
double. -/
def sum (values : List Float) : Float :=
  values.foldl (· + ·) (-0.0)

def mean? (values : List Float) : Option Float :=
  if values.isEmpty then none else some (sum values / ofCount values.length)

/-- The unbiased sample variance, of at least two values. -/
def sampleVariance? (values : List Float) : Option Float :=
  if values.length < 2 then none
  else do
    let m ← mean? values
    return sum (values.map fun v => (v - m) * (v - m)) / ofCount (values.length - 1)

end Replanning
