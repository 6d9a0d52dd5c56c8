import Replanning.Ensemble
import Replanning.Statistics

namespace Replanning

/-- A decision score, as the bits of a double: they keep apart the two signs of what is not a
number, and the sign decides where it ranks. -/
structure Score where
  bits : UInt64
deriving DecidableEq, Repr

namespace Score

def toFloat (s : Score) : Float :=
  Float.ofBits s.bits

/-- A given score. One that is not a number has no sign. -/
def ofFloat (x : Float) : Score :=
  ⟨x.toBits⟩

/-- A computed score. An undefined result has the sign bit. -/
def ofResult (x : Float) : Score :=
  ⟨if x.isNaN then 0xFFF8000000000000 else x.toBits⟩

/-- The place in the total order of doubles: negative ones count down, the others count up, and what
is not a number lies beyond the infinity of its sign. -/
def rank (s : Score) : UInt64 :=
  if s.bits >>> 63 = 1 then ~~~s.bits else s.bits ||| 0x8000000000000000

def isNegative (s : Score) : Bool :=
  s.toFloat < 0.0

end Score

/-- A scored agent and the replications that it was scored on. -/
structure Candidate where
  /-- The position of the agent in the ensemble. -/
  index : Nat
  agent : String
  score : Score
  eligible : List Nat
deriving DecidableEq, Repr

/-- The scores of all agents, and for every replication the mean gap of the population. -/
structure Estimate where
  candidates : List Candidate
  meanGaps : List Float

namespace Agent

def gaps (a : Agent) (replications : List Nat) : Except EnsembleError (List Float) :=
  replications.mapM fun r => Observation.gap <$> a.require r

end Agent

/-- The replications that an agent is scored on. With self-exclusion the generating one is left out,
unless it is the only one. -/
def eligible (selfExclusion : Bool) (generating : Option Nat) (replications : Nat) : List Nat :=
  match generating with
  | some g =>
    if selfExclusion && 1 < replications then (List.range replications).filter (· ≠ g)
    else List.range replications
  | none => List.range replications

def scoreAgent (selfExclusion : Bool) (replications index : Nat) (a : Agent) :
    Except EnsembleError Candidate := do
  let considered := eligible selfExclusion a.generating replications
  let gaps ← a.gaps considered
  return ⟨index, a.id, .ofResult (gaps.foldl (· + ·) 0.0 / ofCount considered.length), considered⟩

namespace Ensemble

/-- The mean gap of all agents on every replication, zero without agents. -/
def meanGaps (e : Ensemble) : Except EnsembleError (List Float) := do
  let rows ← e.agents.mapM (·.gaps (List.range e.replications))
  let sums := rows.foldl (List.zipWith (· + ·)) (List.replicate e.replications 0.0)
  return if e.agents.isEmpty then sums else sums.map (· / ofCount e.agents.length)

/-- Scores every agent of an ensemble without defects. -/
def estimate (selfExclusion : Bool) (e : Ensemble) : Except EnsembleError Estimate := do
  e.validate
  let candidates ← e.agents.zipIdx.mapM fun (a, i) => scoreAgent selfExclusion e.replications i a
  return ⟨candidates, ← e.meanGaps⟩

end Ensemble

end Replanning
