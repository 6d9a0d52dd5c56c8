import Replanning.Selection
import Replanning.Ensemble

/-! Greedy packing: a candidate is accepted if the largest slot change it would lead to, taken
together over its replications, stays within the bound, and only then are its slots counted. -/
namespace Replanning

/-- How the largest changes of several replications are taken together. -/
inductive Aggregate where
  | mean
  | worst
deriving DecidableEq, Repr

structure PackerConfig where
  /-- Slots that an agent leaves count as changed too. -/
  countVacatedSlots : Bool := false
  /-- Scores below zero may be accepted. -/
  admitNegativeGaps : Bool := false
  aggregation : Aggregate := .mean
deriving DecidableEq, Repr

/-- A candidate with the slots that it would change in each replication it is considered on. -/
structure Load where
  agent : String
  score : Float
  footprints : List (Nat × List Slot)

namespace Load

def isInert (c : Load) : Bool :=
  c.footprints.all (·.2.isEmpty)

def decide (c : Load) (v : Verdict) (anticipated : Option Float) : Decision :=
  ⟨c.agent, c.score, v, anticipated⟩

def outOfRange? (c : Load) (replications : Nat) : Option Nat :=
  (c.footprints.find? (fun f => replications ≤ f.1)).map Prod.fst

end Load

namespace Aggregate

/-- The mean or the largest of some slot changes, zero if there are none. -/
def combine (how : Aggregate) (changes : List Nat) : Float :=
  if changes.isEmpty then 0.0
  else
    match how with
    | .mean => sum (changes.map ofCount) / ofCount changes.length
    | .worst => (changes.map ofCount).foldl max 0.0

end Aggregate

namespace Ledger

/-- The slot change that accepting a candidate would lead to. -/
def anticipated (l : Ledger) (how : Aggregate) (c : Load) : Float :=
  how.combine (c.footprints.map fun (r, slots) => l.anticipate r slots)

def accept (l : Ledger) (c : Load) : Ledger :=
  c.footprints.foldl (fun l (r, slots) => l.commit r slots) l

end Ledger

namespace PackerConfig

/-- The decision on one candidate, and the ledger behind it. -/
def step (config : PackerConfig) (trustRegion : UInt32) (l : Ledger) (c : Load) :
    Decision × Ledger :=
  if !config.admitNegativeGaps && c.score < 0.0 then (c.decide .rejectedNegativeGap none, l)
  -- nothing to count, so nothing can exceed the bound
  else if c.isInert then (c.decide .accepted none, l)
  else
    let anticipated := l.anticipated config.aggregation c
    if anticipated ≤ trustRegion.toFloat then (c.decide .accepted (some anticipated), l.accept c)
    else (c.decide .rejectedInfeasible (some anticipated), l)

/-- The decisions on all candidates, one after the other. -/
def steps (config : PackerConfig) (trustRegion : UInt32) :
    Ledger → List Load → List Decision × Ledger
  | l, [] => ([], l)
  | l, c :: rest =>
    let (d, l) := config.step trustRegion l c
    let (ds, l) := steps config trustRegion l rest
    (d :: ds, l)

/-- Every replication of every candidate is in range. -/
def checkRange (replications : Nat) : List Load → Except EnsembleError Unit
  | [] => .ok ()
  | c :: rest =>
    match c.outOfRange? replications with
    | some r => .error (.replicationOutOfRange c.agent r replications)
    | none => checkRange replications rest

def pack (config : PackerConfig) (candidates : List Load) (trustRegion : UInt32)
    (replications : Nat) : Except EnsembleError (List Decision × Ledger) := do
  checkRange replications candidates
  return config.steps trustRegion (.empty replications) candidates

end PackerConfig

end Replanning
