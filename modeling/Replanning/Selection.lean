import Replanning.Ledger
import Replanning.Statistics

namespace Replanning

inductive Verdict where
  /-- The agent switches. -/
  | accepted
  /-- Some slot would change more than the trust region allows. -/
  | rejectedInfeasible
  /-- The score is below zero and such scores are not admitted. -/
  | rejectedNegativeGap
  /-- The draw or the quota of the policy was against it. -/
  | rejectedByPolicy
deriving DecidableEq, Repr

structure Decision where
  agent : String
  score : Float
  verdict : Verdict
  /-- The slot change that was compared with the trust region, if any was. -/
  anticipatedChange : Option Float

/-- The decisions of one pass, with the ledger of policies that keep one. -/
structure Selection where
  policy : String
  decisions : List Decision
  ledger : Option Ledger

namespace Selection

def withVerdict (s : Selection) (v : Verdict) : List Decision :=
  s.decisions.filter (·.verdict = v)

def accepted (s : Selection) : List String :=
  (s.withVerdict .accepted).map Decision.agent

def count (s : Selection) (v : Verdict) : Nat :=
  (s.withVerdict v).length

def acceptedScore (s : Selection) : Float :=
  sum ((s.withVerdict .accepted).map Decision.score)

end Selection

end Replanning
