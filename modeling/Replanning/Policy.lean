import Replanning.ConfigError
import Replanning.Packing
import Replanning.Ranking

namespace Replanning

inductive Policy where
  | trustRegion (packer : PackerConfig)
  | uniform (rate : Float) (admitNegativeGaps : Bool)
  | topShare (share : Float) (admitNegativeGaps : Bool)

def Candidate.load (c : Candidate) (a : Agent) (countVacated : Bool) :
    Except EnsembleError Load := do
  let footprints ← c.eligible.mapM fun r => do
    let o ← a.require r
    return (r, footprint o.currentSlots o.candidateSlots countVacated)
  return ⟨c.agent, c.score.toFloat, footprints⟩

/-- The agent of a candidate, which has to stand at its position under its name. -/
def Ensemble.agentOf (e : Ensemble) (c : Candidate) : Except EnsembleError Agent :=
  match e.agents[c.index]? with
  | some a => if a.id = c.agent then .ok a else .error (.unknownAgent c.agent)
  | none => .error (.unknownAgent c.agent)

def Ensemble.loads (e : Ensemble) (countVacated : Bool) (ranked : List Candidate) :
    Except EnsembleError (List Load) :=
  ranked.mapM fun c => do c.load (← e.agentOf c) countVacated

/-- The decision of a policy that looks at no slots. -/
def Candidate.decide (c : Candidate) (admitNegativeGaps accept : Bool) : Decision :=
  let verdict :=
    if !admitNegativeGaps && c.score.isNegative then Verdict.rejectedNegativeGap
    else if accept then .accepted
    else .rejectedByPolicy
  ⟨c.agent, c.score.toFloat, verdict, none⟩

namespace Policy

def name : Policy → String
  | .trustRegion _ => "trust_region"
  | .uniform .. => "uniform"
  | .topShare .. => "top_share"

/-- A rate or a share has to lie between zero and one. -/
def checkUnitInterval (parameter : String) (value : Float) : Except ConfigError Unit :=
  if 0.0 ≤ value && value ≤ 1.0 then .ok () else .error (.outsideUnitInterval parameter value)

def validate : Policy → Except ConfigError Unit
  | .trustRegion _ => .ok ()
  | .uniform rate _ => checkUnitInterval "replanning_rate" rate
  | .topShare share _ => checkUnitInterval "share" share

/-- How many of `n` candidates the share admits, rounded up. -/
def quota (share : Float) (n : Nat) : Nat :=
  min (Binary64.ceilWord (share * ofCount n)).toNat n

/-- One draw for every candidate, whatever its score. -/
def drawAll (rate : Float) (admitNegativeGaps : Bool) :
    List Candidate → RandomStream → List Decision × RandomStream
  | [], s => ([], s)
  | c :: rest, s =>
    let (drawn, s) := s.chance rate
    let (ds, s) := drawAll rate admitNegativeGaps rest s
    (c.decide admitNegativeGaps drawn :: ds, s)

/-- Takes candidates while some of the quota is left. A rejected score uses none of it. -/
def takeBest (admitNegativeGaps : Bool) : Nat → List Candidate → List Decision
  | _, [] => []
  | left, c :: rest =>
    let d := c.decide admitNegativeGaps (0 < left)
    d :: takeBest admitNegativeGaps (if d.verdict = .accepted then left - 1 else left) rest

/-- The decisions on the ranked candidates of an ensemble. -/
def select (p : Policy) (e : Ensemble) (ranked : List Candidate) (trustRegion : UInt32)
    (s : RandomStream) : Except EnsembleError (Selection × RandomStream) :=
  match p with
  | .trustRegion packer => do
    -- nothing is drawn, and the stream goes on as it came
    let loads ← e.loads packer.countVacatedSlots ranked
    let (decisions, ledger) ← packer.pack loads trustRegion e.replications
    return (⟨p.name, decisions, some ledger⟩, s)
  | .uniform rate admitNegativeGaps =>
    let (decisions, s) := drawAll rate admitNegativeGaps ranked s
    .ok (⟨p.name, decisions, none⟩, s)
  | .topShare share admitNegativeGaps =>
    .ok (⟨p.name, takeBest admitNegativeGaps (quota share ranked.length) ranked, none⟩, s)

end Policy

end Replanning
