import Replanning.Slot

/-! The data of one iteration. `WellFormed` says what can be decided on, and `validate` names the
first thing that stands against it. -/
namespace Replanning

inductive EnsembleError where
  | noReplications
  | missingReplication (agent : String) (replication : Nat)
  | replicationCountMismatch (agent : String) (expected actual : Nat)
  | nonFiniteScore (agent : String) (replication : Nat)
  | invalidGeneratingReplication (agent : String) (replication replications : Nat)
  | duplicateAgent (agent : String)
  | unknownAgent (agent : String)
  | replicationOutOfRange (agent : String) (replication replications : Nat)
deriving DecidableEq, Repr

def EnsembleError.message : EnsembleError → String
  | .noReplications => "Ensemble must contain at least one replication"
  | .missingReplication a r =>
    "Agent " ++ a ++ " has no observation for replication " ++ Nat.repr r
  | .replicationCountMismatch a expected actual =>
    "Agent " ++ a ++ " has " ++ Nat.repr actual ++ " replication entries, ensemble has " ++
      Nat.repr expected
  | .nonFiniteScore a r => "Agent " ++ a ++ " has a non-finite score in replication " ++ Nat.repr r
  | .invalidGeneratingReplication a r replications =>
    "Agent " ++ a ++ " names generating replication " ++ Nat.repr r ++ ", ensemble has " ++
      Nat.repr replications
  | .duplicateAgent a => "Duplicate agent id: " ++ a
  | .unknownAgent a => "Candidate " ++ a ++ " does not match any agent in the ensemble"
  | .replicationOutOfRange a r replications =>
    "Agent " ++ a ++ " references replication " ++ Nat.repr r ++ ", only " ++
      Nat.repr replications ++ " considered"

/-- What one replication says about an agent: scores and slots of its two plans. -/
structure Observation where
  currentScore : Float
  candidateScore : Float
  currentSlots : List Slot
  candidateSlots : List Slot

namespace Observation

def gap (o : Observation) : Float :=
  o.candidateScore - o.currentScore

def isFinite (o : Observation) : Bool :=
  o.currentScore.isFinite && o.candidateScore.isFinite

end Observation

/-- An agent with an entry for every replication. Some entries may still be empty. -/
structure Agent where
  id : String
  /-- The replication for which the candidate plan was made. -/
  generating : Option Nat
  entries : List (Option Observation)

namespace Agent

def new (id : String) (replications : Nat) : Agent :=
  ⟨id, none, List.replicate replications none⟩

/-- Stores an observation, with empty entries up to it where there were none. -/
def observe (a : Agent) (r : Nat) (o : Observation) : Agent :=
  let padded := a.entries ++ List.replicate (r + 1 - a.entries.length) none
  { a with entries := padded.set r (some o) }

def observation? (a : Agent) (r : Nat) : Option Observation :=
  (a.entries[r]?).join

def require (a : Agent) (r : Nat) : Except EnsembleError Observation :=
  match a.observation? r with
  | some o => .ok o
  | none => .error (.missingReplication a.id r)

/-- The first replication, of those from `r` on, that is not observed with two finite scores. -/
def checkFrom (a : Agent) (r : Nat) : Nat → Except EnsembleError Unit
  | 0 => .ok ()
  | count + 1 => do
    if (← a.require r).isFinite then checkFrom a (r + 1) count
    else throw (.nonFiniteScore a.id r)

/-- The first defect of an agent by itself, in an ensemble of so many replications. -/
def check (a : Agent) (replications : Nat) : Except EnsembleError Unit := do
  if a.entries.length ≠ replications then
    throw (.replicationCountMismatch a.id replications a.entries.length)
  match a.generating with
  | some g => if replications ≤ g then throw (.invalidGeneratingReplication a.id g replications)
  | none => pure ()
  a.checkFrom 0 replications

/-- The agent is observed with finite scores on exactly the replications of the ensemble, and its
candidate plan was made for one of them, if for any. -/
structure WellFormed (a : Agent) (replications : Nat) : Prop where
  length : a.entries.length = replications
  observed : ∀ r < replications, ∃ o, a.observation? r = some o ∧ o.isFinite = true
  generating : ∀ g, a.generating = some g → g < replications

end Agent

structure Ensemble where
  replications : Nat
  agents : List Agent

namespace Ensemble

def add (e : Ensemble) (a : Agent) : Ensemble :=
  { e with agents := e.agents ++ [a] }

/-- The first defect of the agents, given the names that have been met before them. -/
def checkAgents (replications : Nat) : List String → List Agent → Except EnsembleError Unit
  | _, [] => .ok ()
  | seen, a :: rest => do
    if seen.contains a.id then throw (.duplicateAgent a.id)
    a.check replications
    checkAgents replications (a.id :: seen) rest

def validate (e : Ensemble) : Except EnsembleError Unit :=
  if e.replications = 0 then .error .noReplications else checkAgents e.replications [] e.agents

/-- There are replications, and every agent is well-formed and has a name of its own. -/
structure WellFormed (e : Ensemble) : Prop where
  replications : 1 ≤ e.replications
  ids : (e.agents.map Agent.id).Nodup
  agents : ∀ a ∈ e.agents, a.WellFormed e.replications

end Ensemble

end Replanning
