import Replanning.Score
import Replanning.Selection
import Replanning.Json.Record

namespace Replanning

open Json

namespace Slot

def toJson (s : Slot) : Json :=
  .object [("location", .string s.location), ("time_bin", ofNat s.timeBin.toNat)]

def ofJson? (v : Json) : Option Slot := do
  let f ← fields? ["location", "time_bin"] v
  return ⟨← f.required "location" string?, ← f.required "time_bin" word32?⟩

end Slot

namespace Observation

def toJson (o : Observation) : Json :=
  .object [
    ("current_score", ofFloat o.currentScore),
    ("candidate_score", ofFloat o.candidateScore),
    ("current_slots", .array (o.currentSlots.map Slot.toJson)),
    ("candidate_slots", .array (o.candidateSlots.map Slot.toJson))]

def ofJson? (v : Json) : Option Observation := do
  let f ← fields? ["current_score", "candidate_score", "current_slots", "candidate_slots"] v
  return {
    currentScore := ← f.required "current_score" float?
    candidateScore := ← f.required "candidate_score" float?
    currentSlots := ← f.required "current_slots" (list? Slot.ofJson?)
    candidateSlots := ← f.required "candidate_slots" (list? Slot.ofJson?) }

end Observation

namespace Agent

def toJson (a : Agent) : Json :=
  .object [
    ("id", .string a.id),
    ("generating_replication", ofOption ofNat a.generating),
    ("replications", .array (a.entries.map (ofOption Observation.toJson)))]

def ofJson? (v : Json) : Option Agent := do
  let f ← fields? ["id", "generating_replication", "replications"] v
  return {
    id := ← f.required "id" string?
    generating := ← f.optional "generating_replication" position?
    entries := ← f.required "replications" (list? (optional? Observation.ofJson?)) }

end Agent

namespace Ensemble

def toJson (e : Ensemble) : Json :=
  .object [
    ("replications", ofNat e.replications),
    ("agents", .array (e.agents.map Agent.toJson))]

/-- Reads an ensemble, which need not be well-formed. -/
def ofJson? (v : Json) : Option Ensemble := do
  let f ← fields? ["replications", "agents"] v
  return ⟨← f.required "replications" position?, ← f.required "agents" (list? Agent.ofJson?)⟩

end Ensemble

namespace Candidate

def fieldNames : List String :=
  ["agent_index", "agent_id", "decision_score", "eligible_replications"]

def toJson (c : Candidate) : Json :=
  .object [
    ("agent_index", ofNat c.index),
    ("agent_id", .string c.agent),
    ("decision_score", ofFloat c.score.toFloat),
    ("eligible_replications", .array (c.eligible.map ofNat))]

def ofJson? (v : Json) : Option Candidate := do
  let f ← fields? fieldNames v
  return {
    index := ← f.required "agent_index" position?
    agent := ← f.required "agent_id" string?
    score := .ofFloat (← f.required "decision_score" float?)
    eligible := ← f.required "eligible_replications" (list? position?) }

end Candidate

namespace Verdict

def name : Verdict → String
  | .accepted => "accepted"
  | .rejectedInfeasible => "rejected_infeasible"
  | .rejectedNegativeGap => "rejected_negative_gap"
  | .rejectedByPolicy => "rejected_by_policy"

def names : List (String × Verdict) :=
  [.accepted, .rejectedInfeasible, .rejectedNegativeGap, .rejectedByPolicy].map fun v => (v.name, v)

end Verdict

namespace Decision

def toJson (d : Decision) : Json :=
  .object [
    ("agent_id", .string d.agent),
    ("score", ofFloat d.score),
    ("verdict", .string d.verdict.name),
    ("anticipated_change", ofOption ofFloat d.anticipatedChange)]

def ofJson? (v : Json) : Option Decision := do
  let f ← fields? ["agent_id", "score", "verdict", "anticipated_change"] v
  return {
    agent := ← f.required "agent_id" string?
    score := ← f.required "score" float?
    verdict := ← f.required "verdict" (name? Verdict.names)
    anticipatedChange := ← f.optional "anticipated_change" float? }

end Decision

end Replanning
