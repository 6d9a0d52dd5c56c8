import Replanning.Encoding.Ensemble
import Replanning.Proofs.Json.Record

namespace Replanning

open Json

def Agent.finite (a : Agent) : Bool :=
  a.entries.all fun o => o.all Observation.isFinite

def Ensemble.finite (e : Ensemble) : Bool :=
  e.agents.all Agent.finite

/-- The generating replication, if there is one, is a word. -/
def Agent.fits (a : Agent) : Bool :=
  a.generating.all fun r => r < UInt64.size

/-- The counts of the ensemble are words. -/
def Ensemble.fits (e : Ensemble) : Bool :=
  e.replications < UInt64.size && e.agents.all Agent.fits

theorem Slot.exact : Exact Slot.ofJson? Slot.toJson fun _ => true := by
  intro s
  have hfields : fields? ["location", "time_bin"] s.toJson = some ⟨false, _⟩ :=
    fields_object _ _ (by rfl) (by simp)
  rw [ofJson?, hfields, Option.bind_eq_bind, Option.bind_some]
  simp

theorem Observation.exact :
    Exact Observation.ofJson? Observation.toJson Observation.isFinite := by
  intro o
  have hfields : fields? ["current_score", "candidate_score", "current_slots", "candidate_slots"]
      o.toJson = some ⟨false, _⟩ := fields_object _ _ (by rfl) (by simp)
  have hcurrent := exact_float o.currentScore
  have hcandidate := exact_float o.candidateScore
  have hcurrentSlots := exact_list Slot.exact o.currentSlots
  have hcandidateSlots := exact_list Slot.exact o.candidateSlots
  rw [ofJson?, hfields, Option.bind_eq_bind, Option.bind_some, isFinite]
  by_cases hx : o.currentScore.isFinite = true
  · by_cases hy : o.candidateScore.isFinite = true
    · simp [hcurrent, hcandidate, hcurrentSlots, hcandidateSlots, hx, hy]
    · simp [hcurrent, hcandidate, hx, hy]
  · simp [hcurrent, hx]

theorem Agent.exact : Exact Agent.ofJson? Agent.toJson fun a => a.fits && a.finite := by
  intro a
  have hfields : fields? ["id", "generating_replication", "replications"] a.toJson =
      some ⟨false, _⟩ := fields_object _ _ (by rfl) (by simp)
  have hgenerating := exact_option exact_position (fun _ => nofun) a.generating
  have hentries := exact_list (exact_option Observation.exact fun _ => nofun) a.entries
  rw [ofJson?, hfields, Option.bind_eq_bind, Option.bind_some]
  change _ = if (a.fits && a.finite) = true then _ else _
  rw [fits, finite]
  by_cases hg : (a.generating.all fun r => decide (r < UInt64.size)) = true
  · by_cases he : (a.entries.all fun o => o.all Observation.isFinite) = true
    · simp [hgenerating, hentries, hg, he]
    · simp [hgenerating, hentries, hg, he]
  · simp [hgenerating, hg]

theorem Ensemble.exact :
    Exact Ensemble.ofJson? Ensemble.toJson fun e => e.fits && e.finite := by
  intro e
  have hfields : fields? ["replications", "agents"] e.toJson = some ⟨false, _⟩ :=
    fields_object _ _ (by rfl) (by simp)
  have hreplications := exact_position e.replications
  have hagents := exact_list Agent.exact e.agents
  -- both conditions are asked of one agent after the other
  have hkept : (e.fits && e.finite) = (decide (e.replications < UInt64.size) &&
      e.agents.all fun a => a.fits && a.finite) := by
    rw [Bool.eq_iff_iff, fits, finite]
    simp only [Bool.and_eq_true, List.all_eq_true, forall_and, and_assoc]
  rw [ofJson?, hfields, Option.bind_eq_bind, Option.bind_some]
  change _ = if (e.fits && e.finite) = true then _ else _
  rw [hkept]
  by_cases hr : e.replications < UInt64.size
  · by_cases ha : (e.agents.all fun a => a.fits && a.finite) = true
    · simp [hreplications, hagents, hr, ha]
    · simp [hreplications, hagents, hr, ha]
  · simp [hreplications, hr]

@[simp] theorem Slot.writable_toJson (s : Slot) : s.toJson.writable = true := by
  simp [toJson]

@[simp] theorem Observation.writable_toJson (o : Observation) : o.toJson.writable = true := by
  simp [toJson]

theorem Agent.writable_toJson (a : Agent) (h : a.fits = true) : a.toJson.writable = true := by
  have hgenerating : (ofOption ofNat a.generating).writable = true := by
    apply writable_ofOption
    intro r hr
    rw [fits, hr] at h
    exact writable_ofNat r (of_decide_eq_true h)
  simp [toJson, hgenerating]

theorem Ensemble.writable_toJson (e : Ensemble) (h : e.fits = true) :
    e.toJson.writable = true := by
  rw [fits, Bool.and_eq_true, List.all_eq_true] at h
  have hreplications := writable_ofNat e.replications (of_decide_eq_true h.1)
  have hagents := writable_map Agent.toJson e.agents fun a ha => a.writable_toJson (h.2 a ha)
  simp [toJson, hreplications, hagents]

end Replanning
