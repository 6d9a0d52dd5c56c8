import Replanning.Policy
import Replanning.Proofs.Ensemble
import Replanning.Proofs.Slot
import Mathlib.Tactic.IntervalCases

namespace Replanning

theorem eligible_nodup (selfExclusion : Bool) (generating : Option ℕ) (replications : ℕ) :
    (eligible selfExclusion generating replications).Nodup := by
  unfold eligible
  split
  · split_ifs
    · exact List.nodup_range.filter _
    · exact List.nodup_range
  · exact List.nodup_range

theorem lt_of_mem_eligible (selfExclusion : Bool) (generating : Option ℕ) (replications r : ℕ)
    (hr : r ∈ eligible selfExclusion generating replications) : r < replications := by
  unfold eligible at hr
  split at hr
  · split_ifs at hr
    · exact List.mem_range.mp (List.mem_of_mem_filter hr)
    · exact List.mem_range.mp hr
  · exact List.mem_range.mp hr

/-- There is one eligible replication if there is one at all, or if there are two and the plan was
made for one of them. -/
theorem eligible_length_one (selfExclusion : Bool) (generating : Option ℕ) (replications : ℕ)
    (hg : ∀ g, generating = some g → g < replications)
    (h : replications = 1 ∨ (replications = 2 ∧ selfExclusion = true ∧ generating.isSome = true)) :
    (eligible selfExclusion generating replications).length = 1 := by
  rcases h with rfl | ⟨rfl, rfl, hsome⟩
  · unfold eligible
    split
    · rw [if_neg (by simp)]
      rfl
    · rfl
  · obtain ⟨g, rfl⟩ := Option.isSome_iff_exists.mp hsome
    have hlt := hg g rfl
    -- the plan was made for one of the two replications, and the other one is left
    interval_cases g <;> rfl

/-- What scoring says about a candidate: the agent at its position, under its name, and the
replications that this agent is scored on. -/
def Ensemble.Scored (e : Ensemble) (selfExclusion : Bool) (c : Candidate) : Prop :=
  ∃ a, e.agents[c.index]? = some a ∧ a.id = c.agent ∧
    c.eligible = eligible selfExclusion a.generating e.replications

namespace Agent

/-- The gap of an agent on a replication, zero where it was not observed. -/
def gap (a : Agent) (r : ℕ) : Float :=
  ((a.observation? r).map Observation.gap).getD 0.0

/-- The mean gap of an agent over the replications that it is scored on. -/
def meanGap (a : Agent) (selfExclusion : Bool) (replications : ℕ) : Float :=
  let considered := eligible selfExclusion a.generating replications
  (considered.map a.gap).foldl (· + ·) 0.0 / ofCount considered.length

theorem gaps_eq (a : Agent) (replications : ℕ) (h : a.WellFormed replications) (rs : List ℕ)
    (hr : ∀ r ∈ rs, r < replications) : a.gaps rs = .ok (rs.map a.gap) := by
  apply mapM_eq_ok
  intro r hmem
  obtain ⟨o, ho, _⟩ := h.observed r (hr r hmem)
  rw [require_of_observed a r o ho, gap, ho]
  rfl

end Agent

/-- The score of an agent is its mean gap. -/
theorem scoreAgent_eq (selfExclusion : Bool) (replications index : ℕ) (a : Agent)
    (h : a.WellFormed replications) :
    scoreAgent selfExclusion replications index a =
      .ok ⟨index, a.id, .ofResult (a.meanGap selfExclusion replications),
        eligible selfExclusion a.generating replications⟩ := by
  rw [scoreAgent, a.gaps_eq replications h _
    (lt_of_mem_eligible selfExclusion a.generating replications)]
  rfl

namespace Ensemble

theorem meanGaps_ok (e : Ensemble) (h : e.WellFormed) : ∃ gaps, e.meanGaps = .ok gaps := by
  have hone (a : Agent) (ha : a ∈ e.agents) :
      ∃ gaps, a.gaps (List.range e.replications) = .ok gaps ∧ True := by
    exact ⟨_, a.gaps_eq e.replications (h.agents a ha) (List.range e.replications)
      fun r hr => List.mem_range.mp hr, trivial⟩
  obtain ⟨rows, hrows, _⟩ := mapM_forall₂ _ _ e.agents hone
  rw [meanGaps, hrows]
  exact ⟨_, rfl⟩

theorem length_foldl_zipWith (rows : List (List Float)) (sums : List Float)
    (h : ∀ row ∈ rows, row.length = sums.length) :
    (rows.foldl (List.zipWith (· + ·)) sums).length = sums.length := by
  induction rows generalizing sums with
  | nil => rfl
  | cons row rest ih =>
    have hrow : (List.zipWith (· + ·) sums row).length = sums.length := by
      rw [List.length_zipWith, h row List.mem_cons_self, min_self]
    rw [List.foldl_cons, ih, hrow]
    intro row' hrow'
    rw [hrow]
    exact h row' (List.mem_cons_of_mem row hrow')

/-- There is one mean gap for every replication. -/
theorem length_meanGaps (e : Ensemble) (gaps : List Float) (h : e.meanGaps = .ok gaps) :
    gaps.length = e.replications := by
  obtain ⟨rows, hrows, h⟩ := (bind_eq_ok _ _ _).mp h
  -- every row has the gaps of one agent, on all replications
  have hrow : ∀ row ∈ rows, row.length = (List.replicate e.replications (0.0 : Float)).length := by
    intro row hmem
    obtain ⟨a, _, ha⟩ := exists_of_mem_forall₂ _ _ _ (forall₂_of_mapM _ _ _ hrows) row hmem
    rw [← (forall₂_of_mapM _ _ _ ha).length_eq, List.length_range, List.length_replicate]
  have hsums := length_foldl_zipWith rows _ hrow
  rw [List.length_replicate] at hsums
  rw [← Except.ok.inj h]
  split_ifs
  · exact hsums
  · rw [List.length_map, hsums]

/-- An estimate is made of an ensemble without defects, from the scores of its agents and the mean
gaps. -/
theorem estimate_eq_ok (e : Ensemble) (selfExclusion : Bool) (est : Estimate) :
    e.estimate selfExclusion = .ok est ↔ e.validate = .ok () ∧
      e.agents.zipIdx.mapM (fun (a, i) => scoreAgent selfExclusion e.replications i a) =
        .ok est.candidates ∧
      e.meanGaps = .ok est.meanGaps := by
  constructor
  · intro h
    obtain ⟨_, hv, h⟩ := (bind_eq_ok _ _ _).mp h
    obtain ⟨candidates, hcandidates, h⟩ := (bind_eq_ok _ _ _).mp h
    obtain ⟨gaps, hgaps, h⟩ := (bind_eq_ok _ _ _).mp h
    obtain rfl := Except.ok.inj h
    exact ⟨hv, hcandidates, hgaps⟩
  · rintro ⟨hv, hcandidates, hgaps⟩
    exact (bind_eq_ok _ _ _).mpr ⟨(), hv, (bind_eq_ok _ _ _).mpr ⟨_, hcandidates,
      (bind_eq_ok _ _ _).mpr ⟨_, hgaps, rfl⟩⟩⟩

/-- The candidates stand at the places of their agents, each with the mean gap of its agent. -/
theorem estimate_candidates (e : Ensemble) (selfExclusion : Bool) (est : Estimate)
    (h : e.estimate selfExclusion = .ok est) :
    est.candidates = e.agents.zipIdx.map fun p =>
      ⟨p.2, p.1.id, .ofResult (p.1.meanGap selfExclusion e.replications),
        eligible selfExclusion p.1.generating e.replications⟩ := by
  obtain ⟨hvalid, hcandidates, _⟩ := (e.estimate_eq_ok selfExclusion est).mp h
  have hall := (e.wellFormed_of_validate hvalid).agents
  have hscores := mapM_eq_ok
    (fun p => scoreAgent selfExclusion e.replications p.2 p.1) _ e.agents.zipIdx fun p hp =>
      scoreAgent_eq selfExclusion e.replications p.2 p.1
        (hall p.1 (List.mem_of_getElem? (List.mem_zipIdx_iff_getElem?.mp hp)))
  exact Except.ok.inj (hcandidates.symm.trans hscores)

/-- An ensemble without defects is scored, every candidate for an agent of its own. -/
theorem estimate_ok (e : Ensemble) (selfExclusion : Bool) (hv : e.validate = .ok ()) :
    ∃ est, e.estimate selfExclusion = .ok est ∧ est.candidates.length = e.agents.length ∧
      ∀ c ∈ est.candidates, e.Scored selfExclusion c := by
  have h := wellFormed_of_validate e hv
  have hone (p : Agent × ℕ) (hp : p ∈ e.agents.zipIdx) :
      ∃ c, scoreAgent selfExclusion e.replications p.2 p.1 = .ok c ∧ e.Scored selfExclusion c := by
    have hat := List.mem_zipIdx_iff_getElem?.mp hp
    exact ⟨_, scoreAgent_eq selfExclusion e.replications p.2 p.1
      (h.agents p.1 (List.mem_of_getElem? hat)), p.1, hat, rfl, rfl⟩
  obtain ⟨candidates, hcandidates, hall⟩ := mapM_forall₂ _ _ e.agents.zipIdx hone
  obtain ⟨gaps, hgaps⟩ := meanGaps_ok e h
  refine ⟨⟨candidates, gaps⟩, ?_, ?_, ?_⟩
  · exact (estimate_eq_ok e selfExclusion _).mpr ⟨hv, hcandidates, hgaps⟩
  · exact hall.length_eq.symm.trans List.length_zipIdx
  · intro c hc
    obtain ⟨p, _, hp⟩ := exists_of_mem_forall₂ _ _ _ hall c hc
    exact hp

end Ensemble
end Replanning
