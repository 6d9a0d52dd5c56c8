import Replanning.Proofs.Binary64.Positive
import Replanning.Proofs.Decisions

/-! A mean gap may be undefined: scores are finite one by one, their differences need not be, and an
infinite gain and an infinite loss have no sum. -/
namespace Replanning

/-- Self-exclusion leaves some of the replications. -/
theorem eligible_length_bounds (selfExclusion : Bool) (generating : Option ℕ) (replications : ℕ)
    (h : 1 ≤ replications) :
    1 ≤ (eligible selfExclusion generating replications).length ∧
      (eligible selfExclusion generating replications).length ≤ replications := by
  have hall : 1 ≤ (List.range replications).length ∧
      (List.range replications).length ≤ replications := by
    rw [List.length_range]
    exact ⟨h, le_refl _⟩
  cases generating with
  | none => exact hall
  | some g =>
    unfold eligible
    dsimp only
    split_ifs with hself
    · have hmany : 1 < replications := of_decide_eq_true (Bool.and_eq_true _ _ ▸ hself).2
      -- the plan was not made for both of the first two replications
      have hleft : ∃ r, r < replications ∧ r ≠ g := by
        by_cases hg : g = 0
        · exact ⟨1, hmany, by omega⟩
        · exact ⟨0, h, Ne.symm hg⟩
      obtain ⟨r, hr, hne⟩ := hleft
      have hmem : r ∈ (List.range replications).filter (· ≠ g) :=
        List.mem_filter.mpr ⟨List.mem_range.mpr hr, decide_eq_true hne⟩
      exact ⟨List.length_pos_of_mem hmem, (List.length_filter_le _ _).trans hall.2⟩
    · exact hall

namespace Agent

/-- The gaps that an agent is scored by, in the order in which they are summed up. -/
def scoredGaps (a : Agent) (selfExclusion : Bool) (replications : ℕ) : List Float :=
  (eligible selfExclusion a.generating replications).map a.gap

theorem isNaN_gap (a : Agent) (replications : ℕ) (h : a.WellFormed replications) (r : ℕ)
    (hr : r < replications) : (a.gap r).isNaN = false := by
  obtain ⟨o, ho, hfinite⟩ := h.observed r hr
  obtain ⟨hcurrent, hcandidate⟩ := Bool.and_eq_true _ _ ▸ hfinite
  rw [gap, ho]
  exact isNaN_sub_of_finite o.candidateScore o.currentScore hcandidate hcurrent

/-- The mean gap of an agent is undefined exactly if infinite gains and losses collide in its sum. -/
theorem isNaN_meanGap_iff (a : Agent) (selfExclusion : Bool) (replications : ℕ)
    (h : a.WellFormed replications) (h1 : 1 ≤ replications) (hsize : replications < 2^64) :
    (a.meanGap selfExclusion replications).isNaN = true ↔
      Collides 0.0 (a.scoredGaps selfExclusion replications) := by
  obtain ⟨hpos, hle⟩ := eligible_length_bounds selfExclusion a.generating replications h1
  unfold meanGap
  dsimp only
  rw [isNaN_div_ofCount _ _ hpos (by omega)]
  apply isNaN_foldl_iff _ _ (by decide)
  intro gap hgap
  obtain ⟨r, hr, rfl⟩ := List.mem_map.mp hgap
  exact a.isNaN_gap replications h r (lt_of_mem_eligible _ _ _ r hr)

end Agent

/-- A decision is on an agent of the ensemble, under its own mean gap. -/
theorem Selection.Decides.exists_agent {s : Selection} {e : Ensemble} {selfExclusion : Bool}
    {est : Estimate} {stream : RandomStream} (h : s.Decides (rank est.candidates stream).1)
    (hest : e.estimate selfExclusion = .ok est) (d : Decision) (hd : d ∈ s.decisions) :
    ∃ a ∈ e.agents, d.agent = a.id ∧ d.score = a.meanGap selfExclusion e.replications := by
  have hperm := (rank_perm est.candidates stream).map fun c => (c.agent, c.score.toFloat)
  rw [e.estimate_scores selfExclusion est hest, ← h] at hperm
  obtain ⟨a, ha, hpair⟩ := List.mem_map.mp (hperm.mem_iff.mp (List.mem_map_of_mem hd))
  obtain ⟨hid, hscore⟩ := Prod.mk.inj hpair
  exact ⟨a, ha, hid.symm, hscore.symm⟩

/-- Where gaps below zero are not admitted, every policy returns and accepts none. The gap of an
accepted agent is at least zero exactly if infinite gains and losses do not collide in its sum. -/
theorem accepted_gap_nonneg (e : Ensemble) (he : e.validate = .ok ())
    (hsize : e.replications < 2^64) (selfExclusion : Bool) (p : Policy)
    (hp : p.admitsNegativeGaps = false) (t : UInt32) (s : RandomStream) :
    ∃ est, e.estimate selfExclusion = .ok est ∧ ∃ selection stream,
      p.select e (rank est.candidates s).1 t (rank est.candidates s).2 = .ok (selection, stream) ∧
      ∀ d ∈ selection.decisions, d.verdict = .accepted → ¬d.score < 0.0 ∧
        ∃ a ∈ e.agents, d.agent = a.id ∧ d.score = a.meanGap selfExclusion e.replications ∧
          (0.0 ≤ d.score ↔ ¬Collides 0.0 (a.scoredGaps selfExclusion e.replications)) ∧
          ((∀ gap ∈ a.scoredGaps selfExclusion e.replications, gap.isFinite = true) →
            0.0 ≤ d.score) := by
  have hwell := e.wellFormed_of_validate he
  obtain ⟨est, hest, _, selection, stream, hselect, hdecides⟩ :=
    e.decides_of_validate he selfExclusion p t s
  refine ⟨est, hest, selection, stream, hselect, ?_⟩
  intro d hd haccepted
  -- below zero there is another verdict
  have hnot : ¬d.score < 0.0 := by
    intro hneg
    have hrefused := (p.select_signed e _ t _ selection stream hselect d hd).mpr ⟨hp, hneg⟩
    rw [haccepted] at hrefused
    cases hrefused
  obtain ⟨a, ha, hid, hscore⟩ := hdecides.exists_agent hest d hd
  have hexact : 0.0 ≤ d.score ↔ ¬Collides 0.0 (a.scoredGaps selfExclusion e.replications) := by
    rw [zero_le_iff_of_not_lt d.score hnot, hscore, ← Bool.not_eq_true,
      a.isNaN_meanGap_iff selfExclusion e.replications (hwell.agents a ha) hwell.replications hsize]
  exact ⟨hnot, a, ha, hid, hscore, hexact,
    fun hfinite => hexact.mpr (not_collides_of_finite _ _ hfinite)⟩

/-- Some decision of a policy on an ensemble has a property. -/
def Policy.decidesSome (p : Policy) (e : Ensemble) (selfExclusion : Bool) (t : UInt32)
    (s : RandomStream) (found : Decision → Bool) : Bool :=
  (e.estimate selfExclusion).toOption.any fun est =>
    (p.select e (rank est.candidates s).1 t (rank est.candidates s).2).toOption.any
      fun selected => selected.1.decisions.any found

theorem Policy.exists_of_decidesSome (p : Policy) (e : Ensemble) (selfExclusion : Bool) (t : UInt32)
    (s : RandomStream) (found : Decision → Bool) (est : Estimate) (selection : Selection)
    (stream : RandomStream) (h : p.decidesSome e selfExclusion t s found = true)
    (hest : e.estimate selfExclusion = .ok est)
    (hselect : p.select e (rank est.candidates s).1 t (rank est.candidates s).2 =
      .ok (selection, stream)) :
    ∃ d ∈ selection.decisions, found d = true := by
  rw [decidesSome, hest] at h
  change (p.select _ _ _ _).toOption.any _ = true at h
  rw [hselect] at h
  exact List.any_eq_true.mp h

/-- An agent that would gain 3.4e308 on both replications, which is beyond the doubles. -/
def Ensemble.windfall : Ensemble :=
  let plan : Observation := ⟨-1.7e308, 1.7e308, [], []⟩
  ⟨2, [⟨"x", none, [some plan, some plan]⟩]⟩

/-- Infinite gains alone do not collide. -/
theorem accepted_gap_nonneg_windfall :
    Ensemble.windfall.validate = .ok () ∧ Ensemble.windfall.replications < 2^64 ∧
    (Policy.topShare 1.0 false).admitsNegativeGaps = false ∧
    ∃ est, Ensemble.windfall.estimate true = .ok est ∧ ∃ selection stream,
      (Policy.topShare 1.0 false).select .windfall (rank est.candidates (.ofSeed 1)).1 1
        (rank est.candidates (.ofSeed 1)).2 = .ok (selection, stream) ∧
      (∃ d ∈ selection.decisions, d.verdict = .accepted) ∧
      ∀ d ∈ selection.decisions, d.verdict = .accepted → 0.0 ≤ d.score := by
  have hvalid : Ensemble.windfall.validate = .ok () := eq_ok_of_isOk _ (by decide +kernel)
  obtain ⟨est, hest, selection, stream, hselect, hnonneg⟩ := accepted_gap_nonneg .windfall hvalid
    (by decide) true (.topShare 1.0 false) rfl 1 (.ofSeed 1)
  obtain ⟨d, hd, haccepted⟩ := Policy.exists_of_decidesSome (.topShare 1.0 false) .windfall true 1
    (.ofSeed 1) (fun d => d.verdict = .accepted) est selection stream (by decide +kernel) hest
    hselect
  have hdefined : ∀ a ∈ Ensemble.windfall.agents,
      ¬Collides 0.0 (a.scoredGaps true Ensemble.windfall.replications) := by
    decide +kernel
  refine ⟨hvalid, by decide, rfl, est, hest, selection, stream, hselect,
    ⟨d, hd, of_decide_eq_true haccepted⟩, ?_⟩
  intro d' hd' haccepted'
  obtain ⟨_, a, ha, _, _, hexact, _⟩ := hnonneg d' hd' haccepted'
  exact hexact.mpr (hdefined a ha)

/-- An agent that would gain 1.9e308 on one replication and lose 3.4e308 on the other. -/
def Ensemble.extremes : Ensemble :=
  ⟨2, [⟨"x", none, [some ⟨-2e307, 1.7e308, [], []⟩, some ⟨1.7e308, -1.7e308, [], []⟩]⟩]⟩

/-- A plan that is worse on the whole is accepted, since its mean gap is no number. -/
theorem worsening_accepted_extremes :
    Ensemble.extremes.validate = .ok () ∧ (Policy.trustRegion {}).admitsNegativeGaps = false ∧
    ∃ est, Ensemble.extremes.estimate true = .ok est ∧ ∃ selection stream,
      (Policy.trustRegion {}).select .extremes (rank est.candidates (.ofSeed 1)).1 16
        (rank est.candidates (.ofSeed 1)).2 = .ok (selection, stream) ∧
      ∃ d ∈ selection.decisions, d.verdict = .accepted ∧ ¬0.0 ≤ d.score := by
  have hvalid : Ensemble.extremes.validate = .ok () := eq_ok_of_isOk _ (by decide +kernel)
  obtain ⟨est, hest, selection, stream, hselect, _⟩ := Ensemble.extremes.select_of_validate hvalid
    true (.trustRegion {}) 16 (.ofSeed 1)
  obtain ⟨d, hd, hlost⟩ := Policy.exists_of_decidesSome (.trustRegion {}) .extremes true 16
    (.ofSeed 1) (fun d => d.verdict = .accepted ∧ ¬0.0 ≤ d.score) est selection stream
    (by decide +kernel) hest hselect
  exact ⟨hvalid, rfl, est, hest, selection, stream, hselect, d, hd, of_decide_eq_true hlost⟩

end Replanning
