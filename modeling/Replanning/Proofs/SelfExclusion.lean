import Replanning.Proofs.Policy

namespace Replanning

/-- Two agents that only the replication of their plan may tell apart. -/
structure Agent.AgreesOutside (a b : Agent) : Prop where
  id : a.id = b.id
  generating : a.generating = b.generating
  observation : ∀ r, a.generating ≠ some r → a.observation? r = b.observation? r

structure Ensemble.AgreesOutside (e f : Ensemble) : Prop where
  replications : e.replications = f.replications
  agents : List.Forall₂ Agent.AgreesOutside e.agents f.agents

/-- No agent is scored on the replication of its plan while there is another one. -/
theorem generating_ne_of_mem_eligible (generating : Option ℕ) (replications r : ℕ)
    (hn : 1 < replications) (hr : r ∈ eligible true generating replications) :
    generating ≠ some r := by
  rintro rfl
  have hself : true && decide (1 < replications) := by
    rw [Bool.true_and]
    exact decide_eq_true hn
  rw [eligible, if_pos hself] at hr
  have hne : decide (r ≠ r) = true := (List.mem_filter.mp hr).2
  exact of_decide_eq_true hne rfl

namespace Agent.AgreesOutside

variable {a b : Agent} {replications : ℕ}

theorem require_eq (h : a.AgreesOutside b) (hn : 1 < replications) (r : ℕ)
    (hr : r ∈ eligible true a.generating replications) : a.require r = b.require r := by
  have hne := generating_ne_of_mem_eligible a.generating replications r hn hr
  rw [Agent.require, Agent.require, h.observation r hne, h.id]

/-- The score of an agent does not depend on the replication of its plan. -/
theorem scoreAgent_eq (h : a.AgreesOutside b) (hn : 1 < replications) (index : ℕ) :
    scoreAgent true replications index a = scoreAgent true replications index b := by
  have hgaps : a.gaps (eligible true a.generating replications) =
      b.gaps (eligible true a.generating replications) := by
    apply mapM_congr
    apply List.forall₂_same.mpr
    intro r hr
    rw [h.require_eq hn r hr]
  rw [scoreAgent, scoreAgent, ← h.generating, hgaps, h.id]

/-- Neither do the slots that a candidate is packed with. -/
theorem load_eq (h : a.AgreesOutside b) (hn : 1 < replications) (c : Candidate)
    (hc : c.eligible = eligible true a.generating replications) (countVacated : Bool) :
    c.load a countVacated = c.load b countVacated := by
  rw [Candidate.load, Candidate.load]
  congr 1
  apply mapM_congr
  apply List.forall₂_same.mpr
  intro r hr
  rw [h.require_eq hn r (hc ▸ hr)]

end Agent.AgreesOutside

namespace Ensemble.AgreesOutside

variable {e f : Ensemble}

theorem zipIdx_agrees (as bs : List Agent) (h : List.Forall₂ Agent.AgreesOutside as bs) (k : ℕ) :
    List.Forall₂ (fun p q => p.1.AgreesOutside q.1 ∧ p.2 = q.2) (as.zipIdx k) (bs.zipIdx k) := by
  induction h generalizing k with
  | nil => exact List.Forall₂.nil
  | cons hab _ ih => exact List.Forall₂.cons ⟨hab, rfl⟩ (ih (k+1))

/-- The candidates are the same, though the mean gaps of the population need not be. -/
theorem candidates_eq (h : e.AgreesOutside f) (hn : 1 < e.replications) (est est' : Estimate)
    (he : e.estimate true = .ok est) (hf : f.estimate true = .ok est') :
    est.candidates = est'.candidates := by
  obtain ⟨_, hscores, _⟩ := (e.estimate_eq_ok true est).mp he
  obtain ⟨_, hscores', _⟩ := (f.estimate_eq_ok true est').mp hf
  have hsame : e.agents.zipIdx.mapM (fun p => scoreAgent true e.replications p.2 p.1) =
      f.agents.zipIdx.mapM (fun p => scoreAgent true f.replications p.2 p.1) := by
    apply mapM_congr
    apply (zipIdx_agrees e.agents f.agents h.agents 0).imp
    rintro ⟨a, i⟩ ⟨b, j⟩ ⟨hab, rfl⟩
    rw [← h.replications]
    exact hab.scoreAgent_eq hn i
  exact Except.ok.inj (hscores.symm.trans (hsame.trans hscores'))

/-- A scored candidate stands for agents of both ensembles that agree. -/
theorem agentOf_agrees (h : e.AgreesOutside f) (c : Candidate) (hc : e.Scored true c) :
    ∃ a b, e.agentOf c = .ok a ∧ f.agentOf c = .ok b ∧ a.AgreesOutside b ∧
      c.eligible = eligible true a.generating e.replications := by
  obtain ⟨a, hat, hid, heligible⟩ := hc
  obtain ⟨hi, ha⟩ := List.getElem?_eq_some_iff.mp hat
  have hi' : c.index < f.agents.length := h.agents.length_eq ▸ hi
  have hagree := h.agents.get hi hi'
  rw [List.get_eq_getElem, List.get_eq_getElem, ha] at hagree
  exact ⟨a, f.agents[c.index], (e.agentOf_eq_ok c a).mpr ⟨hat, hid⟩,
    (f.agentOf_eq_ok c _).mpr ⟨List.getElem?_eq_getElem hi', hagree.id.symm.trans hid⟩, hagree,
    heligible⟩

theorem loads_eq (h : e.AgreesOutside f) (hn : 1 < e.replications) (countVacated : Bool)
    (ranked : List Candidate) (hr : ∀ c ∈ ranked, e.Scored true c) :
    e.loads countVacated ranked = f.loads countVacated ranked := by
  apply mapM_congr
  apply List.forall₂_same.mpr
  intro c hc
  obtain ⟨a, b, ha, hb, hagree, heligible⟩ := h.agentOf_agrees c (hr c hc)
  rw [ha, hb]
  exact hagree.load_eq hn c heligible countVacated

theorem select_eq (h : e.AgreesOutside f) (hn : 1 < e.replications) (p : Policy)
    (ranked : List Candidate) (hr : ∀ c ∈ ranked, e.Scored true c) (t : UInt32) (s : RandomStream) :
    p.select e ranked t s = p.select f ranked t s := by
  cases p with
  | trustRegion packer =>
    rw [Policy.select, Policy.select, h.loads_eq hn packer.countVacatedSlots ranked hr,
      h.replications]
  -- the other policies do not look at the ensemble
  | uniform rate admitNegativeGaps => rfl
  | topShare share admitNegativeGaps => rfl

end Ensemble.AgreesOutside

/-- Self-exclusion hides the generating replication: two ensembles without defects that differ only
there, and have other replications, are ranked the same and decided the same by every policy. -/
theorem selfExclusion_hides (e f : Ensemble) (h : e.AgreesOutside f) (hn : 1 < e.replications)
    (he : e.validate = .ok ()) (hf : f.validate = .ok ()) :
    ∃ est est', e.estimate true = .ok est ∧ f.estimate true = .ok est' ∧
      est.candidates = est'.candidates ∧
      ∀ s, rank est.candidates s = rank est'.candidates s ∧
        ∀ (p : Policy) (t : UInt32), ∃ selection stream,
          p.select e (rank est.candidates s).1 t (rank est.candidates s).2 =
            .ok (selection, stream) ∧
          p.select f (rank est'.candidates s).1 t (rank est'.candidates s).2 =
            .ok (selection, stream) := by
  obtain ⟨est, hest, _, hall⟩ := e.estimate_ok true he
  obtain ⟨est', hest', _, _⟩ := f.estimate_ok true hf
  have hsame := h.candidates_eq hn est est' hest hest'
  refine ⟨est, est', hest, hest', hsame, ?_⟩
  intro s
  rw [← hsame]
  refine ⟨rfl, ?_⟩
  intro p t
  have hranked := e.scored_rank true est.candidates s hall
  obtain ⟨selection, stream, hselect, _⟩ :=
    p.select_ok e (e.wellFormed_of_validate he) true _ hranked t (rank est.candidates s).2
  exact ⟨selection, stream, hselect, h.select_eq hn p _ hranked t _ ▸ hselect⟩

namespace Ensemble

/-- The rivals, of whom the first one sees much more in the plan on the replication that it was made
for, and other slots. -/
def boast : Ensemble :=
  let plan (gain : Float) : Observation := ⟨0.0, gain, [], [⟨"link", 7⟩]⟩
  ⟨2, [⟨"a", some 0, [some ⟨5.0, 900.0, [⟨"link", 7⟩], [⟨"node", 1⟩]⟩, some (plan 2.0)]⟩,
    ⟨"b", none, [some (plan 3.0), some (plan 1.0)]⟩]⟩

theorem rivals_agrees_boast : rivals.AgreesOutside boast where
  replications := rfl
  agents := by
    refine .cons ⟨rfl, rfl, ?_⟩ (.cons ⟨rfl, rfl, fun _ _ => rfl⟩ .nil)
    intro r hr
    cases r with
    | zero => exact absurd rfl hr
    | succ r => rfl

end Ensemble

theorem selfExclusion_hides_boast :
    Ensemble.rivals.AgreesOutside .boast ∧ Ensemble.rivals.validate = .ok () ∧
    Ensemble.boast.validate = .ok () ∧
    ∃ est est', Ensemble.rivals.estimate true = .ok est ∧ Ensemble.boast.estimate true = .ok est' ∧
      est.candidates = est'.candidates ∧ ∃ selection stream,
        (Policy.trustRegion {}).select .rivals (rank est.candidates (.ofSeed 1)).1 1
          (rank est.candidates (.ofSeed 1)).2 = .ok (selection, stream) ∧
        (Policy.trustRegion {}).select .boast (rank est'.candidates (.ofSeed 1)).1 1
          (rank est'.candidates (.ofSeed 1)).2 = .ok (selection, stream) := by
  have hboast : Ensemble.boast.validate = .ok () := eq_ok_of_isOk _ (by decide +kernel)
  obtain ⟨est, est', hest, hest', hsame, hrun⟩ :=
    selfExclusion_hides .rivals .boast Ensemble.rivals_agrees_boast (by decide)
      Ensemble.rivals_valid hboast
  exact ⟨Ensemble.rivals_agrees_boast, Ensemble.rivals_valid, hboast, est, est', hest, hest', hsame,
    (hrun (.ofSeed 1)).2 (.trustRegion {}) 1⟩

-- without self-exclusion the boast counts
example : (Ensemble.rivals.estimate false).map Estimate.candidates ≠
    (Ensemble.boast.estimate false).map Estimate.candidates := by
  decide +kernel

end Replanning
