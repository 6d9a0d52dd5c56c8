import Replanning.Proofs.Packing
import Replanning.Proofs.RandomStream
import Replanning.Proofs.Score

namespace Replanning

/-- What packing needs of the load of a candidate: its name and score, and for every replication of
its score one footprint in range. -/
structure Load.Carries (load : Load) (c : Candidate) (replications : ℕ) : Prop where
  agent : load.agent = c.agent
  score : load.score = c.score.toFloat
  simple : load.Simple
  range : ∀ f ∈ load.footprints, f.1 < replications
  length : load.footprints.length = c.eligible.length

/-- A candidate stands for the agent at its position if the names agree. -/
theorem Ensemble.agentOf_eq_ok (e : Ensemble) (c : Candidate) (a : Agent) :
    e.agentOf c = .ok a ↔ e.agents[c.index]? = some a ∧ a.id = c.agent := by
  unfold agentOf
  constructor
  · intro h
    split at h
    · split_ifs at h with hid
      obtain rfl := Except.ok.inj h
      exact ⟨by assumption, hid⟩
    · cases h
  · rintro ⟨hat, hid⟩
    rw [hat]
    exact if_pos hid

/-- A scored candidate names an agent of the ensemble that is observed wherever it was scored. -/
theorem load_ok (e : Ensemble) (h : e.WellFormed) (selfExclusion countVacated : Bool)
    (c : Candidate) (hc : e.Scored selfExclusion c) :
    ∃ a load, e.agentOf c = .ok a ∧ c.load a countVacated = .ok load ∧
      load.Carries c e.replications := by
  obtain ⟨a, hat, hid, heligible⟩ := hc
  have hlt (r : ℕ) (hr : r ∈ c.eligible) : r < e.replications :=
    lt_of_mem_eligible selfExclusion a.generating e.replications r (heligible ▸ hr)
  have hone (r : ℕ) (hr : r ∈ c.eligible) :
      ∃ f, (do let o ← a.require r
               return (r, footprint o.currentSlots o.candidateSlots countVacated)) = .ok f ∧
        r = f.1 ∧ f.2.Nodup := by
    obtain ⟨o, ho, _⟩ := (h.agents a (List.mem_of_getElem? hat)).observed r (hlt r hr)
    rw [a.require_of_observed r o ho]
    exact ⟨_, rfl, rfl, footprint_nodup _ _ _⟩
  obtain ⟨footprints, hload, hall⟩ := mapM_forall₂ _ _ c.eligible hone
  -- the footprints stand at the places of the eligible replications
  have hfst : footprints.map Prod.fst = c.eligible := by
    have hh := map_eq_of_forall₂ id Prod.fst _ _ (hall.imp fun _ _ hp => hp.1)
    rw [← hh, List.map_id]
  refine ⟨a, ⟨c.agent, c.score.toFloat, footprints⟩, (e.agentOf_eq_ok c a).mpr ⟨hat, hid⟩,
    (bind_eq_ok _ _ _).mpr ⟨footprints, hload, rfl⟩, rfl, rfl, ⟨?_, ?_⟩, ?_, hall.length_eq.symm⟩
  · change (footprints.map Prod.fst).Nodup
    rw [hfst, heligible]
    exact eligible_nodup _ _ _
  · intro f hf
    obtain ⟨r, _, hp⟩ := exists_of_mem_forall₂ _ _ _ hall f hf
    exact hp.2
  · intro f hf
    obtain ⟨r, hr, hp⟩ := exists_of_mem_forall₂ _ _ _ hall f hf
    rw [← hp.1]
    exact hlt r hr

theorem Ensemble.loads_ok (e : Ensemble) (h : e.WellFormed) (selfExclusion countVacated : Bool)
    (ranked : List Candidate) (hr : ∀ c ∈ ranked, e.Scored selfExclusion c) :
    ∃ loads, e.loads countVacated ranked = .ok loads ∧
      List.Forall₂ (fun c load => load.Carries c e.replications) ranked loads := by
  apply mapM_forall₂
  intro c hc
  obtain ⟨a, load, ha, hload, hcarries⟩ := load_ok e h selfExclusion countVacated c (hr c hc)
  exact ⟨load, (bind_eq_ok _ _ _).mpr ⟨a, ha, hload⟩, hcarries⟩

/-- The loads stand under the names and scores of their candidates. -/
theorem names_of_carries (ranked : List Candidate) (loads : List Load) (replications : ℕ)
    (h : List.Forall₂ (fun c load => load.Carries c replications) ranked loads) :
    loads.map (fun load => (load.agent, load.score)) =
      ranked.map fun c => (c.agent, c.score.toFloat) :=
  (map_eq_of_forall₂ _ _ _ _ (h.imp fun _ _ hcarries =>
    Prod.ext hcarries.agent.symm hcarries.score.symm)).symm

/-- The decisions are on the ranked candidates, each under its name and score and in their order. -/
def Selection.Decides (s : Selection) (ranked : List Candidate) : Prop :=
  s.decisions.map (fun d => (d.agent, d.score)) = ranked.map fun c => (c.agent, c.score.toFloat)

theorem Selection.Decides.length_eq {s : Selection} {ranked : List Candidate}
    (h : s.Decides ranked) : s.decisions.length = ranked.length := by
  have hh := congrArg List.length h
  rwa [List.length_map, List.length_map] at hh

/-- Every decision has one of the four verdicts. -/
theorem Selection.count_sum (s : Selection) :
    s.count .accepted + s.count .rejectedInfeasible + s.count .rejectedNegativeGap +
      s.count .rejectedByPolicy = s.decisions.length := by
  unfold count withVerdict
  induction s.decisions with
  | nil => rfl
  | cons d rest ih =>
    simp only [List.filter_cons, List.length_cons]
    cases d.verdict <;>
      simp only [decide_true, decide_false, reduceCtorEq, ↓reduceIte, Bool.false_eq_true,
        List.length_cons] <;> omega

namespace PackerConfig

theorem step_decides (config : PackerConfig) (t : UInt32) (l : Ledger) (c : Load) :
    ((config.step t l c).1.agent, (config.step t l c).1.score) = (c.agent, c.score) := by
  unfold step
  dsimp only
  split_ifs <;> rfl

theorem steps_decides (config : PackerConfig) (t : UInt32) (l : Ledger) (cs : List Load) :
    (config.steps t l cs).1.map (fun d => (d.agent, d.score)) =
      cs.map fun c => (c.agent, c.score) := by
  induction cs generalizing l with
  | nil => rfl
  | cons c rest ih =>
    rw [steps, List.map_cons, List.map_cons, ih, step_decides]

/-- A pass that returns has one decision for every load, under its name and score. -/
theorem pack_decides (config : PackerConfig) (t : UInt32) (replications : ℕ) (cs : List Load)
    (packed : List Decision × Ledger) (h : config.pack cs t replications = .ok packed) :
    packed.1.map (fun d => (d.agent, d.score)) = cs.map fun c => (c.agent, c.score) := by
  rw [config.pack_eq_ok t replications cs packed h]
  exact config.steps_decides t (.empty replications) cs

end PackerConfig

namespace Policy

theorem drawAll_decides (rate : Float) (admitNegativeGaps : Bool) (candidates : List Candidate)
    (s : RandomStream) :
    (drawAll rate admitNegativeGaps candidates s).1.map (fun d => (d.agent, d.score)) =
      candidates.map fun c => (c.agent, c.score.toFloat) := by
  induction candidates generalizing s with
  | nil => rfl
  | cons c rest ih =>
    rw [drawAll, List.map_cons, List.map_cons, ih]
    rfl

theorem takeBest_decides (admitNegativeGaps : Bool) (left : ℕ) (candidates : List Candidate) :
    (takeBest admitNegativeGaps left candidates).map (fun d => (d.agent, d.score)) =
      candidates.map fun c => (c.agent, c.score.toFloat) := by
  induction candidates generalizing left with
  | nil => rfl
  | cons c rest ih =>
    rw [takeBest, List.map_cons, List.map_cons, ih]
    rfl

/-- The policy draws, once for every candidate. -/
def draws : Policy → Bool
  | .uniform .. => true
  | _ => false

theorem drawAll_stream (rate : Float) (admitNegativeGaps : Bool) (candidates : List Candidate)
    (s : RandomStream) :
    (drawAll rate admitNegativeGaps candidates s).2 = .skip candidates.length s := by
  induction candidates generalizing s with
  | nil => rfl
  | cons c rest ih => exact ih s.next.2

/-- A trust region selects what its packer makes of the loads. -/
theorem select_of_loads (packer : PackerConfig) (e : Ensemble) (ranked : List Candidate)
    (t : UInt32) (s : RandomStream) (loads : List Load) (packed : List Decision × Ledger)
    (hloads : e.loads packer.countVacatedSlots ranked = .ok loads)
    (hpack : packer.pack loads t e.replications = .ok packed) :
    (trustRegion packer).select e ranked t s =
      .ok (⟨(trustRegion packer).name, packed.1, some packed.2⟩, s) := by
  rw [select, hloads]
  exact (bind_eq_ok _ _ _).mpr ⟨loads, rfl, (bind_eq_ok _ _ _).mpr ⟨packed, hpack, rfl⟩⟩

/-- What a trust region selects is what its packer has made of the loads, and nothing is drawn. -/
theorem loads_of_select (packer : PackerConfig) (e : Ensemble) (ranked : List Candidate)
    (t : UInt32) (s : RandomStream) (selection : Selection) (stream : RandomStream)
    (h : (trustRegion packer).select e ranked t s = .ok (selection, stream)) :
    ∃ loads packed, e.loads packer.countVacatedSlots ranked = .ok loads ∧
      packer.pack loads t e.replications = .ok packed ∧
      selection = ⟨(trustRegion packer).name, packed.1, some packed.2⟩ ∧ stream = s := by
  obtain ⟨loads, hloads, h⟩ := (bind_eq_ok _ _ _).mp h
  obtain ⟨packed, hpack, h⟩ := (bind_eq_ok _ _ _).mp h
  have hparts := Prod.mk.inj (Except.ok.inj h)
  exact ⟨loads, packed, hloads, hpack, hparts.1.symm, hparts.2.symm⟩

/-- A selection that is returned has taken as many draws as there are candidates, or none. -/
theorem select_stream (p : Policy) (e : Ensemble) (ranked : List Candidate) (t : UInt32)
    (s : RandomStream) (selection : Selection) (stream : RandomStream)
    (h : p.select e ranked t s = .ok (selection, stream)) :
    stream = .skip (if p.draws then ranked.length else 0) s := by
  cases p with
  | trustRegion packer =>
    obtain ⟨_, _, _, _, _, hstream⟩ := loads_of_select packer e ranked t s selection stream h
    exact hstream
  | uniform rate admitNegativeGaps =>
    rw [← (Prod.mk.inj (Except.ok.inj h)).2]
    exact drawAll_stream rate admitNegativeGaps ranked s
  | topShare share admitNegativeGaps => exact (Prod.mk.inj (Except.ok.inj h)).2.symm

/-- No policy fails on scored candidates, and each of them gets one decision. -/
theorem select_ok (p : Policy) (e : Ensemble) (h : e.WellFormed) (selfExclusion : Bool)
    (ranked : List Candidate) (hr : ∀ c ∈ ranked, e.Scored selfExclusion c) (t : UInt32)
    (s : RandomStream) :
    ∃ selection stream, p.select e ranked t s = .ok (selection, stream) ∧
      selection.Decides ranked := by
  cases p with
  | trustRegion packer =>
    obtain ⟨loads, hloads, hall⟩ := e.loads_ok h selfExclusion packer.countVacatedSlots ranked hr
    have hrange : ∀ load ∈ loads, ∀ f ∈ load.footprints, f.1 < e.replications := by
      intro load hl
      obtain ⟨c, _, hcarries⟩ := exists_of_mem_forall₂ _ _ _ hall load hl
      exact hcarries.range
    have hpack := packer.pack_ok t e.replications loads hrange
    exact ⟨_, s, select_of_loads packer e ranked t s loads _ hloads hpack,
      (packer.pack_decides t e.replications loads _ hpack).trans
        (names_of_carries ranked loads e.replications hall)⟩
  | uniform rate admitNegativeGaps =>
    exact ⟨_, _, rfl, drawAll_decides rate admitNegativeGaps ranked s⟩
  | topShare share admitNegativeGaps =>
    exact ⟨_, _, rfl, takeBest_decides admitNegativeGaps _ ranked⟩

end Policy

/-- Ranking moves the candidates about, and each of them is scored as it was. -/
theorem Ensemble.scored_rank (e : Ensemble) (selfExclusion : Bool) (candidates : List Candidate)
    (s : RandomStream) (h : ∀ c ∈ candidates, e.Scored selfExclusion c) :
    ∀ c ∈ (rank candidates s).1, e.Scored selfExclusion c := by
  intro c hc
  exact h c ((mem_rank candidates s c).mp hc)

/-- There are as many candidates as agents in every ranking. -/
theorem Ensemble.length_ranked (e : Ensemble) (selfExclusion : Bool) (est : Estimate)
    (h : e.estimate selfExclusion = .ok est) (s : RandomStream) :
    (rank est.candidates s).1.length = e.agents.length := by
  rw [(rank_perm est.candidates s).length_eq, e.estimate_candidates selfExclusion est h,
    List.length_map, List.length_zipIdx]

/-- An ensemble without defects is scored, and whatever the policy, its ranked candidates are decided
on. -/
theorem Ensemble.decides_of_validate (e : Ensemble) (he : e.validate = .ok ())
    (selfExclusion : Bool) (p : Policy) (t : UInt32) (s : RandomStream) :
    ∃ est, e.estimate selfExclusion = .ok est ∧
      (∀ c ∈ (rank est.candidates s).1, e.Scored selfExclusion c) ∧ ∃ selection stream,
      p.select e (rank est.candidates s).1 t (rank est.candidates s).2 = .ok (selection, stream) ∧
        selection.Decides (rank est.candidates s).1 := by
  obtain ⟨est, hest, _, hall⟩ := e.estimate_ok selfExclusion he
  have hranked := e.scored_rank selfExclusion est.candidates s hall
  exact ⟨est, hest, hranked,
    p.select_ok e (e.wellFormed_of_validate he) selfExclusion _ hranked t (rank est.candidates s).2⟩

/-- All agents of an ensemble without defects are decided on. -/
theorem Ensemble.select_of_validate (e : Ensemble) (he : e.validate = .ok ()) (selfExclusion : Bool)
    (p : Policy) (t : UInt32) (s : RandomStream) :
    ∃ est, e.estimate selfExclusion = .ok est ∧ ∃ selection stream,
      p.select e (rank est.candidates s).1 t (rank est.candidates s).2 = .ok (selection, stream) ∧
        selection.decisions.length = e.agents.length := by
  obtain ⟨est, hest, _, selection, stream, hselect, hdecides⟩ :=
    e.decides_of_validate he selfExclusion p t s
  exact ⟨est, hest, selection, stream, hselect,
    hdecides.length_eq.trans (e.length_ranked selfExclusion est hest s)⟩

end Replanning
