import Replanning.Proofs.Decisions

namespace Replanning

/-- What a candidate is without the position of its agent. -/
def Candidate.content (c : Candidate) : String × Score × List ℕ :=
  (c.agent, c.score, c.eligible)

theorem notBehind_trans (a b c : Candidate) (hab : a.notBehind b = true)
    (hbc : b.notBehind c = true) : a.notBehind c = true := by
  unfold Candidate.notBehind at hab hbc ⊢
  exact decide_eq_true (UInt64.le_trans (of_decide_eq_true hbc) (of_decide_eq_true hab))

theorem notBehind_total (a b : Candidate) : (a.notBehind b || b.notBehind a) = true := by
  unfold Candidate.notBehind
  rw [Bool.or_eq_true, decide_eq_true_iff, decide_eq_true_iff]
  exact UInt64.le_total _ _

/-- A ranking goes down in the total order of scores. -/
theorem rank_pairwise (candidates : List Candidate) (s : RandomStream) :
    (rank candidates s).1.Pairwise fun a b => b.score.rank ≤ a.score.rank :=
  (List.pairwise_mergeSort notBehind_trans notBehind_total _).imp fun h => of_decide_eq_true h

/-- Scores that are all different leave one ranking. -/
theorem rank_content_eq (cs cs' : List Candidate) (s s' : RandomStream)
    (hsame : (cs.map Candidate.content).Perm (cs'.map Candidate.content))
    (hdistinct : (cs.map fun c => c.score.rank).Nodup) :
    (rank cs s).1.map Candidate.content = (rank cs' s').1.map Candidate.content := by
  have hleft := (rank_perm cs s).map Candidate.content
  have hright := (rank_perm cs' s').map Candidate.content
  have hperm := hleft.trans (hsame.trans hright.symm)
  have hdown (candidates : List Candidate) (stream : RandomStream) :
      ((rank candidates stream).1.map Candidate.content).Pairwise
        fun a b => b.2.1.rank ≤ a.2.1.rank :=
    List.pairwise_map.mpr (rank_pairwise candidates stream)
  -- a score stands in one place of the total order, and under it there is one candidate
  have hinj : (((rank cs s).1.map Candidate.content).map fun u => u.2.1.rank).Nodup := by
    rw [List.map_map, ((rank_perm cs s).map _).nodup_iff]
    exact hdistinct
  apply List.Perm.eq_of_pairwise _ (hdown cs s) (hdown cs' s') hperm
  intro u v hu hv huv hvu
  exact List.inj_on_of_nodup_map hinj hu (hperm.mem_iff.mpr hv) (UInt64.le_antisymm hvu huv)

/-- The content of the candidate of an agent. -/
def Agent.content (a : Agent) (selfExclusion : Bool) (replications : ℕ) :
    String × Score × List ℕ :=
  (a.id, .ofResult (a.meanGap selfExclusion replications),
    eligible selfExclusion a.generating replications)

namespace Ensemble

variable {e f : Ensemble} {selfExclusion : Bool}

theorem estimate_content (est : Estimate) (h : e.estimate selfExclusion = .ok est) :
    est.candidates.map Candidate.content =
      e.agents.map fun a => a.content selfExclusion e.replications := by
  rw [e.estimate_candidates selfExclusion est h, List.map_map]
  conv_rhs => rw [← List.zipIdx_map_fst 0 e.agents, List.map_map]
  rfl

/-- Agents that are listed in two ensembles are observed on as many replications in both. -/
theorem replications_eq (he : e.WellFormed) (hf : f.WellFormed) (h : e.agents.Perm f.agents)
    (hagents : e.agents ≠ []) : e.replications = f.replications := by
  obtain ⟨a, ha⟩ := List.exists_mem_of_ne_nil _ hagents
  exact (he.agents a ha).length.symm.trans (hf.agents a (h.mem_iff.mp ha)).length

/-- A candidate has the same load in every listing of the agents. -/
theorem load_eq (he : e.WellFormed) (h : e.agents.Perm f.agents) (countVacated : Bool)
    (c c' : Candidate) (hcontent : c.content = c'.content) (hc : e.Scored selfExclusion c)
    (hc' : f.Scored selfExclusion c') :
    (e.agentOf c >>= (c.load · countVacated)) = (f.agentOf c' >>= (c'.load · countVacated)) := by
  obtain ⟨a, hat, hid, _⟩ := hc
  obtain ⟨b, hat', hid', _⟩ := hc'
  obtain ⟨hname, hrest⟩ := Prod.mk.inj hcontent
  obtain ⟨hscore, heligible⟩ := Prod.mk.inj hrest
  -- names are unique, so both candidates stand for one agent
  have hab : a = b := List.inj_on_of_nodup_map he.ids (List.mem_of_getElem? hat)
    (h.mem_iff.mpr (List.mem_of_getElem? hat')) (hid.trans (hname.trans hid'.symm))
  rw [(e.agentOf_eq_ok c a).mpr ⟨hat, hid⟩, (f.agentOf_eq_ok c' b).mpr ⟨hat', hid'⟩, hab]
  change c.load b countVacated = c'.load b countVacated
  rw [Candidate.load, Candidate.load, hname, hscore, heligible]

theorem loads_eq (he : e.WellFormed) (h : e.agents.Perm f.agents) (countVacated : Bool)
    (ranked ranked' : List Candidate)
    (hcontent : ranked.map Candidate.content = ranked'.map Candidate.content)
    (hr : ∀ c ∈ ranked, e.Scored selfExclusion c) (hr' : ∀ c ∈ ranked', f.Scored selfExclusion c) :
    e.loads countVacated ranked = f.loads countVacated ranked' := by
  apply mapM_congr
  apply (forall₂_of_map_eq _ _ _ _ ranked ranked' hcontent hr hr').imp
  rintro c c' ⟨hsame, hc, hc'⟩
  exact load_eq he h countVacated c c' hsame hc hc'

end Ensemble

theorem Candidate.decide_eq (c c' : Candidate) (h : c.content = c'.content)
    (admitNegativeGaps accept : Bool) :
    c.decide admitNegativeGaps accept = c'.decide admitNegativeGaps accept := by
  obtain ⟨hname, hrest⟩ := Prod.mk.inj h
  obtain ⟨hscore, _⟩ := Prod.mk.inj hrest
  rw [Candidate.decide, Candidate.decide, hname, hscore]

/-- Two listings of the same agents have one ranking if the scores are all different. -/
theorem Ensemble.ranked_content_eq {e f : Ensemble} {selfExclusion : Bool} {est est' : Estimate}
    (h : e.agents.Perm f.agents) (hsize : e.replications = f.replications)
    (hest : e.estimate selfExclusion = .ok est) (hest' : f.estimate selfExclusion = .ok est')
    (hdistinct : (e.agents.map fun a =>
      (Score.ofResult (a.meanGap selfExclusion e.replications)).rank).Nodup) (s s' : RandomStream) :
    (rank est.candidates s).1.map Candidate.content =
      (rank est'.candidates s').1.map Candidate.content := by
  have hcontent := estimate_content est hest
  have hkeys := congrArg (List.map fun u => u.2.1.rank) hcontent
  rw [List.map_map, List.map_map] at hkeys
  apply rank_content_eq
  · rw [hcontent, estimate_content est' hest', hsize]
    exact h.map _
  · exact hkeys ▸ hdistinct

namespace Policy

/-- The best candidates are taken for their content. -/
theorem takeBest_eq (admitNegativeGaps : Bool) (left : ℕ) (cs cs' : List Candidate)
    (h : cs.map Candidate.content = cs'.map Candidate.content) :
    takeBest admitNegativeGaps left cs = takeBest admitNegativeGaps left cs' := by
  induction cs generalizing left cs' with
  | nil =>
    rw [List.map_nil, eq_comm, List.map_eq_nil_iff] at h
    rw [h]
  | cons c rest ih =>
    cases cs' with
    | nil => cases h
    | cons c' rest' =>
      obtain ⟨hc, hrest⟩ := List.cons.inj h
      rw [takeBest, takeBest, c.decide_eq c' hc, ih _ rest' hrest]

/-- A policy that does not draw selects by the content of the candidates. -/
theorem select_eq_of_listing (p : Policy) {e f : Ensemble} {selfExclusion : Bool}
    (hp : ∀ rate admitNegativeGaps, p ≠ .uniform rate admitNegativeGaps)
    (he : e.WellFormed) (h : e.agents.Perm f.agents) (hsize : e.replications = f.replications)
    (ranked ranked' : List Candidate)
    (hcontent : ranked.map Candidate.content = ranked'.map Candidate.content)
    (hr : ∀ c ∈ ranked, e.Scored selfExclusion c) (hr' : ∀ c ∈ ranked', f.Scored selfExclusion c)
    (t : UInt32) (s s' : RandomStream) (selection selection' : Selection)
    (stream stream' : RandomStream) (hs : p.select e ranked t s = .ok (selection, stream))
    (hs' : p.select f ranked' t s' = .ok (selection', stream')) : selection = selection' := by
  cases p with
  | trustRegion packer =>
    obtain ⟨loads, packed, hloads, hpack, rfl, _⟩ :=
      loads_of_select packer e ranked t s selection stream hs
    obtain ⟨loads', packed', hloads', hpack', rfl, _⟩ :=
      loads_of_select packer f ranked' t s' selection' stream' hs'
    rw [Ensemble.loads_eq he h packer.countVacatedSlots ranked ranked' hcontent hr hr'] at hloads
    obtain rfl := Except.ok.inj (hloads.symm.trans hloads')
    rw [hsize] at hpack
    obtain rfl := Except.ok.inj (hpack.symm.trans hpack')
    rfl
  | uniform rate admitNegativeGaps => exact absurd rfl (hp rate admitNegativeGaps)
  | topShare share admitNegativeGaps =>
    have hlength : ranked.length = ranked'.length := by
      simpa only [List.length_map] using congrArg List.length hcontent
    rw [← (Prod.mk.inj (Except.ok.inj hs)).1, ← (Prod.mk.inj (Except.ok.inj hs')).1, hlength,
      takeBest_eq admitNegativeGaps _ ranked ranked' hcontent]

end Policy

/-- The seed and the order of listing only break ties: where all scores are different, a policy that
does not draw decides two listings alike, from any streams. Only without agents may the ledgers
differ, in their number of rows. -/
theorem listing_breaks_ties (e f : Ensemble) (he : e.validate = .ok ()) (hf : f.validate = .ok ())
    (hperm : e.agents.Perm f.agents) (selfExclusion : Bool)
    (hdistinct : (e.agents.map fun a =>
      (Score.ofResult (a.meanGap selfExclusion e.replications)).rank).Nodup)
    (p : Policy) (hp : ∀ rate admitNegativeGaps, p ≠ .uniform rate admitNegativeGaps) (t : UInt32)
    (s s' : RandomStream) :
    ∃ est est', e.estimate selfExclusion = .ok est ∧ f.estimate selfExclusion = .ok est' ∧
      ∃ selection selection' stream stream',
        p.select e (rank est.candidates s).1 t (rank est.candidates s).2 = .ok (selection, stream) ∧
        p.select f (rank est'.candidates s').1 t (rank est'.candidates s').2 =
          .ok (selection', stream') ∧
        selection.decisions = selection'.decisions ∧ selection.accepted = selection'.accepted ∧
        ((e.agents = [] → e.replications = f.replications) →
          selection.ledger = selection'.ledger) := by
  have hwell := e.wellFormed_of_validate he
  have hwell' := f.wellFormed_of_validate hf
  obtain ⟨est, hest, hranked, selection, stream, hselect, hdecides⟩ :=
    e.decides_of_validate he selfExclusion p t s
  obtain ⟨est', hest', hranked', selection', stream', hselect', hdecides'⟩ :=
    f.decides_of_validate hf selfExclusion p t s'
  refine ⟨est, est', hest, hest', selection, selection', stream, stream', hselect, hselect', ?_⟩
  by_cases hsize : e.replications = f.replications
  · have hsame := Ensemble.ranked_content_eq hperm hsize hest hest' hdistinct s s'
    obtain rfl := p.select_eq_of_listing hp hwell hperm hsize _ _ hsame hranked hranked' t _ _
      selection selection' stream stream' hselect hselect'
    exact ⟨rfl, rfl, fun _ => rfl⟩
  -- ensembles of different sizes have no agents in common, so that nothing is decided
  · have hnone : e.agents = [] := by
      by_contra hsome
      exact hsize (Ensemble.replications_eq hwell hwell' hperm hsome)
    have hempty : selection.decisions = [] := by
      rw [← List.length_eq_zero_iff, hdecides.length_eq, e.length_ranked selfExclusion est hest,
        hnone, List.length_nil]
    have hempty' : selection'.decisions = [] := by
      rw [← List.length_eq_zero_iff, hdecides'.length_eq, f.length_ranked selfExclusion est' hest',
        ← hperm.length_eq, hnone, List.length_nil]
    refine ⟨hempty.trans hempty'.symm, ?_, fun hh => absurd (hh hnone) hsize⟩
    rw [Selection.accepted, Selection.accepted, Selection.withVerdict, Selection.withVerdict,
      hempty, hempty']

/-- The traffic, listed from its end. -/
def Ensemble.detour : Ensemble :=
  ⟨2, Ensemble.traffic.agents.reverse⟩

theorem listing_breaks_ties_detour :
    Ensemble.traffic.validate = .ok () ∧ Ensemble.detour.validate = .ok () ∧
    Ensemble.traffic.agents.Perm Ensemble.detour.agents ∧
    (Ensemble.traffic.agents.map fun a =>
      (Score.ofResult (a.meanGap true Ensemble.traffic.replications)).rank).Nodup ∧
    ∃ est est', Ensemble.traffic.estimate true = .ok est ∧
      Ensemble.detour.estimate true = .ok est' ∧ ∃ selection selection' stream stream',
        (Policy.trustRegion {}).select .traffic (rank est.candidates (.ofSeed 1)).1 1
          (rank est.candidates (.ofSeed 1)).2 = .ok (selection, stream) ∧
        (Policy.trustRegion {}).select .detour (rank est'.candidates (.ofSeed 99)).1 1
          (rank est'.candidates (.ofSeed 99)).2 = .ok (selection', stream') ∧
        selection.decisions = selection'.decisions ∧ selection.accepted = selection'.accepted ∧
        selection.ledger = selection'.ledger := by
  have hvalid : Ensemble.detour.validate = .ok () := eq_ok_of_isOk _ (by decide +kernel)
  have hperm : Ensemble.traffic.agents.Perm Ensemble.detour.agents := (List.reverse_perm _).symm
  have hdistinct : (Ensemble.traffic.agents.map fun a =>
      (Score.ofResult (a.meanGap true Ensemble.traffic.replications)).rank).Nodup := by
    decide +kernel
  obtain ⟨est, est', hest, hest', selection, selection', stream, stream', hselect, hselect',
    hdecisions, haccepted, hledger⟩ := listing_breaks_ties .traffic .detour
      Ensemble.traffic_valid hvalid hperm true hdistinct (.trustRegion {}) nofun 1 (.ofSeed 1)
      (.ofSeed 99)
  exact ⟨Ensemble.traffic_valid, hvalid, hperm, hdistinct, est, est', hest, hest', selection,
    selection', stream, stream', hselect, hselect', hdecisions, haccepted, hledger nofun⟩

theorem rank_nil (s : RandomStream) : rank [] s = ([], s) :=
  Prod.ext List.mergeSort_nil rfl

/-- Ensembles without agents list the same agents, and their ledgers have as many rows as they have
replications. -/
theorem listing_ledger_vacant :
    let e : Ensemble := ⟨1, []⟩
    let f : Ensemble := ⟨2, []⟩
    e.validate = .ok () ∧ f.validate = .ok () ∧ e.agents.Perm f.agents ∧
    (e.agents.map fun a => (Score.ofResult (a.meanGap true e.replications)).rank).Nodup ∧
    ∃ est est', e.estimate true = .ok est ∧ f.estimate true = .ok est' ∧
      ∃ selection selection' stream stream',
        (Policy.trustRegion {}).select e (rank est.candidates (.ofSeed 1)).1 1
          (rank est.candidates (.ofSeed 1)).2 = .ok (selection, stream) ∧
        (Policy.trustRegion {}).select f (rank est'.candidates (.ofSeed 1)).1 1
          (rank est'.candidates (.ofSeed 1)).2 = .ok (selection', stream') ∧
        selection.ledger ≠ selection'.ledger := by
  refine ⟨rfl, rfl, .refl _, .nil, ⟨[], [0.0]⟩, ⟨[], [0.0, 0.0]⟩, rfl, rfl,
    ⟨"trust_region", [], some (.empty 1)⟩, ⟨"trust_region", [], some (.empty 2)⟩, .ofSeed 1,
    .ofSeed 1, ?_, ?_, by decide⟩
  · rw [rank_nil]
    rfl
  · rw [rank_nil]
    rfl

end Replanning
