import Replanning.Proofs.Binary64.Count
import Replanning.Proofs.Policy

namespace Replanning

/-- A computed score is kept as it is. -/
theorem Score.toFloat_ofResult (x : Float) : (Score.ofResult x).toFloat = x := by
  unfold toFloat ofResult
  dsimp only
  split_ifs with h
  · change x.toModel.unpack.isNaN = true at h
    -- there is one double that is not a number
    have hu : x.toModel.unpack = .notANumber := by
      cases hu : x.toModel.unpack with
      | notANumber => rfl
      | infinity s => rw [hu] at h; cases h
      | zero s => rw [hu] at h; cases h
      | finite s m e hp => rw [hu] at h; cases h
    have hx := pack_unpack_toModel x
    rw [hu] at hx
    exact congrArg Float.ofModel hx
  · exact x.ofBits_toBits

/-- The candidates are the agents under their mean gaps. -/
theorem Ensemble.estimate_scores (e : Ensemble) (selfExclusion : Bool) (est : Estimate)
    (h : e.estimate selfExclusion = .ok est) :
    est.candidates.map (fun c => (c.agent, c.score.toFloat)) =
      e.agents.map fun a => (a.id, a.meanGap selfExclusion e.replications) := by
  rw [e.estimate_candidates selfExclusion est h, List.map_map]
  conv_rhs => rw [← List.zipIdx_map_fst 0 e.agents, List.map_map]
  apply List.map_congr_left
  intro p _
  exact congrArg (p.1.id, ·) (Score.toFloat_ofResult _)

/-- The policy accepts gaps below zero as it accepts others. -/
def Policy.admitsNegativeGaps : Policy → Bool
  | .trustRegion packer => packer.admitNegativeGaps
  | .uniform _ admitNegativeGaps => admitNegativeGaps
  | .topShare _ admitNegativeGaps => admitNegativeGaps

/-- A gap below zero is refused as such, and nothing else is, unless such gaps are admitted. -/
def Decision.Signed (admitNegativeGaps : Bool) (d : Decision) : Prop :=
  d.verdict = .rejectedNegativeGap ↔ admitNegativeGaps = false ∧ d.score < 0.0

theorem refused_iff (admitNegativeGaps : Bool) (score : Float) :
    (!admitNegativeGaps && score < 0.0) = true ↔ admitNegativeGaps = false ∧ score < 0.0 := by
  simp only [Bool.and_eq_true, Bool.not_eq_true', decide_eq_true_eq]

theorem Decision.signed_of_refused {admitNegativeGaps : Bool} {d : Decision}
    (hv : d.verdict = .rejectedNegativeGap) (h : (!admitNegativeGaps && d.score < 0.0) = true) :
    d.Signed admitNegativeGaps :=
  iff_of_true hv ((refused_iff _ _).mp h)

theorem Decision.signed_of_kept {admitNegativeGaps : Bool} {d : Decision}
    (hv : d.verdict ≠ .rejectedNegativeGap) (h : ¬ (!admitNegativeGaps && d.score < 0.0) = true) :
    d.Signed admitNegativeGaps :=
  iff_of_false hv (mt (refused_iff _ _).mpr h)

theorem Candidate.decide_signed (c : Candidate) (admitNegativeGaps accept : Bool) :
    (c.decide admitNegativeGaps accept).Signed admitNegativeGaps := by
  unfold Candidate.decide Score.isNegative
  dsimp only
  split_ifs with hneg haccept
  · exact Decision.signed_of_refused rfl hneg
  · exact Decision.signed_of_kept nofun hneg
  · exact Decision.signed_of_kept nofun hneg

namespace PackerConfig

theorem step_signed (config : PackerConfig) (t : UInt32) (l : Ledger) (c : Load) :
    (config.step t l c).1.Signed config.admitNegativeGaps := by
  obtain ⟨hneg, hstep⟩ | ⟨hkept, ⟨_, hstep⟩ | ⟨_, ⟨_, hstep⟩ | ⟨_, hstep⟩⟩⟩ := config.step_cases t l c
  · rw [hstep]
    exact Decision.signed_of_refused rfl hneg
  -- the sign is not looked at again
  all_goals
    rw [hstep]
    exact Decision.signed_of_kept nofun hkept

theorem steps_signed (config : PackerConfig) (t : UInt32) (l : Ledger) (cs : List Load) :
    ∀ d ∈ (config.steps t l cs).1, d.Signed config.admitNegativeGaps := by
  induction cs generalizing l with
  | nil => exact fun d hd => absurd hd List.not_mem_nil
  | cons c rest ih =>
    rw [steps]
    exact List.forall_mem_cons.mpr ⟨config.step_signed t l c, ih (config.step t l c).2⟩

end PackerConfig

namespace Policy

theorem drawAll_signed (rate : Float) (admitNegativeGaps : Bool) (candidates : List Candidate)
    (s : RandomStream) :
    ∀ d ∈ (drawAll rate admitNegativeGaps candidates s).1, d.Signed admitNegativeGaps := by
  induction candidates generalizing s with
  | nil => exact fun d hd => absurd hd List.not_mem_nil
  | cons c rest ih =>
    rw [drawAll]
    exact List.forall_mem_cons.mpr ⟨c.decide_signed admitNegativeGaps _, ih _⟩

theorem takeBest_signed (admitNegativeGaps : Bool) (left : ℕ) (candidates : List Candidate) :
    ∀ d ∈ takeBest admitNegativeGaps left candidates, d.Signed admitNegativeGaps := by
  induction candidates generalizing left with
  | nil => exact fun d hd => absurd hd List.not_mem_nil
  | cons c rest ih =>
    rw [takeBest]
    exact List.forall_mem_cons.mpr ⟨c.decide_signed admitNegativeGaps _, ih _⟩

/-- Whatever the policy, the sign of a gap is judged alike. -/
theorem select_signed (p : Policy) (e : Ensemble) (ranked : List Candidate) (t : UInt32)
    (s : RandomStream) (selection : Selection) (stream : RandomStream)
    (h : p.select e ranked t s = .ok (selection, stream)) :
    ∀ d ∈ selection.decisions, d.Signed p.admitsNegativeGaps := by
  cases p with
  | trustRegion packer =>
    obtain ⟨loads, packed, _, hpack, rfl, _⟩ :=
      loads_of_select packer e ranked t s selection stream h
    obtain rfl := packer.pack_eq_ok t e.replications loads packed hpack
    exact packer.steps_signed t _ loads
  | uniform rate admitNegativeGaps =>
    cases h
    exact drawAll_signed rate admitNegativeGaps ranked s
  | topShare share admitNegativeGaps =>
    cases h
    exact takeBest_signed admitNegativeGaps _ ranked

end Policy

namespace Selection

/-- The accepted agents, without their order. -/
def acceptedSet (s : Selection) : Finset String :=
  s.accepted.toFinset

theorem Decides.agents {s : Selection} {ranked : List Candidate} (h : s.Decides ranked) :
    s.decisions.map Decision.agent = ranked.map Candidate.agent :=
  map_fst_eq _ _ _ _ _ _ h

/-- Exactly the agents with this verdict are named as accepted. -/
theorem mem_accepted_iff (s : Selection) (name : String) :
    name ∈ s.accepted ↔ ∃ d ∈ s.decisions, d.verdict = .accepted ∧ d.agent = name := by
  simp only [accepted, withVerdict, List.mem_map, List.mem_filter, decide_eq_true_eq, and_assoc]

theorem accepted_sublist (s : Selection) :
    s.accepted.Sublist (s.decisions.map Decision.agent) :=
  List.filter_sublist.map _

end Selection

/-- The agents stand under different names in every order of the candidates. -/
theorem Ensemble.nodup_ranked (e : Ensemble) (selfExclusion : Bool) (est : Estimate)
    (h : e.estimate selfExclusion = .ok est) (s : RandomStream) :
    ((rank est.candidates s).1.map Candidate.agent).Nodup := by
  have hagents : est.candidates.map Candidate.agent = e.agents.map Agent.id :=
    map_fst_eq _ _ _ _ _ _ (e.estimate_scores selfExclusion est h)
  rw [((rank_perm est.candidates s).map Candidate.agent).nodup_iff]
  obtain ⟨hvalid, _⟩ := (e.estimate_eq_ok selfExclusion est).mp h
  exact hagents ▸ (e.wellFormed_of_validate hvalid).ids

/-- Every agent of an ensemble without defects is decided once, under its own mean gap and in the
order of the ranking, whatever the policy is; the accepted ones are those with this verdict. -/
theorem agents_decided_once (e : Ensemble) (he : e.validate = .ok ()) (selfExclusion : Bool)
    (p : Policy) (t : UInt32) (s : RandomStream) :
    ∃ est, e.estimate selfExclusion = .ok est ∧ ∃ selection stream,
      p.select e (rank est.candidates s).1 t (rank est.candidates s).2 = .ok (selection, stream) ∧
      selection.Decides (rank est.candidates s).1 ∧
      (selection.decisions.map fun d => (d.agent, d.score)).Perm
        (e.agents.map fun a => (a.id, a.meanGap selfExclusion e.replications)) ∧
      (∀ name, name ∈ selection.accepted ↔
        ∃ d ∈ selection.decisions, d.verdict = .accepted ∧ d.agent = name) ∧
      selection.accepted.Nodup ∧
      selection.accepted.Sublist ((rank est.candidates s).1.map Candidate.agent) ∧
      selection.acceptedSet.card = selection.accepted.length ∧
      selection.count .accepted + selection.count .rejectedInfeasible +
        selection.count .rejectedNegativeGap + selection.count .rejectedByPolicy =
          e.agents.length ∧
      ∀ d ∈ selection.decisions, d.verdict = .rejectedNegativeGap ↔
        p.admitsNegativeGaps = false ∧ d.score < 0.0 := by
  obtain ⟨est, hest, hlength, hall⟩ := e.estimate_ok selfExclusion he
  have hranked := e.scored_rank selfExclusion est.candidates s hall
  obtain ⟨selection, stream, hselect, hdecides⟩ :=
    p.select_ok e (e.wellFormed_of_validate he) selfExclusion _ hranked t (rank est.candidates s).2
  have hsub := hdecides.agents ▸ selection.accepted_sublist
  have hnodup := hsub.nodup (e.nodup_ranked selfExclusion est hest s)
  -- ranking moves the candidates about, and each takes its name and score with it
  have hperm := (rank_perm est.candidates s).map fun c => (c.agent, c.score.toFloat)
  refine ⟨est, hest, selection, stream, hselect, hdecides, ?_, selection.mem_accepted_iff, hnodup,
    hsub, List.toFinset_card_of_nodup hnodup, ?_,
    p.select_signed e _ t _ selection stream hselect⟩
  · rw [hdecides, ← e.estimate_scores selfExclusion est hest]
    exact hperm
  · calc _ = selection.decisions.length := selection.count_sum
      _ = (rank est.candidates s).1.length := hdecides.length_eq
      _ = est.candidates.length := (rank_perm est.candidates s).length_eq
      _ = e.agents.length := hlength

theorem agents_decided_once_traffic :
    Ensemble.traffic.validate = .ok () ∧ ∃ est, Ensemble.traffic.estimate true = .ok est ∧
    ∃ selection stream, (Policy.topShare 0.5 false).select .traffic
        (rank est.candidates (.ofSeed 1)).1 1 (rank est.candidates (.ofSeed 1)).2 =
          .ok (selection, stream) ∧
      (selection.decisions.map fun d => (d.agent, d.score)).Perm
        [("a", 2.0), ("b", -0.25), ("c", 3.0)] ∧
      selection.accepted.Nodup ∧ selection.acceptedSet.card = selection.accepted.length ∧
      selection.count .accepted + selection.count .rejectedInfeasible +
        selection.count .rejectedNegativeGap + selection.count .rejectedByPolicy = 3 := by
  obtain ⟨est, hest, selection, stream, hselect, _, hperm, _, hnodup, _, hcard, hcount, _⟩ :=
    agents_decided_once .traffic Ensemble.traffic_valid true (.topShare 0.5 false) 1 (.ofSeed 1)
  have hscores : Ensemble.traffic.agents.map
      (fun a => (a.id, a.meanGap true Ensemble.traffic.replications)) =
        [("a", 2.0), ("b", -0.25), ("c", 3.0)] := by
    decide +kernel
  exact ⟨Ensemble.traffic_valid, est, hest, selection, stream, hselect, hscores ▸ hperm, hnodup,
    hcard, hcount⟩

end Replanning
