import Replanning.Proofs.Engine
import Replanning.Proofs.Policy

namespace Replanning

theorem Ensemble.estimate_of_invalid (e : Ensemble) (selfExclusion : Bool) (cause : EnsembleError)
    (hv : e.validate = .error cause) : e.estimate selfExclusion = .error cause := by
  rw [estimate, hv]
  rfl

namespace Engine

variable {σ : Type}

theorem decide_of_size (engine : Engine σ) (e : Ensemble)
    (hr : e.replications ≠ engine.controller.regime.replications.toNat) :
    engine.decide e =
      .error (.ensembleSizeMismatch engine.controller.regime.replications e.replications) := by
  rw [decide]
  exact if_pos hr

theorem decide_of_invalid (engine : Engine σ) (e : Ensemble) (cause : EnsembleError)
    (hr : e.replications = engine.controller.regime.replications.toNat)
    (hv : e.validate = .error cause) : engine.decide e = .error (.ensemble cause) := by
  rw [decide, e.estimate_of_invalid _ cause hv]
  exact if_neg (not_not.mpr hr)

/-- An ensemble of the right size and without defects is decided on, agent by agent. -/
theorem decide_ok (engine : Engine σ) (e : Ensemble)
    (hr : e.replications = engine.controller.regime.replications.toNat)
    (hv : e.validate = .ok ()) :
    ∃ gaps selection stream, engine.decide e = .ok (gaps, selection, stream) ∧
      selection.decisions.length = e.agents.length := by
  obtain ⟨est, hest, selection, stream, hselect, hlength⟩ :=
    e.select_of_validate hv engine.config.selfExclusion engine.config.policy
      engine.controller.regime.trustRegion engine.stream
  refine ⟨est.meanGaps, selection, stream, ?_, hlength⟩
  exact (guard_eq_ok _ _ _ _ _).mpr ⟨not_not.mpr hr, (bind_eq_ok _ _ _).mpr
    ⟨est, (mapError_eq_ok _ _ _).mpr hest,
      (bind_eq_ok _ _ _).mpr ⟨_, (mapError_eq_ok _ _ _).mpr hselect, rfl⟩⟩⟩

/-- A selection has one decision for every agent. -/
theorem decide_length (engine : Engine σ) (e : Ensemble) (gaps : List Float)
    (selection : Selection) (stream : RandomStream)
    (h : engine.decide e = .ok (gaps, selection, stream)) :
    selection.decisions.length = e.agents.length := by
  obtain ⟨hsize, est, hest, _, _⟩ := decide_eq_ok engine e gaps selection stream h
  obtain ⟨hvalid, _⟩ := (e.estimate_eq_ok _ est).mp hest
  obtain ⟨gaps', selection', stream', h', hlength⟩ := decide_ok engine e hsize hvalid
  have hparts := Except.ok.inj (h.symm.trans h')
  obtain ⟨_, rfl, _⟩ := Prod.mk.injEq .. ▸ hparts
  exact hlength

variable [EventSink σ]

/-- Without a decision nothing happens. -/
theorem run_of_error (engine : Engine σ) (e : Ensemble) (cause : EngineError)
    (h : engine.decide e = .error cause) : engine.run e = (.error cause, engine) := by
  rw [run_eq, h]

/-- Once there is a decision, the sink alone can refuse. -/
theorem run_of_ok (engine : Engine σ) (e : Ensemble) (gaps : List Float) (selection : Selection)
    (stream : RandomStream) (h : engine.decide e = .ok (gaps, selection, stream)) :
    (∃ result, (engine.run e).1 = .ok result) ∨
      ∃ kind i reason, (engine.run e).1 = .error (.sink kind i reason) := by
  rw [run_eq, h]
  dsimp only
  split
  · exact Or.inl ⟨_, rfl⟩
  · exact Or.inr ⟨_, _, _, rfl⟩

/-- Everything that a call can come to. -/
theorem run_cases (engine : Engine σ) (e : Ensemble) :
    (e.replications ≠ engine.controller.regime.replications.toNat ∧
      engine.run e = (.error (.ensembleSizeMismatch engine.controller.regime.replications
        e.replications), engine)) ∨
    (e.replications = engine.controller.regime.replications.toNat ∧
      ∃ cause, e.validate = .error cause ∧
        engine.run e = (.error (.ensemble cause), engine)) ∨
    (e.replications = engine.controller.regime.replications.toNat ∧ e.validate = .ok () ∧
      ((∃ result, (engine.run e).1 = .ok result) ∨
        ∃ kind i reason, (engine.run e).1 = .error (.sink kind i reason))) := by
  by_cases hr : e.replications = engine.controller.regime.replications.toNat
  · apply Or.inr
    cases hv : e.validate with
    | error cause =>
      exact Or.inl ⟨hr, cause, rfl,
        run_of_error engine e _ (decide_of_invalid engine e cause hr hv)⟩
    | ok _ =>
      obtain ⟨gaps, selection, stream, hd, _⟩ := decide_ok engine e hr hv
      exact Or.inr ⟨hr, rfl, run_of_ok engine e gaps selection stream hd⟩
  · exact Or.inl ⟨hr, run_of_error engine e _ (decide_of_size engine e hr)⟩

/-- A call is refused for the size exactly if the ensemble does not have the replication count in
force, and the refusal names both counts. -/
theorem run_mismatch_iff (engine : Engine σ) (e : Ensemble) (expected : UInt64) (actual : ℕ) :
    (engine.run e).1 = .error (.ensembleSizeMismatch expected actual) ↔
      e.replications ≠ engine.controller.regime.replications.toNat ∧
        expected = engine.controller.regime.replications ∧ actual = e.replications := by
  rcases run_cases engine e with
    ⟨hr, hrun⟩ | ⟨hr, cause, _, hrun⟩ | ⟨hr, _, ⟨result, hrun⟩ | ⟨kind, i, reason, hrun⟩⟩
  · rw [hrun]
    constructor
    · intro h
      cases h
      exact ⟨hr, rfl, rfl⟩
    · rintro ⟨_, rfl, rfl⟩
      rfl
  -- with the right size there is another outcome
  · simp only [hrun, hr, Except.error.injEq, reduceCtorEq, ne_eq, not_true_eq_false, false_and]
  · simp only [hrun, hr, reduceCtorEq, ne_eq, not_true_eq_false, false_and]
  · simp only [hrun, hr, Except.error.injEq, reduceCtorEq, ne_eq, not_true_eq_false, false_and]

/-- An ensemble of the right size is refused exactly for the defect that validation names. -/
theorem run_ensemble_iff (engine : Engine σ) (e : Ensemble) (cause : EnsembleError) :
    (engine.run e).1 = .error (.ensemble cause) ↔
      e.replications = engine.controller.regime.replications.toNat ∧
        e.validate = .error cause := by
  rcases run_cases engine e with
    ⟨hr, hrun⟩ | ⟨hr, cause', hv, hrun⟩ | ⟨hr, hv, ⟨result, hrun⟩ | ⟨kind, i, reason, hrun⟩⟩
  · simp only [hrun, hr, Except.error.injEq, reduceCtorEq, false_and]
  -- the defect that was found is the one that validation named
  · simp only [hrun, hr, hv, Except.error.injEq, EngineError.ensemble.injEq, true_and]
  · simp only [hrun, hv, reduceCtorEq, and_false]
  · simp only [hrun, hv, Except.error.injEq, reduceCtorEq, and_false]

/-- A call that is not refused for its ensemble returns a result or the refusal of the sink. -/
theorem run_decided_iff (engine : Engine σ) (e : Ensemble) :
    ((∃ result, (engine.run e).1 = .ok result) ∨
        ∃ kind i reason, (engine.run e).1 = .error (.sink kind i reason)) ↔
      e.replications = engine.controller.regime.replications.toNat ∧ e.validate = .ok () := by
  rcases run_cases engine e with ⟨hr, hrun⟩ | ⟨_, cause, hv, hrun⟩ | ⟨hr, hv, hresult⟩
  · simp only [hrun, hr, Except.error.injEq, reduceCtorEq, exists_false, or_self, false_and]
  · simp only [hrun, hv, Except.error.injEq, reduceCtorEq, exists_false, or_self, and_false]
  · exact iff_of_true hresult ⟨hr, hv⟩

/-- A result is returned exactly if the ensemble is not refused and the sink takes the events. -/
theorem run_result_iff (engine : Engine σ) (e : Ensemble) :
    (∃ result, (engine.run e).1 = .ok result) ↔
      e.replications = engine.controller.regime.replications.toNat ∧ e.validate = .ok () ∧
        (offer (engine.emitted e) engine.sink).1 = .ok () := by
  constructor
  · rintro ⟨result, hresult⟩
    obtain ⟨hr, hv⟩ := (run_decided_iff engine e).mp (Or.inl ⟨result, hresult⟩)
    refine ⟨hr, hv, ?_⟩
    obtain ⟨gaps, selection, stream, hd, _⟩ := decide_ok engine e hr hv
    rw [run_eq, hd] at hresult
    rw [emitted, hd]
    dsimp only at hresult ⊢
    split at hresult
    · assumption
    · cases hresult
  · rintro ⟨hr, hv, hoffer⟩
    obtain ⟨gaps, selection, stream, hd, _⟩ := decide_ok engine e hr hv
    rw [emitted, hd] at hoffer
    rw [run_eq, hd]
    dsimp only at hoffer ⊢
    rw [hoffer]
    exact ⟨_, rfl⟩

/-- A refused ensemble leaves the engine with its sink as it was. -/
theorem run_unchanged (engine : Engine σ) (e : Ensemble)
    (h : e.replications ≠ engine.controller.regime.replications.toNat ∨ e.validate ≠ .ok ()) :
    (engine.run e).2 = engine := by
  rcases run_cases engine e with ⟨_, hrun⟩ | ⟨_, _, _, hrun⟩ | ⟨hr, hv, _⟩
  · rw [hrun]
  · rw [hrun]
  · exact absurd h (not_or.mpr ⟨not_not.mpr hr, not_not.mpr hv⟩)

/-- Failed iterations are atomic, and there are no others: in any state a call is refused for the
size, else for the first defect, and the engine is as it was; or it has a result, which only the sink
can withhold. -/
theorem run_atomic (engine : Engine σ) (e : Ensemble) :
    (∀ expected actual, (engine.run e).1 = .error (.ensembleSizeMismatch expected actual) ↔
      e.replications ≠ engine.controller.regime.replications.toNat ∧
        expected = engine.controller.regime.replications ∧ actual = e.replications) ∧
    (∀ cause, (engine.run e).1 = .error (.ensemble cause) ↔
      e.replications = engine.controller.regime.replications.toNat ∧ e.validate = .error cause) ∧
    (((∃ result, (engine.run e).1 = .ok result) ∨
        ∃ kind i reason, (engine.run e).1 = .error (.sink kind i reason)) ↔
      e.replications = engine.controller.regime.replications.toNat ∧ e.validate = .ok ()) ∧
    ((∃ result, (engine.run e).1 = .ok result) ↔
      e.replications = engine.controller.regime.replications.toNat ∧ e.validate = .ok () ∧
        (offer (engine.emitted e) engine.sink).1 = .ok ()) ∧
    (e.replications ≠ engine.controller.regime.replications.toNat ∨ e.validate ≠ .ok () →
      (engine.run e).2 = engine) ∧
    ∀ (p : Policy) (selfExclusion : Bool) (t : UInt32) (s : RandomStream), e.validate = .ok () →
      ∃ est, e.estimate selfExclusion = .ok est ∧ ∃ selection stream,
        p.select e (rank est.candidates s).1 t (rank est.candidates s).2 =
          .ok (selection, stream) := by
  refine ⟨run_mismatch_iff engine e, run_ensemble_iff engine e, run_decided_iff engine e,
    run_result_iff engine e, run_unchanged engine e, ?_⟩
  intro p selfExclusion t s hv
  obtain ⟨est, hest, selection, stream, hselect, _⟩ := e.select_of_validate hv selfExclusion p t s
  exact ⟨est, hest, selection, stream, hselect⟩

end Engine

/-- One agent that was seen on the first of two replications only. -/
def Ensemble.incomplete : Ensemble :=
  ⟨2, [⟨"x", none, [some ⟨0.0, 1.0, [], []⟩, none]⟩]⟩

theorem Engine.run_atomic_incomplete :
    Ensemble.incomplete.validate ≠ .ok () ∧ Ensemble.rivals.validate = .ok () ∧
    ((Engine.initial {} EventLog.empty).run .incomplete).1 =
      .error (.ensemble (.missingReplication "x" 1)) ∧
    ((Engine.initial {} EventLog.empty).run .incomplete).2 = Engine.initial {} EventLog.empty ∧
    ∃ est, Ensemble.rivals.estimate true = .ok est ∧ ∃ selection stream,
      (Policy.uniform 0.5 false).select .rivals (rank est.candidates (.ofSeed 1)).1 8
        (rank est.candidates (.ofSeed 1)).2 = .ok (selection, stream) := by
  have hdefect : Ensemble.incomplete.validate = .error (.missingReplication "x" 1) := by
    decide +kernel
  have hinvalid : Ensemble.incomplete.validate ≠ .ok () := by
    rw [hdefect]
    exact fun h => nomatch h
  obtain ⟨_, hensemble, _, _, hunchanged, _⟩ :=
    Engine.run_atomic (Engine.initial {} EventLog.empty) .incomplete
  obtain ⟨_, _, _, _, _, hpolicy⟩ := Engine.run_atomic (Engine.initial {} EventLog.empty) .rivals
  exact ⟨hinvalid, Ensemble.rivals_valid, (hensemble _).mpr ⟨rfl, hdefect⟩,
    hunchanged (Or.inr hinvalid),
    hpolicy (.uniform 0.5 false) true 8 (.ofSeed 1) Ensemble.rivals_valid⟩

end Replanning
