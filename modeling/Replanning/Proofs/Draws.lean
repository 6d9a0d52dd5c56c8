import Replanning.Proofs.Iteration

/-! A decision takes a number of draws that follows from the number of agents, whatever their scores
are, and a refused ensemble takes none. -/
namespace Replanning
namespace Engine

variable {σ τ : Type}

/-- The ensemble has the replication count in force and no defect. -/
def admits (engine : Engine σ) (e : Ensemble) : Bool :=
  e.replications == engine.controller.regime.replications.toNat && e.validate.isOk

theorem admits_iff (engine : Engine σ) (e : Ensemble) :
    engine.admits e = true ↔
      e.replications = engine.controller.regime.replications.toNat ∧ e.validate = .ok () := by
  rw [admits, Bool.and_eq_true, beq_iff_eq]
  apply and_congr_right
  intro _
  constructor
  · exact eq_ok_of_isOk e.validate
  · intro hv
    rw [hv]
    rfl

variable [EventSink σ] [EventSink τ]

/-- The numbers of agents of the ensembles that the calls of a run admit, call by call. -/
def populations : Engine σ → List Ensemble → List ℕ
  | _, [] => []
  | engine, e :: rest =>
    if engine.admits e then e.agents.length :: (engine.run e).2.populations rest
    else (engine.run e).2.populations rest

/-- A call that does not admit its ensemble changes nothing. -/
theorem run_refused (engine : Engine σ) (e : Ensemble) (h : ¬ engine.admits e = true) :
    (engine.run e).2 = engine :=
  run_unchanged engine e (not_and_or.mp (mt (admits_iff engine e).mpr h))

/-- One call draws for the agents of an ensemble that it admits, and else not at all. -/
theorem run_stream (engine : Engine σ) (e : Ensemble) :
    (engine.run e).2.stream =
      .skip (if engine.admits e then engine.config.draws e.agents.length else 0) engine.stream := by
  by_cases h : engine.admits e = true
  · obtain ⟨hsize, hvalid⟩ := (admits_iff engine e).mp h
    obtain ⟨gaps, selection, stream, hd, _⟩ := decide_ok engine e hsize hvalid
    have hstream := decide_stream engine e gaps selection stream hd
    rw [if_pos h, run_eq, hd]
    exact hstream
  · rw [if_neg h, run_refused engine e h]
    rfl

/-- A run takes the draws of the populations that it admits. -/
theorem after_stream (engine : Engine σ) (history : List Ensemble) :
    (engine.after history).stream =
      .skip ((engine.populations history).map engine.config.draws).sum engine.stream := by
  induction history generalizing engine with
  | nil => rfl
  | cons e rest ih =>
    -- the draws of the call come before those of the rest, which has the same policy
    change ((engine.run e).2.after rest).stream = _
    rw [ih, config_run, run_stream, RandomStream.skip_skip, populations]
    split_ifs with h
    · rw [List.map_cons, List.sum_cons]
    · rw [Nat.zero_add]

/-- The random stream does not depend on the data: behind any run it is the one of the seed,
advanced by the draws of the admitted populations. So two runs from one seed whose policies draw alike
have the same stream behind populations of the same sizes. -/
theorem stream_of_populations (c : EngineConfig) (sink : σ) (start : Engine σ)
    (hstart : create c sink = .ok start) (history : List Ensemble) :
    (start.after history).stream =
      .skip ((start.populations history).map fun n =>
        (n - 1) + if c.policy.draws then n else 0).sum (.ofSeed c.seed) ∧
    (∀ e, (start.after history).admits e = true ↔
      (∃ result, ((start.after history).run e).1 = .ok result) ∨
        ∃ kind i reason, ((start.after history).run e).1 = .error (.sink kind i reason)) ∧
    ∀ (c' : EngineConfig) (sink' : τ), c'.seed = c.seed → c'.policy.draws = c.policy.draws →
      ∀ start', create c' sink' = .ok start' →
        ∀ history', (start'.populations history').Perm (start.populations history) →
          (start'.after history').stream = (start.after history).stream := by
  obtain ⟨_, _, rfl⟩ := (create_eq_ok_iff c sink start).mp hstart
  have hstream := after_stream (initial c sink) history
  refine ⟨hstream, ?_, ?_⟩
  · intro e
    exact (admits_iff _ e).trans (run_decided_iff _ e).symm
  · intro c' sink' hseed hpolicy start' hstart' history' hsizes
    obtain ⟨_, _, rfl⟩ := (create_eq_ok_iff c' sink' start').mp hstart'
    have hstream' := after_stream (initial c' sink') history'
    have hdraws : c'.draws = c.draws := by
      funext n
      rw [EngineConfig.draws, EngineConfig.draws, hpolicy]
    calc
      _ = .skip (((initial c' sink').populations history').map c.draws).sum (.ofSeed c.seed) := by
        rw [hstream', ← hseed, ← hdraws]
        rfl
      _ = .skip (((initial c sink).populations history).map c.draws).sum (.ofSeed c.seed) := by
        rw [(hsizes.map c.draws).sum_eq]
      _ = _ := hstream.symm

/-- A run on two rivals, on an incomplete ensemble and on the rivals again draws six times, although
the sink has no room and refuses a record of every iteration. So does a run at another rate, without
self-exclusion and without the failed call, whose events are dropped. -/
theorem stream_of_populations_rivals :
    let c : EngineConfig := { policy := .uniform 0.5 false }
    let c' : EngineConfig := { policy := .uniform 0.25 true, selfExclusion := false }
    let sink := TableSink.new (.new (some 0))
    let history : List Ensemble := [.rivals, .incomplete, .rivals]
    c.validate = .ok () ∧ c'.validate = .ok () ∧ ∃ start start', create c sink = .ok start ∧
      create c' NullSink.mk = .ok start' ∧ start.populations history = [2, 2] ∧
      start'.populations [.rivals, .rivals] = [2, 2] ∧
      (start.after history).stream = .skip 6 (.ofSeed c.seed) ∧
      (start'.after [.rivals, .rivals]).stream = .skip 6 (.ofSeed c.seed) := by
  intro c c' sink history
  have hc : c.validate = .ok () := eq_ok_of_isOk _ (by decide +kernel)
  have hc' : c'.validate = .ok () := eq_ok_of_isOk _ (by decide +kernel)
  have hstart := create_ok c hc (by decide) sink
  have hstart' := create_ok c' hc' (by decide) NullSink.mk
  obtain ⟨hstream, _, hsame⟩ := stream_of_populations (τ := NullSink) c sink _ hstart history
  have hsizes : (initial c sink).populations history = [2, 2] := by
    decide +kernel
  have hsizes' : (initial c' NullSink.mk).populations [.rivals, .rivals] = [2, 2] := by
    decide +kernel
  have hstream' := hsame c' NullSink.mk rfl (by decide) _ hstart' [.rivals, .rivals]
    (by rw [hsizes, hsizes'])
  rw [hsizes] at hstream
  exact ⟨hc, hc', _, _, hstart, hstart', hsizes, hsizes', hstream,
    hstream'.trans hstream⟩

end Engine
end Replanning
