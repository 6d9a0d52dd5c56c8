import Replanning.Engine
import Replanning.Proofs.Controller
import Replanning.Proofs.Policy
import Replanning.Proofs.Sink

namespace Replanning

/-- The defaults of every part pass its checks. -/
theorem EngineConfig.default_valid : ({} : EngineConfig).validate = .ok () :=
  eq_ok_of_isOk _ (by decide +kernel)

/-- A configuration is valid in its parts. -/
theorem EngineConfig.parts_valid (c : EngineConfig) (hc : c.validate = .ok ()) :
    c.policy.validate = .ok () ∧ c.adaptation.validate = .ok () := by
  obtain ⟨_, hpolicy, hc⟩ := (bind_eq_ok _ _ _).mp hc
  obtain ⟨_, hadaptation, _⟩ := (bind_eq_ok _ _ _).mp hc
  exact ⟨hpolicy, hadaptation⟩

/-- The draws that a decision on `n` agents takes: those of the shuffle, and one for every candidate
if the policy draws. -/
def EngineConfig.draws (c : EngineConfig) (n : ℕ) : ℕ :=
  (n - 1) + if c.policy.draws then n else 0

namespace Engine

variable {σ τ : Type}

/-- What a decision rests on: the right size, an ensemble without defects, and the policy. -/
theorem decide_eq_ok (engine : Engine σ) (e : Ensemble) (gaps : List Float)
    (selection : Selection) (stream : RandomStream)
    (h : engine.decide e = .ok (gaps, selection, stream)) :
    e.replications = engine.controller.regime.replications.toNat ∧
    ∃ est, e.estimate engine.config.selfExclusion = .ok est ∧ est.meanGaps = gaps ∧
      engine.config.policy.select e (rank est.candidates engine.stream).1
        engine.controller.regime.trustRegion (rank est.candidates engine.stream).2 =
          .ok (selection, stream) := by
  rw [decide] at h
  obtain ⟨hsize, h⟩ := (guard_eq_ok _ _ _ _ _).mp h
  obtain ⟨est, hest, h⟩ := (bind_eq_ok _ _ _).mp h
  obtain ⟨selected, hselected, h⟩ := (bind_eq_ok _ _ _).mp h
  have hparts := Except.ok.inj h
  rw [mapError_eq_ok] at hest hselected
  exact ⟨not_not.mp hsize, est, hest, (Prod.mk.inj hparts).1,
    hselected.trans (congrArg Except.ok (Prod.mk.inj hparts).2)⟩

/-- A decision comes with a mean gap for each of the replications in force. -/
theorem length_gaps (engine : Engine σ) (e : Ensemble) (gaps : List Float)
    (selection : Selection) (stream : RandomStream)
    (h : engine.decide e = .ok (gaps, selection, stream)) :
    gaps.length = engine.controller.regime.replications.toNat := by
  obtain ⟨hsize, est, hest, rfl, _⟩ := decide_eq_ok engine e gaps selection stream h
  obtain ⟨_, _, hgaps⟩ := (e.estimate_eq_ok _ est).mp hest
  exact (e.length_meanGaps est.meanGaps hgaps).trans hsize

theorem decide_stream (engine : Engine σ) (e : Ensemble) (gaps : List Float)
    (selection : Selection) (stream : RandomStream)
    (h : engine.decide e = .ok (gaps, selection, stream)) :
    stream = engine.stream.skip (engine.config.draws e.agents.length) := by
  obtain ⟨_, est, hest, _, hselect⟩ := decide_eq_ok engine e gaps selection stream h
  have hranked := e.length_ranked engine.config.selfExclusion est hest engine.stream
  have hcandidates := (rank_perm est.candidates engine.stream).length_eq.symm.trans hranked
  rw [Policy.select_stream _ _ _ _ _ _ _ hselect, rank_stream, RandomStream.skip_skip, hranked,
    hcandidates, EngineConfig.draws]

/-- The events that an iteration hands to the sink; none if nothing was decided. -/
def emitted (engine : Engine σ) (e : Ensemble) : List Event :=
  match engine.decide e with
  | .error _ => []
  | .ok (gaps, selection, stream) => (engine.advance gaps selection stream).2.2

def withSink (engine : Engine σ) (sink : τ) : Engine τ where
  config := engine.config
  configHash := engine.configHash
  controller := engine.controller
  stream := engine.stream
  iteration := engine.iteration
  sink := sink

/-- What holds of an engine of a configuration between two iterations, wherever it has started. -/
structure Consistent (engine : Engine σ) (c : EngineConfig) : Prop where
  config : engine.config = c
  configHash : engine.configHash = c.hash
  settings : engine.controller.config = c.adaptation
  controller : engine.controller.Sound
  stream : engine.stream.Live

/-- What holds between two iterations of an engine that has started from its configuration. -/
structure Sound (engine : Engine σ) (c : EngineConfig) : Prop extends Consistent engine c where
  limit : engine.controller.regime.trustRegion ≤ c.adaptation.initialTrustRegion

def initial (c : EngineConfig) (sink : σ) : Engine σ :=
  ⟨c, c.hash, .initial c.adaptation, .ofSeed c.seed, 0, sink⟩

/-- An engine starts exactly from a valid configuration with a window that can be laid out. -/
theorem create_eq_ok_iff (c : EngineConfig) (sink : σ) (start : Engine σ) :
    create c sink = .ok start ↔
      c.validate = .ok () ∧ c.adaptation.Reservable ∧ start = initial c sink := by
  rw [create, bind_eq_ok]
  constructor
  · rintro ⟨_, hc, h⟩
    obtain ⟨controller, hcontroller, h⟩ := (bind_eq_ok _ _ _).mp h
    rw [mapError_eq_ok] at hc hcontroller
    obtain ⟨_, hroom, rfl⟩ := (Controller.create_eq_ok_iff _ _).mp hcontroller
    exact ⟨hc, hroom, (Except.ok.inj h).symm⟩
  · rintro ⟨hc, hroom, rfl⟩
    have hcontroller := Controller.create_ok c.adaptation (c.parts_valid hc).2 hroom
    refine ⟨(), (mapError_eq_ok _ _ _).mpr hc, (bind_eq_ok _ _ _).mpr ⟨_, ?_, rfl⟩⟩
    exact (mapError_eq_ok _ _ _).mpr hcontroller

theorem create_ok (c : EngineConfig) (hc : c.validate = .ok ()) (hroom : c.adaptation.Reservable)
    (sink : σ) : create c sink = .ok (initial c sink) :=
  (create_eq_ok_iff c sink _).mpr ⟨hc, hroom, rfl⟩

/-- A valid configuration fails only for the room of its window. -/
theorem create_overflow (c : EngineConfig) (hc : c.validate = .ok ())
    (hroom : ¬ c.adaptation.Reservable) (sink : σ) :
    create c sink = .error .capacityOverflow := by
  rw [create, hc]
  change (Controller.create c.adaptation).mapError EngineError.ofCreate >>= _ = _
  rw [Controller.create_overflow c.adaptation (c.parts_valid hc).2 hroom]
  rfl

theorem initial_sound (c : EngineConfig) (hc : c.validate = .ok ()) (sink : σ) :
    (initial c sink).Sound c := by
  obtain ⟨_, ha⟩ := c.parts_valid hc
  exact ⟨⟨rfl, rfl, rfl, Controller.initial_sound c.adaptation ha, RandomStream.ofSeed_live c.seed⟩,
    UInt32.le_refl _⟩

variable [EventSink σ]

/-- An iteration fails and leaves the engine as it was if nothing was decided. Else the engine moves
on with the sink that took the events, and the answer of the sink decides on the result. -/
theorem run_eq (engine : Engine σ) (e : Ensemble) :
    engine.run e =
      match engine.decide e with
      | .error cause => (.error cause, engine)
      | .ok (gaps, selection, stream) =>
        let (next, result, events) := engine.advance gaps selection stream
        (match (offer events engine.sink).1 with
          | .ok () => .ok result
          | .error (event, reason) => .error (.sink event.kind result.iteration reason),
          next.withSink (offer events engine.sink).2) := by
  unfold run
  cases engine.decide e with
  | error cause => rfl
  | ok decided =>
    obtain ⟨gaps, selection, stream⟩ := decided
    have hsink : (engine.advance gaps selection stream).1.sink = engine.sink := rfl
    dsimp only
    rw [hsink]
    -- both sides ask the sink, which took the events or refused one of them
    rcases offer (engine.advance gaps selection stream).2.2 engine.sink with ⟨⟨⟩ | ⟨⟨⟩⟩, sink⟩
    · rfl
    · rfl

/-- A result that is returned is the one of a decision. -/
theorem run_eq_ok (engine : Engine σ) (e : Ensemble) (result : IterationResult)
    (h : (engine.run e).1 = .ok result) :
    ∃ gaps selection stream, engine.decide e = .ok (gaps, selection, stream) ∧
      result = (engine.advance gaps selection stream).2.1 := by
  rw [run_eq] at h
  cases hd : engine.decide e with
  | error cause =>
    rw [hd] at h
    cases h
  | ok decided =>
    obtain ⟨gaps, selection, stream⟩ := decided
    refine ⟨gaps, selection, stream, rfl, ?_⟩
    rw [hd] at h
    dsimp only at h
    split at h
    · exact (Except.ok.inj h).symm
    · cases h

/-- With a sink that accepts its events an iteration is its decision. -/
theorem run_of_accepts (engine : Engine σ) (h : Accepts engine.sink) (e : Ensemble) :
    (engine.run e).1 =
      (engine.decide e).map fun (gaps, selection, stream) =>
        (engine.advance gaps selection stream).2.1 := by
  rw [run_eq]
  cases engine.decide e with
  | error cause => rfl
  | ok decided =>
    obtain ⟨gaps, selection, stream⟩ := decided
    dsimp only
    rw [h]
    rfl

theorem sink_run (engine : Engine σ) (e : Ensemble) :
    (engine.run e).2.sink = (offer (engine.emitted e) engine.sink).2 := by
  rw [run_eq, emitted]
  cases engine.decide e with
  | error cause => rfl
  | ok decided => rfl

theorem config_run (engine : Engine σ) (e : Ensemble) :
    (engine.run e).2.config = engine.config := by
  rw [run_eq]
  cases engine.decide e with
  | error cause => rfl
  | ok decided => rfl

theorem run_consistent (c : EngineConfig) (engine : Engine σ) (h : engine.Consistent c)
    (e : Ensemble) : (engine.run e).2.Consistent c := by
  rw [run_eq]
  cases hd : engine.decide e with
  | error cause => exact h
  | ok decided =>
    obtain ⟨gaps, selection, stream⟩ := decided
    have hstream := decide_stream engine e gaps selection stream hd
    -- the controller takes up one sample, and the stream is the one behind the decision
    let sample : GapSample := ⟨engine.iteration, gaps⟩
    exact {
      config := h.config
      configHash := h.configHash
      settings := (Controller.config_register engine.controller sample).trans h.settings
      controller := Controller.register_sound engine.controller h.controller sample
      stream := hstream ▸ engine.stream.skip_live _ h.stream }

/-- No iteration widens the trust region or takes replications away. -/
theorem run_mono (engine : Engine σ) (e : Ensemble) :
    (engine.run e).2.controller.regime.trustRegion ≤ engine.controller.regime.trustRegion ∧
      engine.controller.regime.replications ≤ (engine.run e).2.controller.regime.replications := by
  rw [run_eq]
  cases engine.decide e with
  | error cause => exact ⟨UInt32.le_refl _, UInt64.le_refl _⟩
  | ok decided => exact Controller.register_mono engine.controller ⟨engine.iteration, decided.1⟩

theorem run_sound (c : EngineConfig) (engine : Engine σ) (h : engine.Sound c) (e : Ensemble) :
    (engine.run e).2.Sound c :=
  ⟨run_consistent c engine h.toConsistent e, UInt32.le_trans (run_mono engine e).1 h.limit⟩

def after (engine : Engine σ) (es : List Ensemble) : Engine σ :=
  es.foldl (fun engine e => (engine.run e).2) engine

theorem after_consistent (c : EngineConfig) (engine : Engine σ) (h : engine.Consistent c)
    (es : List Ensemble) : (engine.after es).Consistent c := by
  induction es generalizing engine with
  | nil => exact h
  | cons e rest ih => exact ih (engine.run e).2 (run_consistent c engine h e)

/-- Over a whole run the trust region never grows, and there are never fewer replications. -/
theorem after_mono (engine : Engine σ) (es : List Ensemble) :
    (engine.after es).controller.regime.trustRegion ≤ engine.controller.regime.trustRegion ∧
      engine.controller.regime.replications ≤ (engine.after es).controller.regime.replications := by
  induction es generalizing engine with
  | nil => exact ⟨UInt32.le_refl _, UInt64.le_refl _⟩
  | cons e rest ih =>
    obtain ⟨htr, hrep⟩ := run_mono engine e
    obtain ⟨htr', hrep'⟩ := ih (engine.run e).2
    exact ⟨UInt32.le_trans htr' htr, UInt64.le_trans hrep hrep'⟩

theorem after_sound (c : EngineConfig) (engine : Engine σ) (h : engine.Sound c)
    (es : List Ensemble) : (engine.after es).Sound c :=
  ⟨after_consistent c engine h.toConsistent es, UInt32.le_trans (after_mono engine es).1 h.limit⟩

end Engine
end Replanning
