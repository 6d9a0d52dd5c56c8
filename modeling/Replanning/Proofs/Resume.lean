import Replanning.Proofs.Restore

/-! The saved state of a run is taken up again as it was, and two engines that differ in their sinks
alone go on in the same way as long as the sinks accept. -/
namespace Replanning
namespace Engine

variable {σ τ : Type}

/-- The saved state of a sound engine is taken up again, with another sink. -/
theorem restore_snapshot (c : EngineConfig) (hc : c.validate = .ok ())
    (hroom : c.adaptation.Reservable) (engine : Engine σ) (h : engine.Sound c) (sink : τ) :
    restore c engine.snapshot sink = .ok (engine.withSink sink) := by
  have hadmissible : engine.snapshot.controller.Admissible c.adaptation := by
    rw [← h.settings]
    exact h.controller.admissible
  apply (restore_eq_ok_iff c hc engine.snapshot sink _).mpr
  refine ⟨hroom, h.configHash, hadmissible, ?_⟩
  -- the word of the stream is not zero, so it is taken up as it is
  rw [resumed, snapshot, RandomStream.ofSeed_state engine.stream h.stream, withSink, h.config,
    h.configHash, ← h.settings]
  rfl

theorem decide_withSink (engine : Engine σ) (sink : τ) (e : Ensemble) :
    (engine.withSink sink).decide e = engine.decide e :=
  rfl

/-- What is seen of an iteration: the result, the events and the state to save behind it. -/
structure Step where
  result : Except EngineError IterationResult
  events : List Event
  saved : EngineSnapshot

def trace [EventSink σ] : Engine σ → List Ensemble → List Step
  | _, [] => []
  | engine, e :: rest =>
    ⟨(engine.run e).1, engine.emitted e, (engine.run e).2.snapshot⟩ :: trace (engine.run e).2 rest

variable [EventSink σ] [EventSink τ]

/-- A sink is handed the events that are seen. -/
theorem sink_after (engine : Engine σ) (h : Accepts engine.sink) (es : List Ensemble) :
    (engine.after es).sink = (offer ((engine.trace es).flatMap Step.events) engine.sink).2 := by
  induction es generalizing engine with
  | nil => rfl
  | cons e rest ih =>
    have haccepts : Accepts (engine.run e).2.sink := by
      rw [sink_run]
      exact accepts_offer engine.sink h _
    rw [trace, List.flatMap_cons, offer_append _ _ _ (h _), ← sink_run]
    exact ih (engine.run e).2 haccepts

/-- The engine behind an iteration does not depend on the sink, whatever that answers. -/
theorem next_withSink (engine : Engine σ) (sink : τ) (e : Ensemble) :
    ((engine.withSink sink).run e).2 =
      (engine.run e).2.withSink (offer (engine.emitted e) sink).2 := by
  rw [run_eq, run_eq, emitted, decide_withSink]
  cases engine.decide e with
  | error cause => rfl
  | ok decided => rfl

/-- One iteration does not depend on the sink, as long as it accepts. -/
theorem result_withSink (engine : Engine σ) (h : Accepts engine.sink) (sink : τ) (hs : Accepts sink)
    (e : Ensemble) : ((engine.withSink sink).run e).1 = (engine.run e).1 := by
  rw [run_of_accepts engine h, run_of_accepts (engine.withSink sink) hs]
  rfl

/-- A whole run does not depend on the sink, as long as it accepts. -/
theorem trace_withSink (engine : Engine σ) (h : Accepts engine.sink) (sink : τ) (hs : Accepts sink)
    (es : List Ensemble) : (engine.withSink sink).trace es = engine.trace es := by
  induction es generalizing engine sink with
  | nil => rfl
  | cons e rest ih =>
    -- the sinks go on to accept, so that the induction applies to the engines behind this call
    have haccepts : Accepts (engine.run e).2.sink := by
      rw [sink_run]
      exact accepts_offer engine.sink h _
    rw [trace, trace, result_withSink engine h sink hs, next_withSink,
      ih (engine.run e).2 haccepts _ (accepts_offer sink hs _)]
    rfl

/-- Resuming equals not stopping: the state saved after any run of a valid configuration is taken up
again, and from there on the resumed engine and the original one return the same results, hand the
same events to their sinks and save the same states, over every sequence of ensembles. -/
theorem resume_eq_continue (c : EngineConfig) (sink : σ) (start : Engine σ)
    (hstart : create c sink = .ok start) (history : List Ensemble) (sink' : τ) :
    ∃ resumed, restore c (start.after history).snapshot sink' = .ok resumed ∧
      (Accepts (start.after history).sink → Accepts sink' → ∀ later,
        resumed.trace later = (start.after history).trace later ∧
        (resumed.after later).sink =
          (offer (((start.after history).trace later).flatMap Step.events) sink').2 ∧
        ((start.after history).after later).sink =
          (offer (((start.after history).trace later).flatMap Step.events)
            (start.after history).sink).2) := by
  obtain ⟨hc, hroom, rfl⟩ := (create_eq_ok_iff c sink start).mp hstart
  have h := after_sound c _ (initial_sound c hc sink) history
  refine ⟨_, restore_snapshot c hc hroom _ h sink', ?_⟩
  intro ha ha' later
  have htrace := trace_withSink _ ha sink' ha' later
  refine ⟨htrace, ?_, sink_after _ ha later⟩
  rw [← htrace]
  exact sink_after _ ha' later

theorem resume_eq_continue_rivals :
    let history : List Ensemble := [.rivals, ⟨3, []⟩]
    ({} : EngineConfig).validate = .ok () ∧
    ∃ start resumed, create {} EventLog.empty = .ok start ∧
      restore {} (start.after history).snapshot EventLog.empty = .ok resumed ∧
      resumed.trace [.rivals] = (start.after history).trace [.rivals] := by
  intro history
  have hc := EngineConfig.default_valid
  have hstart := create_ok {} hc (by decide) EventLog.empty
  obtain ⟨resumed, hresumed, hsame⟩ :=
    resume_eq_continue {} EventLog.empty _ hstart history EventLog.empty
  exact ⟨hc, _, resumed, hstart, hresumed,
    (hsame (accepts_eventLog _) (accepts_eventLog _) [.rivals]).1⟩

end Engine
end Replanning
