import Replanning.Proofs.Iteration
import Replanning.Proofs.Resume

namespace Replanning

/-- The error is about the ensemble of a call. -/
def EngineError.isEnsemble : EngineError → Bool
  | .ensemble _ => true
  | .ensembleSizeMismatch .. => true
  | _ => false

namespace Engine

variable {σ τ : Type} [EventSink σ] [EventSink τ]

/-- What an iteration with this result comes to, by the answers of the sink to its events. It counts
in any case. -/
structure Concludes (engine : Engine σ) (e : Ensemble) (result : IterationResult) : Prop where
  counted : (engine.run e).2.iteration = engine.iteration + 1
  /-- The result is withheld for the sink alone. -/
  outcome : (engine.run e).1 = .ok result ∨
    ∃ kind i reason, (engine.run e).1 = .error (.sink kind i reason)
  /-- The error of the sink is the first refusal of an event. -/
  failed : ∀ kind i reason, (engine.run e).1 = .error (.sink kind i reason) ↔
    ∃ before event, Refuses engine.sink (engine.emitted e) before event reason ∧
      kind = event.kind ∧ i = engine.iteration
  /-- Nothing is offered behind a refused event. -/
  offered : ∀ before event reason, Refuses engine.sink (engine.emitted e) before event reason →
    (engine.run e).2.sink = recordAll (before ++ [event]) engine.sink

/-- A decided iteration returns its result or the refusal of the sink. -/
theorem concludes_of_decide (engine : Engine σ) (e : Ensemble) (gaps : List Float)
    (selection : Selection) (stream : RandomStream)
    (h : engine.decide e = .ok (gaps, selection, stream)) :
    engine.Concludes e (engine.advance gaps selection stream).2.1 := by
  have hevents : engine.emitted e = (engine.advance gaps selection stream).2.2 := by
    rw [emitted, h]
  have htaken (ht : Takes engine.sink (engine.emitted e)) :
      (engine.run e).1 = .ok (engine.advance gaps selection stream).2.1 := by
    rw [hevents] at ht
    rw [run_eq, h]
    dsimp only
    rw [offer_of_takes _ _ ht]
  have hrefused (before : List Event) (event : Event) (reason : String)
      (hr : Refuses engine.sink (engine.emitted e) before event reason) :
      (engine.run e).1 = .error (.sink event.kind engine.iteration reason) := by
    rw [hevents] at hr
    rw [run_eq, h]
    dsimp only
    rw [offer_of_refuses _ _ _ _ _ hr]
    rfl
  constructor
  case counted =>
    rw [run_eq, h]
    rfl
  case outcome =>
    rcases takes_or_refuses (engine.emitted e) engine.sink with ht | ⟨before, event, reason, hr⟩
    · exact Or.inl (htaken ht)
    · exact Or.inr ⟨_, _, _, hrefused before event reason hr⟩
  case failed =>
    intro kind i reason
    constructor
    · intro hfail
      -- an error of the sink shows that it has not taken all events
      rcases takes_or_refuses (engine.emitted e) engine.sink with ht | ⟨before, event, reason', hr⟩
      · rw [htaken ht] at hfail
        cases hfail
      · rw [hrefused before event reason' hr] at hfail
        cases hfail
        exact ⟨before, event, hr, rfl, rfl⟩
    · rintro ⟨before, event, hr, rfl, rfl⟩
      exact hrefused before event reason hr
  case offered =>
    intro before event reason hr
    rw [sink_run, offer_of_refuses _ _ _ _ _ hr]

/-- A whole run leaves engines that differ in their sinks alone in such a pair again. -/
theorem after_withSink (engine : Engine σ) (sink : τ) (history : List Ensemble) :
    ∃ sink', (engine.withSink sink).after history = (engine.after history).withSink sink' := by
  induction history generalizing engine sink with
  | nil => exact ⟨sink, rfl⟩
  | cons e rest ih =>
    change ∃ sink', ((engine.withSink sink).run e).2.after rest = _
    rw [next_withSink]
    exact ih (engine.run e).2 _

/-- One call on two engines that differ in their sinks alone. -/
theorem run_lockstep (engine : Engine σ) (sink : τ) (e : Ensemble) :
    (∃ cause : EngineError, cause.isEnsemble ∧ (engine.run e).1 = .error cause ∧
      ((engine.withSink sink).run e).1 = .error cause) ∨
    ∃ result, engine.Concludes e result ∧ (engine.withSink sink).Concludes e result := by
  by_cases hr : e.replications = engine.controller.regime.replications.toNat
  · cases hv : e.validate with
    | error cause =>
      have hd := decide_of_invalid engine e cause hr hv
      exact Or.inl ⟨_, rfl, by rw [run_of_error engine e _ hd],
        by rw [run_of_error (engine.withSink sink) e _ hd]⟩
    | ok _ =>
      obtain ⟨gaps, selection, stream, hd, _⟩ := decide_ok engine e hr hv
      exact Or.inr ⟨_, concludes_of_decide engine e gaps selection stream hd,
        concludes_of_decide (engine.withSink sink) e gaps selection stream hd⟩
  · have hd := decide_of_size engine e hr
    exact Or.inl ⟨_, rfl, by rw [run_of_error engine e _ hd],
      by rw [run_of_error (engine.withSink sink) e _ hd]⟩

/-- A sink cannot steer the engine: with any two sinks the states are the same, and a call is refused
for the same reason or has the same result. Each sink may withhold that by refusing an event, and is
offered no event behind it. -/
theorem sink_cannot_steer (c : EngineConfig) (sink : σ) (sink' : τ) (start : Engine σ)
    (hstart : create c sink = .ok start) :
    ∃ start', create c sink' = .ok start' ∧ ∀ history,
      (start.after history).snapshot = (start'.after history).snapshot ∧
      (start.after history).controller.regime = (start'.after history).controller.regime ∧
      ∀ e, (start.after history).emitted e = (start'.after history).emitted e ∧
        ((∃ cause : EngineError, cause.isEnsemble ∧
          ((start.after history).run e).1 = .error cause ∧
          ((start'.after history).run e).1 = .error cause) ∨
        ∃ result, (start.after history).Concludes e result ∧
          (start'.after history).Concludes e result) := by
  obtain ⟨hc, hroom, rfl⟩ := (create_eq_ok_iff c sink start).mp hstart
  refine ⟨_, create_ok c hc hroom sink', ?_⟩
  intro history
  obtain ⟨reached, hreached⟩ := after_withSink (initial c sink) sink' history
  have hsame : (initial c sink').after history =
      ((initial c sink).after history).withSink reached := hreached
  rw [hsame]
  refine ⟨rfl, rfl, ?_⟩
  intro e
  exact ⟨rfl, run_lockstep _ reached e⟩

/-- A table without room lets an iteration fail that returns a result where all events are dropped,
and the states behind it are the same. -/
theorem sink_cannot_steer_rivals :
    let c : EngineConfig := { policy := .uniform 0.5 false }
    c.validate = .ok () ∧ ∃ start start',
      create c (TableSink.new (.new (some 0))) = .ok start ∧ create c NullSink.mk = .ok start' ∧
      (start.run .rivals).1.isOk = false ∧ (start'.run .rivals).1.isOk = true ∧
      (start.after [.rivals]).snapshot = (start'.after [.rivals]).snapshot := by
  intro c
  have hc : c.validate = .ok () := eq_ok_of_isOk _ (by decide +kernel)
  have hstart := create_ok c hc (by decide) (TableSink.new (.new (some 0)))
  obtain ⟨start', hstart', hall⟩ := sink_cannot_steer c _ NullSink.mk _ hstart
  obtain ⟨_, _, rfl⟩ := (create_eq_ok_iff c NullSink.mk start').mp hstart'
  have hfails : ((initial c (TableSink.new (.new (some 0)))).run .rivals).1.isOk = false := by
    decide +kernel
  have hreturns : ((initial c NullSink.mk).run .rivals).1.isOk = true := by
    decide +kernel
  exact ⟨hc, _, _, hstart, hstart', hfails, hreturns, (hall [.rivals]).1⟩

end Engine
end Replanning
