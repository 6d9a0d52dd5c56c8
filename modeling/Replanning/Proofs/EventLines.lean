import Replanning.Proofs.Encoding.Event
import Replanning.Proofs.LoneReplication
import Replanning.Proofs.Resume

namespace Replanning

open Json

namespace LineSink

def new : LineSink :=
  ⟨Writer.new none⟩

theorem accepts_new : Accepts new := by
  intro events
  rw [new, Writer.new, offer_eq]

/-- The lines of a text as events. -/
def decode (text : List Char) : List (Option Event) :=
  (lines text).map fun l => Event.ofText? (String.ofList l)

theorem lines_text (events : List Event) :
    lines (text events) = events.map fun e => e.toJson.compactText := by
  have htext : text events =
      (events.map fun e => e.toJson.compactText).flatMap (· ++ ['\n']) := by
    rw [List.flatMap_map]
    rfl
  rw [htext]
  apply lines_flatMap
  intro l hl
  obtain ⟨e, _, rfl⟩ := List.mem_map.mp hl
  exact e.newline_not_mem_text

theorem decode_text (events : List Event) : decode (text events) = events.map Event.kept := by
  rw [decode, lines_text, List.map_map]
  apply List.map_congr_left
  intro e _
  exact e.ofText_compact

end LineSink

theorem Event.map_kept_iff (events : List Event) :
    events.map kept = events.map some ↔ ∀ e ∈ events, e.finite = true := by
  rw [List.map_inj_left]
  exact forall₂_congr fun e _ => e.kept_eq_some_iff

namespace Controller

/-- The sample that brings an adaptation about is part of its window. -/
theorem not_finite_adaptation (c : Controller) (s : GapSample) (h : s.gaps.length < 2)
    (a : Adaptation) (ha : (c.register s).1.adaptation = some a) :
    a.withinVariance.isFinite = false := by
  rcases register_eq c s with ⟨_, hout⟩ | ⟨_, _, hout⟩ | ⟨_, _, hout⟩
  · rw [hout] at ha
    cases ha
  · rw [hout] at ha
    cases ha
  · rw [hout] at ha
    obtain rfl := Option.some.inj ha
    exact (topmost_withinVariance _ s (List.mem_append_right _ List.mem_cons_self) h).not_finite

end Controller

theorem Event.kept_ofAdaptation (i : UInt64) (a : Adaptation) (impossibleReductions : UInt32)
    (h : a.withinVariance.isFinite = false) :
    (Event.ofAdaptation i a impossibleReductions).kept = none := by
  unfold ofAdaptation
  split <;> simp [kept, required, h]

namespace Engine

theorem mem_events_isAdaptation (r : IterationResult) (outcome : SampleOutcome)
    (impossibleReductions : UInt32) (event : Event)
    (h : event ∈ events r outcome impossibleReductions) (ha : event.isAdaptation = true) :
    ∃ a, outcome.adaptation = some a ∧
      event = .ofAdaptation r.iteration a impossibleReductions := by
  simp only [events, List.cons_append, List.mem_cons, List.mem_append, List.mem_map,
    Option.mem_toList, List.not_mem_nil, or_false] at h
  rcases h with rfl | (⟨test, _, rfl⟩ | ⟨a, hadaptation, rfl⟩) | rfl
  · cases ha
  · cases ha
  · exact ⟨a, hadaptation, rfl⟩
  · cases ha

/-- With a single replication in force no report on an adaptation can be read back. -/
theorem adaptation_lost {σ : Type} (engine : Engine σ)
    (h : engine.controller.regime.replications = 1) (e : Ensemble) (event : Event)
    (hmem : event ∈ engine.emitted e) (ha : event.isAdaptation = true) : event.kept = none := by
  unfold emitted at hmem
  cases hd : engine.decide e with
  | error cause =>
    rw [hd] at hmem
    cases hmem
  | ok decided =>
    obtain ⟨gaps, selection, stream⟩ := decided
    -- the sample of this iteration has one gap
    have hlength := length_gaps engine e gaps selection stream hd
    rw [h] at hlength
    have hshort : gaps.length < 2 := hlength.trans_lt (by decide)
    rw [hd] at hmem
    obtain ⟨a, hadaptation, rfl⟩ := mem_events_isAdaptation _ _ _ event hmem ha
    have hlost := Controller.not_finite_adaptation engine.controller
      ⟨engine.iteration, gaps⟩ hshort a hadaptation
    exact Event.kept_ofAdaptation _ a _ hlost

/-- The text behind a run is that of the events that are seen. -/
theorem written_after (c : EngineConfig) (history : List Ensemble) :
    ((initial c LineSink.new).after history).sink.writer.written =
      Writer.bytes (String.ofList
        (LineSink.text (((initial c LineSink.new).trace history).flatMap Step.events))) := by
  have haccepts : Accepts (initial c LineSink.new).sink := LineSink.accepts_new
  rw [sink_after _ haccepts history]
  change (offer _ LineSink.new).2.writer.written = _
  rw [LineSink.new, Writer.new, LineSink.offer_eq]
  exact List.nil_append _

/-- The text has one line for every event, in order, and all of them are read back exactly if all
doubles of the events are numbers. With a single replication no report on an adaptation is. -/
theorem lines_decode (c : EngineConfig) (start : Engine LineSink)
    (hstart : create c LineSink.new = .ok start) (history : List Ensemble) :
    let events := (start.trace history).flatMap Step.events
    ∃ text, (start.after history).sink.writer.written = Writer.bytes (String.ofList text) ∧
      lines text = events.map (fun e => e.toJson.compactText) ∧
      LineSink.decode text = events.map Event.kept ∧
      (LineSink.decode text = events.map some ↔ ∀ e ∈ events, e.finite = true) ∧
      ((start.after history).controller.regime.replications = 1 →
        ∀ e, ∀ event ∈ (start.after history).emitted e,
          event.isAdaptation = true → event.kept = none) := by
  obtain ⟨_, _, rfl⟩ := (create_eq_ok_iff c LineSink.new start).mp hstart
  refine ⟨_, written_after c history, LineSink.lines_text _, LineSink.decode_text _, ?_,
    adaptation_lost _⟩
  rw [LineSink.decode_text]
  exact Event.map_kept_iff _

/-- Three iterations on a single replication are read back; the fourth brings an adaptation about. -/
theorem lines_decode_lone :
    let history : List Ensemble := [.single 1 1.0, .single 1 (-1.0), .single 1 1.0]
    EngineConfig.lone.validate = .ok () ∧ ∃ start, create .lone LineSink.new = .ok start ∧
      (∃ text, (start.after history).sink.writer.written = Writer.bytes (String.ofList text) ∧
        LineSink.decode text = ((start.trace history).flatMap Step.events).map some) ∧
      (start.after history).controller.regime.replications = 1 ∧
      ∃ event ∈ (start.after history).emitted (.single 1 (-1.5)),
        event.isAdaptation = true ∧ event.kept = none := by
  intro history
  have hc : EngineConfig.lone.validate = .ok () := eq_ok_of_isOk _ (by decide +kernel)
  have hstart := create_ok .lone hc (by decide) LineSink.new
  obtain ⟨text, htext, _, _, hall, hlost⟩ := lines_decode .lone _ hstart history
  have hfinite : (((initial .lone LineSink.new).trace history).flatMap Step.events).all
      Event.finite = true := by
    decide +kernel
  have hone : ((initial .lone LineSink.new).after history).controller.regime.replications = 1 := by
    decide +kernel
  have hany : (((initial .lone LineSink.new).after history).emitted (.single 1 (-1.5))).any
      Event.isAdaptation = true := by
    decide +kernel
  obtain ⟨event, hmem, hadaptation⟩ := List.any_eq_true.mp hany
  exact ⟨hc, _, hstart, ⟨text, htext, hall.mpr (List.all_eq_true.mp hfinite)⟩, hone, event, hmem,
    hadaptation, hlost hone _ event hmem hadaptation⟩

/-- The first change of a run with a single replication is written with an infinite variance, so that
its line is not read back. -/
theorem lines_lost_lone :
    let history : List Ensemble :=
      [.single 1 1.0, .single 1 (-1.0), .single 1 1.0, .single 1 (-1.5)]
    EngineConfig.lone.validate = .ok () ∧ (∀ e ∈ history, e.validate = .ok ()) ∧
    ∃ start, create .lone LineSink.new = .ok start ∧
      ∃ text, (start.after history).sink.writer.written = Writer.bytes (String.ofList text) ∧
        none ∈ LineSink.decode text ∧
        LineSink.decode text ≠ ((start.trace history).flatMap Step.events).map some := by
  intro history
  have hc : EngineConfig.lone.validate = .ok () := eq_ok_of_isOk _ (by decide +kernel)
  have hvalid : ∀ e ∈ history, e.validate = .ok () := by
    intro e he
    apply eq_ok_of_isOk
    have hall : history.all (fun e => e.validate.isOk) = true := by decide +kernel
    exact List.all_eq_true.mp hall e he
  refine ⟨hc, hvalid, _, create_ok .lone hc (by decide) LineSink.new, _, written_after .lone history, ?_⟩
  have hlost : none ∈ (((initial .lone LineSink.new).trace history).flatMap Step.events).map
      Event.kept := by
    have hany : (((initial .lone LineSink.new).trace history).flatMap Step.events).any
        (fun e => e.kept.isNone) = true := by
      decide +kernel
    obtain ⟨e, he, hnone⟩ := List.any_eq_true.mp hany
    exact List.mem_map.mpr ⟨e, he, Option.isNone_iff_eq_none.mp hnone⟩
  rw [LineSink.decode_text]
  refine ⟨hlost, ?_⟩
  intro hsame
  rw [hsame] at hlost
  obtain ⟨_, _, hnone⟩ := List.mem_map.mp hlost
  exact absurd hnone (Option.some_ne_none _)

end Engine
end Replanning
