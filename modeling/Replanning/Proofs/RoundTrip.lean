import Replanning.Proofs.Checkpoint
import Replanning.Proofs.Encoding.Config
import Replanning.Proofs.Encoding.Ensemble
import Replanning.Proofs.Encoding.Event
import Replanning.Proofs.Json.Indented

namespace Replanning

open Json

/-- An exact reader gives back what is written without blanks. -/
theorem Json.Exact.read_compact_iff {α : Type} {read? : Json → Option α} {write : α → Json}
    {kept : α → Bool} (h : Exact read? write kept) (a : α) (hw : (write a).writable = true) :
    (read (write a).compact).bind read? = some a ↔ kept a = true := by
  rw [read_compact _ hw, Option.bind_some]
  exact h.eq_some_iff a

theorem EngineConfig.ofText_text_iff (c : EngineConfig) :
    ofText? c.text = some c ↔ c.finite = true := by
  rw [ofText?, text, read_indented _ c.writable_toJson, Option.bind_some]
  exact EngineConfig.exact.eq_some_iff c

theorem EngineSnapshot.ofText_text_iff (s : EngineSnapshot) :
    ofText? s.text = some s ↔ s.controller.finite = true :=
  EngineSnapshot.exact.read_compact_iff s s.writable_toJson

theorem Event.ofText_compact_iff (e : Event) :
    ofText? e.toJson.compact = some e ↔ e.finite = true := by
  rw [ofText_compact]
  exact e.kept_eq_some_iff

theorem Adaptation.ofJson_eq_some_iff (a : Adaptation) :
    ofJson? a.toJson = some a ↔ a.finite = true := by
  have htest : { a with tStatistic := a.tStatistic.filter Float.isFinite } = a ↔
      a.tStatistic.all Float.isFinite = true := by
    obtain ⟨i, action, within, between, t, len⟩ := a
    simp only [Adaptation.mk.injEq, Event.filter_eq_self_iff, true_and, and_true]
  rw [ofJson_toJson, finite]
  by_cases h : (a.withinVariance.isFinite && a.betweenVariance.isFinite) = true
  · rw [if_pos h, h, Bool.true_and, Option.some.injEq]
    exact htest
  · rw [if_neg h, Bool.eq_false_iff.mpr h, Bool.false_and]
    exact iff_of_false nofun Bool.false_ne_true

/-- Decoding undoes encoding on the whole format, bit for bit, exactly if all doubles are numbers. So
a configuration that has been saved and loaded again has the same digest. -/
theorem texts_read_back :
    (∀ c : EngineConfig, EngineConfig.ofText? c.text = some c ↔ c.finite = true) ∧
    (∀ s : EngineSnapshot, EngineSnapshot.ofText? s.text = some s ↔ s.controller.finite = true) ∧
    (∀ s : ControllerSnapshot,
      (read s.toJson.compact).bind ControllerSnapshot.ofJson? = some s ↔ s.finite = true) ∧
    (∀ p : Policy, (read p.toJson.compact).bind (Policy.ofJson? 0) = some p ↔ p.finite = true) ∧
    (∀ e : Event, Event.ofText? e.toJson.compact = some e ↔ e.finite = true) ∧
    (∀ a : Adaptation, (read a.toJson.compact).bind Adaptation.ofJson? = some a ↔
      a.finite = true) ∧
    (∀ e : Ensemble, e.fits = true →
      ((read e.toJson.compact).bind Ensemble.ofJson? = some e ↔ e.finite = true)) ∧
    ∀ c : EngineConfig, c.finite = true →
      (EngineConfig.ofText? c.text).map EngineConfig.hash = some c.hash := by
  refine ⟨EngineConfig.ofText_text_iff, EngineSnapshot.ofText_text_iff, ?_, ?_,
    Event.ofText_compact_iff, ?_, ?_, ?_⟩
  · intro s
    exact ControllerSnapshot.exact.read_compact_iff s s.writable_toJson
  · intro p
    exact (Policy.exact 0 (by decide)).read_compact_iff p p.writable_toJson
  · intro a
    rw [read_compact _ a.writable_toJson, Option.bind_some]
    exact a.ofJson_eq_some_iff
  · intro e he
    rw [Ensemble.exact.read_compact_iff e (e.writable_toJson he), he, Bool.true_and]
  · intro c hc
    rw [c.ofText_text_iff.mpr hc, Option.map_some]

/-- Names that have to be escaped, the largest words, a negative zero, the least double, and an
entry and a generating replication that are missing. -/
def Ensemble.awkward : Ensemble :=
  let o : Observation := ⟨-0.0, 5e-324, [⟨"a\\b/\"c\"", 4294967295⟩], []⟩
  let word := 18446744073709551615
  ⟨word, [⟨"tab\there\n\x01", some word, [some o, none]⟩, ⟨"", none, []⟩]⟩

theorem texts_read_back_awkward :
    let c : EngineConfig := { policy := .uniform 5e-324 true, maxImpossibleReductions := some 7 }
    Ensemble.awkward.fits = true ∧ c.finite = true ∧
    (read Ensemble.awkward.toJson.compact).bind Ensemble.ofJson? = some Ensemble.awkward ∧
    (EngineConfig.ofText? c.text).map EngineConfig.hash = some c.hash := by
  intro c
  obtain ⟨_, _, _, _, _, _, hensemble, hhash⟩ := texts_read_back
  have hfits : Ensemble.awkward.fits = true := by decide
  have hfinite : Ensemble.awkward.finite = true := by decide +kernel
  have hc : c.finite = true := by decide +kernel
  exact ⟨hfits, hc, (hensemble _ hfits).mpr hfinite, hhash c hc⟩

end Replanning
