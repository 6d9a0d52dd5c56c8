import Replanning.Proofs.Encoding.Controller
import Replanning.Proofs.Engine
import Replanning.Proofs.Ensemble
import Replanning.Proofs.Json.Reader
import Replanning.Proofs.Score

namespace Replanning

open Json

namespace EngineSnapshot

theorem exact : Exact ofJson? toJson fun s => s.controller.finite := by
  intro s
  -- the members are found by their names, whatever their values are
  have hfields : fields? ["iteration", "rng_state", "manager", "config_hash"] s.toJson =
      some ⟨false, _⟩ := fields_object _ _ (by rfl) (by simp)
  have hcontroller := ControllerSnapshot.exact s.controller
  rw [ofJson?, hfields, Option.bind_eq_bind, Option.bind_some]
  by_cases h : s.controller.finite = true
  · simp [hcontroller, h]
  · simp [hcontroller, h]

theorem writable_toJson (s : EngineSnapshot) : s.toJson.writable = true := by
  simp [toJson]

/-- The text of a saved state is read as this state, or refused for a gap that is no number. -/
theorem ofText_text (s : EngineSnapshot) :
    ofText? s.text = if s.controller.finite then some s else none := by
  rw [ofText?, text, read_compact s.toJson s.writable_toJson, Option.bind_some]
  exact exact s

end EngineSnapshot

/-- The mean gaps of the ensemble, if it has any, are numbers. -/
def Ensemble.FiniteGaps (e : Ensemble) : Prop :=
  ∀ gaps, e.meanGaps = .ok gaps → gaps.all Float.isFinite = true

/-- The window behind a sample holds nothing but this sample and earlier ones. -/
theorem Controller.mem_window_register (c : Controller) (s sample : GapSample)
    (h : sample ∈ (c.register s).2.window) : sample ∈ c.window ∨ sample = s := by
  rcases c.register_cases s with ⟨_, hc⟩ | ⟨a, _, _, hc⟩
  · rw [hc] at h
    rcases List.mem_append.mp h with hold | hnew
    · split_ifs at hold
      · exact Or.inl (List.mem_of_mem_drop hold)
      · exact Or.inl hold
    · exact Or.inr (List.mem_singleton.mp hnew)
  · rw [hc] at h
    exact absurd h List.not_mem_nil

namespace Engine

variable {σ : Type} [EventSink σ]

theorem run_finite (engine : Engine σ) (h : engine.snapshot.controller.finite = true)
    (e : Ensemble) (he : e.FiniteGaps) : (engine.run e).2.snapshot.controller.finite = true := by
  rw [run_eq]
  cases hd : engine.decide e with
  | error cause => exact h
  | ok decided =>
    obtain ⟨gaps, selection, stream⟩ := decided
    obtain ⟨_, est, hest, rfl, _⟩ := decide_eq_ok engine e gaps selection stream hd
    obtain ⟨_, _, hgaps⟩ := (e.estimate_eq_ok _ est).mp hest
    -- a sample is an earlier one, or it holds the mean gaps of this ensemble
    apply List.all_eq_true.mpr
    intro sample hsample
    rcases engine.controller.mem_window_register _ sample hsample with hold | rfl
    · exact List.all_eq_true.mp h sample hold
    · exact he est.meanGaps hgaps

theorem after_finite (engine : Engine σ) (h : engine.snapshot.controller.finite = true)
    (es : List Ensemble) (hes : ∀ e ∈ es, e.FiniteGaps) :
    (engine.after es).snapshot.controller.finite = true := by
  induction es generalizing engine with
  | nil => exact h
  | cons e rest ih =>
    exact ih _ (run_finite engine h e (hes e List.mem_cons_self)) fun e' he' =>
      hes e' (List.mem_cons_of_mem e he')

/-- The text of a state that is saved behind any run is read back as this state if every gap of its
window is a number, which holds if no mean gap of the run left the range of the doubles; otherwise
the text is refused. -/
theorem checkpoint_readable (c : EngineConfig) (sink : σ) (start : Engine σ)
    (hstart : create c sink = .ok start) (history : List Ensemble) :
    EngineSnapshot.ofText? (start.after history).snapshot.text =
      (if (start.after history).snapshot.controller.finite then
        some (start.after history).snapshot else none) ∧
    ((∀ e ∈ history, e.FiniteGaps) →
      EngineSnapshot.ofText? (start.after history).snapshot.text =
        some (start.after history).snapshot) := by
  obtain ⟨_, _, rfl⟩ := (create_eq_ok_iff c sink start).mp hstart
  refine ⟨EngineSnapshot.ofText_text _, ?_⟩
  intro hes
  rw [EngineSnapshot.ofText_text, if_pos (after_finite _ rfl history hes)]

theorem checkpoint_readable_rivals :
    ({} : EngineConfig).validate = .ok () ∧ Ensemble.rivals.FiniteGaps ∧
    ∃ start, create {} EventLog.empty = .ok start ∧
      EngineSnapshot.ofText? (start.after [.rivals]).snapshot.text =
        some (start.after [.rivals]).snapshot := by
  have hc := EngineConfig.default_valid
  have hfinite : Ensemble.rivals.FiniteGaps := by
    intro gaps hgaps
    -- as a list, so that the check can be evaluated
    have h : (Ensemble.rivals.meanGaps.toOption.getD []).all Float.isFinite = true := by
      decide +kernel
    rwa [hgaps] at h
  have hstart := create_ok {} hc (by decide) EventLog.empty
  obtain ⟨_, hread⟩ := checkpoint_readable {} EventLog.empty _ hstart [.rivals]
  refine ⟨hc, hfinite, _, hstart, ?_⟩
  apply hread
  intro e he
  rw [List.mem_singleton.mp he]
  exact hfinite

/-- Two finite scores whose difference is beyond the largest double. -/
def Ensemble.extreme : Ensemble :=
  let plan : Observation := ⟨-1.7e308, 1.7e308, [], [⟨"link", 7⟩]⟩
  ⟨2, [⟨"a", none, [some plan, some plan]⟩]⟩

/-- Validation passes scores whose gap is not finite, and the state saved behind them is lost. -/
theorem checkpoint_lost_extreme :
    ({} : EngineConfig).validate = .ok () ∧ Ensemble.extreme.validate = .ok () ∧
    ∃ start, create {} EventLog.empty = .ok start ∧
      EngineSnapshot.ofText? (start.after [Ensemble.extreme]).snapshot.text = none := by
  have hc := EngineConfig.default_valid
  have he : Ensemble.extreme.validate = .ok () := eq_ok_of_isOk _ (by decide +kernel)
  refine ⟨hc, he, _, create_ok {} hc (by decide) EventLog.empty, ?_⟩
  -- the window holds a gap that is infinite
  rw [EngineSnapshot.ofText_text, if_neg]
  rw [Bool.not_eq_true]
  decide +kernel

end Engine
end Replanning
