import Replanning.Proofs.Draws

namespace Replanning
namespace Controller

/-- The window holds the latest of `n` samples, each with a gap for every replication in force. -/
structure Homogeneous (c : Controller) (n : ℕ) : Prop where
  gaps : ∀ s ∈ c.window, s.gaps.length = c.regime.replications.toNat
  length : c.window.length ≤ n
  iterations : c.window.map GapSample.iteration =
    (List.range' (n - c.window.length) c.window.length).map Nat.toUInt64

theorem initial_homogeneous (c : AdaptationConfig) : (initial c).Homogeneous 0 where
  gaps := fun _ hs => absurd hs List.not_mem_nil
  length := Nat.le_refl 0
  iterations := rfl

/-- A sample slides into a window from which at most some of the oldest samples have dropped. -/
theorem slide_eq (c : Controller) (h : c.Sound) (s : GapSample) :
    ∃ k ≤ c.window.length, c.slide s = c.window.drop k ++ [s] := by
  obtain ⟨_, _, hroom⟩ := c.config.bounds_of_validate h.valid
  rw [slide_eq_rtake c h, List.rtake, List.length_append, List.length_singleton]
  have hk : c.window.length + 1 - c.config.maxWindow.toNat ≤ c.window.length := by omega
  exact ⟨_, hk, List.drop_append_of_le_length hk⟩

/-- The numbers of the samples go on without a gap where some of the oldest ones are dropped. -/
theorem iterations_slide (window : List GapSample) (n k : ℕ) (s : GapSample)
    (hk : k ≤ window.length) (hn : window.length ≤ n)
    (h : window.map GapSample.iteration =
      (List.range' (n - window.length) window.length).map Nat.toUInt64)
    (hs : s.iteration = n.toUInt64) :
    (window.drop k ++ [s]).map GapSample.iteration =
      (List.range' (n + 1 - (window.length - k + 1)) (window.length - k + 1)).map Nat.toUInt64 := by
  have hfirst : n + 1 - (window.length - k + 1) = n - window.length + k := by omega
  have hlast : n - window.length + k + (window.length - k) = n := by omega
  calc
    _ = ((List.range' (n - window.length) window.length).map Nat.toUInt64).drop k ++
        [n.toUInt64] := by
      rw [List.map_append, List.map_drop, h, List.map_singleton, hs]
    _ = (List.range' (n - window.length + k) (window.length - k) ++ [n]).map Nat.toUInt64 := by
      rw [← List.map_drop, List.drop_range', Nat.mul_one, List.map_append, List.map_singleton]
    _ = _ := by
      rw [hfirst, List.range'_concat, Nat.one_mul, hlast]

/-- A sample of the right size, numbered by the samples before it, leaves the window homogeneous:
either the replications stay as they are, or the window is emptied. -/
theorem register_homogeneous (c : Controller) (h : c.Sound) (n : ℕ) (hc : c.Homogeneous n)
    (s : GapSample) (hs : s.iteration = n.toUInt64)
    (hsize : s.gaps.length = c.regime.replications.toNat) :
    (c.register s).2.Homogeneous (n + 1) := by
  rcases register_cases c s with ⟨_, hnext⟩ | ⟨_, _, _, hnext⟩
  · obtain ⟨k, hk, hslide⟩ := slide_eq c h s
    have hlength : (c.window.drop k ++ [s]).length = c.window.length - k + 1 := by
      rw [List.length_append, List.length_drop, List.length_singleton]
    have hlatest := hc.length
    rw [hnext, hslide]
    refine ⟨?_, ?_, ?_⟩
    · intro sample hsample
      rcases List.mem_append.mp hsample with hold | hnew
      · exact hc.gaps sample (List.mem_of_mem_drop hold)
      · rw [List.mem_singleton.mp hnew]
        exact hsize
    · change (c.window.drop k ++ [s]).length ≤ n + 1
      omega
    · change _ = (List.range' (n + 1 - (c.window.drop k ++ [s]).length)
        (c.window.drop k ++ [s]).length).map Nat.toUInt64
      rw [hlength]
      exact iterations_slide c.window n k s hk hc.length hc.iterations hs
  · rw [hnext]
    exact ⟨fun _ hs => absurd hs List.not_mem_nil, Nat.zero_le _, rfl⟩

end Controller

namespace Engine

variable {σ : Type} [EventSink σ]

/-- A call that admits its ensemble hands the controller one sample, with a gap for every
replication in force, and counts as an iteration. -/
theorem run_admitted (engine : Engine σ) (e : Ensemble) (h : engine.admits e = true) :
    ∃ gaps : List Float, gaps.length = engine.controller.regime.replications.toNat ∧
      (engine.run e).2.controller = (engine.controller.register ⟨engine.iteration, gaps⟩).2 ∧
      (engine.run e).2.iteration = engine.iteration + 1 := by
  obtain ⟨hsize, hvalid⟩ := (admits_iff engine e).mp h
  obtain ⟨gaps, selection, stream, hd, _⟩ := decide_ok engine e hsize hvalid
  refine ⟨gaps, length_gaps engine e gaps selection stream hd, ?_⟩
  rw [run_eq, hd]
  exact ⟨rfl, rfl⟩

/-- A call that admits its ensemble keeps the window homogeneous, and the counter counts it. -/
theorem run_homogeneous (c : EngineConfig) (engine : Engine σ) (h : engine.Consistent c) (n : ℕ)
    (hn : engine.iteration = n.toUInt64) (hw : engine.controller.Homogeneous n) (e : Ensemble)
    (hadmits : engine.admits e = true) :
    (engine.run e).2.iteration = (n + 1).toUInt64 ∧
      (engine.run e).2.controller.Homogeneous (n + 1) := by
  obtain ⟨gaps, hsize, hcontroller, hiteration⟩ := run_admitted engine e hadmits
  constructor
  · rw [hiteration, hn]
    exact (UInt64.ofNat_add n 1).symm
  · rw [hcontroller]
    exact Controller.register_homogeneous _ h.controller n hw _ hn hsize

/-- Over a run the window stays homogeneous, and the counter counts the calls that have admitted
their ensembles. -/
theorem after_homogeneous (c : EngineConfig) (engine : Engine σ) (h : engine.Consistent c) (n : ℕ)
    (hn : engine.iteration = n.toUInt64) (hw : engine.controller.Homogeneous n)
    (history : List Ensemble) :
    (engine.after history).iteration = (n + (engine.populations history).length).toUInt64 ∧
      (engine.after history).controller.Homogeneous
        (n + (engine.populations history).length) := by
  induction history generalizing engine n with
  | nil => exact ⟨hn, hw⟩
  | cons e rest ih =>
    have hrest := ih (engine.run e).2 (run_consistent c engine h e)
    change ((engine.run e).2.after rest).iteration = _ ∧
      ((engine.run e).2.after rest).controller.Homogeneous _
    rw [populations]
    split_ifs with hadmits
    · obtain ⟨hiteration, hnext⟩ := run_homogeneous c engine h n hn hw e hadmits
      have hcount : n + (e.agents.length :: (engine.run e).2.populations rest).length =
          n + 1 + ((engine.run e).2.populations rest).length := by
        rw [List.length_cons]
        omega
      rw [hcount]
      exact hrest (n + 1) hiteration hnext
    · rw [run_refused engine e hadmits] at hrest ⊢
      exact hrest n hn hw

/-- Every sample of the window has a gap for each replication in force, and the samples are those of
the latest iterations, one after the other up to the counter, which is a word. -/
theorem gapWindow_homogeneous (c : EngineConfig) (sink : σ) (start : Engine σ)
    (hstart : create c sink = .ok start) (history : List Ensemble) :
    let now := start.after history
    let window := now.controller.window
    let count := (start.populations history).length
    (∀ s ∈ window, s.gaps.length = now.controller.regime.replications.toNat) ∧
    window.length ≤ c.adaptation.maxWindow.toNat ∧
    window.length ≤ count ∧ now.iteration = count.toUInt64 ∧
    window.map GapSample.iteration =
      (List.range' (count - window.length) window.length).map Nat.toUInt64 ∧
    (count < 2^64 → window.length ≤ now.iteration.toNat ∧
      window.map (fun s => s.iteration.toNat) =
        List.range' (now.iteration.toNat - window.length) window.length) := by
  obtain ⟨hc, _, rfl⟩ := (create_eq_ok_iff c sink start).mp hstart
  intro now window count
  have hinitial := (initial_sound c hc sink).toConsistent
  have hnow := after_consistent c _ hinitial history
  obtain ⟨hiteration, hw⟩ :=
    after_homogeneous c _ hinitial 0 rfl (Controller.initial_homogeneous _) history
  rw [Nat.zero_add] at hiteration hw
  have hroom : window.length ≤ c.adaptation.maxWindow.toNat := by
    rw [← hnow.settings]
    exact hnow.controller.window
  have hlatest : window.length ≤ count := hw.length
  refine ⟨hw.gaps, hroom, hlatest, hiteration, hw.iterations, ?_⟩
  intro hfits
  have hcount : now.iteration.toNat = count := by
    rw [hiteration]
    exact UInt64.toNat_ofNat_of_lt' hfits
  rw [hcount]
  refine ⟨hlatest, ?_⟩
  -- the numbers are below the counter, so that nothing is lost in their words
  have hwords := congrArg (List.map UInt64.toNat) hw.iterations
  rw [List.map_map, List.map_map] at hwords
  have hsame : ∀ i ∈ List.range' (count - window.length) window.length,
      i.toUInt64.toNat = i := by
    intro i hi
    obtain ⟨_, hlt⟩ := List.mem_range'_1.mp hi
    have hword : i < 2^64 := by omega
    exact UInt64.toNat_ofNat_of_lt' hword
  exact hwords.trans ((List.map_congr_left hsame).trans (List.map_id _))

/-- With a single replication the noise counts as infinite, so that four swings double it. The
window behind two more iterations holds these two, with two gaps each; calls of the wrong size are
refused before and behind the change. -/
theorem gapWindow_homogeneous_swings :
    let c : EngineConfig :=
      { adaptation := { initialReplications := 1, minEvaluatedIterations := 2 } }
    let history : List Ensemble :=
      [.single 1 1.0, .single 1 (-1.0), .single 2 1.0, .single 1 1.0, .single 1 (-1.5),
        .single 2 1.0, .single 1 1.0, .single 2 3.0]
    c.validate = .ok () ∧ ∃ start, create c NullSink.mk = .ok start ∧
      (start.populations history).length < 2^64 ∧
      (∀ s ∈ (start.after history).controller.window, s.gaps.length = 2) ∧
      (start.after history).controller.window.map (fun s => s.iteration.toNat) = [4, 5] := by
  intro c history
  have hc : c.validate = .ok () := eq_ok_of_isOk _ (by decide +kernel)
  have hstart := create_ok c hc (by decide) NullSink.mk
  obtain ⟨hgaps, _, _, hiteration, _, hnumbers⟩ :=
    gapWindow_homogeneous c NullSink.mk _ hstart history
  have hcount : ((initial c NullSink.mk).populations history).length = 6 := by
    decide +kernel
  have hwindow : ((initial c NullSink.mk).after history).controller.window.length = 2 := by
    decide +kernel
  have hreplications :
      ((initial c NullSink.mk).after history).controller.regime.replications = 2 := by
    decide +kernel
  have hfits : ((initial c NullSink.mk).populations history).length < 2^64 := by omega
  obtain ⟨_, hnumbers⟩ := hnumbers hfits
  rw [hcount] at hiteration
  rw [hwindow, hiteration] at hnumbers
  rw [hreplications] at hgaps
  exact ⟨hc, _, hstart, hfits, hgaps, hnumbers⟩

end Engine
end Replanning
