import Replanning.Proofs.Controller

namespace Replanning

/-- The samples since the last adaptation, given the reports on all samples. -/
def sinceAdaptation (samples : List GapSample) (reports : List SampleOutcome) : List GapSample :=
  ((samples.zip reports).rtakeWhile fun call => call.2.adaptation.isNone).map Prod.fst

/-- One more sample is added to those since the last adaptation, or it is the start of the next
ones. -/
theorem sinceAdaptation_concat (samples : List GapSample) (reports : List SampleOutcome)
    (h : samples.length = reports.length) (s : GapSample) (report : SampleOutcome) :
    sinceAdaptation (samples ++ [s]) (reports ++ [report]) =
      if report.adaptation.isSome then [] else sinceAdaptation samples reports ++ [s] := by
  rw [sinceAdaptation, List.zip_append h, List.zip_cons_cons, List.zip_nil_left,
    List.rtakeWhile_concat]
  cases report.adaptation with
  | none => exact List.map_append
  | some a => rfl

/-- Of a list that is cut down from the front before every addition only the end is seen. -/
theorem rtake_concat_rtake {α : Type} (l : List α) (x : α) (n : ℕ) :
    (l.rtake n ++ [x]).rtake n = (l ++ [x]).rtake n := by
  cases n with
  | zero => rw [List.rtake_zero, List.rtake_zero]
  | succ n =>
    have hcut : (l.rtake (n+1)).rtake n = l.rtake n := by
      rw [List.rtake, List.rtake, List.rtake, List.length_drop, List.drop_drop]
      congr 1
      omega
    rw [List.rtake_concat_succ, List.rtake_concat_succ, hcut]

theorem rtake_min_length {α : Type} (l : List α) (n : ℕ) : l.rtake (min l.length n) = l.rtake n := by
  rw [List.rtake, List.rtake]
  congr 1
  omega

namespace Controller

/-- The last report of a run is the one of the controller that the samples before have led to. -/
theorem registerAll_concat (c : Controller) (samples : List GapSample) (s : GapSample) :
    c.registerAll (samples ++ [s]) =
      ((c.registerAll samples).1 ++ [((c.registerAll samples).2.register s).1],
        ((c.registerAll samples).2.register s).2) := by
  induction samples generalizing c with
  | nil => rfl
  | cons first rest ih =>
    rw [List.cons_append, registerAll, registerAll]
    dsimp only
    rw [ih (c.register first).2]
    rfl

theorem length_registerAll (c : Controller) (samples : List GapSample) :
    (c.registerAll samples).1.length = samples.length := by
  induction samples generalizing c with
  | nil => rfl
  | cons s rest ih => exact congrArg (· + 1) (ih (c.register s).2)

theorem registerAll_sound (c : Controller) (h : c.Sound) (samples : List GapSample) :
    (c.registerAll samples).2.Sound := by
  induction samples generalizing c with
  | nil => exact h
  | cons s rest ih => exact ih (c.register s).2 (register_sound c h s)

theorem config_registerAll (c : Controller) (samples : List GapSample) :
    (c.registerAll samples).2.config = c.config := by
  induction samples generalizing c with
  | nil => rfl
  | cons s rest ih => exact (ih (c.register s).2).trans (config_register c s)

/-- What a report says about the window that ends with its sample, and what becomes of that window.
The length that a test needs is the one of the regime from before. -/
structure Judges (before : Controller) (window : List GapSample) (report : SampleOutcome)
    (after : Controller) : Prop where
  windowLen : report.windowLen.toNat = window.length
  minRequired : report.minRequired = before.config.minSamples before.regime.replications
  test : report.test =
    if report.minRequired.toNat ≤ window.length then
      some (DickeyFuller.test before.config.criticalValue (window.map GapSample.mean))
    else none
  adaptation : report.adaptation.isSome = true ↔
    ∃ test, report.test = some test ∧ test.stationary = true
  phase : report.phase = .stationaryDetected ↔ report.adaptation.isSome = true
  reported : ∀ a, report.adaptation = some a → a.windowLen = report.windowLen
  window : after.window = if report.adaptation.isSome then [] else window

/-- Every report judges the window that its sample slides into. -/
theorem register_judges (c : Controller) (h : c.Sound) (s : GapSample) :
    c.Judges (c.slide s) (c.register s).1 (c.register s).2 := by
  have hlen : (c.slide s).length.toUInt64.toNat = (c.slide s).length := by
    have hmax := c.config.maxWindow.toNat_lt
    exact UInt64.toNat_ofNat_of_lt' ((length_slide_le c h s).trans_lt hmax)
  rcases register_eq c s with ⟨hshort, hout⟩ | ⟨hlong, htest, hout⟩ | ⟨hlong, htest, hout⟩
  · rw [hout]
    exact {
      windowLen := hlen
      minRequired := rfl
      test := (if_neg (Nat.not_le.mpr hshort)).symm
      adaptation := iff_of_false nofun (by rintro ⟨_, h, _⟩; cases h)
      phase := iff_of_false nofun nofun
      reported := nofun
      window := rfl }
  · rw [hout]
    exact {
      windowLen := hlen
      minRequired := rfl
      test := (if_pos hlong).symm
      adaptation := by
        refine iff_of_false nofun ?_
        rintro ⟨_, h, hstationary⟩
        obtain rfl := Option.some.inj h
        exact Bool.false_ne_true (htest.symm.trans hstationary)
      phase := iff_of_false nofun nofun
      reported := nofun
      window := rfl }
  · rw [hout]
    exact {
      windowLen := hlen
      minRequired := rfl
      test := (if_pos hlong).symm
      adaptation := iff_of_true rfl ⟨_, rfl, htest⟩
      phase := iff_of_true rfl rfl
      reported := by
        rintro a ha
        obtain rfl := Option.some.inj ha
        rfl
      window := rfl }

/-- If the window holds the end of some samples, it slides on to the end of one more. -/
theorem slide_of_recent (c : Controller) (h : c.Sound) (recent : List GapSample)
    (hw : c.window = recent.rtake c.config.maxWindow.toNat) (s : GapSample) :
    c.slide s = (recent ++ [s]).rtake c.config.maxWindow.toNat := by
  rw [slide_eq_rtake c h, hw, rtake_concat_rtake]

/-- Over a run the window holds the end of the samples since the last adaptation. -/
theorem window_registerAll (c : Controller) (h : c.Sound) (hempty : c.window = [])
    (samples : List GapSample) :
    (c.registerAll samples).2.window =
      (sinceAdaptation samples (c.registerAll samples).1).rtake c.config.maxWindow.toNat := by
  induction samples using List.reverseRecOn with
  | nil => exact hempty.trans (List.rtake_nil _).symm
  | append_singleton samples s ih =>
    have hsound := registerAll_sound c h samples
    rw [← config_registerAll c samples] at ih
    have hslide := slide_of_recent _ hsound _ ih s
    have hjudged := register_judges _ hsound s
    rw [registerAll_concat, sinceAdaptation_concat _ _ (length_registerAll c samples).symm,
      hjudged.window, hslide, config_registerAll]
    split_ifs
    · exact (List.rtake_nil _).symm
    · rfl

/-- The window holds the latest samples since the last adaptation, as many as fit. The next sample is
tested exactly if the window with it is long enough, and an adaptation is reported exactly if that
test is stationary. -/
theorem window_holds_latest (c : AdaptationConfig) (start : Controller)
    (hstart : create c = .ok start) (samples : List GapSample) :
    let now := (start.registerAll samples).2
    let recent := sinceAdaptation samples (start.registerAll samples).1
    now.window = recent.rtake (min recent.length c.maxWindow.toNat) ∧ now.config = c ∧
    ∀ s, start.registerAll (samples ++ [s]) =
        ((start.registerAll samples).1 ++ [(now.register s).1], (now.register s).2) ∧
      now.Judges ((recent ++ [s]).rtake (min (recent.length + 1) c.maxWindow.toNat))
        (now.register s).1 (now.register s).2 := by
  obtain ⟨hc, _, rfl⟩ := (create_eq_ok_iff c start).mp hstart
  intro now recent
  have hsound := initial_sound c hc
  have hnow : now.Sound := registerAll_sound _ hsound samples
  have hconfig : now.config = c := config_registerAll _ samples
  have hwindow : now.window = recent.rtake c.maxWindow.toNat :=
    window_registerAll _ hsound rfl samples
  refine ⟨hwindow.trans (rtake_min_length _ _).symm, hconfig, ?_⟩
  intro s
  refine ⟨registerAll_concat _ samples s, ?_⟩
  have hnext : (recent ++ [s]).rtake (min (recent.length + 1) c.maxWindow.toNat) = now.slide s := by
    have hcount : (recent ++ [s]).length = recent.length + 1 := List.length_append
    rw [← hcount, rtake_min_length, ← hconfig]
    rw [← hconfig] at hwindow
    exact (slide_of_recent now hnow recent hwindow s).symm
  rw [hnext]
  exact register_judges now hnow s

/-- A window of four has dropped its oldest sample when the fifth one shows it to be stationary; the
next sample is the only one behind the change. -/
theorem window_holds_latest_swings :
    let c : AdaptationConfig := { minEvaluatedIterations := 4, maxWindow := 4 }
    let first : List GapSample :=
      [⟨0, [3.0, 3.0]⟩, ⟨1, [1.0, 1.0]⟩, ⟨2, [-1.0, -1.0]⟩, ⟨3, [1.0, 1.0]⟩]
    let fifth : GapSample := ⟨4, [-1.5, -1.5]⟩
    let sixth : GapSample := ⟨5, [1.0, 1.0]⟩
    c.validate = .ok () ∧ ∃ start, create c = .ok start ∧
      let now := (start.registerAll first).2
      now.window.map GapSample.iteration = [0, 1, 2, 3] ∧
      (now.register fifth).1.windowLen.toNat = 4 ∧
      (now.register fifth).1.phase = .stationaryDetected ∧ (now.register fifth).2.window = [] ∧
      (start.registerAll (first ++ [fifth, sixth])).2.window.map GapSample.iteration = [5] := by
  intro c first fifth sixth
  have hc : c.validate = .ok () := eq_ok_of_isOk _ (by decide +kernel)
  have hstart := create_ok c hc (by decide)
  obtain ⟨hfirst, _, hreports⟩ := window_holds_latest c _ hstart first
  obtain ⟨_, hjudged⟩ := hreports fifth
  obtain ⟨hlast, _, _⟩ := window_holds_latest c _ hstart (first ++ [fifth, sixth])
  have hsome : (((initial c).registerAll first).2.register fifth).1.adaptation.isSome = true := by
    decide +kernel
  refine ⟨hc, _, hstart, ?_, ?_, hjudged.phase.mpr hsome, ?_, ?_⟩
  · rw [hfirst]
    decide +kernel
  · rw [hjudged.windowLen]
    decide +kernel
  · rw [hjudged.window, if_pos hsome]
  · rw [hlast]
    decide +kernel

end Controller
end Replanning
