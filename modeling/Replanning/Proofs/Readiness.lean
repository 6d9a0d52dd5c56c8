import Replanning.Proofs.Binary64.Monotone
import Replanning.Proofs.Restore
import Replanning.Proofs.WindowContents

/-! With more replications a test needs no more samples, and there are never fewer replications; so
a window that is long enough for the first test is long enough for every later one. -/
namespace Replanning
namespace AdaptationConfig
open Binary64

theorem positive_two : Positive 2.0 :=
  (positive_iff 2.0).mpr ⟨by decide +kernel, by decide +kernel⟩

/-- Two by a positive count is a positive double: counts are words. -/
theorem positive_scale (n : UInt64) (h : 1 ≤ n) : Positive (2.0 / n.toFloat) := by
  have hone : 1 ≤ n.toNat := UInt64.le_iff_toNat_le.mp h
  have hlow : 2.0 / (0xFFFFFFFFFFFFFFFF : UInt64).toFloat ≤ 2.0 / n.toFloat :=
    div_le_div_left _ _ _ positive_two (positive_toFloat n hone) (positive_toFloat _ (by decide))
      (toFloat_mono _ _ (UInt64.le_iff_toNat_le.mpr (Nat.le_of_lt_succ n.toNat_lt)))
  have hhigh : 2.0 / n.toFloat ≤ 2.0 / (1 : UInt64).toFloat :=
    div_le_div_left _ _ _ positive_two (positive_toFloat 1 le_rfl) (positive_toFloat n hone)
      (toFloat_mono _ _ h)
  have hquotient : Positive (2.0 / (1 : UInt64).toFloat) :=
    (positive_iff _).mpr ⟨by decide +kernel, by decide +kernel⟩
  exact hquotient.of_le (float_lt_of_lt_of_le _ _ _ (by decide +kernel) hlow) hhigh

/-- With more replications a test needs no more samples. -/
theorem minSamples_antitone (c : AdaptationConfig) (r r' : UInt64) (h : r ≤ r') :
    c.minSamples r' ≤ c.minSamples r := by
  have hone (r : UInt64) : 1 ≤ max r 1 := by
    rw [UInt64.le_iff_toNat_le, word_max_toNat]
    exact Nat.le_max_right _ _
  have hmax : max r 1 ≤ max r' 1 := by
    rw [UInt64.le_iff_toNat_le] at h ⊢
    rw [word_max_toNat, word_max_toNat]
    omega
  have hpos (r : UInt64) : Positive (max r 1).toFloat :=
    positive_toFloat _ (UInt64.le_iff_toNat_le.mp (hone r))
  have hquotient := div_le_div_left 2.0 _ _ positive_two (hpos r) (hpos r') (toFloat_mono _ _ hmax)
  have hroot (r : UInt64) := positive_sqrt _ (positive_scale _ (hone r))
  have hroots := sqrt_mono _ _ (positive_scale _ (hone r')) (positive_scale _ (hone r)) hquotient
  have hproduct : ceilWord (c.minEvaluatedIterations.toFloat * (2.0 / (max r' 1).toFloat).sqrt) ≤
      ceilWord (c.minEvaluatedIterations.toFloat * (2.0 / (max r 1).toFloat).sqrt) := by
    -- zero is no positive double, but zero times any root is zero
    by_cases h0 : c.minEvaluatedIterations = 0
    · have hzero : (0 : UInt64).toFloat = 0.0 := rfl
      rw [h0, hzero, (hroot r).zero_mul, (hroot r').zero_mul]
      exact UInt64.le_refl _
    · apply ceilWord_mono
      apply mul_le_mul_left _ _ _ (positive_toFloat _ ?_) (hroot r') (hroot r) hroots
      rw [Nat.one_le_iff_ne_zero]
      exact fun hzero => h0 (UInt64.toNat_inj.mp hzero)
  rw [UInt64.le_iff_toNat_le] at hproduct ⊢
  rw [minSamples, minSamples, word_max_toNat, word_max_toNat]
  exact max_le_max_right _ hproduct

end AdaptationConfig

namespace Controller

/-- What a controller is asked for: to take up a sample, or to be saved and restored. -/
inductive Call where
  | register (s : GapSample)
  | reload

/-- The reports of a call and the controller behind it. -/
def call (settings : AdaptationConfig) (c : Controller) :
    Call → Except RestoreError (List SampleOutcome × Controller)
  | .register s => .ok ([(c.register s).1], (c.register s).2)
  | .reload => do
    let restored ← restore settings c.snapshot
    return ([], restored)

def callAll (settings : AdaptationConfig) :
    Controller → List Call → Except RestoreError (List SampleOutcome × Controller)
  | c, [] => .ok ([], c)
  | c, first :: rest => do
    let (reports, next) ← c.call settings first
    let (later, last) ← callAll settings next rest
    return (reports ++ later, last)

def samples (calls : List Call) : List GapSample :=
  calls.filterMap fun
    | .register s => some s
    | .reload => none

/-- Saving and restoring under its own settings leave no trace on a controller. -/
theorem callAll_eq (settings : AdaptationConfig) (hroom : settings.Reservable) (c : Controller)
    (h : c.Sound) (hc : c.config = settings) (calls : List Call) :
    c.callAll settings calls = .ok (c.registerAll (samples calls)) := by
  induction calls generalizing c with
  | nil => rfl
  | cons first rest ih =>
    cases first with
    | register s =>
      have hrest := ih (c.register s).2 (register_sound c h s) ((config_register c s).trans hc)
      exact (bind_eq_ok _ _ _).mpr ⟨_, rfl, (bind_eq_ok _ _ _).mpr ⟨_, hrest, rfl⟩⟩
    | reload =>
      have hsame : restore settings c.snapshot = .ok c := by
        rw [← hc] at hroom ⊢
        exact (restore_eq_ok_iff c.config h.valid hroom c.snapshot c).mpr ⟨h.admissible, rfl⟩
      have hreload : c.call settings .reload = .ok ([], c) :=
        (bind_eq_ok _ _ _).mpr ⟨c, hsame, rfl⟩
      exact (bind_eq_ok _ _ _).mpr ⟨_, hreload, (bind_eq_ok _ _ _).mpr ⟨_, ih c h hc, rfl⟩⟩

/-- Without an adaptation the window grows until it is full. -/
theorem length_window_of_quiet (c : Controller) (h : c.Sound) (samples : List GapSample)
    (hquiet : ∀ o ∈ (c.registerAll samples).1, o.adaptation = none) :
    (c.registerAll samples).2.window.length =
      min (c.window.length + samples.length) c.config.maxWindow.toNat := by
  induction samples generalizing c with
  | nil => exact (Nat.min_eq_left h.window).symm
  | cons s rest ih =>
    rw [registerAll] at hquiet
    obtain ⟨hfirst, hrest⟩ := List.forall_mem_cons.mp hquiet
    have hlength : (c.register s).2.window.length = c.reach := by
      rcases register_cases c s with ⟨_, hc⟩ | ⟨a, ha, _⟩
      · rw [hc]
        exact length_slide c h s
      · cases hfirst.symm.trans ha
    change ((c.register s).2.registerAll rest).2.window.length = _
    rw [ih _ (register_sound c h s) hrest, hlength, config_register, reach, List.length_cons]
    omega

/-- The length that a test needs never grows along a run. -/
theorem minRequired_registerAll (c : Controller) (samples : List GapSample) :
    (c.registerAll samples).2.minRequired ≤ c.minRequired := by
  obtain ⟨_, hreplications⟩ := registerAll_mono c samples
  rw [minRequired, minRequired, config_registerAll]
  exact c.config.minSamples_antitone _ _ hreplications

/-- A full window is long enough for a test. -/
theorem test_of_full (c : Controller) (h : c.Sound) (hrequired : c.minRequired ≤ c.config.maxWindow)
    (hfull : c.window.length = c.config.maxWindow.toNat) (s : GapSample) :
    (c.register s).1.test.isSome = true := by
  have hjudges := register_judges c h s
  have hlong : (c.register s).1.minRequired.toNat ≤ (c.slide s).length := by
    rw [hjudges.minRequired, length_slide c h, reach, hfull]
    have hle : (c.config.minSamples c.regime.replications).toNat ≤ c.config.maxWindow.toNat :=
      UInt64.le_iff_toNat_le.mp hrequired
    omega
  rw [hjudges.test, if_pos hlong]
  rfl

/-- The controller never becomes untestable. -/
theorem stays_testable (c : AdaptationConfig) (start : Controller) (hstart : create c = .ok start)
    (calls : List Call) :
    ∃ reports now, start.callAll c calls = .ok (reports, now) ∧
      4 ≤ now.minRequired.toNat ∧ now.minRequired ≤ c.maxWindow ∧
      ∀ later, ∃ reports' next, now.callAll c later = .ok (reports', next) ∧
        next.minRequired ≤ now.minRequired ∧
        (c.maxWindow.toNat ≤ reports'.length → (∀ o ∈ reports', o.adaptation = none) →
          ∀ s, (next.register s).1.test.isSome = true) := by
  obtain ⟨hc, hroom, rfl⟩ := (create_eq_ok_iff c start).mp hstart
  obtain ⟨_, _, hwindow⟩ := c.limits_of_validate hc
  have hsound := registerAll_sound _ (initial_sound c hc) (samples calls)
  -- reloads change nothing, so that the calls come to the samples among them
  have hrun := callAll_eq c hroom (initial c) (initial_sound c hc) rfl calls
  have hconfig := config_registerAll (initial c) (samples calls)
  have hrequired := UInt64.le_trans (minRequired_registerAll (initial c) (samples calls)) hwindow
  generalize (initial c).registerAll (samples calls) = run at hrun hsound hconfig hrequired
  obtain ⟨reports, now⟩ := run
  refine ⟨reports, now, hrun, now.config.four_le_minSamples _, hrequired, ?_⟩
  intro later
  have hrun' := callAll_eq c hroom now hsound hconfig later
  have hless := minRequired_registerAll now (samples later)
  refine ⟨_, _, hrun', hless, ?_⟩
  intro hmany hquiet s
  rw [length_registerAll] at hmany
  have hlength := length_window_of_quiet now hsound (samples later) hquiet
  have hconfig' := (config_registerAll now (samples later)).trans hconfig
  apply test_of_full _ (registerAll_sound now hsound (samples later))
  · rw [hconfig']
    exact UInt64.le_trans hless hrequired
  · rw [hlength, hconfig', hconfig]
    exact Nat.min_eq_right (hmany.trans (Nat.le_add_left _ _))

/-- Gaps that do not vary bring no adaptation, and a controller that is restored while they fill its
window tests the next sample. -/
theorem stays_testable_constant :
    let c : AdaptationConfig := { minEvaluatedIterations := 4, maxWindow := 4 }
    let s : GapSample := .uniform 0 1.0 2
    c.validate = .ok () ∧ ∃ start, create c = .ok start ∧
      ∃ reports now, start.callAll c [.register s, .reload] = .ok (reports, now) ∧
        ∃ reports' next,
          now.callAll c [.register s, .register s, .reload, .register s, .register s] =
            .ok (reports', next) ∧
          4 ≤ reports'.length ∧ (∀ o ∈ reports', o.adaptation = none) ∧
          (next.register s).1.test.isSome = true := by
  intro c s
  have hc : c.validate = .ok () := eq_ok_of_isOk _ (by decide +kernel)
  have hsound := initial_sound c hc
  have hroom : c.Reservable := by decide
  have hstart := create_ok c hc hroom
  obtain ⟨reports, now, hrun, _, _, hlater⟩ :=
    stays_testable c _ hstart [.register s, .reload]
  have hnow := congrArg Prod.snd
    (Except.ok.inj (hrun.symm.trans
      (callAll_eq c hroom (initial c) hsound rfl [.register s, .reload])))
  obtain rfl : now = ((initial c).register s).2 := hnow
  obtain ⟨reports', next, hrun', _, htest⟩ :=
    hlater [.register s, .register s, .reload, .register s, .register s]
  obtain ⟨hreports, _⟩ := Prod.ext_iff.mp (Except.ok.inj (hrun'.symm.trans
    (callAll_eq c hroom _ (register_sound _ hsound s) (config_register _ s) _)))
  dsimp only at hreports
  have hmany : 4 ≤ reports'.length := by
    rw [hreports]
    decide +kernel
  have hquiet : ∀ o ∈ reports', o.adaptation = none := by
    have hnone : reports'.all (·.adaptation.isNone) = true := by
      rw [hreports]
      decide +kernel
    exact fun o ho => Option.isNone_iff_eq_none.mp (List.all_eq_true.mp hnone o ho)
  exact ⟨hc, _, hstart, reports, _, hrun, reports', next, hrun', hmany, hquiet,
    htest hmany hquiet s⟩

end Controller
end Replanning
