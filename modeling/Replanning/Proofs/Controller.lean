import Replanning.Controller
import Replanning.Proofs.Outcome
import Mathlib

namespace Replanning

/-- A report says what it changed: the values before and behind it, and the other part is kept. -/
def Regime.Explained (before : Regime) (report : Option Adaptation) (after : Regime) : Prop :=
  match report.map Adaptation.action with
  | none => after = before
  | some (.trustRegionHalved old new) =>
    old = before.trustRegion ∧ new = after.trustRegion ∧ new < old ∧
      after.replications = before.replications
  | some (.replicationsDoubled old new _) =>
    old = before.replications ∧ new = after.replications ∧ old ≤ new ∧
      after.trustRegion = before.trustRegion

/-- The change of a regime is a halving of more than one, or a doubling. -/
theorem Regime.action_cases (s : Regime) (within between : Float) :
    (1 < s.trustRegion ∧
      s.action within between = .trustRegionHalved s.trustRegion (max (s.trustRegion / 2) 1)) ∨
    ∃ floorHit, s.action within between =
      .replicationsDoubled s.replications (doubled s.replications) floorHit := by
  unfold action
  split_ifs with hnoise htr
  · exact Or.inl ⟨htr, rfl⟩
  · exact Or.inr ⟨true, rfl⟩
  · exact Or.inr ⟨false, rfl⟩

theorem halved_toNat (t : UInt32) (ht : 1 < t) : (max (t / 2) 1).toNat = t.toNat / 2 := by
  -- half of more than one is at least one, so the floor changes nothing
  have hlt : 1 < t.toNat := UInt32.lt_iff_toNat_lt.mp ht
  have hdiv : (t / 2).toNat = t.toNat / 2 := UInt32.toNat_div t 2
  change (if t / 2 ≤ 1 then 1 else t / 2).toNat = _
  split_ifs with h
  · have hle : (t / 2).toNat ≤ 1 := UInt32.le_iff_toNat_le.mp h
    change 1 = _
    omega
  · exact hdiv

theorem doubled_toNat (n : UInt64) : (doubled n).toNat = min (2 * n.toNat) (2^64-1) := by
  have hlt := n.toNat_lt
  unfold doubled
  split_ifs with h
  -- below `2 ^ 63` the product does not wrap around, and from there on it saturates
  · have hn : n.toNat < 9223372036854775808 := UInt64.lt_iff_toNat_lt.mp h
    rw [UInt64.toNat_mul]
    change 2 * n.toNat % 2^64 = _
    omega
  · have hn : ¬ n.toNat < 9223372036854775808 := fun hn => h (UInt64.lt_iff_toNat_lt.mpr hn)
    change 2^64-1 = _
    omega

theorem word_max_toNat (a b : UInt64) : (max a b).toNat = max a.toNat b.toNat := by
  change (if a ≤ b then b else a).toNat = _
  split_ifs with h <;> rw [UInt64.le_iff_toNat_le] at h <;> omega

namespace AdaptationConfig

/-- No test is made on fewer samples than the regression needs. -/
theorem four_le_minSamples (c : AdaptationConfig) (replications : UInt64) :
    4 ≤ (c.minSamples replications).toNat := by
  rw [minSamples, word_max_toNat]
  exact Nat.le_max_right _ _

/-- Valid settings start above the floors, and their window takes the first test. -/
theorem limits_of_validate (c : AdaptationConfig) (hc : c.validate = .ok ()) :
    1 ≤ c.initialTrustRegion ∧ 1 ≤ c.initialReplications ∧
      c.minSamples c.initialReplications ≤ c.maxWindow := by
  rw [validate] at hc
  obtain ⟨htr, hc⟩ := (guard_eq_ok _ _ _ _ _).mp hc
  obtain ⟨hrep, hc⟩ := (guard_eq_ok _ _ _ _ _).mp hc
  obtain ⟨_, hc⟩ := (guard_eq_ok _ _ _ _ _).mp hc
  obtain ⟨hwindow, _⟩ := (guard_eq_ok _ _ pure _ _).mp hc
  exact ⟨UInt32.not_lt.mp htr, UInt64.not_lt.mp hrep, UInt64.not_lt.mp hwindow⟩

/-- Valid settings start above the floors, and their window has room for a sample. -/
theorem bounds_of_validate (c : AdaptationConfig) (hc : c.validate = .ok ()) :
    1 ≤ c.initialTrustRegion.toNat ∧ 1 ≤ c.initialReplications.toNat ∧ 1 ≤ c.maxWindow.toNat := by
  obtain ⟨htr, hrep, hwindow⟩ := c.limits_of_validate hc
  have hfour := (c.four_le_minSamples _).trans (UInt64.le_iff_toNat_le.mp hwindow)
  exact ⟨UInt32.le_iff_toNat_le.mp htr, UInt64.le_iff_toNat_le.mp hrep, (by decide : 1 ≤ 4).trans hfour⟩

end AdaptationConfig

namespace Controller

/-- What the controller reports on some samples, and the controller behind them. -/
def registerAll : Controller → List GapSample → List SampleOutcome × Controller
  | c, [] => ([], c)
  | c, s :: rest =>
    let (outcome, c) := c.register s
    let (outcomes, c) := registerAll c rest
    (outcome :: outcomes, c)

/-- A controller starts exactly from valid settings with a window that can be laid out. -/
theorem create_eq_ok_iff (c : AdaptationConfig) (start : Controller) :
    create c = .ok start ↔ c.validate = .ok () ∧ c.Reservable ∧ start = initial c := by
  rw [create, bind_eq_ok]
  constructor
  · rintro ⟨_, hc, h⟩
    obtain ⟨hroom, h⟩ := (guard_eq_ok _ _ _ _ _).mp h
    exact ⟨(mapError_eq_ok _ _ _).mp hc, not_not.mp hroom, (Except.ok.inj h).symm⟩
  · rintro ⟨hc, hroom, rfl⟩
    refine ⟨(), (mapError_eq_ok _ _ _).mpr hc, ?_⟩
    exact (guard_eq_ok _ _ _ _ _).mpr ⟨not_not.mpr hroom, rfl⟩

theorem create_ok (c : AdaptationConfig) (hc : c.validate = .ok ()) (hroom : c.Reservable) :
    create c = .ok (initial c) :=
  (create_eq_ok_iff c _).mpr ⟨hc, hroom, rfl⟩

/-- Valid settings fail only for the room of their window. -/
theorem create_overflow (c : AdaptationConfig) (hc : c.validate = .ok ()) (hroom : ¬ c.Reservable) :
    create c = .error .capacityOverflow := by
  rw [create, hc]
  exact if_pos hroom

/-- The test of the window with one more sample. -/
def trial (c : Controller) (s : GapSample) : DickeyFuller :=
  DickeyFuller.test c.config.criticalValue ((c.slide s).map GapSample.mean)

/-- The change that a sample brings about if the window is stationary with it. -/
def change (c : Controller) (s : GapSample) : Adaptation :=
  (c.adapt (c.slide s) s.iteration (c.trial s).tStatistic).1

/-- Everything that a sample can bring about: it is taken up, its test finds the window to drift, or
the window is stationary and given up for a change of the regime. -/
theorem register_eq (c : Controller) (s : GapSample) :
    ((c.slide s).length < c.minRequired.toNat ∧ c.register s =
      (⟨.accumulating, (c.slide s).length.toUInt64, c.minRequired, none, none⟩,
        { c with window := c.slide s })) ∨
    (c.minRequired.toNat ≤ (c.slide s).length ∧ (c.trial s).stationary = false ∧ c.register s =
      (⟨.accumulating, (c.slide s).length.toUInt64, c.minRequired, some (c.trial s), none⟩,
        { c with window := c.slide s })) ∨
    (c.minRequired.toNat ≤ (c.slide s).length ∧ (c.trial s).stationary = true ∧ c.register s =
      (⟨.stationaryDetected, (c.slide s).length.toUInt64, c.minRequired, some (c.trial s),
          some (c.change s)⟩,
        { c with
          regime := c.regime.apply (c.change s).action
          impossibleReductions := impossibleAfter c.impossibleReductions (c.change s).action
          window := [] })) := by
  unfold register
  dsimp only
  split_ifs with hlen htest
  · exact Or.inl ⟨hlen, rfl⟩
  · exact Or.inr (Or.inr ⟨Nat.not_lt.mp hlen, htest, rfl⟩)
  · exact Or.inr (Or.inl ⟨Nat.not_lt.mp hlen, Bool.eq_false_iff.mpr htest, rfl⟩)

/-- A sample is taken up, or it brings about an adaptation. -/
theorem register_cases (c : Controller) (s : GapSample) :
    ((c.register s).1.adaptation = none ∧ (c.register s).2 = { c with window := c.slide s }) ∨
    ∃ a, (c.register s).1.adaptation = some a ∧
      a.action = c.regime.action a.withinVariance a.betweenVariance ∧
      (c.register s).2 = { c with
        regime := c.regime.apply a.action
        impossibleReductions := impossibleAfter c.impossibleReductions a.action
        window := [] } := by
  rcases register_eq c s with ⟨_, h⟩ | ⟨_, _, h⟩ | ⟨_, _, h⟩
  · rw [h]
    exact Or.inl ⟨rfl, rfl⟩
  · rw [h]
    exact Or.inl ⟨rfl, rfl⟩
  · rw [h]
    exact Or.inr ⟨c.change s, rfl, rfl, rfl⟩

/-- The regime behind a sample is the one that its report explains. -/
theorem register_explained (c : Controller) (s : GapSample) :
    c.regime.Explained (c.register s).1.adaptation (c.register s).2.regime := by
  rcases register_cases c s with ⟨ha, hc⟩ | ⟨a, ha, haction, hc⟩
  · rw [ha, hc]
    rfl
  · rw [ha, hc, Regime.Explained, Option.map_some]
    rcases c.regime.action_cases a.withinVariance a.betweenVariance with ⟨htr, hact⟩ | ⟨f, hact⟩
    · rw [haction, hact]
      refine ⟨rfl, rfl, ?_, rfl⟩
      have hlt : 1 < c.regime.trustRegion.toNat := UInt32.lt_iff_toNat_lt.mp htr
      rw [UInt32.lt_iff_toNat_lt, halved_toNat _ htr]
      omega
    · rw [haction, hact]
      refine ⟨rfl, rfl, ?_, rfl⟩
      have hlt := c.regime.replications.toNat_lt
      rw [UInt64.le_iff_toNat_le, doubled_toNat]
      omega

end Controller

namespace SampleOutcome

def isHalving (o : SampleOutcome) : Bool :=
  match o.adaptation.map Adaptation.action with
  | some (.trustRegionHalved ..) => true
  | _ => false

def isDoubling (o : SampleOutcome) : Bool :=
  match o.adaptation.map Adaptation.action with
  | some (.replicationsDoubled ..) => true
  | _ => false

end SampleOutcome

/-- The regime of a schedule after so many halvings and doublings. -/
structure Regime.Scheduled (start : Regime) (halvings doublings : ℕ) (s : Regime) : Prop where
  trustRegion : s.trustRegion.toNat = start.trustRegion.toNat / 2^halvings
  replications : s.replications.toNat = min (start.replications.toNat * 2^doublings) (2^64-1)
  floor : 1 ≤ s.trustRegion.toNat

namespace Controller

/-- One sample moves the schedule on by what it reports. -/
theorem register_scheduled (start : Regime) (c : Controller) (s : GapSample) (h d : ℕ)
    (hc : start.Scheduled h d c.regime) :
    start.Scheduled (h + (c.register s).1.isHalving.toNat) (d + (c.register s).1.isDoubling.toNat)
      (c.register s).2.regime := by
  rcases register_cases c s with ⟨ha, hn⟩ | ⟨a, ha, haction, hn⟩
  · rw [SampleOutcome.isHalving, SampleOutcome.isDoubling, ha, hn]
    exact hc
  · rw [SampleOutcome.isHalving, SampleOutcome.isDoubling, ha, hn, Option.map_some]
    rcases c.regime.action_cases a.withinVariance a.betweenVariance with ⟨htr, hact⟩ | ⟨f, hact⟩
    · rw [haction, hact]
      have hlt : 1 < c.regime.trustRegion.toNat := UInt32.lt_iff_toNat_lt.mp htr
      refine ⟨?_, hc.replications, ?_⟩
      · change (max (c.regime.trustRegion / 2) 1).toNat = _ / 2^(h+1)
        rw [halved_toNat _ htr, hc.trustRegion, Nat.div_div_eq_div_mul, Nat.pow_succ]
      · change 1 ≤ (max (c.regime.trustRegion / 2) 1).toNat
        rw [halved_toNat _ htr]
        omega
    · rw [haction, hact]
      refine ⟨hc.trustRegion, ?_, hc.floor⟩
      have hpow : start.replications.toNat * 2^(d+1) = 2 * (start.replications.toNat * 2^d) := by
        rw [Nat.pow_succ, ← Nat.mul_assoc, Nat.mul_comm]
      change (doubled c.regime.replications).toNat = min (_ * 2^(d+1)) _
      rw [doubled_toNat, hc.replications, hpow]
      omega

/-- What a whole run leads to. -/
theorem registerAll_scheduled (start : Regime) (c : Controller) (samples : List GapSample)
    (h d : ℕ) (hc : start.Scheduled h d c.regime) :
    start.Scheduled (h + (c.registerAll samples).1.countP SampleOutcome.isHalving)
      (d + (c.registerAll samples).1.countP SampleOutcome.isDoubling)
      (c.registerAll samples).2.regime := by
  induction samples generalizing c h d with
  | nil => exact hc
  | cons s rest ih =>
    have hh := ih (c.register s).2 _ _ (register_scheduled start c s h d hc)
    -- the first report counts once, and the others as in the run that follows it
    have hcount (p : SampleOutcome → Bool) (n : ℕ) :
        n + (c.registerAll (s :: rest)).1.countP p =
          n + (p (c.register s).1).toNat + ((c.register s).2.registerAll rest).1.countP p := by
      rw [registerAll, List.countP_cons]
      cases p (c.register s).1 <;> simp only [Bool.toNat_true, Bool.toNat_false, ↓reduceIte,
        Bool.false_eq_true] <;> omega
    rw [hcount, hcount]
    exact hh

theorem register_mono (c : Controller) (s : GapSample) :
    (c.register s).2.regime.trustRegion ≤ c.regime.trustRegion ∧
      c.regime.replications ≤ (c.register s).2.regime.replications := by
  have h := register_explained c s
  unfold Regime.Explained at h
  split at h
  · rw [h]
    exact ⟨UInt32.le_refl _, UInt64.le_refl _⟩
  · obtain ⟨hold, hnew, hlt, hrep⟩ := h
    rw [← hnew, ← hold, hrep]
    exact ⟨UInt32.le_of_lt hlt, UInt64.le_refl _⟩
  · obtain ⟨hold, hnew, hle, htr⟩ := h
    rw [← hnew, ← hold, htr]
    exact ⟨UInt32.le_refl _, hle⟩

/-- The trust region never grows, and there are never fewer replications. -/
theorem registerAll_mono (c : Controller) (samples : List GapSample) :
    (c.registerAll samples).2.regime.trustRegion ≤ c.regime.trustRegion ∧
      c.regime.replications ≤ (c.registerAll samples).2.regime.replications := by
  induction samples generalizing c with
  | nil => exact ⟨UInt32.le_refl _, UInt64.le_refl _⟩
  | cons s rest ih =>
    obtain ⟨htr, hrep⟩ := register_mono c s
    obtain ⟨htr', hrep'⟩ := ih (c.register s).2
    exact ⟨UInt32.le_trans htr' htr, UInt64.le_trans hrep hrep'⟩

/-- What holds of a controller between two samples: valid settings, both parts of the regime above
their floors, and a window within its length. -/
structure Sound (c : Controller) : Prop where
  valid : c.config.validate = .ok ()
  trustRegion : 1 ≤ c.regime.trustRegion.toNat
  replications : 1 ≤ c.regime.replications.toNat
  window : c.window.length ≤ c.config.maxWindow.toNat

theorem initial_sound (c : AdaptationConfig) (hc : c.validate = .ok ()) : (initial c).Sound := by
  obtain ⟨htr, hrep, _⟩ := c.bounds_of_validate hc
  exact ⟨hc, htr, hrep, Nat.zero_le _⟩

/-- The length of the window with the sample that comes next. -/
def reach (c : Controller) : ℕ :=
  min (c.window.length + 1) c.config.maxWindow.toNat

/-- A sample slides into the window from behind, and what no longer fits drops out in front. -/
theorem slide_eq_rtake (c : Controller) (h : c.Sound) (s : GapSample) :
    c.slide s = (c.window ++ [s]).rtake c.config.maxWindow.toNat := by
  obtain ⟨_, _, hroom⟩ := c.config.bounds_of_validate h.valid
  have hlen := h.window
  unfold slide
  rw [List.rtake, List.length_append, List.length_singleton]
  split_ifs with hfull
  -- the window is full, so that one sample is too many
  · have hone : c.window.length + 1 - c.config.maxWindow.toNat = 1 := by omega
    rw [hone, List.drop_append_of_le_length (hroom.trans hfull)]
  · have hnone : c.window.length + 1 - c.config.maxWindow.toNat = 0 := by omega
    rw [hnone, List.drop_zero]

theorem length_slide (c : Controller) (h : c.Sound) (s : GapSample) :
    (c.slide s).length = c.reach := by
  rw [slide_eq_rtake c h, List.rtake, List.length_drop, List.length_append, List.length_singleton,
    reach]
  omega

theorem length_slide_le (c : Controller) (h : c.Sound) (s : GapSample) :
    (c.slide s).length ≤ c.config.maxWindow.toNat :=
  (length_slide c h s).trans_le (Nat.min_le_right _ _)

theorem register_sound (c : Controller) (h : c.Sound) (s : GapSample) : (c.register s).2.Sound := by
  rcases register_cases c s with ⟨_, hn⟩ | ⟨a, _, haction, hn⟩
  · rw [hn]
    exact ⟨h.valid, h.trustRegion, h.replications, length_slide_le c h s⟩
  -- one step of a schedule that starts at the present regime
  · have hsched := register_scheduled c.regime c s 0 0
      ⟨(Nat.div_one _).symm, by have := c.regime.replications.toNat_lt; omega, h.trustRegion⟩
    obtain ⟨_, hrep⟩ := register_mono c s
    refine ⟨?_, hsched.floor, h.replications.trans (UInt64.le_iff_toNat_le.mp hrep), ?_⟩
    · rw [hn]
      exact h.valid
    · rw [hn]
      exact Nat.zero_le _

theorem config_register (c : Controller) (s : GapSample) : (c.register s).2.config = c.config := by
  rcases register_cases c s with ⟨_, hn⟩ | ⟨a, _, _, hn⟩ <;> rw [hn]

/-- The schedule law: in every run from valid settings the reported halvings and doublings determine
the regime, the next report explains the next change, and both parts move one way only. -/
theorem schedule_law (c : AdaptationConfig) (start : Controller) (hstart : create c = .ok start)
    (samples : List GapSample) :
    let halvings := (start.registerAll samples).1.countP SampleOutcome.isHalving
    let doublings := (start.registerAll samples).1.countP SampleOutcome.isDoubling
    let now := (start.registerAll samples).2
    now.regime.trustRegion.toNat = c.initialTrustRegion.toNat / 2^halvings ∧
    now.regime.replications.toNat = min (c.initialReplications.toNat * 2^doublings) (2^64-1) ∧
    1 ≤ now.regime.trustRegion.toNat ∧ halvings ≤ Nat.log 2 c.initialTrustRegion.toNat ∧
    (∀ s, now.regime.Explained (now.register s).1.adaptation (now.register s).2.regime) ∧
    ∀ later, (now.registerAll later).2.regime.trustRegion ≤ now.regime.trustRegion ∧
      now.regime.replications ≤ (now.registerAll later).2.regime.replications := by
  obtain ⟨hc, _, rfl⟩ := (create_eq_ok_iff c start).mp hstart
  intro halvings doublings now
  obtain ⟨hfloor, _, _⟩ := c.bounds_of_validate hc
  have hstart : (initial c).regime.Scheduled 0 0 (initial c).regime := by
    refine ⟨(Nat.div_one _).symm, ?_, hfloor⟩
    have hlt := (initial c).regime.replications.toNat_lt
    rw [Nat.pow_zero, Nat.mul_one, min_eq_left (by omega)]
  have hrun := registerAll_scheduled (initial c).regime (initial c) samples 0 0 hstart
  rw [Nat.zero_add, Nat.zero_add] at hrun
  refine ⟨hrun.trustRegion, hrun.replications, hrun.floor, ?_, ?_, ?_⟩
  -- one or more is left behind the halvings, so their power of two is not above the start
  · have hpos := hrun.floor
    rw [hrun.trustRegion] at hpos
    have hle := (Nat.one_le_div_iff (Nat.two_pow_pos _)).mp hpos
    exact (Nat.le_log_iff_pow_le (by decide) (by omega)).mpr hle
  · exact fun s => register_explained _ s
  · exact fun later => registerAll_mono _ later

/-- A short window of alternating gaps is stationary, so that the trust region is halved once. -/
theorem schedule_law_alternating :
    let c : AdaptationConfig := { minEvaluatedIterations := 4 }
    let samples : List GapSample :=
      [⟨0, [1.0, 1.0]⟩, ⟨1, [-1.0, -1.0]⟩, ⟨2, [1.0, 1.0]⟩, ⟨3, [-1.5, -1.5]⟩]
    c.validate = .ok () ∧ ∃ start, create c = .ok start ∧
      (start.registerAll samples).1.countP SampleOutcome.isHalving = 1 ∧
      (start.registerAll samples).2.regime.trustRegion.toNat = 8 := by
  intro c samples
  have hc : c.validate = .ok () := eq_ok_of_isOk _ (by decide +kernel)
  have hstart := create_ok c hc (by decide)
  obtain ⟨htr, _⟩ := schedule_law c _ hstart samples
  have hone : ((initial c).registerAll samples).1.countP SampleOutcome.isHalving = 1 := by
    decide +kernel
  refine ⟨hc, _, hstart, hone, ?_⟩
  rw [htr, hone]
  decide

end Controller
end Replanning
