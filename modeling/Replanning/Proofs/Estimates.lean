import Replanning.DickeyFuller
import Replanning.Proofs.Binary64.Positive

namespace Replanning

/-- The mean of finite doubles may be infinite, but it is defined. -/
theorem isNaN_mean (values : List Float) (hsize : values.length < 2^64)
    (hv : ∀ x ∈ values, x.isFinite = true) : ((mean? values).getD 0.0).isNaN = false := by
  unfold mean?
  split_ifs with hempty
  · decide +kernel
  · have hpos : values.length ≠ 0 := by rwa [List.isEmpty_iff, ← List.length_eq_zero_iff] at hempty
    -- infinities of both signs would have to meet in the sum, and not even one goes in
    rw [Option.getD_some, isNaN_div_ofCount _ _ (by omega) hsize, ← Bool.not_eq_true, sum,
      isNaN_foldl_iff values (-0.0) (by decide) fun x hx => isNaN_of_isFinite x (hv x hx)]
    exact not_collides_of_finite values _ hv

namespace DickeyFuller

theorem zero_lt_of_varies (m : Moments) (h : varies m = true) : 0.0 < m.levels := by
  -- the tolerance is relative to a scale that is cut off from below
  have hscale : 0.0 < if 2.2250738585072014e-308 < m.squares then m.squares
      else 2.2250738585072014e-308 := by
    split_ifs with hsquares
    · exact Binary64.float_lt_of_le_of_lt _ _ _ (by decide +kernel) hsquares
    · decide +kernel
  have htolerance : Positive 1e-12 := (positive_iff _).mpr ⟨by decide +kernel, by decide +kernel⟩
  exact Binary64.float_lt_of_le_of_lt _ _ _ (htolerance.zero_le_mul hscale)
    (of_decide_eq_true h)

theorem varianceOfMean_bounds (residualVariance a : Float) (k : ℕ) (v : Float)
    (h : ar1VarianceOfMean residualVariance a k = some v) : v.isFinite = true ∧ 0.0 ≤ v := by
  unfold ar1VarianceOfMean at h
  dsimp only at h
  split_ifs at h with hunit hvalue
  obtain rfl := Option.some.inj h
  rwa [Bool.and_eq_true, decide_eq_true_iff] at hvalue

/-- What a fitted line leaves of the steps, squared and summed up. -/
def squaredErrors (points : List (Float × Float)) (delta intercept : Float) : Float :=
  sum (points.map fun (z, y) =>
    (y - delta * z - intercept) * (y - delta * z - intercept))

/-- The test gives up, or it has a spread of the levels and a standard error to work with. -/
theorem test_cases (critical : Float) (series : List Float) :
    test critical series = degenerate series.length ((mean? series).getD 0.0) ∨
      4 ≤ series.length ∧ ((mean? series).getD 0.0).isFinite = true ∧
        ∃ points : List (Float × Float), points ≠ [] ∧ ∃ m delta intercept variance,
          varies m = true ∧
          variance = squaredErrors points delta intercept / ofCount (series.length - 3) ∧
          (variance / m.levels).sqrt.isFinite = true ∧ ¬(variance / m.levels).sqrt ≤ 0.0 ∧
          test critical series =
            { sampleSize := series.length.toUInt64
              mean := (mean? series).getD 0.0
              delta := some delta
              intercept := some intercept
              residualVariance := some variance
              tStatistic := some (delta / (variance / m.levels).sqrt)
              varianceOfMean := ar1VarianceOfMean variance (delta + 1.0) series.length
              stationary := delta / (variance / m.levels).sqrt < critical } := by
  unfold test
  dsimp only
  -- three ways to give up, and one to come to a result
  split_ifs with hshort hvaries herror
  · exact Or.inl rfl
  · exact Or.inl rfl
  · exact Or.inl rfl
  · simp only [Bool.or_eq_true, decide_eq_true_eq, Bool.not_eq_true', not_or, Bool.not_eq_false,
      minSeries, Bool.not_eq_true] at hshort hvaries herror
    have hlen : 4 ≤ series.length := not_lt.mp (of_decide_eq_false hshort.1)
    refine Or.inr ⟨hlen, hshort.2, _, ?_, _, _, _, _, hvaries, rfl, herror.1, herror.2,
      rfl⟩
    rw [← List.length_pos_iff]
    simp only [List.length_zip, List.length_dropLast, List.length_zipWith, List.length_drop]
    omega

/-- No estimate is given, and nothing is rejected. -/
structure Silent (d : DickeyFuller) : Prop where
  delta : d.delta = none
  intercept : d.intercept = none
  residualVariance : d.residualVariance = none
  tStatistic : d.tStatistic = none
  varianceOfMean : d.varianceOfMean = none
  stationary : d.stationary = false

/-- All estimates are given and can be computed with. The variance of the mean may be missing. -/
structure Estimated (critical : Float) (d : DickeyFuller) (delta intercept variance t : Float) :
    Prop where
  delta_eq : d.delta = some delta
  intercept_eq : d.intercept = some intercept
  residualVariance_eq : d.residualVariance = some variance
  tStatistic_eq : d.tStatistic = some t
  delta_finite : delta.isFinite = true
  intercept_finite : intercept.isFinite = true
  variance_finite : variance.isFinite = true
  variance_pos : 0.0 < variance
  t_number : t.isNaN = false
  varianceOfMean_bounds : ∀ v, d.varianceOfMean = some v → v.isFinite = true ∧ 0.0 ≤ v
  stationary_iff : d.stationary = true ↔ t < critical

theorem silent_degenerate (size : ℕ) (mean : Float) : (degenerate size mean).Silent :=
  ⟨rfl, rfl, rfl, rfl, rfl, rfl⟩

/-- If the squared errors have a finite sum, then so has the line they are taken from. -/
theorem line_finite (points : List (Float × Float)) (hne : points ≠ []) (delta intercept : Float)
    (h : (squaredErrors points delta intercept).isFinite = true) :
    delta.isFinite = true ∧ intercept.isFinite = true := by
  obtain ⟨⟨z, y⟩, hmem⟩ := List.exists_mem_of_ne_nil points hne
  -- one point is enough
  have hsquare := sum_finite _ h _ (List.mem_map_of_mem hmem)
  obtain ⟨herror, -⟩ := parts_finite hsquare (not_finite_mul _ _)
  obtain ⟨hstep, hintercept⟩ := parts_finite herror (not_finite_sub _ _)
  obtain ⟨-, hproduct⟩ := parts_finite hstep (not_finite_sub _ _)
  obtain ⟨hdelta, -⟩ := parts_finite hproduct (not_finite_mul _ _)
  exact ⟨hdelta, hintercept⟩

/-- A positive standard error answers for the estimates that it was computed from. -/
theorem estimates_usable (points : List (Float × Float)) (hne : points ≠ []) (m : Moments)
    (hm : 0.0 < m.levels) (delta intercept variance n : Float)
    (hvariance : variance = squaredErrors points delta intercept / n)
    (h : Positive (variance / m.levels).sqrt) :
    delta.isFinite = true ∧ intercept.isFinite = true ∧ Positive variance ∧
      (delta / (variance / m.levels).sqrt).isNaN = false := by
  obtain ⟨hpos, -⟩ := h.of_sqrt.of_div hm
  have hsum : (squaredErrors points delta intercept).isFinite = true := by
    rw [← Bool.not_eq_false]
    intro hlost
    have hfinite := ((positive_iff _).mp hpos).1
    rw [hvariance, not_finite_div _ _ hlost] at hfinite
    cases hfinite
  obtain ⟨hdelta, hintercept⟩ := line_finite points hne delta intercept hsum
  exact ⟨hdelta, hintercept, hpos, (h.isNaN_div delta).trans (isNaN_of_isFinite delta hdelta)⟩

/-- Nothing undefined leaves the test. Either it gives all of the estimates or none, and those that
it gives can be computed with; only then it rejects, by comparing its statistic. It gives none for a
series that is too short or has no finite mean, and the mean of finite values is a number. -/
theorem test_defined (critical : Float) (series : List Float) :
    (test critical series).mean = (mean? series).getD 0.0 ∧
      ((test critical series).Silent ∨ ∃ delta intercept variance t,
        (test critical series).Estimated critical delta intercept variance t) ∧
      (series.length < 4 ∨ (test critical series).mean.isFinite = false →
        (test critical series).Silent) ∧
      -- the values of a slice are counted in a word
      (series.length < 2^64 → (∀ x ∈ series, x.isFinite = true) →
        (test critical series).mean.isNaN = false) := by
  rcases test_cases critical series with
    hd | ⟨hlen, hfinite, points, hne, m, delta, intercept, variance, hvaries, heq, herror, hpos, hd⟩
  · rw [hd]
    have hsilent := silent_degenerate series.length ((mean? series).getD 0.0)
    exact ⟨rfl, Or.inl hsilent, fun _ => hsilent, isNaN_mean series⟩
  · rw [hd]
    obtain ⟨hdelta, hintercept, hvariance, ht⟩ := estimates_usable points hne m
      (zero_lt_of_varies m hvaries) delta intercept variance _ heq (positive_of_not_le _ herror hpos)
    obtain ⟨hvarianceFinite, hvariancePos⟩ := (positive_iff variance).mp hvariance
    refine ⟨rfl, Or.inr ⟨delta, intercept, variance, delta / (variance / m.levels).sqrt, ?_⟩, ?_,
      isNaN_mean series⟩
    · exact ⟨rfl, rfl, rfl, rfl, hdelta, hintercept, hvarianceFinite, hvariancePos, ht,
        varianceOfMean_bounds _ _ _, decide_eq_true_iff⟩
    · rintro (hshort | hlost)
      · omega
      · cases hfinite.symm.trans hlost

/-- A series that swings back and forth comes with its estimates. -/
theorem test_defined_swings :
    let series := [3.0, 1.0, 2.5, 1.5, 2.0, 1.0]
    let d := test (-1.0) series
    series.length < 2^64 ∧ (∀ x ∈ series, x.isFinite = true) ∧ d.mean.isNaN = false ∧
      (∃ delta intercept variance t, d.Estimated (-1.0) delta intercept variance t) ∧
      (test (-1.0) (series.take 3)).Silent := by
  intro series d
  have hsize : series.length < 2^64 := by decide
  have hfinite : ∀ x ∈ series, x.isFinite = true := by decide +kernel
  obtain ⟨_, hestimates, _, hnumber⟩ := test_defined (-1.0) series
  obtain ⟨_, _, hsilent, _⟩ := test_defined (-1.0) (series.take 3)
  have hsome : (test (-1.0) series).delta.isSome = true := by decide +kernel
  refine ⟨hsize, hfinite, hnumber hsize hfinite, hestimates.resolve_left ?_,
    hsilent (Or.inl (by decide))⟩
  intro h
  rw [h.delta] at hsome
  cases hsome

end DickeyFuller

end Replanning
