import Replanning.Proofs.Binary64.Positive

namespace Replanning.Binary64
open Float.Model Float.Model.UnpackedFloat

/-- The positive doubles have the patterns between zero and infinity. -/
theorem positive_iff_pattern (x : Float) :
    Positive x ↔ ∃ p, 0 < p ∧ p < infinityPattern ∧ x = ofPattern false p := by
  constructor
  · rintro ⟨m, e, hm, hx⟩
    obtain ⟨negative, p, hp, rfl⟩ := exists_pattern_of_number x (by rw [hx]; exact nofun)
    have h0 : 0 < p := by
      rw [Nat.pos_iff_ne_zero]
      rintro rfl
      cases negative <;> cases hx
    have hinf : p ≠ infinityPattern := by
      rintro rfl
      cases negative <;> cases hx
    refine ⟨p, h0, lt_of_le_of_ne hp hinf, ?_⟩
    cases negative with
    | false => rfl
    | true =>
      rw [unpack_neg_ofPattern p hp] at hx
      obtain ⟨_, hu⟩ := unpack_ofPattern p h0 (lt_of_le_of_ne hp hinf)
      rw [hu] at hx
      cases hx
  · rintro ⟨p, h0, hp, rfl⟩
    obtain ⟨hm, hu⟩ := unpack_ofPattern p h0 hp
    exact ⟨_, _, hm, hu⟩

/-- The double nearest to a value. -/
def rounded (v : ℚ) : Float :=
  nearest v.num.toNat v.den

theorem rounded_mono (v w : ℚ) (hv : 0 ≤ v) (h : v ≤ w) : rounded v ≤ rounded w := by
  apply nearest_mono _ _ _ _ v.den_pos w.den_pos
  rwa [ratio_of_nonneg v hv, ratio_of_nonneg w (hv.trans h)]

theorem div_ofPattern (p q : ℕ) (hp0 : 0 < p) (hp : p < infinityPattern) (hq0 : 0 < q)
    (hq : q < infinityPattern) :
    ofPattern false p / ofPattern false q = rounded (patternValue p / patternValue q) := by
  obtain ⟨hm, hx⟩ := unpack_ofPattern p hp0 hp
  obtain ⟨hm', hy⟩ := unpack_ofPattern q hq0 hq
  apply div_eq_nearest _ _ _ _ _ _ hm hm' hx hy _ _ (Rat.den_pos _)
  rw [ratio_of_nonneg _ (div_nonneg (patternValue_nonneg p) (patternValue_nonneg q))]
  rfl

/-- A product of positive doubles is the double nearest to the exact product. -/
theorem mul_ofPattern (p q : ℕ) (hp0 : 0 < p) (hp : p < infinityPattern) (hq0 : 0 < q)
    (hq : q < infinityPattern) :
    ofPattern false p * ofPattern false q = rounded (patternValue p * patternValue q) := by
  obtain ⟨hm, hx⟩ := unpack_ofPattern p hp0 hp
  obtain ⟨hm', hy⟩ := unpack_ofPattern q hq0 hq
  change Float.ofModel (.pack (UnpackedFloat.mul _ _ _)) = _
  rw [hx, hy]
  have hround := ofModel_round (patternValue p * patternValue q).num.toNat
    (patternValue p * patternValue q).den (significandOf p * significandOf q) 1
    (exponentOf p + exponentOf q) (Rat.den_pos _) (Nat.mul_pos hm hm').ne' Nat.one_pos
  rw [Nat.div_one, Nat.mod_one] at hround
  refine hround ?_ ?_
  · rw [ratio_of_nonneg _ (mul_nonneg (patternValue_nonneg p) (patternValue_nonneg q)), patternValue,
      patternValue, zpow_add₀ two_ne_zero]
    push_cast
    ring
  · rw [targetExponent_eq]
    by_cases hsub : p < 2^52 ∧ q < 2^52
    · rw [exponentOf, exponentOf, if_pos hsub.1, if_pos hsub.2]
      omega
    -- one of the significands has all of its bits
    · have hfull : 2^52 ≤ significandOf p * significandOf q := by
        have hbits (p : ℕ) (h : ¬p < 2^52) : 2^52 ≤ significandOf p := by
          rw [significandOf, if_neg h]
          exact Nat.le_add_right _ _
        rcases not_and_or.mp hsub with h | h
        · exact (hbits p h).trans (Nat.le_mul_of_pos_right _ hm')
        · exact (hbits q h).trans (Nat.le_mul_of_pos_left _ hm)
      have hlog := (Nat.le_log2 (Nat.mul_pos hm hm').ne').mpr hfull
      omega

/-- The root of a natural, rounded to the nearest natural. -/
def roundedRoot (n : ℕ) : ℕ :=
  if n - n.sqrt * n.sqrt ≤ n.sqrt then n.sqrt else n.sqrt + 1

theorem roundedRoot_spec (n : ℕ) (h : 0 < n) :
    roundedRoot n * roundedRoot n < n + roundedRoot n ∧
      n ≤ roundedRoot n * roundedRoot n + roundedRoot n := by
  have hle := Nat.sqrt_le n
  have hadd := Nat.sqrt_le_add n
  have hpos := Nat.sqrt_pos.mpr h
  have hnext : (n.sqrt + 1) * (n.sqrt + 1) = n.sqrt * n.sqrt + 2 * n.sqrt + 1 := by ring
  unfold roundedRoot
  split_ifs with hrest <;> omega

theorem roundedRoot_mono (a b : ℕ) (ha : 0 < a) (h : a ≤ b) : roundedRoot a ≤ roundedRoot b := by
  obtain ⟨hlow, _⟩ := roundedRoot_spec a ha
  obtain ⟨_, hhigh⟩ := roundedRoot_spec b (ha.trans_le h)
  by_contra hlt
  push Not at hlt
  nlinarith

theorem roundedRoot_bounds (n : ℕ) (hl : 2^104 ≤ n) (hu : n < 2^106) :
    2^52 ≤ roundedRoot n ∧ roundedRoot n ≤ 2^53 := by
  have hge : 2^52 ≤ n.sqrt := Nat.le_sqrt.mpr (by omega)
  have hlt : n.sqrt < 2^53 := Nat.sqrt_lt.mpr (by omega)
  unfold roundedRoot
  split_ifs <;> omega

theorem root_lt_infinityPattern (n : ℕ) (t : ℤ) (hl : 2^104 ≤ n) (hu : n < 2^106) (ht : t ≤ 900) :
    (t + 1074).toNat * 2^52 + roundedRoot n < infinityPattern := by
  obtain ⟨_, hcarry⟩ := roundedRoot_bounds n hl hu
  unfold infinityPattern
  omega

/-- A root that has been cut off is rounded by what its square leaves of the radicand. -/
theorem pack_root (n : ℕ) (t : ℤ) (hl : 2^104 ≤ n) (hu : n < 2^106) (ht : -1074 ≤ t)
    (ht' : t ≤ 900) :
    Float.ofModel (.pack (roundWithAccuracy Format.binary64 .positive n.sqrt t
      (if n - n.sqrt * n.sqrt = 0 then .exact
        else .inexact (if n - n.sqrt * n.sqrt ≤ n.sqrt then .lt else .gt)))) =
      ofPattern false ((t + 1074).toNat * 2^52 + roundedRoot n) := by
  generalize ha : (if n - n.sqrt * n.sqrt = 0 then Accuracy.exact
    else .inexact (if n - n.sqrt * n.sqrt ≤ n.sqrt then .lt else .gt)) = a
  have hbits : 52 ≤ n.sqrt.log2 := by
    have hge : 2^52 ≤ n.sqrt := Nat.le_sqrt.mpr (by omega)
    exact (Nat.le_log2 (by omega)).mpr hge
  have hlog : n.sqrt.log2 < 53 := by
    have hlt : n.sqrt < 2^53 := Nat.sqrt_lt.mpr (by omega)
    have hpos : n.sqrt ≠ 0 := by
      intro h0
      rw [h0] at hbits
      cases hbits
    exact (Nat.log2_lt hpos).mpr hlt
  have hshift : shiftToTargetExponent Format.binary64 n.sqrt t a =
      (.ofMantissaAndAccuracy n.sqrt a, t) := by
    have hnone : (max ((n.sqrt.log2 : ℤ) + t - 52) (-1074) - t).toNat = 0 := by omega
    rw [shiftToTargetExponent, targetExponent_eq, shiftToExponent, hnone]
    exact Prod.ext rfl (add_zero _)
  have hrounded : (ExtendedMantissa.ofMantissaAndAccuracy n.sqrt a).roundedMantissa =
      roundedRoot n := by
    rw [roundedMantissa_ofMantissaAndAccuracy, ← ha, roundedRoot]
    split_ifs
    · rfl
    · omega
    · rfl
    · rfl
  obtain ⟨hge, hle⟩ := roundedRoot_bounds n hl hu
  rw [← hrounded] at hge hle
  rw [pack_rounded _ _ _ _ t hshift ht hle (Or.inr hge), hrounded,
    min_eq_left (root_lt_infinityPattern n t hl hu ht').le]

/-- The root of a positive double: its radicand is scaled by a power of four to 105 or 106 bits, and
the root of that is rounded to the nearest natural. -/
theorem sqrt_ofPattern (p : ℕ) (h0 : 0 < p) (hp : p < infinityPattern) :
    ∃ (n : ℕ) (t : ℤ), patternValue p = n * 2^(2*t) ∧ 2^104 ≤ n ∧ n < 2^106 ∧ -1074 ≤ t ∧ t ≤ 900 ∧
      (ofPattern false p).sqrt = ofPattern false ((t + 1074).toNat * 2^52 + roundedRoot n) := by
  obtain ⟨hm, hx⟩ := unpack_ofPattern p h0 hp
  have hbits : (significandOf p).log2 < 53 :=
    (Nat.log2_lt hm.ne').mpr (significandOf_lt p)
  have hrange : -1074 ≤ exponentOf p ∧ exponentOf p ≤ 971 := by
    unfold infinityPattern at hp
    unfold exponentOf
    split_ifs <;> omega
  -- the power of four that leaves 105 or 106 bits follows from the number of bits and the exponent
  generalize hL : ((significandOf p).log2 : ℤ) + exponentOf p = L
  have htarget : min ((exponentOf p).ediv 2) (Format.binary64.targetExponent
      ((totalExponent (significandOf p) (exponentOf p) + 1).ediv 2)) = L / 2 - 52 := by
    change min (exponentOf p / 2) (Format.binary64.targetExponent
      ((totalExponent (significandOf p) (exponentOf p) + 1) / 2)) = _
    simp only [Format.targetExponent, totalExponent, Format.mantissaBits, Format.minExponent]
    omega
  generalize hk : (exponentOf p - 2 * (L / 2 - 52)).toNat = k
  have hlog := log2_mul_two_pow (significandOf p) k hm
  have hpos : significandOf p * 2^k ≠ 0 := (Nat.mul_pos hm (Nat.two_pow_pos k)).ne'
  have hlow : 2^104 ≤ significandOf p * 2^k := (Nat.le_log2 hpos).mp (by omega)
  have hhigh : significandOf p * 2^k < 2^106 := (Nat.log2_lt hpos).mp (by omega)
  refine ⟨significandOf p * 2^k, L / 2 - 52, ?_, hlow, hhigh, by omega, by omega, ?_⟩
  · have hscale : exponentOf p = k + 2 * (L / 2 - 52) := by omega
    rw [patternValue, hscale, zpow_add₀ two_ne_zero, zpow_natCast]
    push_cast
    ring
  · change Float.ofModel (.pack (UnpackedFloat.sqrt _ _)) = _
    rw [hx]
    simp only [UnpackedFloat.sqrt, sqrtCore, Nat.shiftLeft_eq]
    rw [htarget, hk]
    exact pack_root _ _ hlow hhigh (by omega) (by omega)

/-- A double that is not below another one has at least its pattern, and its value. -/
theorem exists_patterns_of_le (x y : Float) (hx : Positive x) (hy : Positive y) (h : x ≤ y) :
    ∃ p q, 0 < p ∧ p ≤ q ∧ q < infinityPattern ∧ patternValue p ≤ patternValue q ∧
      x = ofPattern false p ∧ y = ofPattern false q := by
  obtain ⟨p, hp0, hp, rfl⟩ := (positive_iff_pattern x).mp hx
  obtain ⟨q, hq0, hq, rfl⟩ := (positive_iff_pattern y).mp hy
  have hle := (ofPattern_le_iff p q hp.le hq.le).mp h
  exact ⟨p, q, hp0, hle, hq, (patternValue_le_iff p q hp hq).mpr hle, rfl, rfl⟩

theorem patternValue_pos (p : ℕ) (h0 : 0 < p) (hp : p < infinityPattern) : 0 < patternValue p := by
  obtain ⟨hm, _⟩ := unpack_ofPattern p h0 hp
  rw [patternValue]
  positivity

theorem div_le_div_left (x y y' : Float) (hx : Positive x) (hy : Positive y) (hy' : Positive y')
    (h : y ≤ y') : x / y' ≤ x / y := by
  obtain ⟨p, hp0, hp, rfl⟩ := (positive_iff_pattern x).mp hx
  obtain ⟨q, q', hq0, hle, hq', hv, rfl, rfl⟩ := exists_patterns_of_le y y' hy hy' h
  have hq := hle.trans_lt hq'
  rw [div_ofPattern p q hp0 hp hq0 hq, div_ofPattern p q' hp0 hp (hq0.trans_le hle) hq']
  apply rounded_mono _ _ (div_nonneg (patternValue_nonneg p) (patternValue_nonneg q'))
  exact div_le_div_of_nonneg_left (patternValue_nonneg p) (patternValue_pos q hq0 hq) hv

theorem mul_le_mul_left (x y y' : Float) (hx : Positive x) (hy : Positive y) (hy' : Positive y')
    (h : y ≤ y') : x * y ≤ x * y' := by
  obtain ⟨p, hp0, hp, rfl⟩ := (positive_iff_pattern x).mp hx
  obtain ⟨q, q', hq0, hle, hq', hv, rfl, rfl⟩ := exists_patterns_of_le y y' hy hy' h
  have hq := hle.trans_lt hq'
  rw [mul_ofPattern p q hp0 hp hq0 hq, mul_ofPattern p q' hp0 hp (hq0.trans_le hle) hq']
  apply rounded_mono _ _ (mul_nonneg (patternValue_nonneg p) (patternValue_nonneg q))
  exact mul_le_mul_of_nonneg_left hv (patternValue_nonneg p)

theorem positive_sqrt (x : Float) (hx : Positive x) : Positive x.sqrt := by
  obtain ⟨p, h0, hp, rfl⟩ := (positive_iff_pattern x).mp hx
  obtain ⟨n, t, _, hl, hu, _, ht, hroot⟩ := sqrt_ofPattern p h0 hp
  obtain ⟨hge, _⟩ := roundedRoot_bounds n hl hu
  exact (positive_iff_pattern _).mpr ⟨_, by omega, root_lt_infinityPattern n t hl hu ht, hroot⟩

/-- Either the scales are in order, or the scaled radicands are. -/
theorem sqrt_mono (x y : Float) (hx : Positive x) (hy : Positive y) (h : x ≤ y) :
    x.sqrt ≤ y.sqrt := by
  obtain ⟨p, q, hp0, hle, hq, hv, rfl, rfl⟩ := exists_patterns_of_le x y hx hy h
  obtain ⟨n, t, hn, hnl, hnu, _, ht, hroot⟩ := sqrt_ofPattern p hp0 (hle.trans_lt hq)
  obtain ⟨n', t', hn', hnl', hnu', _, ht', hroot'⟩ := sqrt_ofPattern q (hp0.trans_le hle) hq
  obtain ⟨_, hcarry⟩ := roundedRoot_bounds n hnl hnu
  obtain ⟨hge', _⟩ := roundedRoot_bounds n' hnl' hnu'
  rw [hroot, hroot', ofPattern_le_iff _ _ (root_lt_infinityPattern n t hnl hnu ht).le
    (root_lt_infinityPattern n' t' hnl' hnu' ht').le]
  rw [hn, hn'] at hv
  rcases lt_trichotomy t t' with hlt | rfl | hgt
  · omega
  · have hradicand : n ≤ n' := by
      have hcancel := le_of_mul_le_mul_right hv (by positivity)
      exact_mod_cast hcancel
    have hroots := roundedRoot_mono n n' (by omega) hradicand
    omega
  -- a larger scale would make the smaller value the larger one
  · apply absurd hv
    apply not_le.mpr
    calc (n' : ℚ) * 2^(2*t') < 2^106 * 2^(2*t') := by
          gcongr
          exact_mod_cast hnu'
      _ = 2^104 * 2^(2*(t'+1)) := by
          rw [mul_add, zpow_add₀ two_ne_zero]
          norm_num
          ring
      _ ≤ 2^104 * 2^(2*t) := by
          gcongr
          · exact one_le_two
          · omega
      _ ≤ n * 2^(2*t) := by
          gcongr
          exact_mod_cast hnl

theorem toFloat_eq_ofCount_toNat (n : UInt64) : n.toFloat = ofCount n.toNat := by
  rw [ofCount, Nat.toUInt64_eq, UInt64.ofNat_toNat]

theorem positive_toFloat (n : UInt64) (h : 1 ≤ n.toNat) : Positive n.toFloat := by
  rw [toFloat_eq_ofCount_toNat]
  exact exists_unpack_ofCount n.toNat h n.toNat_lt

/-- The larger count has the larger double. -/
theorem toFloat_mono (n n' : UInt64) (h : n ≤ n') : n.toFloat ≤ n'.toFloat := by
  rw [toFloat_eq_ofCount_toNat, toFloat_eq_ofCount_toNat, ofCount_eq_nearest _ n.toNat_lt,
    ofCount_eq_nearest _ n'.toNat_lt]
  apply nearest_mono _ _ _ _ Nat.one_pos Nat.one_pos
  rw [Nat.cast_one, div_one, div_one]
  exact_mod_cast UInt64.le_iff_toNat_le.mp h

/-- A finite double is rounded up to a natural and cut off at the largest word. -/
theorem ceilWord_ofPattern (p : ℕ) (hp : p < infinityPattern) :
    (ceilWord (ofPattern false p)).toNat = min ⌈patternValue p⌉₊ (2^64-1) := by
  have hnumber : (ofPattern false p).isNaN = false :=
    isNaN_of_isFinite _ (isFinite_ofPattern false p hp)
  have hfinite : (ofPattern false p).isInf = false :=
    isInf_of_isFinite _ (isFinite_ofPattern false p hp)
  have hceil (n d : ℕ) (hd : 0 < d) : (n + (d - 1)) / d = ⌈(n : ℚ) / d⌉₊ := by
    apply eq_of_forall_ge_iff
    intro k
    have hdq : (0 : ℚ) < d := by exact_mod_cast hd
    rw [Nat.ceil_le, div_le_iff₀ hdq, Nat.div_le_iff_le_mul_add_pred hd]
    have hcast : (n : ℚ) ≤ k * d ↔ n ≤ k * d := by exact_mod_cast Iff.rfl
    rw [hcast, mul_comm d k]
    omega
  have hratio : Binary64.ratio ⟨significandOf p, exponentOf p⟩ =
      inUnits (significandOf p) 1 (-exponentOf p) := by
    rw [Binary64.ratio, inUnits, neg_neg]
  have hvalue := inUnits_value (significandOf p) 1 (-exponentOf p)
  rw [Nat.cast_one, div_one, zpow_neg, div_inv_eq_mul] at hvalue
  have hpos := inUnits_den_pos (significandOf p) 1 (-exponentOf p) Nat.one_pos
  rw [ceilWord, hnumber, hfinite, isNegative_ofPattern false p hp.le,
    magnitude_ofPattern false p hp, hratio]
  change (min (((inUnits (significandOf p) 1 (-exponentOf p)).1 +
    ((inUnits (significandOf p) 1 (-exponentOf p)).2 - 1)) /
    (inUnits (significandOf p) 1 (-exponentOf p)).2) (2^64-1)).toUInt64.toNat = _
  rw [hceil _ _ hpos, hvalue]
  exact UInt64.toNat_ofNat_of_lt' ((Nat.min_le_right _ _).trans_lt (by decide))

theorem ceilWord_mono (x y : Float) (h : x ≤ y) : ceilWord x ≤ ceilWord y := by
  obtain ⟨hx, hy, hrank⟩ := (float_le_iff_rank x y).mp h
  obtain ⟨negative, p, hp, rfl⟩ := exists_pattern_of_number x hx
  obtain ⟨negative', q, hq, rfl⟩ := exists_pattern_of_number y hy
  rw [rank_ofPattern negative p hp, rank_ofPattern negative' q hq] at hrank
  -- with the sign there is no count, and without it there are only the patterns to compare
  have hnothing (p : ℕ) (hp : p ≤ infinityPattern) : ceilWord (ofPattern true p) = 0 := by
    rw [ceilWord, isNegative_ofPattern true p hp, Bool.or_true]
    rfl
  cases negative with
  | true =>
    rw [hnothing p hp]
    exact UInt64.zero_le
  | false =>
    cases negative' with
    | true =>
      have hzero : p = 0 := by
        simp only [Bool.false_eq_true, if_false, if_true] at hrank
        omega
      rw [hzero]
      exact UInt64.zero_le
    | false =>
      rcases hq.lt_or_eq with hlt | rfl
      · have hle : p ≤ q := by simpa using hrank
        rw [UInt64.le_iff_toNat_le, ceilWord_ofPattern p (hle.trans_lt hlt),
          ceilWord_ofPattern q hlt]
        have hceil := Nat.ceil_mono ((patternValue_le_iff p q (hle.trans_lt hlt) hlt).mpr hle)
        omega
      -- nothing exceeds the largest word
      · rw [UInt64.le_iff_toNat_le]
        exact Nat.le_of_lt_succ (ceilWord (ofPattern false p)).toNat_lt

theorem mul_comm_positive (x y : Float) (hx : Positive x) (hy : Positive y) : x * y = y * x := by
  obtain ⟨p, hp0, hp, rfl⟩ := (positive_iff_pattern x).mp hx
  obtain ⟨q, hq0, hq, rfl⟩ := (positive_iff_pattern y).mp hy
  rw [mul_ofPattern p q hp0 hp hq0 hq, mul_ofPattern q p hq0 hq hp0 hp, mul_comm]

theorem ceilWord_mul_zero (x c : Float) (hc : c.toModel.unpack = .zero .positive) :
    ceilWord (x * c) = 0 := by
  change ceilWord (Float.ofModel (.pack (UnpackedFloat.mul _ x.toModel.unpack _))) = 0
  have hzero (s : Sign) : ceilWord (Float.ofModel (.pack (.zero s))) = 0 := by
    cases s <;> decide +kernel
  have hnone : ceilWord (Float.ofModel (.pack .notANumber)) = 0 := by decide +kernel
  rw [hc]
  cases x.toModel.unpack with
  | notANumber => exact hnone
  | infinity s => exact hnone
  | zero s => exact hzero _
  | finite s m e h => exact hzero _

theorem ceilWord_mul_negative (x c : Float) (hx : sign? x.toModel.unpack = some .negative)
    (hc : Positive c) : ceilWord (x * c) = 0 := by
  have hle : x * c ≤ 0.0 := by
    apply le_zero_of_sign
    change sign? (Float.ofModel (.pack (UnpackedFloat.mul _ _ _))).toModel.unpack = _
    obtain ⟨m, e, hm, hc⟩ := hc
    rw [sign?_ofModel_pack, hc]
    cases h : x.toModel.unpack with
    | notANumber => rw [h] at hx; cases hx
    | infinity s => rw [h] at hx; cases hx; rfl
    | zero s => rw [h] at hx; cases hx; rfl
    | finite s m' e' h' =>
      rw [h] at hx
      cases hx
      exact sign?_roundWithAccuracy _ _ _ _
  exact UInt64.le_antisymm (ceilWord_mono _ _ hle) UInt64.zero_le

theorem infinity_mul (c : Float) (hc : Positive c) :
    ofPattern false infinityPattern * c = ofPattern false infinityPattern := by
  obtain ⟨m, e, hm, hc⟩ := hc
  change Float.ofModel (.pack (UnpackedFloat.mul _ _ _)) = _
  rw [unpack_infinity, hc]
  rfl

theorem sign?_ofPattern_true (p : ℕ) (hp : p ≤ infinityPattern) :
    sign? (ofPattern true p).toModel.unpack = some .negative := by
  rw [unpack_neg_ofPattern p hp]
  rcases Nat.eq_zero_or_pos p with rfl | h0
  · rfl
  · rcases unpack_positive p h0 hp with h | ⟨m, e, hm, h⟩ <;> rw [h] <;> rfl

/-- A larger factor does not lead to a smaller count, whatever the sign of the factors is. -/
theorem ceilWord_mul_mono (x y c : Float) (h : x ≤ y)
    (hc : c.toModel.unpack = .zero .positive ∨ Positive c) :
    ceilWord (x * c) ≤ ceilWord (y * c) := by
  rcases hc with hzero | hc
  · rw [ceilWord_mul_zero x c hzero]
    exact UInt64.zero_le
  obtain ⟨hx, hy, hrank⟩ := (float_le_iff_rank x y).mp h
  obtain ⟨negative, p, hp, rfl⟩ := exists_pattern_of_number x hx
  obtain ⟨negative', q, hq, rfl⟩ := exists_pattern_of_number y hy
  rw [rank_ofPattern negative p hp, rank_ofPattern negative' q hq] at hrank
  cases negative with
  | true =>
    rw [ceilWord_mul_negative _ c (sign?_ofPattern_true p hp) hc]
    exact UInt64.zero_le
  | false =>
    rcases Nat.eq_zero_or_pos p with rfl | hp0
    · change ceilWord (0.0 * c) ≤ _
      rw [hc.zero_mul]
      exact UInt64.zero_le
    cases negative' with
    | true =>
      simp only [Bool.false_eq_true, if_false, if_true] at hrank
      omega
    | false =>
      have hle : p ≤ q := by simpa using hrank
      rcases hq.lt_or_eq with hlt | rfl
      · have hpx := (positive_iff_pattern _).mpr ⟨p, hp0, hle.trans_lt hlt, rfl⟩
        have hpy := (positive_iff_pattern _).mpr ⟨q, hp0.trans_le hle, hlt, rfl⟩
        apply ceilWord_mono
        rw [mul_comm_positive _ c hpx hc, mul_comm_positive _ c hpy hc]
        exact mul_le_mul_left c _ _ hc hpx hpy h
      -- an infinite share of something is more than any word
      · rw [infinity_mul c hc, UInt64.le_iff_toNat_le]
        exact Nat.le_of_lt_succ (ceilWord (ofPattern false p * c)).toNat_lt

end Replanning.Binary64
