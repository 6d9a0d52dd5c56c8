import Replanning.Proofs.Binary64.Count
import Replanning.Proofs.Binary64.Nearest

namespace Replanning.Binary64
open Float.Model Float.Model.UnpackedFloat

/-- A pattern is the exponent field followed by the fraction. -/
theorem toBitVec_ofPattern (k : BitVec 11) (m : BitVec 52)
    (h : k.toNat * 2^52 + m.toNat ≤ infinityPattern) :
    (ofPattern false (k.toNat * 2^52 + m.toNat)).toBits.toBitVec =
      packComponents Format.binary64 .positive k m := by
  have hbits := toBits_ofPattern false _ h
  apply BitVec.eq_of_toNat_eq
  rw [UInt64.toNat_toBitVec, hbits, packComponents_toNat]
  simp [Sign.toBitVec]

/-- A positive finite double has the significand and the exponent of its pattern. -/
theorem unpack_ofPattern (p : ℕ) (h0 : 0 < p) (h : p < infinityPattern) :
    ∃ hp, (ofPattern false p).toModel.unpack =
      .finite .positive (significandOf p) (exponentOf p) hp := by
  have hk : (BitVec.ofNat 11 (p / 2^52)).toNat = p / 2^52 := by
    unfold infinityPattern at h
    rw [BitVec.toNat_ofNat]
    omega
  have hm : (BitVec.ofNat 52 p).toNat = p % 2^52 := BitVec.toNat_ofNat _ _
  have hsplit : (BitVec.ofNat 11 (p / 2^52)).toNat * 2^52 + (BitVec.ofNat 52 p).toNat = p := by
    omega
  have hword := toBitVec_ofPattern (BitVec.ofNat 11 (p / 2^52)) (BitVec.ofNat 52 p)
    (hsplit.symm ▸ h.le)
  rw [hsplit] at hword
  -- the field of the infinities is not reached, the field of the subnormals by them alone
  have hfinite : BitVec.ofNat 11 (p / 2^52) ≠ -1#11 := by
    intro he
    rw [he] at hk
    change 2047 = _ at hk
    unfold infinityPattern at h
    omega
  have hsub : BitVec.ofNat 11 (p / 2^52) = 0#11 ↔ p < 2^52 := by
    rw [← BitVec.toNat_inj, hk]
    change _ = 0 ↔ _
    omega
  change ∃ hp, UnpackedFloat.unpack Format.binary64 (ofPattern false p).toBits.toBitVec = _
  rw [hword]
  simp only [UnpackedFloat.unpack, unpackExponent_packComponents, unpackMantissa_packComponents,
    unpackSign_packComponents, Sign.ofBitVec_toBitVec, if_neg hfinite, hsub, significandOf,
    exponentOf, hm]
  by_cases hlt : p < 2^52
  · have hne : ¬BitVec.ofNat 52 p = 0#52 := by
      rw [← BitVec.toNat_inj, hm]
      change ¬_ = 0
      omega
    simp only [if_pos hlt, dif_neg hne, Nat.div_eq_of_lt hlt, Nat.mod_eq_of_lt hlt]
    exact ⟨h0, rfl⟩
  · have hone : (1#1 ++ BitVec.ofNat 52 p).toNat = 2^52 + p % 2^52 := by
      rw [BitVec.toNat_append, ← Nat.shiftLeft_add_eq_or_of_lt (BitVec.ofNat 52 p).isLt, hm]
      rfl
    simp only [if_neg hlt, hone, hk]
    exact ⟨by omega, rfl⟩

/-- Exponents decide between doubles with different exponents, significands between the others. -/
theorem compare_parts (p q : ℕ) :
    (compare (exponentOf p) (exponentOf q)).then (compare (significandOf p) (significandOf q)) =
      compare p q := by
  have hp := pattern_eq p
  have hq := pattern_eq q
  have hlp := (isLastPlace_patternValue p).low
  have hlq := (isLastPlace_patternValue q).low
  have hsp := significandOf_lt p
  have hsq := significandOf_lt q
  -- with a higher exponent the significand has all of its bits
  have hnormal (p : ℕ) : exponentOf p = -1074 ∨ 2^52 ≤ significandOf p := by
    unfold exponentOf significandOf
    split_ifs <;> omega
  have hnp := hnormal p
  have hnq := hnormal q
  rcases lt_trichotomy (exponentOf p) (exponentOf q) with h | h | h
  · rw [Int.compare_eq_lt.mpr h]
    exact (Nat.compare_eq_lt.mpr (by omega)).symm
  · rw [Int.compare_eq_eq.mpr h, Ordering.then]
    rw [h] at hp
    rcases lt_trichotomy (significandOf p) (significandOf q) with hs | hs | hs
    · rw [Nat.compare_eq_lt.mpr hs]
      exact (Nat.compare_eq_lt.mpr (by omega)).symm
    · rw [Nat.compare_eq_eq.mpr hs]
      exact (Nat.compare_eq_eq.mpr (by omega)).symm
    · rw [Nat.compare_eq_gt.mpr hs]
      exact (Nat.compare_eq_gt.mpr (by omega)).symm
  · rw [Int.compare_eq_gt.mpr h]
    exact (Nat.compare_eq_gt.mpr (by omega)).symm

theorem unpack_zero : (ofPattern false 0).toModel.unpack = .zero .positive := by
  rfl

theorem unpack_infinity : (ofPattern false infinityPattern).toModel.unpack =
    .infinity .positive := by
  rfl

/-- The doubles without a sign compare as their patterns do, infinity last. -/
theorem compare_ofPattern (p q : ℕ) (hp : p ≤ infinityPattern) (hq : q ≤ infinityPattern) :
    (ofPattern false p).toModel.unpack.compare (ofPattern false q).toModel.unpack =
      some (compare p q) := by
  have hcases (n : ℕ) (hn : n ≤ infinityPattern) :
      n = 0 ∨ n = infinityPattern ∨ 0 < n ∧ n < infinityPattern := by
    omega
  rcases hcases p hp with rfl | rfl | ⟨hp0, hpi⟩
  · rw [unpack_zero]
    rcases hcases q hq with rfl | rfl | ⟨hq0, hqi⟩
    · rfl
    · rfl
    · obtain ⟨_, hu⟩ := unpack_ofPattern q hq0 hqi
      rw [hu, Nat.compare_eq_lt.mpr hq0]
      rfl
  · rw [unpack_infinity]
    rcases hcases q hq with rfl | rfl | ⟨hq0, hqi⟩
    · rfl
    · rfl
    · obtain ⟨_, hu⟩ := unpack_ofPattern q hq0 hqi
      rw [hu, Nat.compare_eq_gt.mpr hqi]
      rfl
  · obtain ⟨_, hu⟩ := unpack_ofPattern p hp0 hpi
    rw [hu]
    rcases hcases q hq with rfl | rfl | ⟨hq0, hqi⟩
    · rw [Nat.compare_eq_gt.mpr hp0]
      rfl
    · rw [Nat.compare_eq_lt.mpr hpi]
      rfl
    · obtain ⟨_, hv⟩ := unpack_ofPattern q hq0 hqi
      rw [hv]
      exact congrArg some (compare_parts p q)

/-- The doubles without a sign are in the order of their patterns. -/
theorem ofPattern_le_iff (p q : ℕ) (hp : p ≤ infinityPattern) (hq : q ≤ infinityPattern) :
    ofPattern false p ≤ ofPattern false q ↔ p ≤ q := by
  rw [float_le_iff, UnpackedFloat.le, compare_ofPattern p q hp hq]
  exact Nat.isLE_compare

/-- A significand of 53 bits, or of fewer at the lower end, is the one of a pattern. -/
theorem patternValue_parts (m : ℕ) (e : ℤ) (hm : m < 2^53) (he : -1074 ≤ e)
    (hlow : e = -1074 ∨ 2^52 ≤ m) :
    patternValue ((e + 1074).toNat * 2^52 + m) = m * 2^e := by
  have hparts : significandOf ((e + 1074).toNat * 2^52 + m) = m ∧
      exponentOf ((e + 1074).toNat * 2^52 + m) = e := by
    unfold significandOf exponentOf
    split_ifs <;> omega
  rw [patternValue, hparts.1, hparts.2]

/-- Every natural multiple of a power of two is a double, if it has at most 53 bits and the power is
in range. -/
theorem exists_patternValue (m : ℕ) (e : ℤ) (hm : m < 2^53) (he : -1074 ≤ e) (hu : e ≤ 971) :
    ∃ p < infinityPattern, patternValue p = m * 2^e := by
  -- the significand is shifted up until it has all of its bits, or the exponent is the lowest one
  induction hk : (e + 1074).toNat generalizing m e with
  | zero =>
    refine ⟨_, ?_, patternValue_parts m e hm he (Or.inl (by omega))⟩
    unfold infinityPattern
    omega
  | succ k ih =>
    by_cases hfull : 2^52 ≤ m
    · refine ⟨_, ?_, patternValue_parts m e hm he (Or.inr hfull)⟩
      unfold infinityPattern
      omega
    · obtain ⟨p, hp, hv⟩ := ih (2*m) (e-1) (by omega) (by omega) (by omega) (by omega)
      refine ⟨p, hp, hv.trans ?_⟩
      rw [zpow_sub_one₀ two_ne_zero]
      push_cast
      ring

theorem roundHalfEven_le_succ (n d : ℕ) : roundHalfEven n d ≤ n / d + 1 := by
  unfold roundHalfEven
  dsimp only
  split_ifs <;> omega

/-- Of two quotients the larger one is not rounded to less. -/
theorem roundHalfEven_mono (n d n' d' : ℕ) (hd : 0 < d) (hd' : 0 < d')
    (h : (n : ℚ) / d ≤ n' / d') : roundHalfEven n d ≤ roundHalfEven n' d' := by
  have hcross : d' * n ≤ d * n' := by
    rw [div_le_div_iff₀ (by positivity) (by positivity)] at h
    rw [mul_comm d', mul_comm d]
    exact_mod_cast h
  -- both sides are rounded over the common denominator
  rw [← roundHalfEven_mul d' n d hd', ← roundHalfEven_mul d n' d' hd, mul_comm d d']
  have hD : 0 < d' * d := Nat.mul_pos hd' hd
  generalize d' * n = a at hcross ⊢
  generalize d * n' = b at hcross ⊢
  generalize d' * d = D at hD ⊢
  rcases (Nat.div_le_div_right hcross : a / D ≤ b / D).lt_or_eq with hlt | heq
  · exact (roundHalfEven_le_succ a D).trans
      ((Nat.succ_le_of_lt hlt).trans (div_le_roundHalfEven b D))
  -- with the same quotient the rests are in order
  · have ha := Nat.div_add_mod a D
    have hb := Nat.div_add_mod b D
    rw [heq] at ha
    unfold roundHalfEven
    rw [heq]
    dsimp only
    split_ifs <;> omega

/-- Rounded to its last place, a value keeps the number of bits, but for a carry. -/
theorem roundHalfEven_inUnits_bounds (num den : ℕ) (hd : 0 < den) (e : ℤ)
    (h : IsLastPlace (num / den) e) :
    roundHalfEven (inUnits num den e).1 (inUnits num den e).2 ≤ 2^53 ∧
      (e = -1074 ∨ 2^52 ≤ roundHalfEven (inUnits num den e).1 (inUnits num den e).2) := by
  have hpos := inUnits_den_pos num den e hd
  rw [← roundHalfEven_one (2^53), ← roundHalfEven_one (2^52)]
  constructor
  · apply roundHalfEven_mono _ _ _ _ hpos Nat.one_pos
    rw [inUnits_value, Nat.cast_one, div_one]
    exact_mod_cast h.lt.le
  · refine h.ge.imp_right fun hge => ?_
    apply roundHalfEven_mono _ _ _ _ Nat.one_pos hpos
    rw [inUnits_value, Nat.cast_one, div_one]
    exact_mod_cast hge

/-- Of two ratios the larger one has the larger nearest double. -/
theorem nearest_mono (num den num' den' : ℕ) (hd : 0 < den) (hd' : 0 < den')
    (h : (num : ℚ) / den ≤ num' / den') : nearest num den ≤ nearest num' den' := by
  have hdq : (0 : ℚ) < den := by exact_mod_cast hd
  by_cases hn' : num' = 0
  · have hn : num = 0 := by
      rw [hn', Nat.cast_zero, zero_div] at h
      have hle := (div_le_iff₀ hdq).mp h
      rw [zero_mul] at hle
      exact_mod_cast hle.antisymm (Nat.cast_nonneg num)
    rw [nearest, nearest, if_pos hn, if_pos hn']
    exact (ofPattern_le_iff 0 0 (Nat.zero_le _) (Nat.zero_le _)).mpr le_rfl
  have hplace' := lastPlace_spec num' den' hn' (Nat.ne_of_gt hd')
  by_cases hn : num = 0
  · rw [nearest_eq_ofPattern num' den' hn' _ rfl, nearest, if_pos hn]
    exact (ofPattern_le_iff 0 _ (Nat.zero_le _) (Nat.min_le_right _ _)).mpr (Nat.zero_le _)
  have hplace := lastPlace_spec num den hn (Nat.ne_of_gt hd)
  have hle := hplace'.le hplace h
  rw [nearest_eq_ofPattern num den hn _ rfl, nearest_eq_ofPattern num' den' hn' _ rfl,
    ofPattern_le_iff _ _ (Nat.min_le_right _ _) (Nat.min_le_right _ _)]
  apply min_le_min_right
  obtain ⟨hcarry, _⟩ := roundHalfEven_inUnits_bounds num den hd _ hplace
  obtain ⟨_, hbits⟩ := roundHalfEven_inUnits_bounds num' den' hd' _ hplace'
  have hlow := hplace.low
  rcases hle.lt_or_eq with hlt | heq
  · omega
  -- in the same units the ratios are rounded in order
  · rw [heq] at *
    apply Nat.add_le_add_left
    apply roundHalfEven_mono _ _ _ _ (inUnits_den_pos num den _ hd) (inUnits_den_pos num' den' _ hd')
    rw [inUnits_value, inUnits_value]
    gcongr

theorem exists_nearest (num den : ℕ) : ∃ p ≤ infinityPattern, nearest num den = ofPattern false p := by
  by_cases hn : num = 0
  · exact ⟨0, Nat.zero_le _, if_pos hn⟩
  · exact ⟨_, Nat.min_le_right _ _, nearest_eq_ofPattern num den hn _ rfl⟩

/-- A value that is not negative is a ratio. -/
theorem ratio_of_nonneg (v : ℚ) (hv : 0 ≤ v) : (v.num.toNat : ℚ) / v.den = v := by
  have hnonneg : 0 ≤ v.num := Rat.num_nonneg.mpr hv
  have hcast : (v.num.toNat : ℚ) = v.num := by
    exact_mod_cast Int.toNat_of_nonneg hnonneg
  rw [hcast, Rat.num_div_den]

theorem patternValue_nonneg (p : ℕ) : 0 ≤ patternValue p := by
  rw [patternValue]
  positivity

/-- The value of a double is a ratio. -/
theorem ratio_patternValue (p : ℕ) :
    ((patternValue p).num.toNat : ℚ) / (patternValue p).den = patternValue p :=
  ratio_of_nonneg _ (patternValue_nonneg p)

/-- A ratio that is at least the value of a double has a nearest double that is at least this one. -/
theorem ofPattern_le_nearest (num den p : ℕ) (hd : 0 < den) (hp : p < infinityPattern)
    (h : patternValue p ≤ num / den) : ofPattern false p ≤ nearest num den := by
  rw [← nearest_of_patternValue _ _ p (patternValue p).den_pos hp (ratio_patternValue p)]
  exact nearest_mono _ _ _ _ (patternValue p).den_pos hd ((ratio_patternValue p).le.trans h)

theorem nearest_le_ofPattern (num den p : ℕ) (hd : 0 < den) (hp : p < infinityPattern)
    (h : (num : ℚ) / den ≤ patternValue p) : nearest num den ≤ ofPattern false p := by
  rw [← nearest_of_patternValue _ _ p (patternValue p).den_pos hp (ratio_patternValue p)]
  exact nearest_mono _ _ _ _ hd (patternValue p).den_pos (h.trans (ratio_patternValue p).ge)

/-- The values of finite doubles are in the order of their patterns. -/
theorem patternValue_le_iff (p q : ℕ) (hp : p < infinityPattern) (hq : q < infinityPattern) :
    patternValue p ≤ patternValue q ↔ p ≤ q := by
  have hmono (p q : ℕ) (hp : p < infinityPattern) (hq : q < infinityPattern)
      (h : patternValue p ≤ patternValue q) : p ≤ q := by
    have hle := nearest_le_ofPattern _ _ q (patternValue p).den_pos hq
      ((ratio_patternValue p).le.trans h)
    rw [nearest_of_patternValue _ _ p (patternValue p).den_pos hp (ratio_patternValue p)] at hle
    exact (ofPattern_le_iff p q hp.le hq.le).mp hle
  refine ⟨hmono p q hp hq, ?_⟩
  -- otherwise the patterns would be in the other order too, and so equal
  intro h
  by_contra hlt
  obtain rfl := le_antisymm h (hmono q p hq hp (le_of_not_ge hlt))
  exact hlt le_rfl

/-- Where a double lies strictly above a second one and not above a ratio, the double nearest to the
ratio is above the second one as well. -/
theorem not_nearest_le_ofPattern (num den p q : ℕ) (hd : 0 < den) (hp : p < infinityPattern)
    (hq : q < infinityPattern) (hpq : patternValue p < patternValue q)
    (h : patternValue q ≤ num / den) : ¬nearest num den ≤ ofPattern false p := by
  intro hle
  have hge := ofPattern_le_nearest num den q hd hq h
  obtain ⟨r, hr, hnearest⟩ := exists_nearest num den
  rw [hnearest, ofPattern_le_iff _ _ hr hp.le] at hle
  rw [hnearest, ofPattern_le_iff _ _ hq.le hr] at hge
  exact absurd ((patternValue_le_iff q p hq hp).mpr (hge.trans hle)) (not_le.mpr hpq)

end Replanning.Binary64
