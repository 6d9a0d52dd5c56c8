import Replanning.Proofs.Binary64.Order

namespace Replanning
open Float.Model Float.Model.UnpackedFloat

namespace Binary64

/-- A ratio cut off at its whole part, with what the rest says about rounding. -/
def cutOff (n d : ℕ) : ExtendedMantissa :=
  .ofMantissaAndAccuracy (n / d) (accuracyOfFraction (n % d) d)

/-- The two bits behind the last place tell the rest from zero and from a half. -/
theorem cutOff_eq (n d : ℕ) (hd : 0 < d) :
    cutOff n d = ⟨n / d, decide (d ≤ 2 * (n % d)), decide (n % d ≠ 0 ∧ 2 * (n % d) ≠ d)⟩ := by
  unfold cutOff accuracyOfFraction
  split_ifs with h
  · have hlt : ¬d ≤ 2 * (n % d) := by omega
    simp [ExtendedMantissa.ofMantissaAndAccuracy, h, Nat.ne_of_gt hd]
  · rcases lt_trichotomy (2 * (n % d)) d with hlt | heq | hgt
    · rw [Nat.compare_eq_lt.mpr hlt]
      simp [ExtendedMantissa.ofMantissaAndAccuracy, h, hlt.ne, hlt]
    · rw [Nat.compare_eq_eq.mpr heq]
      simp [ExtendedMantissa.ofMantissaAndAccuracy, heq]
    · rw [Nat.compare_eq_gt.mpr hgt]
      simp [ExtendedMantissa.ofMantissaAndAccuracy, h, hgt.le, hgt.ne']

theorem shiftRightOne_cutOff (n d : ℕ) (hd : 0 < d) :
    (cutOff n d).shiftRightOne = cutOff n (2*d) := by
  rw [cutOff_eq n d hd, cutOff_eq n (2*d) (by omega)]
  have hdiv : n / d / 2 = n / (2*d) := by rw [Nat.div_div_eq_div_mul, mul_comm]
  have hmod : n % (2*d) = n % d + d * (n / d % 2) := by rw [mul_comm 2 d, Nat.mod_mul]
  have hlt := Nat.mod_lt n hd
  rw [ExtendedMantissa.shiftRightOne, hdiv, hmod]
  -- the bit shifted out is the new first bit, and the old rest goes into the second one
  congr 1
  · apply Bool.eq_iff_iff.mpr
    rw [bne_iff_ne, decide_eq_true_iff]
    rcases Nat.mod_two_eq_zero_or_one (n / d) with h | h <;> rw [h] <;> omega
  · apply Bool.eq_iff_iff.mpr
    rw [Bool.or_eq_true, decide_eq_true_iff, decide_eq_true_iff, decide_eq_true_iff]
    rcases Nat.mod_two_eq_zero_or_one (n / d) with h | h <;> rw [h] <;> omega

theorem cutOff_shiftRight (n d k : ℕ) (hd : 0 < d) : cutOff n d >>> k = cutOff n (2^k * d) := by
  change Nat.repeat ExtendedMantissa.shiftRightOne k (cutOff n d) = _
  induction k with
  | zero => rw [pow_zero, one_mul]; rfl
  | succ k ih =>
    change (Nat.repeat ExtendedMantissa.shiftRightOne k (cutOff n d)).shiftRightOne = _
    rw [ih, shiftRightOne_cutOff n _ (Nat.mul_pos (Nat.two_pow_pos k) hd), ← mul_assoc, ← pow_succ']

theorem roundedMantissa_ofMantissaAndAccuracy (m : ℕ) (a : Accuracy) :
    (ExtendedMantissa.ofMantissaAndAccuracy m a).roundedMantissa =
      Accuracy.roundToNearestEven m a := by
  cases a with
  | exact => rfl
  | inexact o => cases o <;> rfl

theorem roundedMantissa_cutOff (n d : ℕ) (hd : 0 < d) :
    (cutOff n d).roundedMantissa = roundHalfEven n d := by
  rw [cutOff, roundedMantissa_ofMantissaAndAccuracy, accuracyOfFraction, roundHalfEven]
  split_ifs with h0 h h
  · rfl
  · omega
  · rcases h with h | ⟨h, heven⟩
    · rw [Nat.compare_eq_lt.mpr h]
      rfl
    · rw [Nat.compare_eq_eq.mpr h]
      exact (congrArg (n / d + ·) heven).trans (Nat.add_zero _)
  · rcases lt_trichotomy (2 * (n % d)) d with hlt | heq | hgt
    · exact absurd (Or.inl hlt) h
    · have hodd : n / d % 2 = 1 := by
        rcases Nat.mod_two_eq_zero_or_one (n / d) with he | ho
        · exact absurd (Or.inr ⟨heq, he⟩) h
        · exact ho
      rw [Nat.compare_eq_eq.mpr heq]
      exact congrArg (n / d + ·) hodd
    · rw [Nat.compare_eq_gt.mpr hgt]
      rfl

/-- A significand with its exponent is packed into the pattern that they make up, or into infinity
where this pattern is beyond the doubles. -/
theorem ofModel_pack (m : ℕ) (e : ℤ) (hp : 0 < m) (hm : m < 2^53) (he : -1074 ≤ e)
    (hlow : e = -1074 ∨ 2^52 ≤ m) :
    Float.ofModel (.pack (.finite .positive m e hp)) =
      ofPattern false (min ((e + 1074).toNat * 2^52 + m) infinityPattern) := by
  have hb : (e + Format.binary64.exponentBias +
      Format.binary64.mantissaBitsWithoutImplicit).toNat = (e+1075).toNat := by
    simp only [Format.exponentBias]
    omega
  have hlog : m.log2 + 1 = Format.binary64.mantissaBits ↔ 2^52 ≤ m := by
    have hle := Nat.le_log2 (Nat.ne_of_gt hp) (k := 52)
    have hlt := Nat.log2_lt (Nat.ne_of_gt hp) (k := 53)
    simp only [Format.mantissaBits]
    omega
  -- the word is put together from its fields
  have hword (k : BitVec 11) (f : BitVec 52) (hle : k.toNat * 2^52 + f.toNat ≤ infinityPattern)
      (hpack : UnpackedFloat.pack Format.binary64 (.finite .positive m e hp) =
        packComponents Format.binary64 .positive k f) :
      Float.ofModel (.pack (.finite .positive m e hp)) =
        ofPattern false (k.toNat * 2^52 + f.toNat) := by
    rw [← Float.toBits_inj, ← UInt64.toBitVec_inj, toBitVec_ofPattern k f hle]
    exact hpack
  have hf : (BitVec.ofNat 52 m).toNat = m % 2^52 := BitVec.toNat_ofNat _ _
  simp only [UnpackedFloat.pack, hb, hlog] at hword
  by_cases hover : 2^11 ≤ (e+1075).toNat + 1
  · rw [hword (-1#11) 0#52 (by decide) (by rw [if_pos hover]; rfl), min_eq_right]
    · rfl
    · unfold infinityPattern
      omega
  rw [if_neg hover] at hword
  by_cases hnormal : 2^52 ≤ m
  · have hk : (BitVec.ofNat 11 (e+1075).toNat).toNat = (e+1075).toNat :=
      exponentField_toNat e he (by omega)
    have hsum : (e+1075).toNat * 2^52 + m % 2^52 = (e+1074).toNat * 2^52 + m := by omega
    have hle : (e+1074).toNat * 2^52 + m ≤ infinityPattern := by
      unfold infinityPattern
      omega
    rw [hword (BitVec.ofNat 11 (e+1075).toNat) (BitVec.ofNat 52 m)
      (by rw [hk, hf, hsum]; exact hle) (by rw [if_pos hnormal]), hk, hf, hsum, min_eq_left hle]
  · have hsum : (0#11).toNat * 2^52 + m % 2^52 = (e+1074).toNat * 2^52 + m := by
      rw [BitVec.toNat_zero]
      omega
    have hle : (e+1074).toNat * 2^52 + m ≤ infinityPattern := by
      unfold infinityPattern
      omega
    rw [hword 0#11 (BitVec.ofNat 52 m) (by rw [hf, hsum]; exact hle) (by rw [if_neg hnormal]), hf,
      hsum, min_eq_left hle]

/-- The exponent that rounding aims at is the last place of the value, unless bits are missing. -/
theorem isLastPlace_target (n d : ℕ) (e : ℤ) (hd : 0 < d)
    (he : e ≤ Format.binary64.targetExponent (totalExponent (n / d) e)) :
    IsLastPlace (n / d * 2^e) (Format.binary64.targetExponent (totalExponent (n / d) e)) := by
  rw [targetExponent_eq] at he ⊢
  have hdq : (0 : ℚ) < d := by exact_mod_cast hd
  generalize hE : max (((n / d).log2 : ℤ) + e - 52) (-1074) = E at he ⊢
  have hquot : (n : ℚ) / d < 2^((n / d).log2 + 1) := by
    rw [div_lt_iff₀ hdq]
    have hlt := (Nat.div_lt_iff_lt_mul hd).mp (Nat.lt_log2_self (n := n / d))
    exact_mod_cast hlt
  refine ⟨by omega, ?_, ?_⟩
  · rw [div_lt_iff₀ (by positivity)]
    calc (n : ℚ) / d * 2^e < 2^((n / d).log2 + 1) * 2^e := by gcongr
      _ = 2^((((n / d).log2 + 1 : ℕ) : ℤ) + e) := by rw [← zpow_natCast, zpow_add₀ two_ne_zero]
      _ ≤ 2^((53 : ℤ) + E) := zpow_le_zpow_right₀ one_le_two (by push_cast; omega)
      _ = 2^53 * 2^E := zpow_add₀ two_ne_zero 53 E
  · by_cases hlow : E = -1074
    · exact Or.inl hlow
    -- above the lowest exponent nothing is shifted in, so the whole part has its bits
    · apply Or.inr
      have h0 : n / d ≠ 0 := by
        intro h0
        rw [h0, Nat.log2_zero] at hE
        omega
      have hlog : ((n / d).log2 : ℤ) + e = 52 + E := by omega
      have hge : (2 : ℚ)^(n / d).log2 ≤ n / d := by
        calc (2 : ℚ)^(n / d).log2 ≤ ((n / d : ℕ) : ℚ) := by exact_mod_cast Nat.log2_self_le h0
          _ ≤ n / d := Nat.cast_div_le
      rw [le_div_iff₀ (by positivity)]
      calc (2 : ℚ)^52 * 2^E = 2^((52 : ℤ) + E) := (zpow_add₀ two_ne_zero 52 E).symm
        _ = 2^(n / d).log2 * 2^e := by rw [← hlog, zpow_add₀ two_ne_zero, zpow_natCast]
        _ ≤ n / d * 2^e := by gcongr

/-- A rounded significand may have one bit too many, which is a carry into the exponent. -/
theorem pack_rounded (m : ℕ) (e : ℤ) (a : Accuracy) (em : ExtendedMantissa) (E : ℤ)
    (hshift : shiftToTargetExponent Format.binary64 m e a = (em, E)) (hE : -1074 ≤ E)
    (hcarry : em.roundedMantissa ≤ 2^53) (hlow : E = -1074 ∨ 2^52 ≤ em.roundedMantissa) :
    Float.ofModel (.pack (roundWithAccuracy Format.binary64 .positive m e a)) =
      ofPattern false (min ((E + 1074).toNat * 2^52 + em.roundedMantissa) infinityPattern) := by
  simp only [roundWithAccuracy, hshift]
  rcases hcarry.lt_or_eq with hlt | heq
  · simp only [shiftToTargetExponent_of_small _ E hlt hE]
    split_ifs with h0
    · have hlowest : E = -1074 := by omega
      rw [h0, hlowest]
      rfl
    · exact ofModel_pack _ E (Nat.pos_of_ne_zero h0) hlt hE hlow
  · have htwo : shiftToTargetExponent Format.binary64 (2^53) E .exact =
        (⟨2^52, false, false⟩, E+1) := by
      have hk : (max (((2^53 : ℕ).log2 : ℤ) + E - 52) (-1074) - E).toNat = 1 := by
        rw [Nat.log2_two_pow]
        omega
      rw [shiftToTargetExponent, targetExponent_eq, shiftToExponent, hk]
      rfl
    have hpattern : (E+1 + 1074).toNat * 2^52 + 2^52 = (E + 1074).toNat * 2^52 + 2^53 := by omega
    simp only [heq, htwo]
    rw [dif_neg (by decide), ofModel_pack _ _ _ (by decide) (by omega) (Or.inr le_rfl), hpattern]

/-- Rounding a value that is given by a ratio in units of a power of two leads to the nearest double,
whatever the units, as long as they are no larger than the last place. -/
theorem ofModel_round (num den n d : ℕ) (e : ℤ) (hden : 0 < den) (hn : n ≠ 0) (hd : 0 < d)
    (hv : (num : ℚ) / den = n / d * 2^e)
    (he : e ≤ Format.binary64.targetExponent (totalExponent (n / d) e)) :
    Float.ofModel (.pack (roundWithAccuracy Format.binary64 .positive (n / d) e
      (accuracyOfFraction (n % d) d))) = nearest num den := by
  have hplace := isLastPlace_target n d e hd he
  generalize hE : Format.binary64.targetExponent (totalExponent (n / d) e) = E at he hplace
  rw [← hv] at hplace
  have hnum : num ≠ 0 := by
    rintro rfl
    rw [Nat.cast_zero, zero_div] at hv
    exact absurd hv.symm (by positivity)
  have hpos : 0 < 2^(E - e).toNat * d := Nat.mul_pos (Nat.two_pow_pos _) hd
  have hshift : shiftToTargetExponent Format.binary64 (n / d) e (accuracyOfFraction (n % d) d) =
      (cutOff n (2^(E - e).toNat * d), E) := by
    rw [shiftToTargetExponent, hE, shiftToExponent]
    exact Prod.ext (cutOff_shiftRight n d _ hd) (by dsimp only; omega)
  -- in units of the last place the ratio is rounded to the same natural
  have hround : (cutOff n (2^(E - e).toNat * d)).roundedMantissa =
      roundHalfEven (inUnits num den E).1 (inUnits num den E).2 := by
    rw [roundedMantissa_cutOff _ _ hpos]
    apply roundHalfEven_congr _ _ _ _ hpos (inUnits_den_pos num den E hden)
    rw [inUnits_value, hv, mul_div_assoc, ← zpow_sub₀ two_ne_zero, ← neg_sub E e, zpow_neg,
      ← Int.toNat_of_nonneg (sub_nonneg.mpr he), zpow_natCast, Int.toNat_natCast]
    push_cast
    rw [mul_comm, div_mul_eq_div_div, ← div_eq_mul_inv]
  obtain ⟨hcarry, hlow⟩ := roundHalfEven_inUnits_bounds num den hden E hplace
  rw [← hround] at hcarry hlow
  rw [pack_rounded _ _ _ _ E hshift hplace.low hcarry hlow, hround,
    nearest_eq_ofPattern num den hnum E (lastPlace_eq num den hnum (Nat.ne_of_gt hden) E hplace)]

/-- The quotient of positive doubles is the double nearest to the exact quotient. -/
theorem div_eq_nearest (x y : Float) (m m' : ℕ) (e e' : ℤ) (hp : 0 < m) (hp' : 0 < m')
    (hx : x.toModel.unpack = .finite .positive m e hp)
    (hy : y.toModel.unpack = .finite .positive m' e' hp') (num den : ℕ) (hden : 0 < den)
    (hv : (num : ℚ) / den = m * 2^e / (m' * 2^e')) : x / y = nearest num den := by
  change Float.ofModel (.pack (UnpackedFloat.div _ x.toModel.unpack y.toModel.unpack)) = _
  rw [hx, hy]
  simp only [UnpackedFloat.div, divCore, Nat.shiftLeft_eq]
  have htarget : Format.binary64.targetExponent (totalExponent m e - totalExponent m' e') =
      max ((m.log2 : ℤ) - m'.log2 + (e - e') - 53) (-1074) := by
    simp only [Format.targetExponent, totalExponent, Format.mantissaBits, Format.minExponent]
    omega
  rw [htarget]
  generalize hT : min (e - e') (max ((m.log2 : ℤ) - m'.log2 + (e - e') - 53) (-1074)) = T
  generalize hs : (e - e' - T).toNat = s
  have hse : (s : ℤ) + T = e - e' := by omega
  refine ofModel_round num den (m * 2^s) m' T hden (Nat.mul_pos hp (Nat.two_pow_pos s)).ne' hp' ?_ ?_
  · rw [hv, mul_div_mul_comm, ← zpow_sub₀ two_ne_zero, ← hse, zpow_add₀ two_ne_zero, zpow_natCast]
    push_cast
    ring
  -- the dividend has been shifted so far that the quotient has 53 bits, or the lowest exponent
  · rw [targetExponent_eq]
    by_cases hlow : T ≤ -1074
    · omega
    have hbits : 2^52 ≤ m * 2^s / m' := by
      rw [Nat.le_div_iff_mul_le hp']
      calc 2^52 * m' ≤ 2^52 * 2^(m'.log2 + 1) := Nat.mul_le_mul_left _ Nat.lt_log2_self.le
        _ = 2^(52 + (m'.log2 + 1)) := (pow_add 2 52 _).symm
        _ ≤ 2^(m.log2 + s) := Nat.pow_le_pow_right (by decide) (by omega)
        _ = 2^m.log2 * 2^s := pow_add 2 _ _
        _ ≤ m * 2^s := Nat.mul_le_mul_right _ (Nat.log2_self_le hp.ne')
    have hlog := (Nat.le_log2 (Nat.ne_of_gt (Nat.lt_of_lt_of_le (by decide) hbits))).mpr hbits
    omega

theorem log2_mul_two_pow (m k : ℕ) (hm : 0 < m) : (m * 2^k).log2 = m.log2 + k := by
  rw [Nat.log2_eq_iff (Nat.mul_pos hm (Nat.two_pow_pos k)).ne', pow_add, add_right_comm, pow_add]
  exact ⟨Nat.mul_le_mul_right _ (Nat.log2_self_le hm.ne'),
    Nat.mul_lt_mul_of_pos_right Nat.lt_log2_self (Nat.two_pow_pos k)⟩

/-- A natural multiple of a power of two is rounded to the nearest double. -/
theorem ofModel_normalize (num den m : ℕ) (e : ℤ) (s : Sign) (hm : 0 < m) (hden : 0 < den)
    (hv : (num : ℚ) / den = m * 2^e) :
    Float.ofModel (.pack (UnpackedFloat.normalize Format.binary64 m e s)) = nearest num den := by
  have hcmp : compare (m : ℤ) 0 = .gt := by
    rw [Int.compare_eq_gt]
    omega
  simp only [UnpackedFloat.normalize, hcmp, Int.toNat_natCast, UnpackedFloat.round,
    decreaseExponent, Nat.shiftLeft_eq, targetExponent_eq]
  generalize hk : (e - max ((m.log2 : ℤ) + e - 52) (-1074)).toNat = k
  have hlog := log2_mul_two_pow m k hm
  have hround := ofModel_round num den (m * 2^k) 1 (e - k) hden
    (Nat.mul_pos hm (Nat.two_pow_pos k)).ne' Nat.one_pos
  rw [Nat.div_one, Nat.mod_one, targetExponent_eq, hlog] at hround
  refine hround ?_ (by omega)
  rw [hv, zpow_sub₀ two_ne_zero, zpow_natCast]
  push_cast
  field_simp

/-- The sum of positive doubles is the double nearest to the exact sum. -/
theorem add_eq_nearest (x y : Float) (m m' : ℕ) (e e' : ℤ) (hp : 0 < m) (hp' : 0 < m')
    (hx : x.toModel.unpack = .finite .positive m e hp)
    (hy : y.toModel.unpack = .finite .positive m' e' hp') (num den : ℕ) (hden : 0 < den)
    (hv : (num : ℚ) / den = m * 2^e + m' * 2^e') : x + y = nearest num den := by
  change Float.ofModel (.pack (UnpackedFloat.add _ x.toModel.unpack y.toModel.unpack)) = _
  rw [hx, hy]
  simp only [UnpackedFloat.add, decreaseExponent, Nat.shiftLeft_eq, Sign.apply]
  rw [← Int.natCast_add]
  apply ofModel_normalize num den _ _ _ (by positivity) hden
  have hunits (a : ℕ) (b : ℤ) (hle : min e e' ≤ b) :
      ((a * 2^(b - min e e').toNat : ℕ) : ℚ) * 2^(min e e') = a * 2^b := by
    have hb : ((b - min e e').toNat : ℤ) + min e e' = b := by omega
    push_cast
    rw [mul_assoc, ← zpow_natCast, ← zpow_add₀ two_ne_zero, hb]
  rw [Nat.cast_add, add_mul, hunits m e (min_le_left _ _), hunits m' e' (min_le_right _ _), hv]

end Binary64

open Binary64

/-- A count within 64 bits is rounded to the nearest double. -/
theorem ofCount_eq_nearest (n : ℕ) (hn : n < 2^64) : ofCount n = nearest n 1 := by
  rcases Nat.eq_zero_or_pos n with rfl | h0
  · rfl
  have hword : n.toUInt64.toNat = n := by
    rw [Nat.toUInt64, UInt64.toNat_ofNat']
    omega
  change Float.ofModel (.pack (UnpackedFloat.normalize Format.binary64 n.toUInt64.toNat 0 _)) = _
  rw [hword]
  apply ofModel_normalize n 1 n 0 _ h0 Nat.one_pos
  rw [Nat.cast_one, div_one, zpow_zero, mul_one]

/-- A positive count within 64 bits, exact or rounded, is a positive finite double. -/
theorem exists_unpack_ofCount (n : ℕ) (h0 : 1 ≤ n) (hn : n < 2^64) :
    ∃ m e hp, (ofCount n).toModel.unpack = .finite .positive m e hp := by
  rw [ofCount_eq_nearest n hn]
  obtain ⟨p, hp, hnearest⟩ := exists_nearest n 1
  -- one and `2 ^ 64` are doubles, and rounding does not leave the range between them
  obtain ⟨q, hq, hvq⟩ := exists_patternValue 1 0 (by decide) (by decide) (by decide)
  obtain ⟨r, hr, hvr⟩ := exists_patternValue 1 64 (by decide) (by decide) (by decide)
  have hlow := ofPattern_le_nearest n 1 q Nat.one_pos hq (by
    rw [hvq, Nat.cast_one, div_one, zpow_zero, mul_one]
    exact_mod_cast h0)
  have hhigh := nearest_le_ofPattern n 1 r Nat.one_pos hr (by
    rw [hvr, Nat.cast_one, div_one, one_mul]
    exact_mod_cast hn.le)
  rw [hnearest, ofPattern_le_iff _ _ hq.le hp] at hlow
  rw [hnearest, ofPattern_le_iff _ _ hp hr.le] at hhigh
  have hq0 : q ≠ 0 := by
    rintro rfl
    norm_num [patternValue, significandOf] at hvq
  obtain ⟨_, hunpack⟩ := unpack_ofPattern p (by omega) (by omega)
  rw [hnearest]
  exact ⟨_, _, _, hunpack⟩

/-- A count below `2 ^ 53` is the value of its double. -/
theorem exists_pattern_ofCount (n : ℕ) (hn : n < 2^53) :
    ∃ p < infinityPattern, ofCount n = ofPattern false p ∧ patternValue p = n := by
  obtain ⟨p, hp, hv⟩ := exists_patternValue n 0 hn (by decide) (by decide)
  rw [zpow_zero, mul_one] at hv
  refine ⟨p, hp, ?_, hv⟩
  rw [ofCount_eq_nearest n (by omega)]
  apply nearest_of_patternValue n 1 p Nat.one_pos hp
  rw [hv, Nat.cast_one, div_one]

/-- The doubles of counts compare as the counts do. -/
theorem ofCount_le_iff (m n : ℕ) (hm : m < 2^53) (hn : n < 2^53) :
    ofCount m ≤ ofCount n ↔ m ≤ n := by
  obtain ⟨p, hp, hmp, hvp⟩ := exists_pattern_ofCount m hm
  obtain ⟨q, hq, hnq, hvq⟩ := exists_pattern_ofCount n hn
  rw [hmp, hnq, ofPattern_le_iff p q hp.le hq.le, ← patternValue_le_iff p q hp hq, hvp, hvq,
    Nat.cast_le]

/-- A positive count is unpacked into parts that make up the count. -/
theorem exists_parts_ofCount (n : ℕ) (h0 : 0 < n) (hn : n < 2^53) :
    ∃ m e hp, (ofCount n).toModel.unpack = .finite .positive m e hp ∧ (m : ℚ) * 2^e = n := by
  have hp : 0 < countSignificand n := by
    have := (countSignificand_bounds n h0.ne' hn).1
    omega
  refine ⟨_, _, hp, ofCount_unpack n hn hp, ?_⟩
  have hlog := log2_count_le n hn
  have hexp : ((52 - n.log2 : ℕ) : ℤ) + ((n.log2 : ℤ) - 52) = 0 := by omega
  rw [countSignificand]
  push_cast
  rw [mul_assoc, ← zpow_natCast, ← zpow_add₀ two_ne_zero, hexp, zpow_zero, mul_one]

/-- Counts are divided as naturals, and rounded once. -/
theorem ofCount_div (n k : ℕ) (hn : n < 2^53) (h0 : 0 < k) (hk : k < 2^53) :
    ofCount n / ofCount k = nearest n k := by
  obtain ⟨m', e', hp', hk', hv'⟩ := exists_parts_ofCount k h0 hk
  rcases Nat.eq_zero_or_pos n with rfl | hpos
  · change Float.ofModel (.pack (UnpackedFloat.div _ _ (ofCount k).toModel.unpack)) = _
    rw [hk', ofCount_zero_unpack]
    rfl
  · obtain ⟨m, e, hp, hn', hv⟩ := exists_parts_ofCount n hpos hn
    exact div_eq_nearest _ _ m m' e e' hp hp' hn' hk' n k h0 (by rw [hv, hv'])

/-- Zero is neutral for positive doubles, on both sides. -/
theorem ofCount_zero_add (x : Float) (m : ℕ) (e : ℤ) (hp : 0 < m)
    (hx : x.toModel.unpack = .finite .positive m e hp) :
    ofCount 0 + x = x ∧ x + ofCount 0 = x := by
  have hpack : Float.ofModel (.pack (.finite .positive m e hp)) = x := by
    rw [← hx, pack_unpack_toModel]
  constructor
  · change Float.ofModel (.pack (UnpackedFloat.add _ (ofCount 0).toModel.unpack _)) = _
    rw [hx, ofCount_zero_unpack]
    exact hpack
  · change Float.ofModel (.pack (UnpackedFloat.add _ _ (ofCount 0).toModel.unpack)) = _
    rw [hx, ofCount_zero_unpack]
    exact hpack

/-- Counts are added exactly. -/
theorem ofCount_add (n k : ℕ) (hn : n < 2^53) (hk : k < 2^53) :
    ofCount n + ofCount k = ofCount (n + k) := by
  by_cases hboth : n = 0 ∧ k = 0
  · obtain ⟨rfl, rfl⟩ := hboth
    rfl
  rcases Nat.eq_zero_or_pos n with rfl | hpos
  · obtain ⟨m', e', hp', hk', _⟩ := exists_parts_ofCount k (by omega) hk
    rw [zero_add]
    exact (ofCount_zero_add _ m' e' hp' hk').1
  obtain ⟨m, e, hp, hn', hv⟩ := exists_parts_ofCount n hpos hn
  rcases Nat.eq_zero_or_pos k with rfl | hpos'
  · exact (ofCount_zero_add _ m e hp hn').2
  obtain ⟨m', e', hp', hk', hv'⟩ := exists_parts_ofCount k hpos' hk
  rw [ofCount_eq_nearest (n + k) (by omega)]
  apply add_eq_nearest _ _ m m' e e' hp hp' hn' hk' _ _ Nat.one_pos
  rw [hv, hv']
  push_cast
  ring

/-- A sum of counts is exact as long as it is below `2 ^ 53`. -/
theorem sum_ofCount (counts : List ℕ) (hne : counts ≠ []) (hsum : counts.sum < 2^53) :
    sum (counts.map ofCount) = ofCount counts.sum := by
  have hfold (counts : List ℕ) (total : ℕ) (h : total + counts.sum < 2^53) :
      (counts.map ofCount).foldl (· + ·) (ofCount total) = ofCount (total + counts.sum) := by
    induction counts generalizing total with
    | nil => rfl
    | cons n rest ih =>
      rw [List.sum_cons] at h
      rw [List.map_cons, List.foldl_cons, ofCount_add total n (by omega) (by omega),
        ih (total + n) (by omega), List.sum_cons, add_assoc]
  cases counts with
  | nil => exact absurd rfl hne
  | cons n rest =>
    rw [List.sum_cons] at hsum
    rw [sum, List.map_cons, List.foldl_cons, negZero_add, hfold rest n hsum, List.sum_cons]

/-- A mean of at most `2 ^ 20` counts is compared with a count within 32 bits as if it had not been
rounded. -/
theorem ofCount_div_le_iff (n k t : ℕ) (hn : n < 2^53) (h0 : 0 < k) (hk : k ≤ 2^20)
    (ht : t < 2^32) : ofCount n / ofCount k ≤ ofCount t ↔ n ≤ k * t := by
  have hkq : (0 : ℚ) < k := by exact_mod_cast h0
  obtain ⟨p, hp, htp, hvp⟩ := exists_pattern_ofCount t (by omega)
  rw [ofCount_div n k hn h0 (by omega), htp]
  constructor
  · contrapose!
    intro hgt
    -- the mean exceeds the count by `1 / k` or more, and there is a double in between
    obtain ⟨q, hq, hvq⟩ := exists_patternValue (t * 2^20 + 1) (-20) (by omega) (by decide) (by decide)
    have hstep : ((t * 2^20 + 1 : ℕ) : ℚ) * 2^(-20 : ℤ) = t + 1 / 2^20 := by
      push_cast
      rw [zpow_neg]
      norm_num
      ring
    apply not_nearest_le_ofPattern n k p q h0 hp hq
    · rw [hvp, hvq, hstep]
      exact lt_add_of_pos_right _ (by positivity)
    · have hk' : (1 : ℚ) / 2^20 ≤ 1 / k := by
        apply one_div_le_one_div_of_le hkq
        exact_mod_cast hk
      have hgt' : (k : ℚ) * t + 1 ≤ n := by exact_mod_cast hgt
      rw [hvq, hstep, le_div_iff₀ hkq]
      calc ((t : ℚ) + 1 / 2^20) * k ≤ (t + 1 / k) * k := by gcongr
        _ = k * t + 1 := by field_simp
        _ ≤ n := hgt'
  · intro hle
    apply nearest_le_ofPattern n k p h0 hp
    rw [hvp, div_le_iff₀ hkq, mul_comm]
    exact_mod_cast hle

end Replanning
