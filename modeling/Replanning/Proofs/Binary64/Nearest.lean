import Mathlib
import Replanning.Proofs.Binary64.Pattern

namespace Replanning.Binary64

theorem inUnits_eq (num den : ℕ) (e : ℤ) :
    inUnits num den e = (num * 2^(-e).toNat, den * 2^e.toNat) := by
  rw [inUnits, Nat.shiftLeft_eq, Nat.shiftLeft_eq]

/-- The units of `2 ^ e` divide the value of a ratio by `2 ^ e`. -/
theorem inUnits_value (num den : ℕ) (e : ℤ) :
    ((inUnits num den e).1 : ℚ) / (inUnits num den e).2 = num / den / 2^e := by
  have h2 : (2 : ℚ) ≠ 0 := two_ne_zero
  rw [inUnits_eq]
  rcases le_total 0 e with he | he
  · obtain ⟨k, rfl⟩ := Int.eq_ofNat_of_zero_le he
    rw [Int.toNat_natCast, Int.toNat_neg_natCast, zpow_natCast]
    push_cast
    rw [mul_one, div_div]
  · obtain ⟨k, hk⟩ := Int.eq_ofNat_of_zero_le (neg_nonneg.mpr he)
    obtain rfl : e = -(k : ℤ) := by omega
    rw [neg_neg, Int.toNat_natCast, Int.toNat_neg_natCast, zpow_neg, zpow_natCast]
    push_cast
    rw [mul_one, div_inv_eq_mul, mul_div_right_comm]

theorem inUnits_den_pos (num den : ℕ) (e : ℤ) (h : 0 < den) : 0 < (inUnits num den e).2 := by
  rw [inUnits_eq]
  exact Nat.mul_pos h (Nat.two_pow_pos _)

/-- The last place of a value: the significand has 53 bits, or fewer at the lower end. -/
structure IsLastPlace (v : ℚ) (e : ℤ) : Prop where
  low : -1074 ≤ e
  lt : v / 2^e < 2^53
  ge : e = -1074 ∨ 2^52 ≤ v / 2^e

/-- A larger value does not have a lower last place. -/
theorem IsLastPlace.le {v v' : ℚ} {e e' : ℤ} (h : IsLastPlace v e) (h' : IsLastPlace v' e')
    (hv : v' ≤ v) : e' ≤ e := by
  by_contra hlt
  -- a higher last place asks for a significand of 53 bits, which a lower one would not hold
  have hge : 2^52 ≤ v' / 2^e' := by
    rcases h'.ge with h0 | h0
    · have := h.low
      omega
    · exact h0
  have hstep : (2 : ℚ)^(e+1) ≤ 2^e' := zpow_le_zpow_right₀ one_le_two (by omega)
  have hpos : (0 : ℚ) < 2^e := by positivity
  have hpos' : (0 : ℚ) < 2^e' := by positivity
  rw [le_div_iff₀ hpos'] at hge
  have hlt' := (div_lt_iff₀ hpos).mp h.lt
  rw [zpow_add_one₀ two_ne_zero] at hstep
  linarith

/-- A value has one last place. -/
theorem IsLastPlace.unique {v : ℚ} {e e' : ℤ} (h : IsLastPlace v e) (h' : IsLastPlace v e') :
    e = e' :=
  le_antisymm (h'.le h le_rfl) (h.le h' le_rfl)

theorem ratio_log2_bounds (num den : ℕ) (hn : num ≠ 0) (hd : den ≠ 0) :
    (2 : ℚ)^((num.log2 : ℤ) - den.log2 - 1) < num / den ∧
      (num : ℚ) / den < 2^((num.log2 : ℤ) - den.log2 + 1) := by
  have hdq : (0 : ℚ) < den := by exact_mod_cast Nat.pos_of_ne_zero hd
  have hn1 : (2 : ℚ)^num.log2 ≤ num := by exact_mod_cast Nat.log2_self_le hn
  have hn2 : (num : ℚ) < 2^(num.log2 + 1) := by exact_mod_cast Nat.lt_log2_self
  have hd1 : (2 : ℚ)^den.log2 ≤ den := by exact_mod_cast Nat.log2_self_le hd
  have hd2 : (den : ℚ) < 2^(den.log2 + 1) := by exact_mod_cast Nat.lt_log2_self
  have h2 : (2 : ℚ) ≠ 0 := two_ne_zero
  constructor
  · rw [lt_div_iff₀ hdq]
    calc (2 : ℚ)^((num.log2 : ℤ) - den.log2 - 1) * den
        < 2^((num.log2 : ℤ) - den.log2 - 1) * 2^(den.log2 + 1) := by gcongr
      _ = 2^num.log2 := by
        rw [← zpow_natCast, ← zpow_natCast, ← zpow_add₀ h2]
        congr 1
        push_cast
        ring
      _ ≤ num := hn1
  · rw [div_lt_iff₀ hdq]
    calc (num : ℚ) < 2^(num.log2 + 1) := hn2
      _ = 2^((num.log2 : ℤ) - den.log2 + 1) * 2^den.log2 := by
        rw [← zpow_natCast, ← zpow_natCast, ← zpow_add₀ h2]
        congr 1
        push_cast
        ring
      _ ≤ 2^((num.log2 : ℤ) - den.log2 + 1) * den := by gcongr

/-- The exponent that `lastPlace` finds is the last place of the value. -/
theorem lastPlace_spec (num den : ℕ) (hn : num ≠ 0) (hd : den ≠ 0) :
    IsLastPlace (num / den) (lastPlace num den) := by
  obtain ⟨hlow, hhigh⟩ := ratio_log2_bounds num den hn hd
  generalize hv : (num : ℚ) / den = v at hlow hhigh
  generalize hk : (num.log2 : ℤ) - den.log2 = k at hlow hhigh
  -- what the definition checks in whole numbers, said of the value
  have hcheck (e : ℤ) :
      (inUnits num den e).2 <<< 53 ≤ (inUnits num den e).1 ↔ 2^53 ≤ v / 2^e := by
    have hpos : (0 : ℚ) < (inUnits num den e).2 := by
      exact_mod_cast inUnits_den_pos num den e (Nat.pos_of_ne_zero hd)
    rw [← hv, ← inUnits_value, le_div_iff₀ hpos, Nat.shiftLeft_eq, mul_comm]
    exact_mod_cast Iff.rfl
  -- an estimate from the binary logarithms is right or one too low
  have hupper (e : ℤ) (he : k - 53 ≤ e) : v / 2^e < 2^54 := by
    rw [div_lt_iff₀ (by positivity)]
    calc v < 2^(k+1) := hhigh
      _ ≤ 2^(54+e) := zpow_le_zpow_right₀ one_le_two (by omega)
      _ = 2^54 * 2^e := zpow_add₀ two_ne_zero 54 e
  have hlower (e : ℤ) (he : e = k - 53) : 2^52 < v / 2^e := by
    rw [lt_div_iff₀ (by positivity)]
    calc (2 : ℚ)^52 * 2^e = 2^((52 : ℤ)+e) := (zpow_add₀ two_ne_zero 52 e).symm
      _ = 2^(k-1) := by congr 1; omega
      _ < v := hlow
  have hhalf (e : ℤ) : v / 2^(e+1) = v / 2^e / 2 := by
    rw [zpow_add_one₀ two_ne_zero, div_div]
  unfold lastPlace
  rw [hk]
  dsimp only
  split_ifs with h
  · have hge := (hcheck _).mp h
    have hlt := hupper (max (k - 53) (-1074)) (le_max_left _ _)
    refine ⟨by omega, ?_, Or.inr ?_⟩
    · rw [hhalf]
      linarith
    · rw [hhalf]
      linarith
  · have hlt := lt_of_not_ge (mt (hcheck _).mpr h)
    refine ⟨le_max_right _ _, hlt, ?_⟩
    rcases le_total (k - 53) (-1074) with hle | hle
    · exact Or.inl (max_eq_right hle)
    · exact Or.inr (hlower _ (max_eq_left hle)).le

theorem lastPlace_eq (num den : ℕ) (hn : num ≠ 0) (hd : den ≠ 0) (e : ℤ)
    (h : IsLastPlace (num / den) e) : lastPlace num den = e :=
  (lastPlace_spec num den hn hd).unique h

theorem roundHalfEven_mul (k n d : ℕ) (hk : 0 < k) :
    roundHalfEven (k * n) (k * d) = roundHalfEven n d := by
  have hlt : 2 * (k * (n % d)) < k * d ↔ 2 * (n % d) < d := by
    rw [mul_left_comm]
    exact Nat.mul_lt_mul_left hk
  have heq : 2 * (k * (n % d)) = k * d ↔ 2 * (n % d) = d := by
    rw [mul_left_comm]
    exact Nat.mul_right_inj (Nat.ne_of_gt hk)
  simp only [roundHalfEven, Nat.mul_div_mul_left n d hk, Nat.mul_mod_mul_left, hlt, heq]

/-- Equal quotients are rounded alike. -/
theorem roundHalfEven_congr (n d n' d' : ℕ) (hd : 0 < d) (hd' : 0 < d')
    (h : (n : ℚ) / d = n' / d') : roundHalfEven n d = roundHalfEven n' d' := by
  -- both sides are rounded over the common denominator
  have hcross : n * d' = n' * d := by
    rw [div_eq_div_iff (by positivity) (by positivity)] at h
    exact_mod_cast h
  calc roundHalfEven n d = roundHalfEven (d' * n) (d' * d) := (roundHalfEven_mul d' n d hd').symm
    _ = roundHalfEven (d * n') (d * d') := by rw [mul_comm d' n, hcross, mul_comm n', mul_comm d']
    _ = roundHalfEven n' d' := roundHalfEven_mul d n' d' hd

theorem roundHalfEven_one (n : ℕ) : roundHalfEven n 1 = n := by
  simp only [roundHalfEven, Nat.div_one, Nat.mod_one]
  exact if_pos (Or.inl Nat.one_pos)

theorem div_le_roundHalfEven (n d : ℕ) : n / d ≤ roundHalfEven n d := by
  unfold roundHalfEven
  dsimp only
  split_ifs <;> omega

theorem nearest_eq_ofPattern (num den : ℕ) (hn : num ≠ 0) (e : ℤ) (he : lastPlace num den = e) :
    nearest num den = ofPattern false (min ((e+1074).toNat * 2^52 +
      roundHalfEven (inUnits num den e).1 (inUnits num den e).2) infinityPattern) := by
  simp only [nearest, if_neg hn, he, ofPattern, Bool.toNat_false, zero_mul, add_zero,
    infinityPattern, Nat.shiftLeft_eq]

/-- The nearest double depends on the value of the ratio alone. -/
theorem nearest_congr (num den num' den' : ℕ) (hd : 0 < den) (hd' : 0 < den')
    (h : (num : ℚ) / den = num' / den') : nearest num den = nearest num' den' := by
  by_cases hn : num = 0
  · have hn' : num' = 0 := by
      rw [hn, Nat.cast_zero, zero_div, eq_comm, div_eq_zero_iff] at h
      rcases h with h | h
      · exact_mod_cast h
      · exact absurd (by exact_mod_cast h) (Nat.ne_of_gt hd')
    rw [nearest, nearest, if_pos hn, if_pos hn']
  · have hn' : num' ≠ 0 := by
      rintro rfl
      rw [Nat.cast_zero, zero_div, div_eq_zero_iff] at h
      rcases h with h | h
      · exact hn (by exact_mod_cast h)
      · exact absurd (by exact_mod_cast h) (Nat.ne_of_gt hd)
    have hplace := lastPlace_spec num' den' hn' (Nat.ne_of_gt hd')
    rw [nearest_eq_ofPattern num' den' hn' _ rfl, nearest_eq_ofPattern num den hn _
      (lastPlace_eq num den hn (Nat.ne_of_gt hd) _ (h ▸ hplace))]
    rw [roundHalfEven_congr _ _ _ _ (inUnits_den_pos num den _ hd)
      (inUnits_den_pos num' den' _ hd') (by rw [inUnits_value, inUnits_value, h])]

/-- Far above the doubles the nearest one is infinite. -/
theorem nearest_of_huge (num den : ℕ) (hd : 0 < den) (h : (2 : ℚ)^(1024 : ℤ) ≤ num / den) :
    nearest num den = ofPattern false infinityPattern := by
  have hn : num ≠ 0 := by
    rintro rfl
    rw [Nat.cast_zero, zero_div] at h
    exact absurd h (not_le.mpr (by positivity))
  have hplace := lastPlace_spec num den hn (Nat.ne_of_gt hd)
  generalize he : lastPlace num den = e at hplace
  -- the last place is so high that the exponent field alone reaches infinity
  have hexp : 972 ≤ e := by
    by_contra hlt
    have hbound := (div_lt_iff₀ (by positivity)).mp hplace.lt
    apply absurd h
    apply not_le.mpr
    calc (num : ℚ) / den < 2^53 * 2^e := hbound
      _ = 2^((53 : ℤ)+e) := (zpow_add₀ two_ne_zero 53 e).symm
      _ ≤ 2^(1024 : ℤ) := zpow_le_zpow_right₀ one_le_two (by omega)
  have hsignificand : 2^52 ≤ roundHalfEven (inUnits num den e).1 (inUnits num den e).2 := by
    apply le_trans _ (div_le_roundHalfEven _ _)
    have hpos := inUnits_den_pos num den e hd
    have hge : (2 : ℚ)^52 ≤ num / den / 2^e := by
      rcases hplace.ge with h0 | h0
      · omega
      · exact h0
    rw [← inUnits_value, le_div_iff₀ (by exact_mod_cast hpos)] at hge
    rw [Nat.le_div_iff_mul_le hpos]
    exact_mod_cast hge
  rw [nearest_eq_ofPattern num den hn e he, min_eq_right]
  unfold infinityPattern
  have hmul : 2046 * 2^52 ≤ (e+1074).toNat * 2^52 := Nat.mul_le_mul_right _ (by omega)
  omega

/-- Far below the doubles the nearest one is zero. -/
theorem nearest_of_tiny (num den : ℕ) (hd : 0 < den) (h : (num : ℚ) / den < 2^(-1075 : ℤ)) :
    nearest num den = 0.0 := by
  by_cases hn : num = 0
  · rw [nearest, if_pos hn]
  have hplace : IsLastPlace ((num : ℚ) / den) (-1074) := by
    refine ⟨le_rfl, ?_, Or.inl rfl⟩
    rw [div_lt_iff₀ (by positivity)]
    calc (num : ℚ) / den < 2^(-1075 : ℤ) := h
      _ ≤ 2^((53 : ℤ) + -1074) := zpow_le_zpow_right₀ one_le_two (by decide)
      _ = 2^53 * 2^(-1074 : ℤ) := zpow_add₀ two_ne_zero 53 (-1074)
  -- the ratio is less than half of the smallest double
  have hhalf : 2 * (inUnits num den (-1074)).1 < (inUnits num den (-1074)).2 := by
    have hpos := inUnits_den_pos num den (-1074) hd
    have hlt : (num : ℚ) / den / 2^(-1074 : ℤ) < 1 / 2 := by
      rw [div_lt_iff₀ (by positivity)]
      calc (num : ℚ) / den < 2^((-1 : ℤ) + -1074) := h
        _ = 1 / 2 * 2^(-1074 : ℤ) := by rw [zpow_add₀ two_ne_zero, zpow_neg_one, one_div]
    rw [← inUnits_value, div_lt_iff₀ (by exact_mod_cast hpos)] at hlt
    have hcast : (2 : ℚ) * (inUnits num den (-1074)).1 < (inUnits num den (-1074)).2 := by linarith
    exact_mod_cast hcast
  have hround : roundHalfEven (inUnits num den (-1074)).1 (inUnits num den (-1074)).2 = 0 := by
    have hlt : (inUnits num den (-1074)).1 < (inUnits num den (-1074)).2 := by omega
    simp only [roundHalfEven, Nat.div_eq_of_lt hlt, Nat.mod_eq_of_lt hlt, hhalf, true_or, if_true]
  rw [nearest_eq_ofPattern num den hn _ (lastPlace_eq num den hn (Nat.ne_of_gt hd) _ hplace),
    hround]
  rfl

def patternValue (p : ℕ) : ℚ :=
  significandOf p * 2^exponentOf p

theorem significandOf_lt (p : ℕ) : significandOf p < 2^53 := by
  unfold significandOf
  split_ifs <;> omega

theorem isLastPlace_patternValue (p : ℕ) :
    IsLastPlace (patternValue p) (exponentOf p) := by
  have hvalue : patternValue p / 2^exponentOf p = significandOf p := by
    rw [patternValue, mul_div_cancel_right₀]
    positivity
  refine ⟨?_, ?_, ?_⟩
  · unfold exponentOf
    split_ifs <;> omega
  · rw [hvalue]
    exact_mod_cast significandOf_lt p
  · rw [hvalue]
    unfold exponentOf significandOf
    split_ifs with h
    · exact Or.inl rfl
    · apply Or.inr
      push_cast
      have : (0 : ℚ) ≤ ((p % 2^52 : ℕ) : ℚ) := Nat.cast_nonneg _
      push_cast at this
      linarith

/-- The double nearest to the value of a pattern has this pattern. -/
theorem nearest_of_patternValue (num den p : ℕ) (hd : 0 < den) (hp : p < infinityPattern)
    (h : (num : ℚ) / den = patternValue p) : nearest num den = ofPattern false p := by
  by_cases hn : num = 0
  · have hp0 : p = 0 := by
      rw [hn, Nat.cast_zero, zero_div, patternValue, eq_comm, mul_eq_zero] at h
      rcases h with h | h
      · have hs : significandOf p = 0 := by exact_mod_cast h
        unfold significandOf at hs
        split_ifs at hs
        · exact hs
        · omega
      · exact absurd h (by positivity)
    rw [nearest, if_pos hn, hp0]
    rfl
  · have hplace := lastPlace_eq num den hn (Nat.ne_of_gt hd) _ (h ▸ isLastPlace_patternValue p)
    -- the value is a whole number of last places, so nothing is rounded
    have hround : roundHalfEven (inUnits num den (exponentOf p)).1
        (inUnits num den (exponentOf p)).2 = significandOf p := by
      have hvalue : ((inUnits num den (exponentOf p)).1 : ℚ) / (inUnits num den (exponentOf p)).2 =
          (significandOf p : ℕ) / (1 : ℕ) := by
        rw [inUnits_value, h, patternValue, mul_div_cancel_right₀ _ (by positivity), Nat.cast_one,
          div_one]
      rw [roundHalfEven_congr _ _ _ _ (inUnits_den_pos num den _ hd) Nat.one_pos hvalue]
      exact roundHalfEven_one (significandOf p)
    rw [nearest_eq_ofPattern num den hn _ hplace, hround, pattern_eq, min_eq_left hp.le]

end Replanning.Binary64
