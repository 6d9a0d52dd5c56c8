import Mathlib
import Replanning.Decimal
import Replanning.Proofs.Binary64.Nearest

namespace Replanning.Decimal
open Binary64

def value (d : Decimal) : ℚ :=
  d.digits * 10^d.exponent

theorem value_pos (d : Decimal) (h : d.digits ≠ 0) : 0 < d.value := by
  have hd : (0 : ℚ) < d.digits := by exact_mod_cast Nat.pos_of_ne_zero h
  exact mul_pos hd (by positivity)

theorem ratio_value (d : Decimal) :
    ((d.digits * 10^d.exponent.toNat : ℕ) : ℚ) / (10^(-d.exponent).toNat : ℕ) = d.value := by
  rw [value]
  rcases le_total 0 d.exponent with he | he
  · obtain ⟨k, hk⟩ := Int.eq_ofNat_of_zero_le he
    rw [hk, Int.toNat_natCast, Int.toNat_neg_natCast, zpow_natCast]
    push_cast
    rw [div_one]
  · obtain ⟨k, hk⟩ := Int.eq_ofNat_of_zero_le (neg_nonneg.mpr he)
    obtain hk' : d.exponent = -(k : ℤ) := by omega
    rw [hk', neg_neg, Int.toNat_natCast, Int.toNat_neg_natCast, zpow_neg, zpow_natCast]
    push_cast
    rw [mul_one, div_eq_mul_inv]

theorem two_pow_le_ten_pow (k : ℕ) : (2 : ℚ)^(3*k) ≤ 10^k := by
  rw [pow_mul]
  gcongr
  norm_num

theorem nearest_two_pow (k : ℕ) (hk : 1024 ≤ k) :
    nearest (1 <<< k) 1 = ofPattern false infinityPattern := by
  apply nearest_of_huge _ 1 Nat.one_pos
  rw [Nat.one_shiftLeft, Nat.cast_one, div_one, Nat.cast_pow, Nat.cast_ofNat, ← zpow_natCast]
  exact zpow_le_zpow_right₀ one_le_two (by omega)

theorem value_huge (d : Decimal) (h : d.digits ≠ 0) (he : 400 < d.exponent) :
    2^(1024 : ℤ) ≤ d.value := by
  have hone : (1 : ℚ) ≤ d.digits := by exact_mod_cast Nat.pos_of_ne_zero h
  calc (2 : ℚ)^(1024 : ℤ) ≤ 2^((3*400 : ℕ) : ℤ) := zpow_le_zpow_right₀ one_le_two (by decide)
    _ = 2^(3*400) := zpow_natCast 2 (3*400)
    _ ≤ 10^400 := two_pow_le_ten_pow 400
    _ = 10^((400 : ℕ) : ℤ) := (zpow_natCast 10 400).symm
    _ ≤ 10^d.exponent := zpow_le_zpow_right₀ (by norm_num) he.le
    _ ≤ d.digits * 10^d.exponent := le_mul_of_one_le_left (by positivity) hone

theorem value_tiny (d : Decimal) (he : (d.digits.log2 : ℤ) + 3 * d.exponent < -1200) :
    d.value < 2^(-1075 : ℤ) := by
  have hlog : (d.digits : ℚ) < 2^((d.digits.log2 : ℤ) + 1) := by
    rw [zpow_add_one₀ two_ne_zero, zpow_natCast, ← pow_succ]
    exact_mod_cast Nat.lt_log2_self
  -- the exponent is negative here, and ten is more than the third power of two
  have hten : (10 : ℚ)^d.exponent ≤ 2^(3 * d.exponent) := by
    obtain ⟨k, hk⟩ := Int.eq_ofNat_of_zero_le (by omega : 0 ≤ -d.exponent)
    obtain hk' : d.exponent = -(k : ℤ) := by omega
    have hpow : (2 : ℚ)^(3 * -(k : ℤ)) = (2^(3*k))⁻¹ := by
      rw [mul_neg, zpow_neg, ← zpow_natCast]
      push_cast
      rfl
    rw [hk', hpow, zpow_neg, zpow_natCast]
    apply inv_anti₀
    · positivity
    · exact two_pow_le_ten_pow k
  calc d.value < 2^((d.digits.log2 : ℤ) + 1) * 10^d.exponent := by
        rw [value]
        gcongr
    _ ≤ 2^((d.digits.log2 : ℤ) + 1) * 2^(3 * d.exponent) := by gcongr
    _ = 2^((d.digits.log2 : ℤ) + 1 + 3 * d.exponent) := (zpow_add₀ two_ne_zero _ _).symm
    _ ≤ 2^(-1075 : ℤ) := zpow_le_zpow_right₀ one_le_two (by omega)

/-- The two answers at once agree with the general one. -/
theorem toFloat_eq_nearest (d : Decimal) (h : d.digits ≠ 0) :
    d.toFloat = nearest (d.digits * 10^d.exponent.toNat) (10^(-d.exponent).toNat) := by
  have hden : 0 < 10^(-d.exponent).toNat := Nat.pow_pos (by decide)
  rw [toFloat, if_neg h]
  -- numerals far outside the range are answered without their nearest double
  split_ifs with hbig hsmall
  · have hhuge := value_huge d h hbig
    rw [← ratio_value] at hhuge
    rw [nearest_of_huge _ _ hden hhuge]
    -- the power of two is kept closed, or it would be computed
    generalize hk : 1100 = k
    exact nearest_two_pow k (by omega)
  · have htiny := value_tiny d hsmall
    rw [← ratio_value] at htiny
    exact (nearest_of_tiny _ _ hden htiny).symm
  · rfl

theorem toFloat_of_digits_zero (d : Decimal) (h : d.digits = 0) : d.toFloat = 0.0 := by
  rw [toFloat, if_pos h]

theorem digits_eq_zero_iff (d : Decimal) : d.digits = 0 ↔ d.value = 0 := by
  constructor
  · intro h
    rw [value, h, Nat.cast_zero, zero_mul]
  · intro h
    by_contra hd
    exact (value_pos d hd).ne' h

/-- Numerals of one value stand for one double. -/
theorem toFloat_congr (d d' : Decimal) (h : d.value = d'.value) : d.toFloat = d'.toFloat := by
  by_cases hd : d.digits = 0
  · have hd' : d'.digits = 0 := (digits_eq_zero_iff d').mpr (h ▸ (digits_eq_zero_iff d).mp hd)
    rw [toFloat_of_digits_zero d hd, toFloat_of_digits_zero d' hd']
  · have hd' : d'.digits ≠ 0 := fun h0 =>
      hd ((digits_eq_zero_iff d).mpr (h.trans ((digits_eq_zero_iff d').mp h0)))
    rw [toFloat_eq_nearest d hd, toFloat_eq_nearest d' hd']
    exact nearest_congr _ _ _ _ (Nat.pow_pos (by decide)) (Nat.pow_pos (by decide))
      (by rw [ratio_value, ratio_value, h])

/-- Trailing zeros are moved without a change of the value. -/
theorem value_trim (fuel : ℕ) (d : Decimal) : (trim fuel d).value = d.value := by
  induction fuel generalizing d with
  | zero => rfl
  | succ fuel ih =>
    rw [trim]
    split_ifs with h
    · have hten : (d.digits : ℚ) = (d.digits / 10 : ℕ) * 10 := by
        exact_mod_cast (Nat.div_mul_cancel (Nat.dvd_of_mod_eq_zero h)).symm
      rw [ih, value, value, zpow_add_one₀ (by norm_num), hten]
      ring
    · rfl

theorem value_exact (m : Binary64) : (exact m).value = m.significand * 2^m.exponent := by
  unfold exact
  split_ifs with h
  · obtain ⟨k, hk⟩ := Int.eq_ofNat_of_zero_le h
    rw [value, hk, Int.toNat_natCast, zpow_zero, mul_one, zpow_natCast, Nat.shiftLeft_eq]
    push_cast
    rfl
  · obtain ⟨k, hk⟩ := Int.eq_ofNat_of_zero_le (by omega : 0 ≤ -m.exponent)
    obtain hk' : m.exponent = -(k : ℤ) := by omega
    rw [value, hk', neg_neg, Int.toNat_natCast, zpow_neg, zpow_neg, zpow_natCast, zpow_natCast,
      Nat.pow_eq]
    push_cast
    rw [mul_assoc]
    congr 1
    rw [← div_eq_mul_inv, div_eq_iff (by positivity), inv_mul_eq_div, eq_div_iff (by positivity),
      ← mul_pow]
    norm_num

/-- A numeral with the value of a pattern is read as the double of this pattern. -/
theorem toFloat_of_patternValue (d : Decimal) (p : ℕ) (hp : p < infinityPattern)
    (h : d.value = patternValue p) : d.toFloat = ofPattern false p := by
  by_cases hd : d.digits = 0
  · have hzero := nearest_of_patternValue 0 1 p Nat.one_pos hp
      (by rw [← h, (digits_eq_zero_iff d).mp hd, Nat.cast_zero, zero_div])
    rw [toFloat_of_digits_zero d hd, ← hzero, nearest, if_pos rfl]
  · rw [toFloat_eq_nearest d hd]
    exact nearest_of_patternValue _ _ p (Nat.pow_pos (by decide)) hp (by rw [ratio_value, h])

theorem toFloat_onGrid (tie : Tie) (x : Float) (num den : ℕ) (k : ℤ) (count : ℕ) (d : Decimal)
    (h : onGrid? tie x num den k count = some d) : d.toFloat = x := by
  have hbits (c : Decimal) (hc : (c.toFloat.toBits == x.toBits) = true) : c.toFloat = x :=
    Float.toBits_inj.mp (beq_iff_eq.mp hc)
  unfold onGrid? at h
  dsimp only at h
  split at h
  · cases h
  · rename_i hlow _
    rw [← Option.some.inj h]
    exact hbits _ hlow
  · rename_i _ hnext
    rw [← Option.some.inj h]
    exact hbits _ hnext
  · rename_i hlow hnext
    split at h
    · rw [← Option.some.inj h]
      exact hbits _ hlow
    · rw [← Option.some.inj h]
      exact hbits _ hnext
    · split_ifs at h
      · rw [← Option.some.inj h]
        exact hbits _ hlow
      · rw [← Option.some.inj h]
        exact hbits _ hnext

/-- The shortest numeral of a double reads back as the double. -/
theorem toFloat_shortest (tie : Tie) (p : ℕ) (hp : p < infinityPattern) :
    (shortest tie (ofPattern false p)).toFloat = ofPattern false p := by
  unfold shortest
  dsimp only
  split
  · rename_i d hd
    obtain ⟨count, _, hgrid⟩ := List.exists_of_findSome?_eq_some hd
    rw [toFloat_congr _ d (value_trim 17 d)]
    exact toFloat_onGrid tie _ _ _ _ count d hgrid
  · apply toFloat_of_patternValue _ p hp
    rw [value_exact, magnitude_ofPattern false p hp]
    rfl

/-- A double that is not zero has a numeral with a digit that is not zero. -/
theorem digits_shortest_ne_zero (tie : Tie) (p : ℕ) (hp : p < infinityPattern) (h0 : p ≠ 0) :
    (shortest tie (ofPattern false p)).digits ≠ 0 := by
  intro hd
  have hread := toFloat_shortest tie p hp
  rw [toFloat_of_digits_zero _ hd] at hread
  exact h0 ((ofPattern_eq_zero_iff false p hp).mp (hread ▸ (by rfl)))

end Replanning.Decimal
