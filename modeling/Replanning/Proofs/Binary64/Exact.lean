import Replanning.Proofs.Binary64.Monotone

namespace Replanning.Binary64

/-- The double stands for the value without rounding. -/
def Exact (x : Float) (v : ℚ) : Prop :=
  ∃ p < infinityPattern, x = ofPattern false p ∧ patternValue p = v

theorem Exact.of_ofCount (n : ℕ) (hn : n < 2^53) : Exact (ofCount n) n :=
  exists_pattern_ofCount n hn

theorem Exact.le_iff {x y : Float} {v w : ℚ} (hx : Exact x v) (hy : Exact y w) : x ≤ y ↔ v ≤ w := by
  obtain ⟨p, hp, rfl, rfl⟩ := hx
  obtain ⟨q, hq, rfl, rfl⟩ := hy
  rw [ofPattern_le_iff p q hp.le hq.le, patternValue_le_iff p q hp hq]

theorem Exact.number {x : Float} {v : ℚ} (hx : Exact x v) : x.toModel.unpack ≠ .notANumber := by
  obtain ⟨p, hp, rfl, rfl⟩ := hx
  exact (isNaN_eq_false_iff _).mp (isNaN_of_isFinite _ (isFinite_ofPattern false p hp))

theorem Exact.lt_iff {x y : Float} {v w : ℚ} (hx : Exact x v) (hy : Exact y w) : x < y ↔ v < w := by
  rw [← not_iff_not, float_not_lt x y hx.number hy.number, hy.le_iff hx, not_lt]

theorem exact_zero : Exact 0.0 0 :=
  ⟨0, by decide, rfl, by simp [patternValue, significandOf]⟩

theorem exact_one : Exact 1.0 1 := by
  refine ⟨1023 * 2^52, by decide, by decide +kernel, ?_⟩
  norm_num [patternValue, significandOf, exponentOf]

/-- A product with a value that fits in 53 bits is not rounded. -/
theorem Exact.mul {x y : Float} {v w : ℚ} (hx : Exact x v) (hy : Exact y w) (hv : 0 < v) (hw : 0 < w)
    (m : ℕ) (e : ℤ) (hm : m < 2^53) (hl : -1074 ≤ e) (hu : e ≤ 971) (h : v * w = m * 2^e) :
    Exact (x * y) (v * w) := by
  obtain ⟨p, hp, rfl, rfl⟩ := hx
  obtain ⟨q, hq, rfl, rfl⟩ := hy
  have hp0 : 0 < p := by
    rw [Nat.pos_iff_ne_zero]
    rintro rfl
    simp [patternValue, significandOf] at hv
  have hq0 : 0 < q := by
    rw [Nat.pos_iff_ne_zero]
    rintro rfl
    simp [patternValue, significandOf] at hw
  obtain ⟨r, hr, hvalue⟩ := exists_patternValue m e hm hl hu
  refine ⟨r, hr, ?_, hvalue.trans h.symm⟩
  rw [mul_ofPattern p q hp0 hp hq0 hq, rounded]
  apply nearest_of_patternValue _ _ r (Rat.den_pos _) hr
  rw [ratio_of_nonneg _ (mul_pos hv hw).le, h, hvalue]

end Replanning.Binary64
