import Replanning.RandomStream
import Replanning.Proofs.Binary64.Exact

namespace Replanning
namespace RandomStream
open Binary64

theorem exact_step : Exact (1.0 / 9007199254740992.0) (1 / 2^53) := by
  refine ⟨970 * 2^52, by decide, by decide +kernel, ?_⟩
  norm_num [patternValue, significandOf, exponentOf]

theorem shifted_lt (x : UInt64) : (x >>> 11).toNat < 2^53 := by
  have hlt := x.toNat_lt
  rw [UInt64.toNat_shiftRight, Nat.shiftRight_eq_div_pow]
  change x.toNat / 2^11 < 2^53
  omega

/-- The draw is the upper 53 bits of the output as a fraction, and neither the bits nor the fraction
are rounded. -/
theorem exact_unit (s : RandomStream) :
    Exact (s.next.1 >>> 11).toFloat (s.next.1 >>> 11).toNat ∧
      Exact s.unit.1 ((s.next.1 >>> 11).toNat / 2^53) := by
  have hlt := shifted_lt s.next.1
  have hcount : Exact (s.next.1 >>> 11).toFloat (s.next.1 >>> 11).toNat := by
    rw [toFloat_eq_ofCount_toNat]
    exact .of_ofCount _ hlt
  refine ⟨hcount, ?_⟩
  change Exact ((s.next.1 >>> 11).toFloat * (1.0 / 9007199254740992.0)) _
  rcases Nat.eq_zero_or_pos (s.next.1 >>> 11).toNat with h0 | hpos
  · have hzero : (s.next.1 >>> 11).toFloat = 0.0 := by
      rw [toFloat_eq_ofCount_toNat, h0]
      rfl
    rw [hzero, h0, Nat.cast_zero, zero_div]
    exact exact_zero
  · rw [div_eq_mul_one_div]
    apply hcount.mul exact_step (by exact_mod_cast hpos) (by norm_num) _ (-53) hlt (by decide)
      (by decide)
    norm_num

/-- A draw from the unit interval may be zero and is never one. -/
theorem unit_bounds (s : RandomStream) : 0.0 ≤ s.unit.1 ∧ s.unit.1 < 1.0 := by
  obtain ⟨_, hunit⟩ := s.exact_unit
  have hlt : ((s.next.1 >>> 11).toNat : ℚ) < 2^53 := by exact_mod_cast shifted_lt s.next.1
  refine ⟨(exact_zero.le_iff hunit).mpr (by positivity), (hunit.lt_iff exact_one).mpr ?_⟩
  rwa [div_lt_one (by positivity)]

/-- To a draw a rate beyond the ends of the unit interval is as good as the end. -/
theorem lt_clampRate_iff (u p : Float) (h0 : 0.0 ≤ u) (h1 : u < 1.0) :
    u < clampRate p ↔ u < p := by
  obtain ⟨_, hu, h0⟩ := (float_le_iff_rank 0.0 u).mp h0
  obtain ⟨_, hone, h1⟩ := (float_lt_iff_rank u 1.0).mp h1
  unfold clampRate
  split_ifs with hneg hbig
  · obtain ⟨_, _, hneg⟩ := (float_lt_iff_rank p 0.0).mp hneg
    rw [float_lt_iff_rank, float_lt_iff_rank]
    exact iff_of_false (fun h => by omega) (fun h => by omega)
  · obtain ⟨_, hp, hbig⟩ := (float_lt_iff_rank 1.0 p).mp hbig
    rw [float_lt_iff_rank, float_lt_iff_rank]
    exact iff_of_true ⟨hu, hone, h1⟩ ⟨hu, hp, h1.trans hbig⟩
  · rfl

theorem chance_iff (s : RandomStream) (p : Float) : (s.chance p).1 = true ↔ s.unit.1 < p := by
  obtain ⟨h0, h1⟩ := s.unit_bounds
  rw [← lt_clampRate_iff _ p h0 h1]
  exact decide_eq_true_iff

/-- What is drawn at one rate is drawn at every larger one. -/
theorem chance_mono (s : RandomStream) {p q : Float} (h : p ≤ q) (hp : (s.chance p).1 = true) :
    (s.chance q).1 = true := by
  rw [chance_iff] at hp ⊢
  exact float_lt_of_lt_of_le _ p q hp h

theorem chance_of_le_zero (s : RandomStream) {p : Float} (h : p ≤ 0.0) : (s.chance p).1 = false := by
  rw [← Bool.not_eq_true, chance_iff]
  intro hlt
  obtain ⟨_, hu, h0⟩ := (float_le_iff_rank 0.0 s.unit.1).mp s.unit_bounds.1
  obtain ⟨_, _, hlt⟩ := (float_lt_iff_rank _ _).mp (float_lt_of_lt_of_le _ p 0.0 hlt h)
  omega

theorem chance_of_one_le (s : RandomStream) {p : Float} (h : 1.0 ≤ p) : (s.chance p).1 = true := by
  rw [chance_iff]
  exact float_lt_of_lt_of_le _ 1.0 p s.unit_bounds.2 h

end RandomStream

end Replanning
