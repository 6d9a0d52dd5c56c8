import Mathlib
import Replanning.Statistics

namespace Replanning
open Float.Model Float.Model.UnpackedFloat

theorem targetExponent_eq (m : ℕ) (e : ℤ) :
    Format.binary64.targetExponent (totalExponent m e) = max (m.log2 + e - 52) (-1074) := by
  simp only [Format.targetExponent, totalExponent, Format.mantissaBits, Format.minExponent]
  omega

theorem shiftToTargetExponent_of_small (m : ℕ) (e : ℤ) (hm : m < 2^53) (he : -1074 ≤ e) :
    shiftToTargetExponent Format.binary64 m e .exact = (⟨m, false, false⟩, e) := by
  have hk : m.log2 < 53 := by
    rcases Nat.eq_zero_or_pos m with rfl | h
    · decide
    · exact (Nat.log2_lt (Nat.ne_of_gt h)).mpr hm
  have hs : (max (m.log2 + e - 52) (-1074) - e).toNat = 0 := by omega
  rw [shiftToTargetExponent, targetExponent_eq, shiftToExponent, hs]
  exact Prod.ext rfl (add_zero e)

/-- A significand of at most 53 bits at an exponent in range is not rounded. -/
theorem roundWithAccuracy_of_small (s : Sign) (m : ℕ) (e : ℤ) (hm : m < 2^53) (he : -1074 ≤ e)
    (h0 : 0 < m) : roundWithAccuracy Format.binary64 s m e .exact = .finite s m e h0 := by
  have hr : ExtendedMantissa.roundedMantissa ⟨m, false, false⟩ = m := rfl
  simp only [roundWithAccuracy, shiftToTargetExponent_of_small m e hm he, hr]
  exact dif_neg (Nat.ne_of_gt h0)

theorem exponentField_toNat (e : ℤ) (hl : -1074 ≤ e) (hu : e ≤ 971) :
    (BitVec.ofNat 11 (e+1075).toNat).toNat = (e+1075).toNat := by
  rw [BitVec.toNat_ofNat]
  exact Nat.mod_eq_of_lt (by omega)

/-- A normal double survives being packed into bits. -/
theorem unpack_pack_normal (s : Sign) (m : ℕ) (e : ℤ) (h0 : 0 < m) (hl : 2^52 ≤ m) (hu : m < 2^53)
    (hel : -1074 ≤ e) (heu : e ≤ 971) :
    (Float.Model.pack (.finite s m e h0)).unpack = .finite s m e h0 := by
  have hlog : m.log2 = 52 := (Nat.log2_eq_iff (by omega)).mpr ⟨hl, hu⟩
  have hf := exponentField_toNat e hel heu
  have hb : (e + Format.binary64.exponentBias +
      Format.binary64.mantissaBitsWithoutImplicit).toNat = (e+1075).toNat := by
    simp only [Format.exponentBias]
    omega
  have hp : UnpackedFloat.pack Format.binary64 (.finite s m e h0) =
      packComponents Format.binary64 s (BitVec.ofNat 11 (e+1075).toNat) (BitVec.ofNat 52 m) := by
    simp only [UnpackedFloat.pack, hb, hlog, Format.mantissaBits]
    rw [if_neg (by omega), if_pos trivial]
  -- neither of the two exponent fields that stand for something else
  have hne (k : BitVec 11) (hk : k.toNat = 0 ∨ k.toNat = 2047) :
      BitVec.ofNat 11 (e+1075).toNat ≠ k := by
    intro h
    rw [← h, hf] at hk
    omega
  have hv : (1#1 ++ BitVec.ofNat 52 m).toNat = m := by
    rw [BitVec.toNat_append, ← Nat.shiftLeft_add_eq_or_of_lt (BitVec.ofNat 52 m).isLt,
      BitVec.toNat_ofNat, Nat.shiftLeft_eq]
    simp only [BitVec.toNat_ofNat]
    omega
  simp only [Float.Model.unpack, Float.Model.pack, hp, UnpackedFloat.unpack,
    unpackExponent_packComponents, unpackMantissa_packComponents, unpackSign_packComponents,
    Sign.ofBitVec_toBitVec, hv, hf]
  rw [if_neg (hne _ (Or.inr rfl)), if_neg (hne _ (Or.inl rfl))]
  simp only [UnpackedFloat.finite.injEq, true_and, Format.exponentBias]
  omega

/-- The significand of a positive count, shifted up to 53 bits. -/
def countSignificand (n : ℕ) : ℕ :=
  n * 2^(52 - n.log2)

theorem log2_count_le (n : ℕ) (hn : n < 2^53) : n.log2 ≤ 52 := by
  rcases Nat.eq_zero_or_pos n with rfl | h
  · decide
  · exact Nat.le_of_lt_succ ((Nat.log2_lt (Nat.ne_of_gt h)).mpr hn)

theorem countSignificand_bounds (n : ℕ) (h0 : n ≠ 0) (hn : n < 2^53) :
    2^52 ≤ countSignificand n ∧ countSignificand n < 2^53 := by
  have hk := log2_count_le n hn
  constructor
  · calc 2^52 = 2^n.log2 * 2^(52 - n.log2) := by rw [← pow_add]; congr 1; omega
      _ ≤ countSignificand n := Nat.mul_le_mul_right _ (Nat.log2_self_le h0)
  · calc countSignificand n < 2^(n.log2 + 1) * 2^(52 - n.log2) :=
          Nat.mul_lt_mul_of_pos_right Nat.lt_log2_self (Nat.two_pow_pos _)
      _ = 2^53 := by rw [← pow_add]; congr 1; omega

/-- The double of a positive count holds the count itself. -/
theorem ofCount_toModel (n : ℕ) (hn : n < 2^53) (hp : 0 < countSignificand n) :
    (ofCount n).toModel =
      Float.Model.pack (.finite .positive (countSignificand n) (n.log2 - 52) hp) := by
  have h0 : n ≠ 0 := by
    rintro rfl
    simp [countSignificand] at hp
  have hk := log2_count_le n hn
  have hword : n.toUInt64.toNat = n := by
    rw [Nat.toUInt64, UInt64.toNat_ofNat']
    omega
  have hcmp : compare (n : ℤ) 0 = .gt := by
    rw [Int.compare_eq_gt]
    omega
  have htarget : Format.binary64.targetExponent (totalExponent n 0) = n.log2 - 52 := by
    rw [targetExponent_eq]
    omega
  have hshift : (0 - ((n.log2 : ℤ) - 52)).toNat = 52 - n.log2 := by omega
  have hexp : (0 : ℤ) - ((52 - n.log2 : ℕ) : ℤ) = n.log2 - 52 := by omega
  -- the count is shifted left to 53 bits, which rounds nothing away
  have hround : UnpackedFloat.ofUInt64 Format.binary64 n.toUInt64 =
      .finite .positive (countSignificand n) (n.log2 - 52) hp := by
    simp only [UnpackedFloat.ofUInt64, UnpackedFloat.ofNat, UnpackedFloat.ofInt,
      UnpackedFloat.normalize, hword, hcmp, Int.toNat_natCast, UnpackedFloat.round, htarget,
      decreaseExponent, hshift, hexp, Nat.shiftLeft_eq]
    exact roundWithAccuracy_of_small _ _ _ (countSignificand_bounds n h0 hn).2 (by omega) hp
  exact congrArg Float.Model.pack hround

theorem ofCount_unpack (n : ℕ) (hn : n < 2^53) (hp : 0 < countSignificand n) :
    (ofCount n).toModel.unpack =
      .finite .positive (countSignificand n) (n.log2 - 52) hp := by
  have h0 : n ≠ 0 := by
    rintro rfl
    simp [countSignificand] at hp
  have hk := log2_count_le n hn
  obtain ⟨hl, hu⟩ := countSignificand_bounds n h0 hn
  rw [ofCount_toModel n hn hp]
  exact unpack_pack_normal _ _ _ hp hl hu (by omega) (by omega)

theorem ofCount_zero_unpack : (ofCount 0).toModel.unpack = .zero .positive := by
  rfl

theorem float_le_iff (x y : Float) : x ≤ y ↔ x.toModel.unpack.le y.toModel.unpack = true := by
  change decide (x.toModel.le y.toModel = true) = true ↔ _
  rw [decide_eq_true_iff]
  rfl

theorem float_lt_iff (x y : Float) :
    x < y ↔ x.toModel.unpack.compare y.toModel.unpack = some .lt := by
  change decide (x.toModel.unpack.lt y.toModel.unpack = true) = true ↔ _
  rw [decide_eq_true_iff]
  exact beq_iff_eq

theorem toFloat_eq_ofCount (n : UInt32) : n.toFloat = ofCount n.toNat := by
  have hn : n.toNat < 2^32 := n.toNat_lt
  have hword : n.toNat.toUInt64.toNat = n.toNat := by
    rw [Nat.toUInt64, UInt64.toNat_ofNat']
    omega
  change Float.ofModel (.pack (UnpackedFloat.ofNat Format.binary64 n.toNat)) =
    Float.ofModel (.pack (UnpackedFloat.ofNat Format.binary64 n.toNat.toUInt64.toNat))
  rw [hword]

theorem pack_unpack_toModel (x : Float) : Float.Model.pack x.toModel.unpack = x.toModel := by
  have h := UnpackedFloat.pack_unpack_of_valid x.toModel.valid
  simp only [Float.Model.pack, Float.Model.unpack, h]

/-- The negative zero is neutral for every double, from the left. -/
theorem negZero_add (x : Float) : (-0.0) + x = x := by
  have hz : (-0.0 : Float).toModel.unpack = .zero .negative := by rfl
  -- a zero keeps its sign, and every other double is returned as it is
  have ha : UnpackedFloat.add Format.binary64 (.zero .negative) x.toModel.unpack =
      x.toModel.unpack := by
    cases x.toModel.unpack with
    | zero s => cases s <;> rfl
    | _ => rfl
  change Float.ofModel (.pack (UnpackedFloat.add _ (-0.0 : Float).toModel.unpack _)) = x
  rw [hz, ha, pack_unpack_toModel]

end Replanning
