import Mathlib
import Replanning.Binary64

namespace Replanning
open Float.Model Float.Model.UnpackedFloat

def infinityPattern : ℕ :=
  0x7FF0000000000000

def ofPattern (negative : Bool) (pattern : ℕ) : Float :=
  Float.ofBits (pattern + negative.toNat * 2^63).toUInt64

theorem exponent_toNat (b : BitVec 64) :
    (@unpackExponent Format.binary64 b).toNat = b.toNat / 2^52 % 2^11 := by
  rw [unpackExponent_def, BitVec.extractLsb'_toNat, Nat.shiftRight_eq_div_pow]

theorem mantissa_toNat (b : BitVec 64) :
    (@unpackMantissa Format.binary64 b).toNat = b.toNat % 2^52 := by
  rw [unpackMantissa_def, BitVec.extractLsb'_toNat, Nat.shiftRight_eq_div_pow, Nat.pow_zero,
    Nat.div_one]

/-- The fields of a word do not overlap, so what is appended is added. -/
theorem packComponents_toNat (s : Sign) (k : BitVec 11) (m : BitVec 52) :
    (packComponents Format.binary64 s k m).toNat =
      s.toBitVec.toNat * 2^63 + k.toNat * 2^52 + m.toNat := by
  unfold packComponents
  rw [BitVec.toNat_append, BitVec.toNat_append, ← Nat.shiftLeft_add_eq_or_of_lt m.isLt,
    ← Nat.shiftLeft_add_eq_or_of_lt k.isLt, Nat.shiftLeft_eq, Nat.shiftLeft_eq]
  omega

/-- A word with another sign. -/
def withSign (s : Sign) (b : BitVec 64) : BitVec 64 :=
  packComponents Format.binary64 s (unpackExponent b) (unpackMantissa b)

theorem withSign_toNat (s : Sign) (b : BitVec 64) :
    (withSign s b).toNat = s.toBitVec.toNat * 2^63 + b.toNat % 2^63 := by
  have he := exponent_toNat b
  have hm := mantissa_toNat b
  rw [withSign, packComponents_toNat, he, hm]
  omega

theorem unpack_withSign (s : Sign) (b : BitVec 64) :
    UnpackedFloat.unpack Format.binary64 (withSign s b) =
      match UnpackedFloat.unpack Format.binary64 b with
      | .notANumber => .notANumber
      | .infinity _ => .infinity s
      | .zero _ => .zero s
      | .finite _ m e h => .finite s m e h := by
  unfold withSign UnpackedFloat.unpack
  simp only [unpackExponent_packComponents, unpackMantissa_packComponents,
    unpackSign_packComponents, Sign.ofBitVec_toBitVec]
  split_ifs <;> rfl

/-- A word that is no larger than the infinity of its sign is the word of a double. -/
theorem valid_of_le (b : BitVec 64) (h : b.toNat % 2^63 ≤ infinityPattern) :
    Format.binary64.Valid b := by
  refine ⟨fun he hm => absurd ?_ hm⟩
  have hen := congrArg BitVec.toNat he
  rw [exponent_toNat] at hen
  change _ = 2047 at hen
  apply BitVec.eq_of_toNat_eq
  rw [mantissa_toNat]
  change _ = 0
  unfold infinityPattern at h
  omega

theorem toBits_ofBits (w : UInt64) (h : w.toNat % 2^63 ≤ infinityPattern) :
    (Float.ofBits w).toBits = w :=
  UInt64.toBitVec_inj.mp (pack_unpack_of_valid (valid_of_le w.toBitVec h))

theorem sign_toNat (b : BitVec 64) :
    (@unpackSign Format.binary64 b).toNat = b.toNat / 2^63 % 2 := by
  rw [unpackSign_def, BitVec.extractLsb'_toNat, Nat.shiftRight_eq_div_pow]
  rfl

def signOf (b : BitVec 64) : Sign :=
  .ofBitVec (@unpackSign Format.binary64 b)

theorem unpack_neg (b : BitVec 64) :
    (UnpackedFloat.unpack Format.binary64 b).neg =
      UnpackedFloat.unpack Format.binary64 (withSign (-signOf b) b) := by
  rw [unpack_withSign]
  unfold UnpackedFloat.unpack
  dsimp only
  split_ifs <;> rfl

theorem unpack_abs (b : BitVec 64) :
    (UnpackedFloat.unpack Format.binary64 b).abs =
      UnpackedFloat.unpack Format.binary64 (withSign .positive b) := by
  rw [unpack_withSign]
  cases UnpackedFloat.unpack Format.binary64 b <;> rfl

theorem pack_unpack_withSign (s : Sign) (b : BitVec 64) (h : b.toNat % 2^63 ≤ infinityPattern) :
    (UnpackedFloat.unpack Format.binary64 (withSign s b)).pack Format.binary64 = withSign s b := by
  refine pack_unpack_of_valid (valid_of_le _ ?_)
  rw [withSign_toNat]
  omega

/-- Negation changes the sign alone. -/
theorem toBits_neg (x : Float) (h : x.toBits.toNat % 2^63 ≤ infinityPattern) :
    (-x).toBits.toNat = (1 - x.toBits.toNat / 2^63) * 2^63 + x.toBits.toNat % 2^63 := by
  have hbits : (-x).toBits.toNat =
      (withSign (-signOf x.toBits.toBitVec) x.toBits.toBitVec).toNat := by
    change ((UnpackedFloat.unpack Format.binary64 x.toBits.toBitVec).neg.pack _).toNat = _
    rw [unpack_neg, pack_unpack_withSign _ _ h]
  -- the sign is one bit, which the negation flips
  have hsign (v : BitVec 1) : (-Sign.ofBitVec v).toBitVec.toNat = 1 - v.toNat := by
    revert v
    decide
  have hlt := x.toBits.toNat_lt
  rw [hbits, withSign_toNat, signOf, hsign, sign_toNat]
  change (1 - x.toBits.toNat / 2^63 % 2) * 2^63 + _ = _
  rw [Nat.mod_eq_of_lt (by omega : x.toBits.toNat / 2^63 < 2)]
  rfl

/-- The absolute value has no sign. -/
theorem toBits_abs (x : Float) (h : x.toBits.toNat % 2^63 ≤ infinityPattern) :
    x.abs.toBits.toNat = x.toBits.toNat % 2^63 := by
  have hbits : x.abs.toBits.toNat = (withSign .positive x.toBits.toBitVec).toNat := by
    change ((UnpackedFloat.unpack Format.binary64 x.toBits.toBitVec).abs.pack _).toNat = _
    rw [unpack_abs, pack_unpack_withSign _ _ h]
  rw [hbits, withSign_toNat]
  exact Nat.zero_add _

/-- A double is finite if its pattern is below infinity. -/
theorem isFinite_iff (x : Float) :
    x.isFinite = true ↔ x.toBits.toNat % 2^63 < infinityPattern := by
  -- all ones in the exponent field stand for infinity and for what is no number
  have hfield : @unpackExponent Format.binary64 x.toBits.toBitVec = -1#11 ↔
      x.toBits.toNat / 2^52 % 2^11 = 2047 := by
    rw [← BitVec.toNat_inj, exponent_toNat]
    rfl
  have hlt : x.toBits.toNat % 2^63 < infinityPattern ↔ ¬ x.toBits.toNat / 2^52 % 2^11 = 2047 := by
    unfold infinityPattern
    omega
  rw [hlt, ← hfield]
  change (UnpackedFloat.unpack Format.binary64 x.toBits.toBitVec).isFinite = true ↔ _
  unfold UnpackedFloat.unpack
  dsimp only
  split_ifs with h1 h2 h3 h4
  · simp only [UnpackedFloat.isFinite, h1, Bool.false_eq_true, not_true_eq_false]
  · simp only [UnpackedFloat.isFinite, h1, Bool.false_eq_true, not_true_eq_false]
  · simp only [UnpackedFloat.isFinite, h1, not_false_eq_true]
  · simp only [UnpackedFloat.isFinite, h1, not_false_eq_true]
  · simp only [UnpackedFloat.isFinite, h1, not_false_eq_true]

theorem toBits_ofPattern (negative : Bool) (p : ℕ) (h : p ≤ infinityPattern) :
    (ofPattern negative p).toBits.toNat = p + negative.toNat * 2^63 := by
  have hle : p < 2^63 := by
    unfold infinityPattern at h
    omega
  have hword : (p + negative.toNat * 2^63).toUInt64.toNat = p + negative.toNat * 2^63 := by
    rw [Nat.toUInt64, UInt64.toNat_ofNat']
    cases negative <;> simp only [Bool.toNat_true, Bool.toNat_false] <;> omega
  rw [ofPattern, toBits_ofBits _ (by rw [hword]; omega), hword]

theorem eq_ofPattern (x : Float) (negative : Bool) (p : ℕ) (h : p ≤ infinityPattern)
    (hx : x.toBits.toNat = p + negative.toNat * 2^63) : x = ofPattern negative p := by
  rw [← Float.toBits_inj, ← UInt64.toNat_inj, hx, toBits_ofPattern negative p h]

/-- A finite double is the one of its sign and its pattern. -/
theorem exists_pattern (x : Float) (h : x.isFinite = true) :
    ∃ negative, ∃ p < infinityPattern, x = ofPattern negative p := by
  have hp := (isFinite_iff x).mp h
  have hlt := x.toBits.toNat_lt
  by_cases hs : x.toBits.toNat < 2^63
  · refine ⟨false, x.toBits.toNat % 2^63, hp, eq_ofPattern x _ _ hp.le ?_⟩
    simp only [Bool.toNat_false]
    omega
  · refine ⟨true, x.toBits.toNat % 2^63, hp, eq_ofPattern x _ _ hp.le ?_⟩
    simp only [Bool.toNat_true]
    omega

theorem pattern_mod (negative : Bool) (p : ℕ) (h : p ≤ infinityPattern) :
    (p + negative.toNat * 2^63) % 2^63 = p := by
  unfold infinityPattern at h
  omega

theorem isFinite_ofPattern (negative : Bool) (p : ℕ) (h : p < infinityPattern) :
    (ofPattern negative p).isFinite = true := by
  rw [isFinite_iff, toBits_ofPattern negative p h.le, pattern_mod negative p h.le]
  exact h

theorem neg_ofPattern (negative : Bool) (p : ℕ) (h : p ≤ infinityPattern) :
    -ofPattern negative p = ofPattern (!negative) p := by
  have hbits := toBits_ofPattern negative p h
  have hmod := pattern_mod negative p h
  apply eq_ofPattern _ _ p h
  rw [toBits_neg _ (by rw [hbits, hmod]; exact h), hbits, hmod]
  unfold infinityPattern at h
  cases negative <;> simp only [Bool.toNat_true, Bool.toNat_false, Bool.not_true, Bool.not_false] <;>
    omega

theorem abs_ofPattern (negative : Bool) (p : ℕ) (h : p ≤ infinityPattern) :
    (ofPattern negative p).abs = ofPattern false p := by
  have hbits := toBits_ofPattern negative p h
  have hmod := pattern_mod negative p h
  apply eq_ofPattern _ _ p h
  rw [toBits_abs _ (by rw [hbits, hmod]; exact h), hbits, hmod]
  rfl

theorem ofPattern_eq_zero_iff (negative : Bool) (p : ℕ) (h : p < infinityPattern) :
    (ofPattern negative p == 0.0) = true ↔ p = 0 := by
  have hbits := toBits_ofPattern negative p h.le
  constructor
  · intro heq
    -- both zeros have the pattern zero
    have hz (y : Float) (hy : y.toBits.toNat % 2^63 = 0) (he : ofPattern negative p = y) : p = 0 := by
      rw [← he, hbits, pattern_mod negative p h.le] at hy
      exact hy
    obtain ⟨_, _, he | ⟨he, _⟩ | ⟨he, _⟩⟩ := Float.beq_iff_ne_nan_and_eq.mp heq
    · exact hz 0.0 (by decide) he
    · exact hz 0 (by decide) he
    · exact hz (-0) (by decide) he
  · rintro rfl
    cases negative <;> rfl

theorem isNegative_ofPattern (negative : Bool) (p : ℕ) (h : p ≤ infinityPattern) :
    Binary64.isNegative (ofPattern negative p) = negative := by
  have hbits := toBits_ofPattern negative p h
  have hn : (((ofPattern negative p).toBits >>> 63) == 1) = true ↔ negative = true := by
    rw [beq_iff_eq, ← UInt64.toNat_inj, UInt64.toNat_shiftRight, hbits, Nat.shiftRight_eq_div_pow]
    change (p + negative.toNat * 2^63) / 2^63 = 1 ↔ _
    unfold infinityPattern at h
    cases negative <;> simp only [Bool.toNat_true, Bool.toNat_false, iff_true, iff_false,
      Bool.false_eq_true] <;> omega
  exact Bool.eq_iff_iff.mpr hn

/-- The significand of a pattern, with the leading bit that normal doubles leave out. -/
def significandOf (p : ℕ) : ℕ :=
  if p < 2^52 then p else 2^52 + p % 2^52

def exponentOf (p : ℕ) : ℤ :=
  if p < 2^52 then -1074 else (p / 2^52 : ℕ) - 1075

/-- The leading bit of a normal significand is a carry into the exponent field. -/
theorem pattern_eq (p : ℕ) : (exponentOf p + 1074).toNat * 2^52 + significandOf p = p := by
  unfold exponentOf significandOf
  by_cases hsub : p < 2^52
  · rw [if_pos hsub, if_pos hsub]
    omega
  · rw [if_neg hsub, if_neg hsub]
    omega

theorem magnitude_ofPattern (negative : Bool) (p : ℕ) (h : p < infinityPattern) :
    Binary64.magnitude (ofPattern negative p) = ⟨significandOf p, exponentOf p⟩ := by
  have hbits := toBits_ofPattern negative p h.le
  have hfield : ((ofPattern negative p).toBits >>> 52 &&& 0x7FF).toNat = p / 2^52 := by
    rw [UInt64.toNat_and, UInt64.toNat_shiftRight, hbits, Nat.shiftRight_eq_div_pow]
    change (p + negative.toNat * 2^63) / 2^52 &&& (2^11 - 1) = _
    rw [Nat.and_two_pow_sub_one_eq_mod]
    unfold infinityPattern at h
    omega
  have hfraction : ((ofPattern negative p).toBits &&& 0xFFFFFFFFFFFFF).toNat = p % 2^52 := by
    rw [UInt64.toNat_and, hbits]
    change (p + negative.toNat * 2^63) &&& (2^52 - 1) = _
    rw [Nat.and_two_pow_sub_one_eq_mod]
    omega
  rw [Binary64.magnitude, hfield, hfraction, significandOf, exponentOf]
  by_cases hp : p < 2^52
  · rw [if_pos (Nat.div_eq_of_lt hp), if_pos hp, if_pos hp, Nat.mod_eq_of_lt hp]
  · rw [if_neg (by omega), if_neg hp, if_neg hp]
    rfl

end Replanning
