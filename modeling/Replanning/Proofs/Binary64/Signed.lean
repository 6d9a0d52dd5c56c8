import Replanning.Proofs.Binary64.Order

/-! Numbers compare as integers, their ranks. All words, the two zeros and those that are no number
included, stand in a row where the word of a smaller double comes first. -/
namespace Replanning.Binary64
open Float.Model Float.Model.UnpackedFloat

/-- Negation turns the order around. -/
theorem compare_neg (u v : UnpackedFloat) :
    u.neg.compare v.neg = (u.compare v).map Ordering.swap := by
  -- the signs and the kinds decide everywhere but between two finite doubles
  cases u with
  | notANumber => rfl
  | infinity s =>
    cases s
    all_goals cases v with
      | infinity s' => cases s' <;> rfl
      | _ => rfl
  | zero s =>
    cases v with
    | notANumber => rfl
    | _ s' => cases s' <;> rfl
  | finite s m e h =>
    cases s
    all_goals cases v with
      | finite s' m' e' h' => cases s' <;> simp [UnpackedFloat.compare, UnpackedFloat.neg]
      | infinity s' => cases s' <;> rfl
      | _ => rfl

theorem unpacked_neg_neg (u : UnpackedFloat) : u.neg.neg = u := by
  cases u with
  | notANumber => rfl
  | _ s => cases s <;> rfl

theorem unpack_neg_ofPattern (p : ℕ) (hp : p ≤ infinityPattern) :
    (ofPattern true p).toModel.unpack = (ofPattern false p).toModel.unpack.neg := by
  have hmod := pattern_mod false p hp
  rw [← toBits_ofPattern false p hp] at hmod
  rw [← Bool.not_false, ← neg_ofPattern false p hp]
  change UnpackedFloat.unpack Format.binary64 (UnpackedFloat.pack Format.binary64
    (UnpackedFloat.unpack Format.binary64 (ofPattern false p).toBits.toBitVec).neg) = _
  rw [unpack_neg, pack_unpack_withSign _ _ (hmod.trans_le hp), ← unpack_neg]
  rfl

/-- Behind zero the patterns are those of positive doubles. -/
theorem unpack_positive (p : ℕ) (h0 : 0 < p) (hp : p ≤ infinityPattern) :
    (ofPattern false p).toModel.unpack = .infinity .positive ∨
      ∃ m e h, (ofPattern false p).toModel.unpack = .finite .positive m e h := by
  rcases hp.lt_or_eq with hlt | rfl
  · exact Or.inr ⟨_, _, unpack_ofPattern p h0 hlt⟩
  · exact Or.inl unpack_infinity

/-- Of two doubles with different signs the one without a sign is the larger one, unless both are
zero. -/
theorem compare_opposite (p q : ℕ) (hp : p ≤ infinityPattern) (hq : q ≤ infinityPattern) :
    (ofPattern false p).toModel.unpack.compare (ofPattern true q).toModel.unpack =
      some (compare (p : ℤ) (-q)) := by
  rw [unpack_neg_ofPattern q hq]
  by_cases hboth : p = 0 ∧ q = 0
  · obtain ⟨rfl, rfl⟩ := hboth
    rfl
  rw [Int.compare_eq_gt.mpr (by omega)]
  rcases Nat.eq_zero_or_pos p with rfl | hp0
  · rw [unpack_zero]
    rcases unpack_positive q (by omega) hq with hv | ⟨_, _, _, hv⟩ <;> rw [hv] <;> rfl
  rcases Nat.eq_zero_or_pos q with rfl | hq0
  · rw [unpack_zero]
    rcases unpack_positive p hp0 hp with hu | ⟨_, _, _, hu⟩ <;> rw [hu] <;> rfl
  · rcases unpack_positive p hp0 hp with hu | ⟨_, _, _, hu⟩ <;>
      rcases unpack_positive q hq0 hq with hv | ⟨_, _, _, hv⟩ <;> rw [hu, hv] <;> rfl

/-- A word beyond the infinity of its sign is no number. -/
theorem unpack_ofBits_of_gt (w : UInt64) (h : infinityPattern < w.toNat % 2^63) :
    (Float.ofBits w).toModel.unpack = .notANumber := by
  unfold infinityPattern at h
  have he : @unpackExponent Format.binary64 w.toBitVec = -1#11 := by
    apply BitVec.eq_of_toNat_eq
    rw [exponent_toNat]
    change w.toNat / 2^52 % 2^11 = 2047
    omega
  have hm : @unpackMantissa Format.binary64 w.toBitVec ≠ 0#52 := by
    intro h0
    have hfraction := congrArg BitVec.toNat h0
    rw [mantissa_toNat] at hfraction
    change w.toNat % 2^52 = 0 at hfraction
    omega
  have hunpack : UnpackedFloat.unpack Format.binary64 w.toBitVec = .notANumber := by
    unfold UnpackedFloat.unpack
    dsimp only
    rw [if_pos he, if_neg hm]
  change UnpackedFloat.unpack Format.binary64 (UnpackedFloat.pack Format.binary64
    (UnpackedFloat.unpack Format.binary64 w.toBitVec)) = _
  rw [hunpack]
  rfl

theorem ofBits_eq_ofPattern (w : UInt64) (h : w.toNat % 2^63 ≤ infinityPattern) :
    Float.ofBits w = ofPattern (decide (2^63 ≤ w.toNat)) (w.toNat % 2^63) := by
  have hlt := w.toNat_lt
  apply eq_ofPattern _ _ _ h
  rw [toBits_ofBits w h]
  by_cases hs : 2^63 ≤ w.toNat
  · rw [decide_eq_true hs, Bool.toNat_true]
    omega
  · rw [decide_eq_false hs, Bool.toNat_false]
    omega

/-- What is a number has a sign and a pattern. -/
theorem exists_pattern_of_number (x : Float) (h : x.toModel.unpack ≠ .notANumber) :
    ∃ negative, ∃ p ≤ infinityPattern, x = ofPattern negative p := by
  by_cases hp : x.toBits.toNat % 2^63 ≤ infinityPattern
  · exact ⟨_, _, hp, (Float.ofBits_toBits x).symm.trans (ofBits_eq_ofPattern x.toBits hp)⟩
  · have hnone := unpack_ofBits_of_gt x.toBits (not_le.mp hp)
    rw [Float.ofBits_toBits] at hnone
    exact absurd hnone h

/-- The rank of a number in the order of the doubles. Ranks count patterns, above zero upwards and
below it downwards, and the two zeros share one. -/
def rank (x : Float) : ℤ :=
  if 2^63 ≤ x.toBits.toNat then 2^63 - x.toBits.toNat else x.toBits.toNat

theorem rank_ofPattern (negative : Bool) (p : ℕ) (hp : p ≤ infinityPattern) :
    rank (ofPattern negative p) = if negative then -(p : ℤ) else p := by
  rw [rank, toBits_ofPattern negative p hp]
  unfold infinityPattern at hp
  cases negative
  · rw [Bool.toNat_false, if_neg (by omega), if_neg Bool.false_ne_true]
    omega
  · rw [Bool.toNat_true, if_pos (by omega), if_pos rfl]
    omega

/-- Numbers compare as their ranks do. -/
theorem compare_rank (x y : Float) (hx : x.toModel.unpack ≠ .notANumber)
    (hy : y.toModel.unpack ≠ .notANumber) :
    x.toModel.unpack.compare y.toModel.unpack = some (compare (rank x) (rank y)) := by
  obtain ⟨negative, p, hp, rfl⟩ := exists_pattern_of_number x hx
  obtain ⟨negative', q, hq, rfl⟩ := exists_pattern_of_number y hy
  have hcast (a b : ℕ) : compare a b = compare (a : ℤ) b := by
    simp only [Nat.compare_eq_ite_lt, Int.compare_eq_ite_lt, Int.ofNat_lt]
  have hneg (a b : ℤ) : compare b a = compare (-a) (-b) := by
    simp only [Int.compare_eq_ite_lt, Int.neg_lt_neg_iff]
  rw [rank_ofPattern negative p hp, rank_ofPattern negative' q hq]
  cases negative <;> cases negative'
  · rw [compare_ofPattern p q hp hq, hcast]
    rfl
  · exact compare_opposite p q hp hq
  · rw [unpack_neg_ofPattern p hp, ← unpacked_neg_neg (ofPattern false q).toModel.unpack,
      ← unpack_neg_ofPattern q hq, compare_neg, compare_opposite p q hp hq, Option.map_some,
      Int.compare_swap, hneg, Int.neg_neg]
    rfl
  · rw [unpack_neg_ofPattern p hp, unpack_neg_ofPattern q hq, compare_neg,
      compare_ofPattern p q hp hq, Option.map_some, Nat.compare_swap, hcast, hneg]
    rfl

/-- Only numbers compare. -/
theorem numbers_of_compare (u v : UnpackedFloat) (o : Ordering) (h : u.compare v = some o) :
    u ≠ .notANumber ∧ v ≠ .notANumber := by
  constructor
  · rintro rfl
    cases h
  · rintro rfl
    cases u <;> cases h

theorem float_lt_iff_rank (x y : Float) :
    x < y ↔ x.toModel.unpack ≠ .notANumber ∧ y.toModel.unpack ≠ .notANumber ∧ rank x < rank y := by
  rw [float_lt_iff]
  constructor
  · intro h
    obtain ⟨hx, hy⟩ := numbers_of_compare _ _ _ h
    rw [compare_rank x y hx hy, Option.some_inj, Int.compare_eq_lt] at h
    exact ⟨hx, hy, h⟩
  · rintro ⟨hx, hy, h⟩
    rw [compare_rank x y hx hy, Int.compare_eq_lt.mpr h]

theorem float_le_iff_rank (x y : Float) :
    x ≤ y ↔ x.toModel.unpack ≠ .notANumber ∧ y.toModel.unpack ≠ .notANumber ∧ rank x ≤ rank y := by
  rw [float_le_iff, UnpackedFloat.le, Option.any_eq_true]
  constructor
  · rintro ⟨o, h, ho⟩
    obtain ⟨hx, hy⟩ := numbers_of_compare _ _ _ h
    rw [compare_rank x y hx hy, Option.some_inj] at h
    rw [← h, Int.isLE_compare] at ho
    exact ⟨hx, hy, ho⟩
  · rintro ⟨hx, hy, h⟩
    exact ⟨_, compare_rank x y hx hy, Int.isLE_compare.mpr h⟩

/-- Of two numbers one is below the other, or not above it. -/
theorem float_not_lt (x y : Float) (hx : x.toModel.unpack ≠ .notANumber)
    (hy : y.toModel.unpack ≠ .notANumber) : ¬x < y ↔ y ≤ x := by
  rw [float_lt_iff_rank, float_le_iff_rank, ← not_lt]
  exact ⟨fun h => ⟨hy, hx, fun hlt => h ⟨hx, hy, hlt⟩⟩, fun h hlt => h.2.2 hlt.2.2⟩

theorem float_lt_of_lt_of_le (x y z : Float) (h : x < y) (h' : y ≤ z) : x < z := by
  rw [float_lt_iff_rank] at h ⊢
  rw [float_le_iff_rank] at h'
  exact ⟨h.1, h'.2.1, h.2.2.trans_le h'.2.2⟩

theorem float_lt_of_le_of_lt (x y z : Float) (h : x ≤ y) (h' : y < z) : x < z := by
  rw [float_le_iff_rank] at h
  rw [float_lt_iff_rank] at h' ⊢
  exact ⟨h.1, h'.2.1, h.2.2.trans_lt h'.2.2⟩

/-- The place of a word in the total order of doubles. The words without the sign bit count up from
the positive zero, at 0, and those with it count down from the negative zero, at -1. -/
def place (w : UInt64) : ℤ :=
  if 2^63 ≤ w.toNat then 2^63 - 1 - w.toNat else w.toNat

theorem place_inj (w w' : UInt64) : place w = place w' ↔ w = w' := by
  constructor
  · intro h
    unfold place at h
    apply UInt64.toNat_inj.mp
    split_ifs at h <;> omega
  · exact congrArg place

/-- The total order agrees with the order of the doubles, where that one says something. -/
theorem place_lt_of_lt (w w' : UInt64) (h : Float.ofBits w < Float.ofBits w') :
    place w < place w' := by
  obtain ⟨hx, hy, hrank⟩ := (float_lt_iff_rank _ _).mp h
  -- neither side is beyond infinity, since what is no number compares with nothing
  have hw := toBits_ofBits w (not_lt.mp (mt (unpack_ofBits_of_gt w) hx))
  have hw' := toBits_ofBits w' (not_lt.mp (mt (unpack_ofBits_of_gt w') hy))
  have hlt := w.toNat_lt
  have hlt' := w'.toNat_lt
  rw [rank, rank, hw, hw'] at hrank
  unfold place
  split_ifs at hrank ⊢ <;> omega

end Replanning.Binary64
