import Replanning.Proofs.Binary64.Signed
import Replanning.Proofs.Binary64.Undefined

namespace Replanning
open Float.Model Float.Model.UnpackedFloat

/-- The double is finite and above zero. -/
def Positive (x : Float) : Prop :=
  ∃ m e h, x.toModel.unpack = .finite .positive m e h

/-- Above zero there is, besides the positive doubles, only the infinity. -/
theorem zero_lt_iff (x : Float) :
    0.0 < x ↔ Positive x ∨ x.toModel.unpack = .infinity .positive := by
  have hz : (0.0 : Float).toModel.unpack = .zero .positive := rfl
  rw [float_lt_iff, hz, Positive]
  cases x.toModel.unpack with
  | notANumber => simp [UnpackedFloat.compare]
  | zero s => simp [UnpackedFloat.compare]
  | infinity s => cases s <;> simp [UnpackedFloat.compare]
  | finite s m e h => cases s <;> simp [UnpackedFloat.compare, h]

theorem positive_iff (x : Float) : Positive x ↔ x.isFinite = true ∧ 0.0 < x := by
  rw [zero_lt_iff]
  change _ ↔ x.toModel.unpack.isFinite = true ∧ _
  constructor
  · rintro ⟨m, e, h, hx⟩
    exact ⟨by rw [hx]; rfl, Or.inl ⟨m, e, h, hx⟩⟩
  · rintro ⟨hfinite, hx | hx⟩
    · exact hx
    · rw [hx] at hfinite
      cases hfinite

/-- Of the doubles that are not below zero, those that are numbers are at least zero. -/
theorem zero_le_iff_of_not_lt (x : Float) (h : ¬x < 0.0) : 0.0 ≤ x ↔ x.isNaN = false := by
  rw [isNaN_eq_false_iff]
  constructor
  · exact fun hle => ((Binary64.float_le_iff_rank 0.0 x).mp hle).2.1
  · exact fun hn => (Binary64.float_not_lt x 0.0 hn nofun).mp h

/-- A finite double is positive unless it is at most zero. -/
theorem positive_of_not_le (x : Float) (h : x.isFinite = true) (hx : ¬x ≤ 0.0) : Positive x := by
  have hn := (isNaN_eq_false_iff x).mp (isNaN_of_isFinite x h)
  rw [← Binary64.float_not_lt 0.0 x nofun hn, not_not] at hx
  exact (positive_iff x).mpr ⟨h, hx⟩

/-- Above zero, what is not above a positive double is positive. -/
theorem Positive.of_le {x y : Float} (hy : Positive y) (hx : 0.0 < x) (h : x ≤ y) : Positive x := by
  rcases (zero_lt_iff x).mp hx with hpos | hinf
  · exact hpos
  · obtain ⟨m, e, hm, hy⟩ := hy
    rw [float_le_iff, hinf, hy] at h
    cases h

/-- Neither an infinity nor a zero comes out of a finite positive double that does not go in. -/
theorem Positive.of_ofModel_pack {u : UnpackedFloat} (h : Positive (Float.ofModel (.pack u))) :
    ∃ m e hm, u = .finite .positive m e hm := by
  obtain ⟨hfinite, hlt⟩ := (positive_iff _).mp h
  obtain ⟨m, e, hm, h⟩ := h
  have hsign := sign?_ofModel_pack u
  rw [h] at hsign
  cases u with
  | notANumber => cases hsign
  | infinity s =>
    rw [not_finite_ofModel_pack _ rfl] at hfinite
    cases hfinite
  | zero s => cases s <;> cases h
  | finite s m' e' hm' =>
    obtain rfl := Option.some.inj hsign
    exact ⟨m', e', hm', rfl⟩

theorem Positive.of_sqrt {x : Float} (h : Positive x.sqrt) : Positive x := by
  have hparts (u : UnpackedFloat) (h : ∃ m e hm, u.sqrt Format.binary64 = .finite .positive m e hm) :
      ∃ m e hm, u = .finite .positive m e hm := by
    obtain ⟨m, e, hm, h⟩ := h
    cases u with
    | notANumber => cases h
    | zero s => cases h
    | infinity s => cases s <;> cases h
    | finite s m' e' hm' =>
      cases s with
      | positive => exact ⟨m', e', hm', rfl⟩
      | negative => cases h
  exact hparts _ (Positive.of_ofModel_pack h)

/-- A quotient by what is above zero is positive only if both of its parts are. -/
theorem Positive.of_div {x y : Float} (h : Positive (x / y)) (hy : 0.0 < y) :
    Positive x ∧ Positive y := by
  obtain ⟨m, e, hm, hquot⟩ := Positive.of_ofModel_pack h
  change UnpackedFloat.div Format.binary64 x.toModel.unpack y.toModel.unpack = _ at hquot
  rcases (zero_lt_iff y).mp hy with ⟨m', e', hm', hunpack⟩ | hunpack
  · refine ⟨?_, m', e', hm', hunpack⟩
    rw [hunpack] at hquot
    rw [Positive]
    cases hx : x.toModel.unpack with
    | notANumber => rw [hx] at hquot; cases hquot
    | infinity s => rw [hx] at hquot; cases hquot
    | zero s => rw [hx] at hquot; cases hquot
    | finite s k i hk =>
      have hsign := congrArg sign? hquot
      rw [hx] at hsign
      change sign? (roundWithAccuracy Format.binary64 (s / .positive) _ _ _) = some .positive at hsign
      rw [sign?_roundWithAccuracy] at hsign
      cases s with
      | positive => exact ⟨k, i, hk, rfl⟩
      | negative => cases hsign
  · rw [hunpack] at hquot
    cases hx : x.toModel.unpack <;> rw [hx] at hquot <;> cases hquot

theorem zero_le_of_sign (x : Float) (h : sign? x.toModel.unpack = some .positive) : 0.0 ≤ x := by
  have hz : (0.0 : Float).toModel.unpack = .zero .positive := rfl
  rw [float_le_iff, hz]
  cases hx : x.toModel.unpack with
  | notANumber => rw [hx] at h; cases h
  | zero s => rfl
  | _ s => rw [hx] at h; cases h; rfl

theorem le_zero_of_sign (x : Float) (h : sign? x.toModel.unpack = some .negative) : x ≤ 0.0 := by
  have hz : (0.0 : Float).toModel.unpack = .zero .positive := rfl
  rw [float_le_iff, hz]
  cases hx : x.toModel.unpack with
  | notANumber => rw [hx] at h; cases h
  | zero s => rfl
  | _ s => rw [hx] at h; cases h; rfl

/-- A product of what is above zero may vanish, but it is not below zero. -/
theorem Positive.zero_le_mul {x y : Float} (hx : Positive x) (hy : 0.0 < y) : 0.0 ≤ x * y := by
  apply zero_le_of_sign
  change sign? (Float.ofModel (.pack (UnpackedFloat.mul Format.binary64 _ _))).toModel.unpack = _
  obtain ⟨m, e, hm, hx⟩ := hx
  rw [sign?_ofModel_pack, hx]
  rcases (zero_lt_iff y).mp hy with ⟨m', e', hm', hy⟩ | hy
  · rw [hy]
    exact sign?_roundWithAccuracy _ _ _ _
  · rw [hy]
    rfl

theorem Positive.zero_mul {x : Float} (hx : Positive x) : 0.0 * x = 0.0 := by
  obtain ⟨m, e, hm, hx⟩ := hx
  change Float.ofModel (.pack (UnpackedFloat.mul Format.binary64 (.zero .positive) _)) = _
  rw [hx]
  rfl

theorem Positive.isNaN_div {y : Float} (hy : Positive y) (x : Float) : (x / y).isNaN = x.isNaN := by
  obtain ⟨m, e, hp, hy⟩ := hy
  change (Float.ofModel (.pack (UnpackedFloat.div _ x.toModel.unpack _))).isNaN =
    x.toModel.unpack.isNaN
  rw [isNaN_ofModel_pack, hy]
  cases x.toModel.unpack with
  | notANumber => rfl
  | infinity s => rfl
  | zero s => rfl
  | finite s m' e' hp' => exact isNaN_roundWithAccuracy _ _ _ _

/-- The double of a count is positive, unless the count is a multiple of the range of a word. -/
theorem ofCount_cases (n : ℕ) :
    (ofCount n).toModel.unpack = .zero .positive ∨ Positive (ofCount n) := by
  have hword : ofCount n = ofCount (n % 2^64) := by
    unfold ofCount
    congr 1
    apply UInt64.toNat_inj.mp
    change n % 2^64 = n % 2^64 % 2^64
    rw [Nat.mod_mod]
  rw [hword]
  rcases Nat.eq_zero_or_pos (n % 2^64) with h0 | hpos
  · rw [h0]
    exact Or.inl ofCount_zero_unpack
  · exact Or.inr (exists_unpack_ofCount _ hpos (Nat.mod_lt n (Nat.two_pow_pos 64)))

theorem Topmost.div_ofCount {x : Float} (h : Topmost x) (n : ℕ) : Topmost (x / ofCount n) := by
  have hparts (u v : UnpackedFloat) (hu : u = .notANumber ∨ u = .infinity .positive)
      (hv : v = .zero .positive ∨ ∃ m e hm, v = .finite .positive m e hm) :
      UnpackedFloat.div Format.binary64 u v = .notANumber ∨
        UnpackedFloat.div Format.binary64 u v = .infinity .positive := by
    rcases hu with rfl | rfl
    · exact Or.inl rfl
    · rcases hv with rfl | ⟨m, e, hm, rfl⟩ <;> exact Or.inr rfl
  exact Topmost.ofModel_pack _ (hparts _ _ h (ofCount_cases n))

/-- Dividing by a positive count leaves a number a number. -/
theorem isNaN_div_ofCount (x : Float) (n : ℕ) (h0 : 1 ≤ n) (hn : n < 2^64) :
    (x / ofCount n).isNaN = x.isNaN :=
  Positive.isNaN_div (exists_unpack_ofCount n h0 hn) x

end Replanning
