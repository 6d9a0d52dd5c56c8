import Replanning.Proofs.Binary64.NonFinite
import Replanning.Proofs.Binary64.Rounding

namespace Replanning
open Float.Model Float.Model.UnpackedFloat

/-- The sign of what is a number. -/
def sign? : UnpackedFloat → Option Sign
  | .notANumber => none
  | .infinity s => some s
  | .zero s => some s
  | .finite s _ _ _ => some s

theorem isNaN_eq_sign? (u : UnpackedFloat) : u.isNaN = (sign? u).isNone := by
  cases u <;> rfl

theorem sign?_roundWithAccuracy (s : Sign) (m : ℕ) (e : ℤ) (a : Accuracy) :
    sign? (roundWithAccuracy Format.binary64 s m e a) = some s := by
  unfold roundWithAccuracy
  dsimp only
  split_ifs <;> rfl

theorem isNaN_roundWithAccuracy (s : Sign) (m : ℕ) (e : ℤ) (a : Accuracy) :
    (roundWithAccuracy Format.binary64 s m e a).isNaN = false := by
  rw [isNaN_eq_sign?, sign?_roundWithAccuracy]
  rfl

theorem isNaN_normalize (m e : ℤ) (s : Sign) :
    (UnpackedFloat.normalize Format.binary64 m e s).isNaN = false := by
  unfold UnpackedFloat.normalize
  split
  · exact isNaN_roundWithAccuracy _ _ _ _
  · rfl
  · exact isNaN_roundWithAccuracy _ _ _ _

theorem sign?_packComponents (s : Sign) (k : BitVec 11) (m : BitVec 52) (hk : k ≠ -1#11) :
    sign? (UnpackedFloat.unpack Format.binary64 (packComponents Format.binary64 s k m)) =
      some s := by
  simp only [UnpackedFloat.unpack, unpackExponent_packComponents, unpackMantissa_packComponents,
    unpackSign_packComponents, Sign.ofBitVec_toBitVec]
  rw [if_neg hk]
  split_ifs <;> rfl

/-- What does not fit into the bits becomes an infinity or is rounded, and stays a number of its
sign. -/
theorem sign?_ofModel_pack (u : UnpackedFloat) :
    sign? (Float.ofModel (.pack u)).toModel.unpack = sign? u := by
  cases u with
  | notANumber => rfl
  | infinity s => cases s <;> rfl
  | zero s => cases s <;> rfl
  | finite s m e hp =>
    change sign? (UnpackedFloat.unpack Format.binary64
      (UnpackedFloat.pack Format.binary64 (.finite s m e hp))) = some s
    simp only [UnpackedFloat.pack]
    split_ifs with hlarge hnormal
    · cases s <;> rfl
    -- the exponent field is below the one of the infinities
    · apply sign?_packComponents
      intro hfield
      have hh := congrArg BitVec.toNat hfield
      rw [BitVec.toNat_ofNat, Nat.mod_eq_of_lt (by omega)] at hh
      change _ = 2047 at hh
      omega
    · exact sign?_packComponents s 0#11 _ (by decide)

theorem isNaN_ofModel_pack (u : UnpackedFloat) : (Float.ofModel (.pack u)).isNaN = u.isNaN := by
  change (Float.ofModel (.pack u)).toModel.unpack.isNaN = u.isNaN
  rw [isNaN_eq_sign?, isNaN_eq_sign?, sign?_ofModel_pack]

theorem isNaN_eq_false_iff (x : Float) : x.isNaN = false ↔ x.toModel.unpack ≠ .notANumber := by
  have hparts (u : UnpackedFloat) : u.isNaN = false ↔ u ≠ .notANumber := by
    cases u with
    | notANumber => exact iff_of_false nofun fun h => h rfl
    | _ => exact iff_of_true rfl nofun
  exact hparts _

theorem isNaN_of_isFinite (x : Float) (h : x.isFinite = true) : x.isNaN = false := by
  have hparts (u : UnpackedFloat) (h : u.isFinite = true) : u.isNaN = false := by
    cases u with
    | notANumber => cases h
    | _ => rfl
  exact hparts _ h

theorem isInf_of_isFinite (x : Float) (h : x.isFinite = true) : x.isInf = false := by
  have hparts (u : UnpackedFloat) (h : u.isFinite = true) : u.isInf = false := by
    cases u with
    | infinity s => cases h
    | _ => rfl
  exact hparts _ h

/-- Two infinities of different signs. -/
def Opposed (x y : Float) : Prop :=
  x.isInf = true ∧ y.isInf = true ∧ x ≠ y

instance (x y : Float) : Decidable (Opposed x y) :=
  inferInstanceAs (Decidable (_ ∧ _ ∧ _))

theorem unpack_inj (x y : Float) : x.toModel.unpack = y.toModel.unpack ↔ x = y := by
  constructor
  · intro h
    have hx := pack_unpack_toModel x
    rw [h, pack_unpack_toModel y] at hx
    exact congrArg Float.ofModel hx.symm
  · rintro rfl
    rfl

theorem isNaN_unpacked_add (u v : UnpackedFloat) :
    (UnpackedFloat.add Format.binary64 u v).isNaN = true ↔
      u.isNaN = true ∨ v.isNaN = true ∨ u.isInf = true ∧ v.isInf = true ∧ u ≠ v := by
  cases u with
  | notANumber => exact iff_of_true rfl (Or.inl rfl)
  | infinity s =>
    cases v with
    | infinity s' =>
      cases s <;> cases s' <;> simp [UnpackedFloat.add, UnpackedFloat.isNaN, UnpackedFloat.isInf]
    | _ => simp [UnpackedFloat.add, UnpackedFloat.isNaN, UnpackedFloat.isInf]
  | zero s =>
    cases v with
    | zero s' =>
      cases s <;> cases s' <;> simp [UnpackedFloat.add, UnpackedFloat.isNaN, UnpackedFloat.isInf]
    | _ => simp [UnpackedFloat.add, UnpackedFloat.isNaN, UnpackedFloat.isInf]
  | finite s m e hp =>
    cases v with
    -- the exact sum is rounded, possibly to an infinity
    | finite s' m' e' hp' =>
      refine iff_of_false (Bool.eq_false_iff.mp (isNaN_normalize _ _ _)) ?_
      simp [UnpackedFloat.isNaN, UnpackedFloat.isInf]
    | _ => simp [UnpackedFloat.add, UnpackedFloat.isNaN, UnpackedFloat.isInf]

/-- A sum is undefined if a summand is, or if two infinities of different signs meet. -/
theorem isNaN_add_iff (x y : Float) :
    (x + y).isNaN = true ↔ x.isNaN = true ∨ y.isNaN = true ∨ Opposed x y := by
  change (Float.ofModel (.pack (UnpackedFloat.add _ _ _))).isNaN = true ↔
    x.toModel.unpack.isNaN = true ∨ y.toModel.unpack.isNaN = true ∨
      x.toModel.unpack.isInf = true ∧ y.toModel.unpack.isInf = true ∧ x ≠ y
  rw [isNaN_ofModel_pack, isNaN_unpacked_add, ne_eq, ne_eq, unpack_inj]

/-- Summed up from left to right, a total that is infinite meets the other infinity. -/
def Collides (total : Float) : List Float → Prop
  | [] => False
  | x :: rest => Opposed total x ∨ Collides (total + x) rest

instance decidableCollides (total : Float) : (values : List Float) → Decidable (Collides total values)
  | [] => inferInstanceAs (Decidable False)
  | x :: rest =>
    have := decidableCollides (total + x) rest
    inferInstanceAs (Decidable (Opposed total x ∨ Collides (total + x) rest))

/-- A sum of numbers is undefined exactly if infinities collide on the way. -/
theorem isNaN_foldl_iff (values : List Float) (total : Float) (ht : total.isNaN = false)
    (hv : ∀ x ∈ values, x.isNaN = false) :
    (values.foldl (· + ·) total).isNaN = true ↔ Collides total values := by
  induction values generalizing total with
  | nil => exact iff_of_false (Bool.eq_false_iff.mp ht) id
  | cons x rest ih =>
    have hx := hv x List.mem_cons_self
    have hadd : (total + x).isNaN = true ↔ Opposed total x := by
      rw [isNaN_add_iff, ht, hx]
      simp only [Bool.false_eq_true, false_or]
    rw [List.foldl_cons, Collides]
    by_cases ho : Opposed total x
    · refine iff_of_true (foldl_absorbs (·.isNaN = true) ?_ rest _ (Or.inl (hadd.mpr ho))) (Or.inl ho)
      exact fun x y h => (isNaN_add_iff x y).mpr (or_assoc.mp (Or.inl h))
    · rw [ih _ (Bool.eq_false_iff.mpr (mt hadd.mp ho)) fun y hy => hv y (List.mem_cons_of_mem x hy)]
      exact (or_iff_right ho).symm

/-- Finite summands do not collide, even if their total becomes infinite. -/
theorem not_collides_of_finite (values : List Float) (total : Float)
    (hv : ∀ x ∈ values, x.isFinite = true) : ¬Collides total values := by
  induction values generalizing total with
  | nil => exact id
  | cons x rest ih =>
    rintro (⟨_, hinf, _⟩ | hrest)
    · rw [isInf_of_isFinite x (hv x List.mem_cons_self)] at hinf
      cases hinf
    · exact ih _ (fun y hy => hv y (List.mem_cons_of_mem x hy)) hrest

/-- A difference of finite doubles may be infinite, but it is defined. -/
theorem isNaN_sub_of_finite (x y : Float) (hx : x.isFinite = true) (hy : y.isFinite = true) :
    (x - y).isNaN = false := by
  change (Float.ofModel (.pack (UnpackedFloat.sub _ x.toModel.unpack y.toModel.unpack))).isNaN =
    false
  change x.toModel.unpack.isFinite = true at hx
  change y.toModel.unpack.isFinite = true at hy
  rw [isNaN_ofModel_pack]
  cases hu : x.toModel.unpack with
  | notANumber => rw [hu] at hx; cases hx
  | infinity s => rw [hu] at hx; cases hx
  | zero s =>
    cases hv : y.toModel.unpack with
    | notANumber => rw [hv] at hy; cases hy
    | infinity s' => rw [hv] at hy; cases hy
    | zero s' => cases s <;> cases s' <;> rfl
    | finite s' m e hp => rfl
  | finite s m e hp =>
    cases hv : y.toModel.unpack with
    | notANumber => rw [hv] at hy; cases hy
    | infinity s' => rw [hv] at hy; cases hy
    | zero s' => rfl
    | finite s' m' e' hp' => exact isNaN_normalize _ _ _

end Replanning
