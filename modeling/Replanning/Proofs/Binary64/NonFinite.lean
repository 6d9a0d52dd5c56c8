import Replanning.Proofs.Binary64.Count

namespace Replanning
open Float.Model Float.Model.UnpackedFloat

theorem unpack_of_not_finite (x : Float) (h : x.isFinite = false) :
    x.toModel.unpack = .notANumber ∨ ∃ s, x.toModel.unpack = .infinity s := by
  change x.toModel.unpack.isFinite = false at h
  cases hu : x.toModel.unpack with
  | notANumber => exact Or.inl rfl
  | infinity s => exact Or.inr ⟨s, rfl⟩
  | zero s =>
    rw [hu] at h
    cases h
  | finite s m e hp =>
    rw [hu] at h
    cases h

theorem not_finite_ofModel_pack (u : UnpackedFloat) (h : u.isFinite = false) :
    (Float.ofModel (.pack u)).isFinite = false := by
  cases u with
  | notANumber => decide
  | infinity s => cases s <;> decide
  | zero s => cases h
  | finite s m e hp => cases h

/-- Two infinities of different signs make what is no number. -/
theorem not_finite_add (x y : Float) (h : x.isFinite = false ∨ y.isFinite = false) :
    (x + y).isFinite = false := by
  have hparts (u v : UnpackedFloat) (h : u.isFinite = false ∨ v.isFinite = false) :
      (UnpackedFloat.add Format.binary64 u v).isFinite = false := by
    cases u <;> cases v <;> grind [UnpackedFloat.add, UnpackedFloat.isFinite]
  exact not_finite_ofModel_pack _ (hparts _ _ h)

theorem not_finite_sub (x y : Float) (h : x.isFinite = false ∨ y.isFinite = false) :
    (x - y).isFinite = false := by
  have hparts (u v : UnpackedFloat) (h : u.isFinite = false ∨ v.isFinite = false) :
      (UnpackedFloat.sub Format.binary64 u v).isFinite = false := by
    cases u <;> cases v <;> grind [UnpackedFloat.sub, UnpackedFloat.isFinite]
  exact not_finite_ofModel_pack _ (hparts _ _ h)

/-- An infinity times zero is no number. -/
theorem not_finite_mul (x y : Float) (h : x.isFinite = false ∨ y.isFinite = false) :
    (x * y).isFinite = false := by
  have hparts (u v : UnpackedFloat) (h : u.isFinite = false ∨ v.isFinite = false) :
      (UnpackedFloat.mul Format.binary64 u v).isFinite = false := by
    cases u <;> cases v <;> grind [UnpackedFloat.mul, UnpackedFloat.isFinite]
  exact not_finite_ofModel_pack _ (hparts _ _ h)

theorem not_finite_div (x y : Float) (h : x.isFinite = false) : (x / y).isFinite = false := by
  have hparts (u v : UnpackedFloat) (h : u.isFinite = false) :
      (UnpackedFloat.div Format.binary64 u v).isFinite = false := by
    cases u <;> cases v <;> grind [UnpackedFloat.div, UnpackedFloat.isFinite]
  exact not_finite_ofModel_pack _ (hparts _ _ h)

/-- The parts of a finite result are finite. -/
theorem parts_finite {x y z : Float} (h : z.isFinite = true)
    (hz : x.isFinite = false ∨ y.isFinite = false → z.isFinite = false) :
    x.isFinite = true ∧ y.isFinite = true := by
  rw [← Bool.not_eq_false, ← Bool.not_eq_false y.isFinite, ← not_or]
  intro hlost
  exact Bool.false_ne_true ((hz hlost).symm.trans h)

/-- What a sum takes over from either of its parts, it takes over from any of its terms. -/
theorem foldl_absorbs (P : Float → Prop) (hadd : ∀ x y, P x ∨ P y → P (x + y))
    (values : List Float) (total : Float) (h : P total ∨ ∃ x ∈ values, P x) :
    P (values.foldl (· + ·) total) := by
  induction values generalizing total with
  | nil =>
    rcases h with h | ⟨x, hx, _⟩
    · exact h
    · exact absurd hx List.not_mem_nil
  | cons y rest ih =>
    apply ih
    rcases h with h | ⟨x, hx, hp⟩
    · exact Or.inl (hadd total y (Or.inl h))
    · rcases List.mem_cons.mp hx with rfl | hx
      · exact Or.inl (hadd total x (Or.inr hp))
      · exact Or.inr ⟨x, hx, hp⟩

theorem not_finite_sum (values : List Float) (x : Float) (hx : x ∈ values)
    (h : x.isFinite = false) : (sum values).isFinite = false :=
  foldl_absorbs (·.isFinite = false) not_finite_add values (-0.0) (Or.inr ⟨x, hx, h⟩)

theorem sum_finite (values : List Float) (h : (sum values).isFinite = true) (x : Float)
    (hx : x ∈ values) : x.isFinite = true := by
  rw [← Bool.not_eq_false]
  intro hlost
  rw [not_finite_sum values x hx hlost] at h
  cases h

/-- The double is below nothing: it is the positive infinity, or no number. -/
def Topmost (x : Float) : Prop :=
  x.toModel.unpack = .notANumber ∨ x.toModel.unpack = .infinity .positive

namespace Topmost

variable {x y : Float}

theorem not_finite (h : Topmost x) : x.isFinite = false := by
  change x.toModel.unpack.isFinite = false
  rcases h with h | h <;> rw [h] <;> rfl

theorem not_lt (h : Topmost x) : ¬x < y := by
  have hparts (u v : UnpackedFloat) (h : u = .notANumber ∨ u = .infinity .positive) :
      ¬u.compare v = some .lt := by
    rcases h with rfl | rfl
    · exact nofun
    · cases v with
      | infinity s => cases s <;> exact nofun
      | _ => exact nofun
  rw [float_lt_iff]
  exact hparts _ _ h

theorem ofModel_pack (u : UnpackedFloat) (h : u = .notANumber ∨ u = .infinity .positive) :
    Topmost (Float.ofModel (.pack u)) := by
  rcases h with rfl | rfl
  · exact Or.inl rfl
  · exact Or.inr rfl

theorem add (h : Topmost x ∨ Topmost y) : Topmost (x + y) := by
  have hparts (u v : UnpackedFloat) (h : (u = .notANumber ∨ u = .infinity .positive) ∨
      v = .notANumber ∨ v = .infinity .positive) :
      UnpackedFloat.add Format.binary64 u v = .notANumber ∨
        UnpackedFloat.add Format.binary64 u v = .infinity .positive := by
    cases u with
    | infinity s =>
      cases v with
      | infinity s' => cases s <;> cases s' <;> grind [UnpackedFloat.add]
      | _ => grind [UnpackedFloat.add]
    | _ => cases v <;> grind [UnpackedFloat.add]
  exact ofModel_pack _ (hparts _ _ h)

end Topmost

end Replanning
