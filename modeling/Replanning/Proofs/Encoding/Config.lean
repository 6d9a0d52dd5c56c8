import Replanning.Encoding.Config
import Replanning.Proofs.Binary64.Count
import Replanning.Proofs.Binary64.NonFinite
import Replanning.Proofs.Json.Record
import Replanning.Proofs.Outcome

namespace Replanning

open Json

def Policy.finite : Policy → Bool
  | .trustRegion _ => true
  | .uniform rate _ => rate.isFinite
  | .topShare share _ => share.isFinite

def AdaptationConfig.finite (c : AdaptationConfig) : Bool :=
  c.criticalValue.isFinite

def EngineConfig.finite (c : EngineConfig) : Bool :=
  c.policy.finite && c.adaptation.finite

theorem Aggregate.exact : Exact (name? names) toJson fun _ => true := by
  intro a
  cases a <;> rfl

theorem Aggregate.innerName_toJson (a : Aggregate) : innerName? names a.toJson = some a := by
  cases a <;> rfl

@[simp] theorem Aggregate.isScalar_toJson (a : Aggregate) : a.toJson.isScalar = true := by
  cases a <;> rfl

@[simp] theorem Aggregate.writable_toJson (a : Aggregate) : a.toJson.writable = true := by
  cases a <;> rfl

/-- The options of a packer are read back with any reader that knows the aggregates. -/
theorem PackerConfig.ofJsonWith_toJson (aggregate : Json → Option Aggregate)
    (h : ∀ a : Aggregate, aggregate a.toJson = some a) (c : PackerConfig) :
    ofJsonWith? aggregate c.toJson = some c := by
  have hfields : fields? fieldNames c.toJson = some ⟨false, _⟩ :=
    fields_object _ _ (by rfl) (by simp [fieldNames])
  rw [ofJsonWith?, hfields, Option.bind_eq_bind, Option.bind_some]
  simp [members, h]

/-- The parameters of a policy with a rate or a share are read back if that is a number. -/
theorem Policy.parameters_exact (parameter : String) (h : parameter ≠ "admit_negative_gaps")
    (x : Float) (admitNegativeGaps : Bool) (policy : Float → Bool → Policy) :
    ((fields? [parameter, "admit_negative_gaps"] (.object [(parameter, ofFloat x),
        ("admit_negative_gaps", .bool admitNegativeGaps)])).bind fun f =>
      (f.required parameter float?).bind fun x =>
        (f.defaulted "admit_negative_gaps" bool? false).bind fun b => some (policy x b)) =
      if x.isFinite = true then some (policy x admitNegativeGaps) else none := by
  have hx := exact_float x
  rw [fields_object _ _ (by rfl) (by simp [h]), Option.bind_some, required_head, hx,
    defaulted_tail _ _ _ _ _ _ _ h.symm, defaulted_head]
  split_ifs
  · rfl
  · rfl

/-- A policy is read back exactly if its rate or share is a number, wherever it stands. -/
theorem Policy.exact (outer : ℕ) (houter : outer < maxLevels) :
    Exact (ofJson? outer) toJson finite := by
  intro p
  -- the tag decides which parameters are read
  cases p with
  | trustRegion packer =>
    have htagged := tagged_object outer "type" "trust_region" packer.members houter
      (by simp [PackerConfig.members]) (by simp [PackerConfig.members])
    have hpacker := PackerConfig.ofJsonWith_toJson _ Aggregate.innerName_toJson packer
    rw [PackerConfig.toJson] at hpacker
    simp [ofJson?, toJson, name, htagged, hpacker, finite]
  | uniform rate admitNegativeGaps =>
    have htagged := tagged_object outer "type" "uniform"
      [("replanning_rate", ofFloat rate), ("admit_negative_gaps", .bool admitNegativeGaps)] houter
      (by simp) (by simp)
    have hparameters :=
      parameters_exact "replanning_rate" (by decide) rate admitNegativeGaps uniform
    simp only [ofJson?, toJson, name, htagged, Option.bind_eq_bind, Option.bind_some]
    exact hparameters
  | topShare share admitNegativeGaps =>
    have htagged := tagged_object outer "type" "top_share"
      [("share", ofFloat share), ("admit_negative_gaps", .bool admitNegativeGaps)] houter
      (by simp) (by simp)
    have hparameters := parameters_exact "share" (by decide) share admitNegativeGaps topShare
    simp only [ofJson?, toJson, name, htagged, Option.bind_eq_bind, Option.bind_some]
    exact hparameters

theorem AdaptationConfig.exact : Exact ofJson? toJson finite := by
  intro c
  have hfields : fields? fieldNames c.toJson = some ⟨false, _⟩ :=
    fields_object _ _ (by rfl) (by simp [fieldNames])
  have hvalue := exact_float c.criticalValue
  rw [ofJson?, hfields, Option.bind_eq_bind, Option.bind_some, finite]
  by_cases h : c.criticalValue.isFinite = true
  · simp [hvalue, h]
  · simp [hvalue, h]

@[simp] theorem scoringOfJson_toJson (selfExclusion : Bool) :
    scoringOfJson? (scoringToJson selfExclusion) = some selfExclusion := by
  rw [scoringOfJson?, scoringToJson, fields_object _ _ (by rfl) (by simp)]
  simp

theorem EngineConfig.exact : Exact ofJson? toJson finite := by
  intro c
  have hfields : fields? fieldNames c.toJson = some ⟨false, _⟩ :=
    fields_object _ _ (by rfl) (by simp [fieldNames])
  -- the policy stands inside the configuration
  have hpolicy := Policy.exact 1 (by decide) c.policy
  have hadaptation := AdaptationConfig.exact c.adaptation
  have hlimit := exact_option exact_word32 (fun _ => nofun) c.maxImpossibleReductions
  rw [ofJson?, hfields, Option.bind_eq_bind, Option.bind_some, finite]
  by_cases hp : c.policy.finite = true
  · by_cases ha : c.adaptation.finite = true
    · simp [hpolicy, hadaptation, hlimit, hp, ha]
    · simp [hpolicy, hadaptation, hp, ha]
  · simp [hpolicy, hp]

@[simp] theorem PackerConfig.writable_members (c : PackerConfig) :
    writable (.object c.members) = true := by
  simp [members]

@[simp] theorem Policy.writable_toJson (p : Policy) : p.toJson.writable = true := by
  cases p <;> simp [toJson]

@[simp] theorem AdaptationConfig.writable_toJson (c : AdaptationConfig) :
    c.toJson.writable = true := by
  simp [toJson]

@[simp] theorem writable_scoringToJson (selfExclusion : Bool) :
    (scoringToJson selfExclusion).writable = true :=
  rfl

@[simp] theorem EngineConfig.writable_toJson (c : EngineConfig) : c.toJson.writable = true := by
  simp [toJson]

/-- What lies between zero and one is a number. -/
theorem isFinite_of_unitInterval (x : Float) (hl : 0.0 ≤ x) (hu : x ≤ 1.0) : x.isFinite = true := by
  rw [float_le_iff] at hl hu
  by_contra h
  -- NaN is not above zero, and each infinity is beyond one of the ends
  rcases unpack_of_not_finite x (Bool.eq_false_iff.mpr h) with hx | ⟨_ | _, hx⟩
  · rw [hx] at hl
    exact absurd hl (by decide)
  · rw [hx] at hl
    exact absurd hl (by decide)
  · rw [hx] at hu
    exact absurd hu (by decide)

theorem Policy.finite_of_validate (p : Policy) (hp : p.validate = .ok ()) : p.finite = true := by
  have hunit (parameter : String) (x : Float) (h : checkUnitInterval parameter x = .ok ()) :
      x.isFinite = true := by
    unfold checkUnitInterval at h
    split_ifs at h with hx
    rw [Bool.and_eq_true, decide_eq_true_eq, decide_eq_true_eq] at hx
    exact isFinite_of_unitInterval x hx.1 hx.2
  cases p with
  | trustRegion packer => rfl
  | uniform rate admitNegativeGaps => exact hunit _ rate hp
  | topShare share admitNegativeGaps => exact hunit _ share hp

theorem AdaptationConfig.finite_of_validate (c : AdaptationConfig) (hc : c.validate = .ok ()) :
    c.finite = true := by
  rw [validate] at hc
  obtain ⟨_, hc⟩ := (guard_eq_ok _ _ _ _ _).mp hc
  obtain ⟨_, hc⟩ := (guard_eq_ok _ _ _ _ _).mp hc
  obtain ⟨hvalue, _⟩ := (guard_eq_ok _ _ _ _ _).mp hc
  rwa [Bool.not_eq_true', Bool.not_eq_false] at hvalue

end Replanning
