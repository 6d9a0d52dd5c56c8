import Mathlib
import Replanning.Encoding.Controller
import Replanning.Proofs.Json.Record

namespace Replanning

open Json

def GapSample.finite (s : GapSample) : Bool :=
  s.gaps.all Float.isFinite

def ControllerSnapshot.finite (s : ControllerSnapshot) : Bool :=
  s.window.all GapSample.finite

theorem GapSample.exact : Exact GapSample.ofJson? GapSample.toJson GapSample.finite := by
  intro s
  have hfields : fields? ["iteration", "replication_gaps"] s.toJson = some ⟨false, _⟩ :=
    fields_object _ _ (by rfl) (by simp)
  have hgaps := exact_list exact_float s.gaps
  rw [ofJson?, hfields, Option.bind_eq_bind, Option.bind_some, GapSample.finite]
  by_cases h : s.gaps.all Float.isFinite = true
  · simp [hgaps, h]
  · simp [hgaps, h]

@[simp] theorem Regime.ofJson_toJson (s : Regime) : Regime.ofJson? s.toJson = some s := by
  have hfields : fields? ["trust_region", "replications"] s.toJson = some ⟨false, _⟩ :=
    fields_object _ _ (by rfl) (by simp)
  rw [ofJson?, hfields, Option.bind_eq_bind, Option.bind_some]
  simp

theorem ControllerSnapshot.exact :
    Exact ControllerSnapshot.ofJson? ControllerSnapshot.toJson ControllerSnapshot.finite := by
  intro s
  have hfields : fields? ["state", "impossible_reductions", "window"] s.toJson = some ⟨false, _⟩ :=
    fields_object _ _ (by rfl) (by simp)
  have hwindow := exact_list GapSample.exact s.window
  rw [ofJson?, hfields, Option.bind_eq_bind, Option.bind_some, ControllerSnapshot.finite]
  by_cases h : s.window.all GapSample.finite = true
  · simp [hwindow, h]
  · simp [hwindow, h]

/-- The doubles of an adaptation are numbers. -/
def Adaptation.finite (a : Adaptation) : Bool :=
  a.withinVariance.isFinite && a.betweenVariance.isFinite && a.tStatistic.all Float.isFinite

theorem AdaptationAction.ofJson_toJson (outer : ℕ) (houter : outer < maxLevels)
    (a : AdaptationAction) : ofJson? outer a.toJson = some a := by
  cases a with
  | trustRegionHalved old new =>
    have htagged := tagged_object outer "action" "trust_region_halved"
      [("from", ofNat old.toNat), ("to", ofNat new.toNat)] houter (by simp) (by simp)
    have hfields := fields_object ["from", "to"]
      [("from", ofNat old.toNat), ("to", ofNat new.toNat)] rfl (by simp)
    rw [ofJson?, toJson, htagged, Option.bind_eq_bind, Option.bind_some]
    dsimp only
    rw [hfields, Option.bind_eq_bind, Option.bind_some]
    simp
  | replicationsDoubled old new floorHit =>
    have htagged := tagged_object outer "action" "replications_doubled"
      [("from", ofNat old.toNat), ("to", ofNat new.toNat), ("floor_hit", .bool floorHit)] houter
      (by simp) (by simp)
    have hfields := fields_object ["from", "to", "floor_hit"]
      [("from", ofNat old.toNat), ("to", ofNat new.toNat), ("floor_hit", .bool floorHit)] rfl
      (by simp)
    rw [ofJson?, toJson, htagged, Option.bind_eq_bind, Option.bind_some]
    dsimp only
    rw [hfields, Option.bind_eq_bind, Option.bind_some]
    simp

/-- An adaptation is read back without a test statistic that is no number, and not at all if one of
its variances is none. -/
theorem Adaptation.ofJson_toJson (a : Adaptation) :
    ofJson? a.toJson =
      if a.withinVariance.isFinite && a.betweenVariance.isFinite then
        some { a with tStatistic := a.tStatistic.filter Float.isFinite }
      else none := by
  have hfields : fields? fieldNames a.toJson = some ⟨false, _⟩ :=
    fields_object _ _ (by rfl) (by simp [fieldNames])
  -- the action stands inside the adaptation
  have haction := AdaptationAction.ofJson_toJson 1 (by decide) a.action
  have hwithin := exact_float a.withinVariance
  have hbetween := exact_float a.betweenVariance
  rw [ofJson?, hfields, Option.bind_eq_bind, Option.bind_some]
  by_cases hx : a.withinVariance.isFinite = true
  · by_cases hy : a.betweenVariance.isFinite = true
    · simp [haction, hwithin, hbetween, hx, hy]
    · simp [haction, hwithin, hbetween, hx, hy]
  · simp [haction, hwithin, hx]

@[simp] theorem GapSample.writable_toJson (s : GapSample) : s.toJson.writable = true := by
  simp [toJson]

@[simp] theorem Regime.writable_toJson (s : Regime) : s.toJson.writable = true := by
  simp [toJson]

@[simp] theorem ControllerSnapshot.writable_toJson (s : ControllerSnapshot) :
    s.toJson.writable = true := by
  simp [toJson]

@[simp] theorem AdaptationAction.writable_toJson (a : AdaptationAction) :
    a.toJson.writable = true := by
  cases a <;> simp [toJson]

@[simp] theorem Adaptation.writable_toJson (a : Adaptation) : a.toJson.writable = true := by
  simp [toJson]

end Replanning
