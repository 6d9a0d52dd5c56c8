import Mathlib
import Replanning.Encoding.Event
import Replanning.Proofs.Json.Line
import Replanning.Proofs.Json.Reader
import Replanning.Proofs.Json.Record

namespace Replanning.Event

open Json

/-- The doubles that an event cannot do without. -/
def required : Event → List Float
  | .selectionCompleted _ _ _ _ _ _ _ acceptedScore => [acceptedScore]
  | .stationarityChecked .. => []
  | .trustRegionHalved _ _ _ within between => [within, between]
  | .replicationsDoubled _ _ _ _ _ within between => [within, between]
  | .iterationRecord _ meanGap _ _ _ _ _ => [meanGap]

/-- The doubles that an event may have. -/
def optionals : Event → List (Option Float)
  | .stationarityChecked _ _ _ t _ => [t]
  | .iterationRecord _ _ _ _ within between t => [within, between, t]
  | _ => []

def finite (e : Event) : Bool :=
  e.required.all Float.isFinite && e.optionals.all (·.all Float.isFinite)

/-- The event without those of its optional doubles that are no numbers. -/
def reduced : Event → Event
  | .stationarityChecked i windowLen minRequired t stationary =>
    .stationarityChecked i windowLen minRequired (t.filter Float.isFinite) stationary
  | .iterationRecord i meanGap trustRegion replications within between t =>
    .iterationRecord i meanGap trustRegion replications (within.filter Float.isFinite)
      (between.filter Float.isFinite) (t.filter Float.isFinite)
  | e => e

/-- What is left of an event that has been written. -/
def kept (e : Event) : Option Event :=
  if e.required.all Float.isFinite then some e.reduced else none

def ofText? (text : String) : Option Event :=
  (read text).bind ofJson?

theorem bind_float (x : Float) (f : Float → Event) :
    ((float? (ofFloat x)).bind fun x => some (f x)) =
      if x.isFinite = true then some (f x) else none := by
  rw [exact_float x]
  split_ifs <;> rfl

theorem bind_float_float (x y : Float) (f : Float → Float → Event) :
    ((float? (ofFloat x)).bind fun x => (float? (ofFloat y)).bind fun y => some (f x y)) =
      if x.isFinite = true ∧ y.isFinite = true then some (f x y) else none := by
  rw [exact_float x]
  split_ifs with hx hxy hxy
  · rw [Option.bind_some, bind_float, if_pos hxy.2]
  · rw [Option.bind_some, bind_float, if_neg fun hy => hxy ⟨hx, hy⟩]
  · exact absurd hxy.1 hx
  · rfl

/-- An event is read back as far as its doubles are numbers. -/
theorem ofJson_toJson (e : Event) : ofJson? e.toJson = e.kept := by
  -- the tag decides which record is read, and its fields are found by their names; each time the
  -- other five tags are other names
  cases e with
  | selectionCompleted i policy candidates accepted infeasible negative byPolicy score =>
    rw [toJson, ofJson?, tagged_object _ _ _ _ (by decide) (by simp) (by simp), Option.bind_eq_bind,
      Option.bind_some]
    generalize hname : "selection_completed" = name
    dsimp only
    split
    case h_1 =>
      rw [fields_object _ _ (by rfl) (by simp [selectionFields]), Option.bind_eq_bind,
        Option.bind_some, kept]
      have hread := bind_float score
        (selectionCompleted i policy candidates accepted infeasible negative byPolicy)
      simpa [required, reduced] using hread
    all_goals simp_all
  | stationarityChecked i windowLen minRequired t stationary =>
    rw [toJson, ofJson?, tagged_object _ _ _ _ (by decide) (by simp) (by simp), Option.bind_eq_bind,
      Option.bind_some]
    generalize hname : "stationarity_checked" = name
    dsimp only
    split
    case h_2 =>
      rw [fields_object _ _ (by rfl) (by simp), Option.bind_eq_bind, Option.bind_some, kept]
      simp [required, reduced]
    all_goals simp_all
  | trustRegionHalved i old new within between =>
    rw [toJson, ofJson?, tagged_object _ _ _ _ (by decide) (by simp) (by simp), Option.bind_eq_bind,
      Option.bind_some]
    generalize hname : "trust_region_halved" = name
    dsimp only
    split
    case h_3 =>
      rw [fields_object _ _ (by rfl) (by simp), Option.bind_eq_bind, Option.bind_some, kept]
      have hread := bind_float_float within between (trustRegionHalved i old new)
      simpa [required, reduced] using hread
    all_goals simp_all
  | replicationsDoubled i old new floorHit count within between =>
    rw [toJson, ofJson?, tagged_object _ _ _ _ (by decide) (by simp) (by simp), Option.bind_eq_bind,
      Option.bind_some]
    generalize hname : "replications_doubled" = name
    dsimp only
    split
    case h_4 =>
      rw [fields_object _ _ (by rfl) (by simp [doublingFields]), Option.bind_eq_bind,
        Option.bind_some, kept]
      have hread :=
        bind_float_float within between (replicationsDoubled i old new floorHit count)
      simpa [required, reduced] using hread
    all_goals simp_all
  | iterationRecord i meanGap trustRegion replications within between t =>
    rw [toJson, ofJson?, tagged_object _ _ _ _ (by decide) (by simp) (by simp), Option.bind_eq_bind,
      Option.bind_some]
    generalize hname : "iteration_record" = name
    dsimp only
    split
    case h_5 =>
      rw [fields_object _ _ (by rfl) (by simp [recordFields]), Option.bind_eq_bind,
        Option.bind_some, kept]
      have hread := bind_float meanGap fun meanGap =>
        (iterationRecord i meanGap trustRegion replications within between t).reduced
      simpa [required, reduced] using hread
    all_goals simp_all

@[simp] theorem writable_toJson (e : Event) : e.toJson.writable = true := by
  cases e <;> simp [toJson]

/-- The text of an event is one line. -/
theorem newline_not_mem_text (e : Event) : '\n' ∉ e.toJson.compactText :=
  newline_not_mem_compactText e.toJson e.writable_toJson

theorem ofText_compact (e : Event) : ofText? e.toJson.compact = e.kept := by
  rw [ofText?, read_compact e.toJson e.writable_toJson, Option.bind_some]
  exact e.ofJson_toJson

theorem filter_eq_self_iff (x : Option Float) :
    x.filter Float.isFinite = x ↔ x.all Float.isFinite = true := by
  cases x with
  | none => simp
  | some x => simp [Option.filter_some]

theorem reduced_eq_self_iff (e : Event) :
    e.reduced = e ↔ e.optionals.all (·.all Float.isFinite) = true := by
  cases e with
  | stationarityChecked i windowLen minRequired t stationary =>
    simp [reduced, optionals, filter_eq_self_iff]
  | iterationRecord i meanGap trustRegion replications within between t =>
    simp [reduced, optionals, filter_eq_self_iff]
  | _ => simp [reduced, optionals]

/-- An event is kept as it is exactly if all of its doubles are numbers. -/
theorem kept_eq_some_iff (e : Event) : e.kept = some e ↔ e.finite = true := by
  unfold kept finite
  split_ifs with hrequired
  · rw [Option.some.injEq, reduced_eq_self_iff, hrequired, Bool.true_and]
  · rw [Bool.eq_false_iff.mpr hrequired, Bool.false_and]
    simp

end Replanning.Event
