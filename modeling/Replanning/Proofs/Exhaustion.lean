import Replanning.Proofs.Engine

/-! A halving that the floor forbids is counted, and from then on there is nothing left to halve; so
the only event that would set the count back cannot come after one that raises it. -/
namespace Replanning

namespace AdaptationAction

def isHalving : AdaptationAction → Bool
  | .trustRegionHalved .. => true
  | .replicationsDoubled .. => false

/-- A doubling in place of a halving that the floor forbids. -/
def isFloorHit : AdaptationAction → Bool
  | .trustRegionHalved .. => false
  | .replicationsDoubled _ _ floorHit => floorHit

end AdaptationAction

theorem Regime.lt_of_isHalving (s : Regime) (within between : Float)
    (h : (s.action within between).isHalving = true) : 1 < s.trustRegion := by
  unfold action at h
  split_ifs at h with hnoise htr
  · exact htr
  · cases h
  · cases h

theorem Regime.not_lt_of_isFloorHit (s : Regime) (within between : Float)
    (h : (s.action within between).isFloorHit = true) : ¬ 1 < s.trustRegion := by
  unfold action at h
  split_ifs at h with hnoise htr
  · cases h
  · exact htr
  · cases h

/-- The count after a change: a floor hit raises it up to its limit, and only a halving sets it
back. -/
theorem impossibleAfter_toNat (count : UInt32) (action : AdaptationAction)
    (h : action.isHalving = false) :
    (impossibleAfter count action).toNat = min (count.toNat + action.isFloorHit.toNat) (2^32-1) := by
  have hlt := count.toNat_lt
  cases action with
  | trustRegionHalved old new => cases h
  | replicationsDoubled old new floorHit =>
    cases floorHit with
    | false =>
      change count.toNat = min (count.toNat + 0) (2^32-1)
      omega
    | true =>
      change (if count < 0xFFFFFFFF then count + 1 else count).toNat =
        min (count.toNat + 1) (2^32-1)
      split_ifs with hcount
      · have hsmall : count.toNat < 4294967295 := UInt32.lt_iff_toNat_lt.mp hcount
        rw [UInt32.toNat_add]
        change (count.toNat + 1) % 2^32 = _
        omega
      · have hfull : ¬ count.toNat < 4294967295 := fun hn => hcount (UInt32.lt_iff_toNat_lt.mpr hn)
        omega

namespace Controller

/-- The controller has counted so many floor hits, of which there are none as long as the trust
region can be halved. -/
structure Counts (c : Controller) (hits : ℕ) : Prop where
  count : c.impossibleReductions.toNat = min hits (2^32-1)
  floor : 1 < c.regime.trustRegion → hits = 0

theorem initial_counts (c : AdaptationConfig) : (initial c).Counts 0 :=
  ⟨rfl, fun _ => rfl⟩

/-- A reported floor hit was made at the floor. -/
theorem floor_of_hit (c : Controller) (s : GapSample)
    (h : (c.register s).1.adaptation.any (·.action.isFloorHit) = true) :
    ¬ 1 < c.regime.trustRegion := by
  rcases register_cases c s with ⟨ha, _⟩ | ⟨a, ha, haction, _⟩
  · rw [ha] at h
    cases h
  · rw [ha, Option.any_some, haction] at h
    exact c.regime.not_lt_of_isFloorHit _ _ h

/-- A reported halving was made above the floor. -/
theorem lt_of_halving (c : Controller) (s : GapSample)
    (h : (c.register s).1.adaptation.any (·.action.isHalving) = true) :
    1 < c.regime.trustRegion := by
  rcases register_cases c s with ⟨ha, _⟩ | ⟨a, ha, haction, _⟩
  · rw [ha] at h
    cases h
  · rw [ha, Option.any_some, haction] at h
    exact c.regime.lt_of_isHalving _ _ h

/-- One sample adds the floor hit that it reports, if any. -/
theorem register_counts (c : Controller) (hits : ℕ) (h : c.Counts hits) (s : GapSample) :
    (c.register s).2.Counts
      (hits + ((c.register s).1.adaptation.any (·.action.isFloorHit)).toNat) := by
  obtain ⟨htr, _⟩ := register_mono c s
  constructor
  · rcases register_cases c s with ⟨ha, hnext⟩ | ⟨a, ha, haction, hnext⟩
    · rw [ha, hnext]
      exact h.count
    rw [ha, hnext, Option.any_some]
    dsimp only
    cases hhalving : a.action.isHalving with
    | false =>
      rw [impossibleAfter_toNat _ _ hhalving, h.count]
      omega
    -- there has been no floor hit before a halving, so that the count is set back to what it was
    | true =>
      obtain rfl := h.floor (c.regime.lt_of_isHalving _ _ (haction ▸ hhalving))
      cases hkind : a.action with
      | trustRegionHalved old new => rfl
      | replicationsDoubled old new floorHit =>
        rw [hkind] at hhalving
        cases hhalving
  · intro hlt
    have habove : 1 < c.regime.trustRegion := UInt32.lt_of_lt_of_le hlt htr
    have hnone := Bool.eq_false_iff.mpr fun hhit => floor_of_hit c s hhit habove
    rw [hnone]
    exact h.floor habove

end Controller

namespace IterationResult

def hitsFloor (r : IterationResult) : Bool :=
  r.adaptation.any (·.action.isFloorHit)

def halves (r : IterationResult) : Bool :=
  r.adaptation.any (·.action.isHalving)

end IterationResult

namespace Engine

variable {σ : Type}

/-- The result of a decided iteration, whether or not the sink lets it be returned. -/
def conclusion (engine : Engine σ) (e : Ensemble) : Option IterationResult :=
  match engine.decide e with
  | .error _ => none
  | .ok (gaps, selection, stream) => some (engine.advance gaps selection stream).2.1

theorem scheduleExhausted_iff (engine : Engine σ) :
    engine.scheduleExhausted = true ↔ ∃ limit, engine.config.maxImpossibleReductions = some limit ∧
      limit ≤ engine.controller.impossibleReductions := by
  rw [scheduleExhausted]
  cases engine.config.maxImpossibleReductions with
  | none => simp only [Option.any_none, Bool.false_eq_true, reduceCtorEq, false_and, exists_false]
  | some limit => simp only [Option.any_some, decide_eq_true_eq, Option.some.injEq, exists_eq_left']

variable [EventSink σ]

/-- The iterations of a run, those included whose results a sink has withheld. -/
def iterations : Engine σ → List Ensemble → List IterationResult
  | _, [] => []
  | engine, e :: rest => (engine.conclusion e).toList ++ (engine.run e).2.iterations rest

/-- A result that is returned is the conclusion of its iteration. -/
theorem conclusion_of_result (engine : Engine σ) (e : Ensemble) (result : IterationResult)
    (h : (engine.run e).1 = .ok result) : engine.conclusion e = some result := by
  obtain ⟨gaps, selection, stream, hd, rfl⟩ := run_eq_ok engine e result h
  rw [conclusion, hd]

/-- A call changes nothing, or it concludes with what the controller reports on a sample. -/
theorem run_concludes (engine : Engine σ) (e : Ensemble) :
    (engine.conclusion e = none ∧ (engine.run e).2 = engine) ∨
    ∃ s result, engine.conclusion e = some result ∧
      result.adaptation = (engine.controller.register s).1.adaptation ∧
      (engine.run e).2.controller = (engine.controller.register s).2 ∧
      result.scheduleExhausted = (engine.run e).2.scheduleExhausted := by
  rw [run_eq, conclusion]
  cases engine.decide e with
  | error cause => exact Or.inl ⟨rfl, rfl⟩
  | ok decided => exact Or.inr ⟨⟨engine.iteration, decided.1⟩, _, rfl, rfl, rfl, rfl⟩

theorem iterations_concat (engine : Engine σ) (history : List Ensemble) (e : Ensemble) :
    engine.iterations (history ++ [e]) =
      engine.iterations history ++ ((engine.after history).conclusion e).toList := by
  induction history generalizing engine with
  | nil => exact List.append_nil _
  | cons first rest ih =>
    rw [List.cons_append, iterations, iterations, ih (engine.run first).2, List.append_assoc]
    rfl

/-- A call adds the floor hit that it concludes with, if any. -/
theorem run_counts (engine : Engine σ) (hits : ℕ) (h : engine.controller.Counts hits)
    (e : Ensemble) :
    (engine.run e).2.controller.Counts
      (hits + (engine.conclusion e).toList.countP IterationResult.hitsFloor) := by
  rcases run_concludes engine e with ⟨hnone, hsame⟩ | ⟨s, result, hsome, hadaptation, hnext, _⟩
  · rw [hnone, hsame]
    exact h
  · have hone : [result].countP IterationResult.hitsFloor = result.hitsFloor.toNat := by
      rw [List.countP_singleton]
      cases result.hitsFloor <;> rfl
    rw [hsome, Option.toList_some, hone, hnext, IterationResult.hitsFloor, hadaptation]
    exact Controller.register_counts engine.controller hits h s

/-- Over a run the count is the number of floor hits, those at the start included. -/
theorem after_counts (engine : Engine σ) (hits : ℕ) (h : engine.controller.Counts hits)
    (history : List Ensemble) :
    (engine.after history).controller.Counts
      (hits + (engine.iterations history).countP IterationResult.hitsFloor) := by
  induction history generalizing engine hits with
  | nil => exact h
  | cons e rest ih =>
    rw [iterations, List.countP_append, ← Nat.add_assoc]
    exact ih (engine.run e).2 _ (run_counts engine hits h e)

/-- The engine counts floor hits. -/
def Counting (engine : Engine σ) : Prop :=
  ∃ hits, engine.controller.Counts hits

theorem run_counting (engine : Engine σ) (h : engine.Counting) (e : Ensemble) :
    (engine.run e).2.Counting :=
  h.imp' _ fun hits hcounts => run_counts engine hits hcounts e

/-- No call lowers the count. -/
theorem impossibleReductions_run (engine : Engine σ) (h : engine.Counting) (e : Ensemble) :
    engine.controller.impossibleReductions ≤ (engine.run e).2.controller.impossibleReductions := by
  obtain ⟨hits, hcounts⟩ := h
  rw [UInt32.le_iff_toNat_le, hcounts.count, (run_counts engine hits hcounts e).count]
  omega

theorem exhausted_run (engine : Engine σ) (h : engine.Counting)
    (hexhausted : engine.scheduleExhausted = true) (e : Ensemble) :
    (engine.run e).2.scheduleExhausted = true := by
  obtain ⟨limit, hlimit, hreached⟩ := (scheduleExhausted_iff engine).mp hexhausted
  rw [scheduleExhausted_iff, config_run]
  exact ⟨limit, hlimit, UInt32.le_trans hreached (impossibleReductions_run engine h e)⟩

/-- Whatever an iteration brings about for good shows in every iteration that follows it. -/
theorem iterations_pairwise (Lasting : Engine σ → Prop) (First Later : IterationResult → Prop)
    (hset : ∀ (engine : Engine σ) e result, engine.Counting →
      engine.conclusion e = some result → First result → Lasting (engine.run e).2)
    (hkeep : ∀ (engine : Engine σ) e, engine.Counting → Lasting engine → Lasting (engine.run e).2)
    (hshow : ∀ (engine : Engine σ) e result, engine.Counting → Lasting engine →
      engine.conclusion e = some result → Later result)
    (engine : Engine σ) (h : engine.Counting) (history : List Ensemble) :
    (engine.iterations history).Pairwise fun earlier later => First earlier → Later later := by
  have hlater (engine : Engine σ) (h : engine.Counting) (hl : Lasting engine)
      (history : List Ensemble) : ∀ r ∈ engine.iterations history, Later r := by
    induction history generalizing engine with
    | nil => exact fun r hr => absurd hr List.not_mem_nil
    | cons e rest ih =>
      intro r hr
      rcases List.mem_append.mp hr with hnow | hrest
      · exact hshow engine e r h hl (Option.mem_toList.mp hnow)
      · exact ih (engine.run e).2 (run_counting engine h e) (hkeep engine e h hl) r hrest
  induction history generalizing engine with
  | nil => exact List.Pairwise.nil
  | cons e rest ih =>
    have hnext := run_counting engine h e
    refine List.pairwise_append.mpr ⟨?_, ih (engine.run e).2 hnext, ?_⟩
    -- a call has one conclusion at most
    · cases engine.conclusion e with
      | none => exact List.Pairwise.nil
      | some result => exact List.pairwise_singleton _ _
    · intro earlier hearlier later hmem hfirst
      exact hlater _ hnext (hset engine e earlier h (Option.mem_toList.mp hearlier) hfirst) rest
        later hmem

/-- Behind a floor hit there is nothing left to halve. -/
theorem floor_of_hitsFloor (engine : Engine σ) (e : Ensemble) (result : IterationResult)
    (hr : engine.conclusion e = some result) (h : result.hitsFloor = true) :
    ¬ 1 < (engine.run e).2.controller.regime.trustRegion := by
  rcases run_concludes engine e with ⟨hnone, _⟩ | ⟨s, result', hsome, hadaptation, _, _⟩
  · cases hnone.symm.trans hr
  · obtain rfl := Option.some.inj (hsome.symm.trans hr)
    rw [IterationResult.hitsFloor, hadaptation] at h
    obtain ⟨htr, _⟩ := run_mono engine e
    exact fun hlt => Controller.floor_of_hit _ s h (UInt32.lt_of_lt_of_le hlt htr)

theorem not_halves_of_floor (engine : Engine σ) (e : Ensemble) (result : IterationResult)
    (hr : engine.conclusion e = some result) (h : ¬ 1 < engine.controller.regime.trustRegion) :
    result.halves = false := by
  rcases run_concludes engine e with ⟨hnone, _⟩ | ⟨s, result', hsome, hadaptation, _, _⟩
  · cases hnone.symm.trans hr
  · obtain rfl := Option.some.inj (hsome.symm.trans hr)
    rw [IterationResult.halves, hadaptation]
    exact Bool.eq_false_iff.mpr fun hhalved => h (Controller.lt_of_halving _ s hhalved)

/-- A result says whether the schedule is exhausted behind its iteration. -/
theorem scheduleExhausted_of_conclusion (engine : Engine σ) (e : Ensemble)
    (result : IterationResult) (hr : engine.conclusion e = some result) :
    result.scheduleExhausted = (engine.run e).2.scheduleExhausted := by
  rcases run_concludes engine e with ⟨hnone, _⟩ | ⟨_, result', hsome, _, _, hexhausted⟩
  · cases hnone.symm.trans hr
  · obtain rfl := Option.some.inj (hsome.symm.trans hr)
    exact hexhausted

/-- No halving follows a floor hit. -/
theorem halves_pairwise (engine : Engine σ) (h : engine.Counting) (history : List Ensemble) :
    (engine.iterations history).Pairwise fun earlier later =>
      earlier.hitsFloor = true → later.halves = false := by
  apply iterations_pairwise fun engine : Engine σ => ¬ 1 < engine.controller.regime.trustRegion
  · exact fun engine e result _ hr hhit => floor_of_hitsFloor engine e result hr hhit
  · intro engine e _ hfloor hlt
    exact hfloor (UInt32.lt_of_lt_of_le hlt (run_mono engine e).1)
  · exact fun engine e result _ hfloor hr => not_halves_of_floor engine e result hr hfloor
  · exact h

/-- Once the schedule is exhausted it stays so. -/
theorem exhausted_pairwise (engine : Engine σ) (h : engine.Counting) (history : List Ensemble) :
    (engine.iterations history).Pairwise fun earlier later =>
      earlier.scheduleExhausted = true → later.scheduleExhausted = true := by
  apply iterations_pairwise fun engine : Engine σ => engine.scheduleExhausted = true
  · intro engine e result _ hr hexhausted
    rwa [← scheduleExhausted_of_conclusion engine e result hr]
  · exact fun engine e hcounting hexhausted => exhausted_run engine hcounting hexhausted e
  · intro engine e result hcounting hexhausted hr
    rw [scheduleExhausted_of_conclusion engine e result hr]
    exact exhausted_run engine hcounting hexhausted e
  · exact h

/-- The count of forbidden halvings is the number of floor hits of the run, and since no halving
follows a floor hit it never goes back. So an exhausted schedule stays exhausted. -/
theorem floorHits_counted (c : EngineConfig) (sink : σ) (start : Engine σ)
    (hstart : create c sink = .ok start) (history : List Ensemble) :
    let now := start.after history
    let iterations := start.iterations history
    now.controller.impossibleReductions.toNat =
      min (iterations.countP IterationResult.hitsFloor) (2^32-1) ∧
    (1 < now.controller.regime.trustRegion → now.controller.impossibleReductions = 0) ∧
    (iterations.Pairwise fun earlier later =>
      earlier.hitsFloor = true → later.halves = false) ∧
    (now.scheduleExhausted = true ↔ ∃ limit, c.maxImpossibleReductions = some limit ∧
      limit ≤ now.controller.impossibleReductions) ∧
    (iterations.Pairwise fun earlier later =>
      earlier.scheduleExhausted = true → later.scheduleExhausted = true) ∧
    ∀ e, start.iterations (history ++ [e]) = iterations ++ (now.conclusion e).toList ∧
      (∀ result, (now.run e).1 = .ok result → now.conclusion e = some result) ∧
      ∀ result, now.conclusion e = some result →
        result.scheduleExhausted = (now.run e).2.scheduleExhausted := by
  obtain ⟨hc, _, rfl⟩ := (create_eq_ok_iff c sink start).mp hstart
  intro now iterations
  have hzero : (initial c sink).controller.Counts 0 := Controller.initial_counts c.adaptation
  have hcounts := after_counts _ 0 hzero history
  rw [Nat.zero_add] at hcounts
  have hnow := after_consistent c _ (initial_sound c hc sink).toConsistent history
  refine ⟨hcounts.count, ?_, halves_pairwise _ ⟨0, hzero⟩ history, ?_,
    exhausted_pairwise _ ⟨0, hzero⟩ history, ?_⟩
  · intro hlt
    rw [← UInt32.toNat_inj, hcounts.count, hcounts.floor hlt]
    rfl
  · rw [← hnow.config]
    exact scheduleExhausted_iff now
  · exact fun e => ⟨iterations_concat _ history e, conclusion_of_result now e,
      scheduleExhausted_of_conclusion now e⟩

/-- A trust region of one cannot be halved: four swings are a floor hit, which a limit of one takes
for the end. The next iteration reports it again, under twice the replications. -/
theorem floorHits_counted_swings :
    let c : EngineConfig :=
      { adaptation := { initialTrustRegion := 1, minEvaluatedIterations := 4 }
        maxImpossibleReductions := some 1 }
    let history : List Ensemble :=
      [.single 2 1.0, .single 2 (-1.0), .single 2 1.0, .single 1 1.0, .single 2 (-1.5), .single 4 1.0]
    c.validate = .ok () ∧ ∃ start, create c NullSink.mk = .ok start ∧
      (start.iterations history).map IterationResult.scheduleExhausted =
        [false, false, false, true, true] ∧
      (start.after history).controller.impossibleReductions.toNat = 1 ∧
      (start.after history).scheduleExhausted = true := by
  intro c history
  have hc : c.validate = .ok () := eq_ok_of_isOk _ (by decide +kernel)
  have hstart := create_ok c hc (by decide) NullSink.mk
  obtain ⟨hcount, _, _, hexhausted, _, _⟩ := floorHits_counted c NullSink.mk _ hstart history
  have hhits : ((initial c NullSink.mk).iterations history).countP IterationResult.hitsFloor =
      1 := by
    decide +kernel
  rw [hhits] at hcount
  refine ⟨hc, _, hstart, by decide +kernel, hcount, hexhausted.mpr ⟨1, rfl, ?_⟩⟩
  rw [UInt32.le_iff_toNat_le, hcount]
  decide

end Engine
end Replanning
