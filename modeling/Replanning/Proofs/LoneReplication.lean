import Replanning.Proofs.Binary64.Positive
import Replanning.Proofs.Engine

namespace Replanning

/-- A single gap has no variance, and counts as an infinite one. -/
theorem GapSample.topmost_withinVariance (s : GapSample) (h : s.gaps.length < 2) :
    Topmost s.withinVariance := by
  have hnone : sampleVariance? s.gaps = none := if_pos h
  rw [withinVariance, hnone]
  change Topmost (1.0 / 0.0)
  exact Or.inr rfl

namespace Controller

/-- A sample with a single gap puts the variance within the window beyond every comparison. -/
theorem topmost_withinVariance (window : List GapSample) (s : GapSample) (hs : s ∈ window)
    (h : s.gaps.length < 2) : Topmost (withinVariance window) := by
  have hne : ¬ window.isEmpty = true := by
    rw [List.isEmpty_iff]
    exact List.ne_nil_of_mem hs
  rw [withinVariance, if_neg hne]
  apply Topmost.div_ofCount
  exact foldl_absorbs Topmost (fun _ _ => Topmost.add) _ _
    (Or.inr ⟨_, List.mem_map_of_mem hs, s.topmost_withinVariance h⟩)

/-- Whatever else the window holds, a sample with a single gap leaves only the doubling. -/
theorem register_lone (c : Controller) (s : GapSample) (a : Adaptation)
    (ha : (c.register s).1.adaptation = some a) (hlone : ∃ x ∈ c.slide s, x.gaps.length < 2) :
    a.action = .replicationsDoubled c.regime.replications (doubled c.regime.replications) false ∧
      (c.register s).2.regime =
        ⟨c.regime.trustRegion, doubled c.regime.replications⟩ ∧
      (c.register s).2.impossibleReductions = c.impossibleReductions := by
  obtain ⟨x, hx, hgaps⟩ := hlone
  have hnot : ¬withinVariance (c.slide s) < betweenVariance (c.slide s) :=
    (topmost_withinVariance _ x hx hgaps).not_lt
  rcases register_eq c s with ⟨_, h⟩ | ⟨_, _, h⟩ | ⟨_, _, h⟩
  · rw [h] at ha
    cases ha
  · rw [h] at ha
    cases ha
  · rw [h] at ha ⊢
    obtain rfl := Option.some.inj ha
    have haction : (c.change s).action =
        .replicationsDoubled c.regime.replications (doubled c.regime.replications) false :=
      if_neg hnot
    dsimp only
    rw [haction]
    exact ⟨rfl, rfl, rfl⟩

end Controller

namespace Engine

variable {σ : Type} [EventSink σ]

/-- A call to an engine with a single replication either keeps the regime or doubles the
replications. -/
theorem run_lone (engine : Engine σ) (h : engine.controller.regime.replications = 1)
    (e : Ensemble) :
    (engine.run e).2.controller.impossibleReductions = engine.controller.impossibleReductions ∧
    ((engine.run e).2.controller.regime = engine.controller.regime ∨
      (engine.run e).2.controller.regime = ⟨engine.controller.regime.trustRegion, 2⟩ ∧
      ∀ result, (engine.run e).1 = .ok result → ∃ a, result.adaptation = some a ∧
        a.action = .replicationsDoubled 1 2 false) := by
  cases hd : engine.decide e with
  | error cause =>
    rw [run_eq, hd]
    exact ⟨rfl, Or.inl rfl⟩
  | ok decided =>
    obtain ⟨gaps, selection, stream⟩ := decided
    -- the sample of this call is in its own window, with a single gap
    let s : GapSample := ⟨engine.iteration, gaps⟩
    have hlone : ∃ x ∈ engine.controller.slide s, x.gaps.length < 2 := by
      refine ⟨s, List.mem_append_right _ List.mem_cons_self, ?_⟩
      change gaps.length < 2
      rw [length_gaps engine e gaps selection stream hd, h]
      decide
    have hnext : (engine.run e).2.controller = (engine.controller.register s).2 := by
      rw [run_eq, hd]
      rfl
    rw [hnext]
    rcases Controller.register_cases engine.controller s with ⟨_, hc⟩ | ⟨a, ha, _, _⟩
    · rw [hc]
      exact ⟨rfl, Or.inl rfl⟩
    · obtain ⟨haction, hregime, hcount⟩ := Controller.register_lone _ s a ha hlone
      rw [h] at haction hregime
      refine ⟨hcount, Or.inr ⟨hregime, ?_⟩⟩
      intro result hresult
      obtain ⟨gaps', selection', stream', hd', rfl⟩ := run_eq_ok engine e result hresult
      obtain ⟨rfl, rfl, rfl⟩ := Prod.mk.injEq .. ▸ Except.ok.inj (hd.symm.trans hd')
      exact ⟨a, ha, haction⟩

/-- As long as there is a single replication, nothing of the regime has changed. -/
theorem after_lone (engine : Engine σ) (h : engine.controller.regime.replications = 1)
    (history : List Ensemble) (hnow : (engine.after history).controller.regime.replications = 1) :
    (engine.after history).controller.regime = engine.controller.regime ∧
      (engine.after history).controller.impossibleReductions =
        engine.controller.impossibleReductions := by
  induction history generalizing engine with
  | nil => exact ⟨rfl, rfl⟩
  | cons e rest ih =>
    obtain ⟨hcount, hregime | ⟨hregime, _⟩⟩ := run_lone engine h e
    · obtain ⟨hsame, hkept⟩ := ih (engine.run e).2 (by rw [hregime, h]) hnow
      exact ⟨hsame.trans hregime, hkept.trans hcount⟩
    -- replications that have been doubled do not come back down to one
    · obtain ⟨_, hmono⟩ := after_mono (engine.run e).2 rest
      change ((engine.run e).2.after rest).controller.regime.replications = 1 at hnow
      rw [hregime, hnow] at hmono
      have hle : (2 : UInt64) ≤ 1 := hmono
      exact absurd hle (by decide)

/-- A single replication never tightens the trust region: an adaptation to a sample with less than
two gaps doubles the replications and changes nothing else. So a run keeps its regime as long as there
is one replication, and leaves it by a doubling. -/
theorem lone_replication_doubles :
    (∀ (c : Controller) (s : GapSample) (a : Adaptation),
      (c.register s).1.adaptation = some a → (∃ x ∈ c.slide s, x.gaps.length < 2) →
      a.action = .replicationsDoubled c.regime.replications (doubled c.regime.replications) false ∧
      (c.register s).2.regime = ⟨c.regime.trustRegion, doubled c.regime.replications⟩ ∧
      (c.register s).2.impossibleReductions = c.impossibleReductions) ∧
    ∀ engine : Engine σ, engine.controller.regime.replications = 1 → ∀ history,
      let start := engine.controller
      let now := engine.after history
      now.controller.regime.replications = 1 →
      now.controller.regime = start.regime ∧
      now.controller.impossibleReductions = start.impossibleReductions ∧
      ∀ e, (now.run e).2.controller.regime.replications ≠ 1 →
        (now.run e).2.controller.regime = ⟨start.regime.trustRegion, 2⟩ ∧
        (now.run e).2.controller.impossibleReductions = start.impossibleReductions ∧
        ∀ result, (now.run e).1 = .ok result → ∃ a, result.adaptation = some a ∧
          a.action = .replicationsDoubled 1 2 false := by
  refine ⟨Controller.register_lone, ?_⟩
  intro engine h history start now hnow
  obtain ⟨hregime, hcount⟩ := after_lone engine h history hnow
  refine ⟨hregime, hcount, ?_⟩
  intro e hleft
  obtain ⟨hkept, hsame | ⟨hdoubled, hresult⟩⟩ := run_lone now hnow e
  · rw [hsame] at hleft
    exact absurd hnow hleft
  · rw [hregime] at hdoubled
    exact ⟨hdoubled, hkept.trans hcount, hresult⟩

end Engine

/-- A run that starts with a single replication. -/
def EngineConfig.lone : EngineConfig where
  adaptation := { initialReplications := 1, minEvaluatedIterations := 2 }

namespace Engine

/-- A sample with a single gap turns a halving into a doubling, here from two replications on. The
gaps of a run with a single replication swing, and the fourth ensemble doubles it. -/
theorem lone_replication_doubles_swings :
    let mixed : Controller :=
      ⟨{ minEvaluatedIterations := 4 }, ⟨16, 2⟩, [⟨0, [3.0]⟩, ⟨1, [1.0, 1.0]⟩, ⟨2, [3.0, 3.0]⟩], 0⟩
    let history : List Ensemble := [.single 1 1.0, .single 1 (-1.0), .single 1 1.0]
    (∃ a, (mixed.register ⟨3, [2.0, 2.0]⟩).1.adaptation = some a ∧
      a.action = .replicationsDoubled 2 4 false ∧
      (mixed.register ⟨3, [2.0, 2.0]⟩).2.regime = ⟨16, 4⟩) ∧
    EngineConfig.lone.validate = .ok () ∧ ∃ start, create .lone NullSink.mk = .ok start ∧
      start.controller.regime.replications = 1 ∧
      (start.after history).controller.regime.replications = 1 ∧
      ((start.after history).run (.single 1 (-1.5))).2.controller.regime = ⟨16, 2⟩ := by
  intro mixed history
  obtain ⟨hcontroller, hengine⟩ := @lone_replication_doubles NullSink _
  have hsome : (mixed.register ⟨3, [2.0, 2.0]⟩).1.adaptation.isSome = true := by decide +kernel
  obtain ⟨a, ha⟩ := Option.isSome_iff_exists.mp hsome
  obtain ⟨haction, hregime, _⟩ := hcontroller mixed ⟨3, [2.0, 2.0]⟩ a ha
    ⟨⟨0, [3.0]⟩, List.mem_cons_self, by decide⟩
  have hc : EngineConfig.lone.validate = .ok () := eq_ok_of_isOk _ (by decide +kernel)
  have hone : ((initial .lone NullSink.mk).after history).controller.regime.replications = 1 := by
    decide +kernel
  have hleft : (((initial .lone NullSink.mk).after history).run
      (.single 1 (-1.5))).2.controller.regime.replications ≠ 1 := by
    decide +kernel
  obtain ⟨_, _, hlater⟩ := hengine (initial .lone NullSink.mk) rfl history hone
  obtain ⟨hdoubled, _⟩ := hlater (.single 1 (-1.5)) hleft
  exact ⟨⟨a, ha, haction, hregime⟩, hc, _, create_ok .lone hc (by decide) NullSink.mk, rfl, hone, hdoubled⟩

end Engine
end Replanning
