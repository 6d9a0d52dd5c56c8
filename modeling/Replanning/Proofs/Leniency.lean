import Replanning.Proofs.Binary64.Signed
import Replanning.Proofs.WindowContents

namespace Replanning

/-- Under another critical value a test comes to the same estimates and compares one of them. -/
theorem DickeyFuller.test_withCritical (u v : Float) (series : List Float) :
    test v series =
      { test u series with stationary := (test u series).tStatistic.any fun t => t < v } := by
  unfold test
  dsimp only
  split_ifs <;> rfl

theorem DickeyFuller.stationary_test (u : Float) (series : List Float) :
    (test u series).stationary = (test u series).tStatistic.any fun t => t < u :=
  congrArg stationary (test_withCritical u u series)

/-- What a test rejects, a more lenient one rejects. -/
theorem DickeyFuller.stationary_of_le (u v : Float) (huv : u ≤ v) (series : List Float)
    (h : (test u series).stationary = true) : (test v series).stationary = true := by
  rw [stationary_test, Option.any_eq_true] at h
  obtain ⟨t, ht, hlt⟩ := h
  rw [test_withCritical u v, Option.any_eq_true]
  exact ⟨t, ht, decide_eq_true
    (Binary64.float_lt_of_lt_of_le t u v (of_decide_eq_true hlt) huv)⟩

namespace Controller

/-- The same controller with another critical value. -/
def withCritical (c : Controller) (v : Float) : Controller :=
  { c with config.criticalValue := v }

theorem trial_withCritical (c : Controller) (v : Float) (s : GapSample) :
    (c.withCritical v).trial s =
      { c.trial s with stationary := ((c.withCritical v).trial s).stationary } := by
  unfold trial
  rw [DickeyFuller.test_withCritical c.config.criticalValue]
  rfl

theorem change_withCritical (c : Controller) (v : Float) (s : GapSample) :
    (c.withCritical v).change s = c.change s := by
  have ht : ((c.withCritical v).trial s).tStatistic = (c.trial s).tStatistic := by
    rw [trial_withCritical]
  unfold change
  rw [ht]
  rfl

/-- A sample that the controller adapts to is one that a more lenient controller adapts to. Where
both adapt or neither does, they are the same behind it but for the critical value. -/
theorem register_withCritical (c : Controller) (v : Float) (hv : c.config.criticalValue ≤ v)
    (s : GapSample) :
    ((c.register s).1.adaptation.isSome = true →
      ((c.withCritical v).register s).1.adaptation.isSome = true) ∧
    (((c.withCritical v).register s).1.adaptation.isSome = (c.register s).1.adaptation.isSome →
      (c.withCritical v).register s = ((c.register s).1, (c.register s).2.withCritical v)) := by
  have htrial := trial_withCritical c v s
  have hstationary : (c.trial s).stationary = true → ((c.withCritical v).trial s).stationary = true :=
    DickeyFuller.stationary_of_le _ v hv _
  have hchange := change_withCritical c v s
  -- the windows and what they have to reach are the same
  rcases register_eq c s with ⟨hlen, heq⟩ | ⟨hlen, htest, heq⟩ | ⟨hlen, htest, heq⟩
  · rcases register_eq (c.withCritical v) s with ⟨_, hlenient⟩ | ⟨hlen', _⟩ | ⟨hlen', _⟩
    · rw [heq, hlenient]
      exact ⟨id, fun _ => rfl⟩
    · exact absurd hlen (not_lt.mpr hlen')
    · exact absurd hlen (not_lt.mpr hlen')
  · rcases register_eq (c.withCritical v) s with ⟨hlen', _⟩ | ⟨_, htest', hlenient⟩ | ⟨_, _, hlenient⟩
    · exact absurd hlen' (not_lt.mpr hlen)
    · rw [htest', ← htest] at htrial
      rw [heq, hlenient, htrial]
      exact ⟨id, fun _ => rfl⟩
    · rw [heq, hlenient]
      exact ⟨nofun, nofun⟩
  · rcases register_eq (c.withCritical v) s with ⟨hlen', _⟩ | ⟨_, htest', _⟩ | ⟨_, htest', hlenient⟩
    · exact absurd hlen' (not_lt.mpr hlen)
    · rw [hstationary htest] at htest'
      cases htest'
    · rw [htest', ← htest] at htrial
      rw [heq, hlenient, htrial, hchange]
      exact ⟨id, fun _ => rfl⟩

/-- While the more lenient controller is quiet, the two stay together. -/
theorem registerAll_withCritical (c : Controller) (v : Float) (hv : c.config.criticalValue ≤ v)
    (samples : List GapSample)
    (hquiet : ∀ o ∈ ((c.withCritical v).registerAll samples).1, o.adaptation = none) :
    (c.withCritical v).registerAll samples =
      ((c.registerAll samples).1, (c.registerAll samples).2.withCritical v) := by
  induction samples generalizing c with
  | nil => rfl
  | cons s rest ih =>
    rw [registerAll] at hquiet
    obtain ⟨hfirst, hrest⟩ := List.forall_mem_cons.mp hquiet
    obtain ⟨hlater, hsame⟩ := register_withCritical c v hv s
    -- an adaptation of the stricter controller would be one of the other as well
    have hnone : (c.register s).1.adaptation.isSome = false := by
      rw [← Bool.not_eq_true]
      intro hsome
      rw [← Option.isNone_iff_eq_none, ← Option.not_isSome, hlater hsome] at hfirst
      cases hfirst
    have hstep := hsame (by rw [hfirst, hnone]; rfl)
    rw [hstep] at hrest
    have hv' : (c.register s).2.config.criticalValue ≤ v := (config_register c s).symm ▸ hv
    rw [registerAll, registerAll, hstep]
    dsimp only
    rw [ih _ hv' hrest]

/-- A lenient critical value never detects later: until the more lenient controller adapts, the two
are in one state, and where both adapt to the next sample they adapt alike. -/
theorem lenient_detects_first (c : AdaptationConfig) (lenient : Float) (strict : Controller)
    (hstrict : create c = .ok strict)
    (hl : { c with criticalValue := lenient }.validate = .ok ()) (hle : c.criticalValue ≤ lenient)
    (samples : List GapSample) :
    ∃ loose, create { c with criticalValue := lenient } = .ok loose ∧
      ((∀ o ∈ (loose.registerAll samples).1, o.adaptation = none) →
        (∀ o ∈ (strict.registerAll samples).1, o.adaptation = none) ∧
        (loose.registerAll samples).2 = (strict.registerAll samples).2.withCritical lenient ∧
        ∀ s a a', ((strict.registerAll samples).2.register s).1.adaptation = some a →
          ((loose.registerAll samples).2.register s).1.adaptation = some a' →
          a = a' ∧ ((loose.registerAll samples).2.register s).2 =
            ((strict.registerAll samples).2.register s).2.withCritical lenient) := by
  obtain ⟨_, hroom, rfl⟩ := (create_eq_ok_iff c strict).mp hstrict
  refine ⟨_, create_ok _ hl hroom, ?_⟩
  intro hquiet
  have hrun := registerAll_withCritical (initial c) lenient hle samples hquiet
  have hsame : ((initial { c with criticalValue := lenient }).registerAll samples) =
      (((initial c).registerAll samples).1,
        ((initial c).registerAll samples).2.withCritical lenient) := hrun
  rw [hsame] at hquiet ⊢
  refine ⟨hquiet, rfl, ?_⟩
  intro s a a' ha ha'
  have hv : ((initial c).registerAll samples).2.config.criticalValue ≤ lenient := by
    rw [config_registerAll]
    exact hle
  obtain ⟨_, hnext⟩ := register_withCritical _ lenient hv s
  have hstep := hnext (by rw [ha, ha']; rfl)
  rw [hstep] at ha' ⊢
  exact ⟨Option.some.inj (ha.symm.trans ha'), rfl⟩

/-- Three samples are too few for a test, and the fourth one is followed by the same halving under
both critical values. -/
theorem lenient_detects_first_swings :
    let c : AdaptationConfig := { minEvaluatedIterations := 4 }
    let samples : List GapSample := [⟨0, [3.0, 3.0]⟩, ⟨1, [1.0, 1.0]⟩, ⟨2, [3.0, 3.0]⟩]
    c.validate = .ok () ∧ { c with criticalValue := -1.0 }.validate = .ok () ∧
      c.criticalValue ≤ -1.0 ∧
      ∃ strict loose, create c = .ok strict ∧
        create { c with criticalValue := -1.0 } = .ok loose ∧
        (∀ o ∈ (loose.registerAll samples).1, o.adaptation = none) ∧
        (loose.registerAll samples).2 = (strict.registerAll samples).2.withCritical (-1.0) ∧
        ((strict.registerAll samples).2.register ⟨3, [2.0, 2.0]⟩).1.adaptation =
          ((loose.registerAll samples).2.register ⟨3, [2.0, 2.0]⟩).1.adaptation ∧
        ((strict.registerAll samples).2.register ⟨3, [2.0, 2.0]⟩).1.adaptation.isSome = true := by
  intro c samples
  have hc : c.validate = .ok () := eq_ok_of_isOk _ (by decide +kernel)
  have hl : { c with criticalValue := -1.0 }.validate = .ok () := eq_ok_of_isOk _ (by decide +kernel)
  have hle : c.criticalValue ≤ -1.0 := by decide +kernel
  have hstrict := create_ok c hc (by decide)
  obtain ⟨loose, hloose, hboth⟩ := lenient_detects_first c (-1.0) _ hstrict hl hle samples
  obtain ⟨_, _, rfl⟩ := (create_eq_ok_iff _ loose).mp hloose
  have hquiet : ∀ o ∈ ((initial { c with criticalValue := -1.0 }).registerAll samples).1,
      o.adaptation.isNone = true := by
    decide +kernel
  have hsome : (((initial c).registerAll samples).2.register ⟨3, [2.0, 2.0]⟩).1.adaptation.isSome =
      true := by
    decide +kernel
  have hsome' : (((initial { c with criticalValue := -1.0 }).registerAll samples).2.register
      ⟨3, [2.0, 2.0]⟩).1.adaptation.isSome = true := by
    decide +kernel
  have hnone := fun o ho => Option.isNone_iff_eq_none.mp (hquiet o ho)
  obtain ⟨_, hsame, hnext⟩ := hboth hnone
  obtain ⟨a, ha⟩ := Option.isSome_iff_exists.mp hsome
  obtain ⟨a', ha'⟩ := Option.isSome_iff_exists.mp hsome'
  obtain ⟨rfl, _⟩ := hnext _ a a' ha ha'
  exact ⟨hc, hl, hle, _, _, hstrict, hloose, hnone, hsame, ha.trans ha'.symm, hsome⟩

end Controller
end Replanning
