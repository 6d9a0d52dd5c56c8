import Replanning.Proofs.Engine
import Replanning.Proofs.Ensemble

namespace Replanning
namespace ControllerSnapshot

/-- A state that a controller with these settings can be in. -/
structure Admissible (s : ControllerSnapshot) (c : AdaptationConfig) : Prop where
  trustRegion : 1 ≤ s.regime.trustRegion
  replications : 1 ≤ s.regime.replications
  window : s.window.length ≤ c.maxWindow.toNat

theorem not_admissible_iff (s : ControllerSnapshot) (c : AdaptationConfig) :
    ¬ s.Admissible c ↔ s.regime.trustRegion < 1 ∨ s.regime.replications < 1 ∨
      c.maxWindow.toNat < s.window.length := by
  rw [← UInt32.not_le, ← UInt64.not_le, ← Nat.not_le]
  constructor
  · intro h
    by_contra hnone
    push Not at hnone
    exact h ⟨hnone.1, hnone.2.1, hnone.2.2⟩
  · rintro (htr | hrep | hlen) h
    · exact htr h.trustRegion
    · exact hrep h.replications
    · exact hlen h.window

end ControllerSnapshot

namespace Controller

/-- The controller that goes on from a saved state. -/
def resumed (c : AdaptationConfig) (s : ControllerSnapshot) : Controller :=
  ⟨c, s.regime, s.window, s.impossibleReductions⟩

/-- A controller is restored exactly from the states that it can be in. -/
theorem restore_eq_ok_iff (c : AdaptationConfig) (hc : c.validate = .ok ()) (hroom : c.Reservable)
    (s : ControllerSnapshot) (restored : Controller) :
    restore c s = .ok restored ↔
      s.Admissible c ∧ restored = resumed c s := by
  have hfloor : ¬ (decide (s.regime.trustRegion < 1) || decide (s.regime.replications < 1)) = true ↔
      1 ≤ s.regime.trustRegion ∧ 1 ≤ s.regime.replications := by
    rw [Bool.or_eq_true, decide_eq_true_eq, decide_eq_true_eq, not_or, UInt32.not_lt, UInt64.not_lt]
  rw [restore, create_ok c hc hroom]
  constructor
  · intro h
    obtain ⟨hfloors, h⟩ := (guard_eq_ok _ _ _ _ _).mp h
    obtain ⟨hlen, h⟩ := (guard_eq_ok _ _ pure _ _).mp h
    obtain ⟨htr, hrep⟩ := hfloor.mp hfloors
    exact ⟨⟨htr, hrep, Nat.not_lt.mp hlen⟩, (Except.ok.inj h).symm⟩
  · rintro ⟨hs, rfl⟩
    refine (guard_eq_ok _ _ _ _ _).mpr ⟨hfloor.mpr ⟨hs.trustRegion, hs.replications⟩, ?_⟩
    exact (guard_eq_ok _ _ pure _ _).mpr ⟨Nat.not_lt.mpr hs.window, rfl⟩

/-- Settings that a controller starts from are not what a state is refused for. -/
theorem restore_refused (c : AdaptationConfig) (hc : c.validate = .ok ()) (hroom : c.Reservable)
    (s : ControllerSnapshot) (cause : RestoreError) (h : restore c s = .error cause) :
    EngineError.ofRestore cause = .invalidSnapshot cause := by
  rw [restore, create_ok c hc hroom] at h
  obtain ⟨_, rfl⟩ | ⟨_, h⟩ := (guard_eq_error _ _ _ _ _).mp h
  · rfl
  obtain ⟨_, rfl⟩ | ⟨_, h⟩ := (guard_eq_error _ _ pure _ _).mp h
  · rfl
  · exact nomatch h

/-- A sound controller is in a state that its settings admit. -/
theorem Sound.admissible {c : Controller} (h : c.Sound) : c.snapshot.Admissible c.config where
  trustRegion := UInt32.le_iff_toNat_le.mpr h.trustRegion
  replications := UInt64.le_iff_toNat_le.mpr h.replications
  window := h.window

/-- A restored controller is sound, though its trust region may be beyond its settings. -/
theorem resumed_sound (c : AdaptationConfig) (hc : c.validate = .ok ()) (s : ControllerSnapshot)
    (hs : s.Admissible c) : (resumed c s).Sound where
  valid := hc
  trustRegion := UInt32.le_iff_toNat_le.mp hs.trustRegion
  replications := UInt64.le_iff_toNat_le.mp hs.replications
  window := hs.window

end Controller

namespace Engine

variable {σ : Type}

/-- The engine that goes on from a saved state. -/
def resumed (c : EngineConfig) (s : EngineSnapshot) (sink : σ) : Engine σ :=
  ⟨c, c.hash, .resumed c.adaptation s.controller, .ofSeed s.streamState, s.iteration, sink⟩

/-- Behind the room for the window the digests are compared, and then everything depends on the
controller. -/
theorem restore_eq (c : EngineConfig) (hc : c.validate = .ok ()) (hroom : c.adaptation.Reservable)
    (s : EngineSnapshot) (sink : σ) :
    restore c s sink =
      if s.configHash ≠ c.hash then .error (.configMismatch s.configHash c.hash)
      else
        match Controller.restore c.adaptation s.controller with
        | .error cause => .error (.ofRestore cause)
        | .ok controller => .ok { resumed c s sink with controller := controller } := by
  rw [restore, create_ok c hc hroom sink]
  by_cases hhash : s.configHash ≠ c.hash
  · rw [if_pos hhash]
    exact if_pos hhash
  · rw [if_neg hhash]
    refine (if_neg hhash).trans ?_
    cases Controller.restore c.adaptation s.controller with
    | error cause => rfl
    | ok controller => rfl

/-- Everything that restoring can come to. -/
theorem restore_cases (c : EngineConfig) (hc : c.validate = .ok ()) (s : EngineSnapshot)
    (sink : σ) :
    (¬ c.adaptation.Reservable ∧ restore c s sink = .error .capacityOverflow) ∨
    (c.adaptation.Reservable ∧ s.configHash ≠ c.hash ∧
      restore c s sink = .error (.configMismatch s.configHash c.hash)) ∨
    (c.adaptation.Reservable ∧ s.configHash = c.hash ∧ ¬ s.controller.Admissible c.adaptation ∧
      ∃ cause, restore c s sink = .error (.invalidSnapshot cause)) ∨
    (c.adaptation.Reservable ∧ s.configHash = c.hash ∧ s.controller.Admissible c.adaptation ∧
      restore c s sink = .ok (resumed c s sink)) := by
  obtain ⟨_, ha⟩ := c.parts_valid hc
  by_cases hroom : c.adaptation.Reservable
  · have hrestored := Controller.restore_eq_ok_iff c.adaptation ha hroom s.controller
    rw [restore_eq c hc hroom]
    apply Or.inr
    by_cases hhash : s.configHash = c.hash
    · rw [if_neg (not_not.mpr hhash)]
      apply Or.inr
      cases hcontroller : Controller.restore c.adaptation s.controller with
      | error cause =>
        have hcause := Controller.restore_refused c.adaptation ha hroom _ cause hcontroller
        refine Or.inl ⟨hroom, hhash, ?_, cause, congrArg Except.error hcause⟩
        intro hs
        exact nomatch hcontroller.symm.trans ((hrestored _).mpr ⟨hs, rfl⟩)
      | ok controller =>
        obtain ⟨hs, rfl⟩ := (hrestored controller).mp hcontroller
        exact Or.inr ⟨hroom, hhash, hs, rfl⟩
    · rw [if_pos hhash]
      exact Or.inl ⟨hroom, hhash, rfl⟩
  -- the engine that the state would be taken up into is not even created
  · refine Or.inl ⟨hroom, ?_⟩
    rw [restore, create_overflow c hc hroom]
    rfl

theorem resumed_consistent (c : EngineConfig) (hc : c.validate = .ok ()) (s : EngineSnapshot)
    (hs : s.controller.Admissible c.adaptation) (sink : σ) : (resumed c s sink).Consistent c := by
  obtain ⟨_, ha⟩ := c.parts_valid hc
  exact ⟨rfl, rfl, rfl, Controller.resumed_sound c.adaptation ha s.controller hs,
    RandomStream.ofSeed_live s.streamState⟩

/-- The engines of a configuration: one is created or restored under it, and may have run since. -/
inductive Running [EventSink σ] (c : EngineConfig) : Engine σ → Prop where
  | created (sink : σ) (engine : Engine σ) (h : create c sink = .ok engine) : Running c engine
  | restored (s : EngineSnapshot) (sink : σ) (engine : Engine σ)
      (h : restore c s sink = .ok engine) : Running c engine
  | run (engine : Engine σ) (e : Ensemble) (h : Running c engine) : Running c (engine.run e).2

/-- What is saved right away is what has been taken up; only the word zero of the stream has been
replaced. -/
theorem snapshot_resumed (c : EngineConfig) (s : EngineSnapshot) (hhash : s.configHash = c.hash)
    (sink : σ) :
    (resumed c s sink).snapshot =
      { s with streamState := if s.streamState = 0 then 1 else s.streamState } := by
  rw [snapshot, resumed, ← hhash]
  rfl

/-- Whatever the state, nothing is restored exactly if the window cannot be laid out. -/
theorem restore_overflow_iff (c : EngineConfig) (hc : c.validate = .ok ()) (s : EngineSnapshot)
    (sink : σ) :
    restore c s sink = .error .capacityOverflow ↔ ¬ c.adaptation.Reservable := by
  rcases restore_cases c hc s sink with
    ⟨hroom, hrestore⟩ | ⟨hroom, _, hrestore⟩ | ⟨hroom, _, _, cause, hrestore⟩ |
      ⟨hroom, _, _, hrestore⟩
  · exact iff_of_true hrestore hroom
  all_goals simp only [hrestore, hroom, Except.error.injEq, reduceCtorEq, not_true_eq_false]

/-- A state is refused for its digest exactly if this is another one, and the refusal names both. -/
theorem restore_mismatch_iff (c : EngineConfig) (hc : c.validate = .ok ()) (s : EngineSnapshot)
    (sink : σ) (saved asked : String) :
    restore c s sink = .error (.configMismatch saved asked) ↔
      c.adaptation.Reservable ∧ s.configHash ≠ c.hash ∧ saved = s.configHash ∧ asked = c.hash := by
  rcases restore_cases c hc s sink with
    ⟨hroom, hrestore⟩ | ⟨hroom, hhash, hrestore⟩ | ⟨_, hhash, _, cause, hrestore⟩ |
      ⟨_, hhash, _, hrestore⟩
  · simp only [hrestore, hroom, Except.error.injEq, reduceCtorEq, false_and]
  · rw [hrestore]
    constructor
    · intro h
      cases h
      exact ⟨hroom, hhash, rfl, rfl⟩
    · rintro ⟨_, _, rfl, rfl⟩
      rfl
  -- with the digest of the configuration there is another outcome
  · simp only [hrestore, hhash, Except.error.injEq, reduceCtorEq, ne_eq, not_true_eq_false,
      false_and, and_false]
  · simp only [hrestore, hhash, reduceCtorEq, ne_eq, not_true_eq_false, false_and, and_false]

/-- With the digest of the configuration, a state is refused exactly if no controller can be in
it. -/
theorem restore_invalid_iff (c : EngineConfig) (hc : c.validate = .ok ()) (s : EngineSnapshot)
    (sink : σ) :
    (∃ cause, restore c s sink = .error (.invalidSnapshot cause)) ↔
      c.adaptation.Reservable ∧ s.configHash = c.hash ∧
        ¬ s.controller.Admissible c.adaptation := by
  rcases restore_cases c hc s sink with
    ⟨hroom, hrestore⟩ | ⟨_, hhash, hrestore⟩ | ⟨hroom, hhash, hs, hrefused⟩ |
      ⟨_, _, hs, hrestore⟩
  · simp only [hrestore, hroom, Except.error.injEq, reduceCtorEq, exists_false, false_and]
  · simp only [hrestore, hhash, Except.error.injEq, reduceCtorEq, exists_false, false_and, and_false]
  · exact iff_of_true hrefused ⟨hroom, hhash, hs⟩
  · simp only [hrestore, hs, reduceCtorEq, exists_false, not_true_eq_false, and_false]

/-- Every other state is taken up. -/
theorem restore_eq_ok_iff (c : EngineConfig) (hc : c.validate = .ok ()) (s : EngineSnapshot)
    (sink : σ) (engine : Engine σ) :
    restore c s sink = .ok engine ↔ c.adaptation.Reservable ∧ s.configHash = c.hash ∧
      s.controller.Admissible c.adaptation ∧ engine = resumed c s sink := by
  rcases restore_cases c hc s sink with
    ⟨hroom, hrestore⟩ | ⟨_, hhash, hrestore⟩ | ⟨_, _, hs, cause, hrestore⟩ |
      ⟨hroom, hhash, hs, hrestore⟩
  · simp only [hrestore, hroom, reduceCtorEq, false_and]
  · simp only [hrestore, hhash, reduceCtorEq, false_and, and_false]
  · simp only [hrestore, hs, reduceCtorEq, false_and, and_false]
  · rw [hrestore, Except.ok.injEq]
    constructor
    · intro h
      exact ⟨hroom, hhash, hs, h.symm⟩
    · rintro ⟨_, _, _, h⟩
      exact h.symm

/-- However an engine has come about, it is consistent with its configuration. -/
theorem Running.consistent [EventSink σ] {c : EngineConfig} {engine : Engine σ}
    (h : Running c engine) (hc : c.validate = .ok ()) : engine.Consistent c := by
  induction h with
  | created sink engine h =>
    obtain ⟨_, _, rfl⟩ := (create_eq_ok_iff c sink engine).mp h
    exact (initial_sound c hc sink).toConsistent
  | restored s sink engine h =>
    obtain ⟨_, _, hs, rfl⟩ := (restore_eq_ok_iff c hc s sink engine).mp h
    exact resumed_consistent c hc s hs sink
  | run engine e _ ih => exact run_consistent c engine ih e

/-- What restoring a saved state comes to, whoever has written it, and that what is checked then is
enough for every later run. Only a window that cannot be laid out keeps a valid configuration from
judging the state. -/
theorem restore_accepts_consistent [EventSink σ] (c : EngineConfig) (hc : c.validate = .ok ())
    (s : EngineSnapshot) (sink : σ) :
    (restore c s sink = .error .capacityOverflow ↔ ¬ c.adaptation.Reservable) ∧
    (∀ saved asked, restore c s sink = .error (.configMismatch saved asked) ↔
      c.adaptation.Reservable ∧ s.configHash ≠ c.hash ∧ saved = s.configHash ∧ asked = c.hash) ∧
    ((∃ cause, restore c s sink = .error (.invalidSnapshot cause)) ↔
      c.adaptation.Reservable ∧ s.configHash = c.hash ∧ (s.controller.regime.trustRegion < 1 ∨
        s.controller.regime.replications < 1 ∨
        c.adaptation.maxWindow.toNat < s.controller.window.length)) ∧
    ((∃ engine, restore c s sink = .ok engine) ↔
      c.adaptation.Reservable ∧ s.configHash = c.hash ∧ 1 ≤ s.controller.regime.trustRegion ∧
        1 ≤ s.controller.regime.replications ∧
        s.controller.window.length ≤ c.adaptation.maxWindow.toNat) ∧
    ∀ engine, restore c s sink = .ok engine →
      engine.snapshot = { s with streamState := if s.streamState = 0 then 1 else s.streamState } ∧
      ∀ history,
        let now := (engine.after history).snapshot
        1 ≤ now.controller.regime.trustRegion ∧ 1 ≤ now.controller.regime.replications ∧
        now.controller.window.length ≤ c.adaptation.maxWindow.toNat ∧ now.streamState ≠ 0 ∧
        now.controller.regime.trustRegion ≤ s.controller.regime.trustRegion ∧
        s.controller.regime.replications ≤ now.controller.regime.replications := by
  refine ⟨restore_overflow_iff c hc s sink, restore_mismatch_iff c hc s sink, ?_, ?_, ?_⟩
  · rw [restore_invalid_iff c hc s sink, ControllerSnapshot.not_admissible_iff]
  · constructor
    · rintro ⟨engine, h⟩
      obtain ⟨hroom, hhash, hs, _⟩ := (restore_eq_ok_iff c hc s sink engine).mp h
      exact ⟨hroom, hhash, hs.trustRegion, hs.replications, hs.window⟩
    · rintro ⟨hroom, hhash, htr, hrep, hlen⟩
      exact ⟨_, (restore_eq_ok_iff c hc s sink _).mpr ⟨hroom, hhash, ⟨htr, hrep, hlen⟩, rfl⟩⟩
  · intro engine h
    obtain ⟨_, hhash, hs, rfl⟩ := (restore_eq_ok_iff c hc s sink engine).mp h
    refine ⟨snapshot_resumed c s hhash sink, ?_⟩
    intro history now
    -- the invariant of a run does not ask how its engine came about
    have hnow := after_consistent c _ (resumed_consistent c hc s hs sink) history
    have hadmissible := hnow.controller.admissible
    rw [hnow.settings] at hadmissible
    obtain ⟨htr, hrep⟩ := after_mono (resumed c s sink) history
    exact ⟨hadmissible.trustRegion, hadmissible.replications, hadmissible.window, hnow.stream, htr,
      hrep⟩

/-- A saved state with a trust region that no run leads to and a stream that has stopped is taken
up, with a stream that goes on. The same state is refused without a trust region, and under another
digest. -/
theorem restore_accepts_consistent_tampered :
    let s : EngineSnapshot :=
      ⟨7, 0, ⟨⟨1000, 2⟩, 3, [⟨5, [1.0, -1.0]⟩, ⟨6, []⟩]⟩, ({} : EngineConfig).hash⟩
    let floored : EngineSnapshot := { s with controller.regime.trustRegion := 0 }
    let foreign : EngineSnapshot := { s with configHash := s.configHash ++ "0" }
    ({} : EngineConfig).validate = .ok () ∧
    (∃ engine, restore {} s EventLog.empty = .ok engine ∧ engine.snapshot.streamState = 1 ∧
      (engine.after [.rivals, ⟨3, []⟩]).snapshot.streamState ≠ 0 ∧
      (engine.after [.rivals, ⟨3, []⟩]).snapshot.controller.regime.trustRegion ≤ 1000) ∧
    (∃ cause, restore {} floored EventLog.empty = .error (.invalidSnapshot cause)) ∧
    restore {} foreign EventLog.empty =
      .error (.configMismatch foreign.configHash ({} : EngineConfig).hash) := by
  intro s floored foreign
  have hc := EngineConfig.default_valid
  have hroom : ({} : EngineConfig).adaptation.Reservable := by decide
  obtain ⟨_, _, _, hok, hrun⟩ := restore_accepts_consistent {} hc s EventLog.empty
  obtain ⟨_, _, hinvalid, _⟩ := restore_accepts_consistent {} hc floored EventLog.empty
  obtain ⟨_, hmismatch, _⟩ := restore_accepts_consistent {} hc foreign EventLog.empty
  have hlen : s.controller.window.length ≤ ({} : EngineConfig).adaptation.maxWindow.toNat := by
    decide
  obtain ⟨engine, hengine⟩ := hok.mpr ⟨hroom, rfl, by decide, by decide, hlen⟩
  obtain ⟨hsaved, hlater⟩ := hrun engine hengine
  obtain ⟨_, _, _, hlive, htr, _⟩ := hlater [.rivals, ⟨3, []⟩]
  have hone : engine.snapshot.streamState = 1 := by
    rw [hsaved]
    rfl
  have hforeign : foreign.configHash ≠ ({} : EngineConfig).hash := by
    intro h
    have hlength := congrArg String.length h
    rw [String.length_append] at hlength
    exact absurd hlength (Nat.succ_ne_self _)
  exact ⟨hc, ⟨engine, hengine, hone, hlive, htr⟩, hinvalid.mpr ⟨hroom, rfl, Or.inl (by decide)⟩,
    (hmismatch _ _).mpr ⟨hroom, hforeign, rfl, rfl⟩⟩

end Engine

/-- A configuration that passes its checks with a window of `2^60` samples. -/
def EngineConfig.wide : EngineConfig where
  adaptation := { maxWindow := 1152921504606846976 }

theorem EngineConfig.wide_valid : wide.validate = .ok () :=
  eq_ok_of_isOk _ (by decide +kernel)

theorem EngineConfig.not_reservable_wide : ¬ wide.adaptation.Reservable := by
  decide

theorem EngineConfig.hash_ne_wide : ({} : EngineConfig).hash ≠ wide.hash := by
  decide +kernel

/-- Under a window that cannot be laid out a foreign state is not refused for its digest, which
nothing comes to compare. -/
theorem Engine.restore_lost_window :
    let s := (initial {} EventLog.empty).snapshot
    EngineConfig.wide.validate = .ok () ∧ s.configHash ≠ EngineConfig.wide.hash ∧
      restore .wide s EventLog.empty = .error .capacityOverflow ∧
      ¬ ∃ saved asked, restore .wide s EventLog.empty = .error (.configMismatch saved asked) := by
  intro s
  have hc := EngineConfig.wide_valid
  have hlost :=
    (restore_overflow_iff .wide hc s EventLog.empty).mpr EngineConfig.not_reservable_wide
  refine ⟨hc, EngineConfig.hash_ne_wide, hlost, ?_⟩
  rintro ⟨saved, asked, h⟩
  exact nomatch hlost.symm.trans h

end Replanning
