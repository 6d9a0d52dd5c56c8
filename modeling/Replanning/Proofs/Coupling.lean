import Replanning.Proofs.Acceptance
import Replanning.Proofs.UnitDraw

namespace Replanning

namespace Policy

variable (admitNegativeGaps : Bool)

theorem drawAll_cons (rate : Float) (c : Candidate) (ranked : List Candidate) (s : RandomStream) :
    (drawAll rate admitNegativeGaps (c :: ranked) s).1 =
      c.decide admitNegativeGaps (s.chance rate).1 ::
        (drawAll rate admitNegativeGaps ranked s.next.2).1 :=
  rfl

/-- Every candidate has the same draw in both runs. -/
theorem drawAll_nested (p q : Float) (h : p ≤ q) (ranked : List Candidate) (s : RandomStream) :
    Decision.Nested (drawAll p admitNegativeGaps ranked s).1
      (drawAll q admitNegativeGaps ranked s).1 := by
  induction ranked generalizing s with
  | nil => exact List.Forall₂.nil
  | cons c rest ih =>
    rw [drawAll_cons, drawAll_cons]
    exact List.Forall₂.cons (c.verdict_decide_mono admitNegativeGaps (s.chance_mono h)) (ih s.next.2)

theorem drawAll_negative (rate : Float) (ranked : List Candidate) (s : RandomStream) :
    Candidate.withVerdict .rejectedNegativeGap ranked (drawAll rate admitNegativeGaps ranked s).1 =
      ranked.filter (!·.admissible admitNegativeGaps) := by
  induction ranked generalizing s with
  | nil => rfl
  | cons c rest ih =>
    rw [drawAll_cons, Candidate.withVerdict_cons, c.verdict_decide, List.filter_cons, ih]
    cases c.admissible admitNegativeGaps with
    | false => rfl
    | true => cases (s.chance rate).1 <;> rfl

/-- Where all draws come out alike, the candidates are accepted alike. -/
theorem drawAll_accepted (rate : Float) (drawn : Bool)
    (h : ∀ s : RandomStream, (s.chance rate).1 = drawn) (ranked : List Candidate) (s : RandomStream) :
    Candidate.withVerdict .accepted ranked (drawAll rate admitNegativeGaps ranked s).1 =
      ranked.filter fun c => drawn && c.admissible admitNegativeGaps := by
  induction ranked generalizing s with
  | nil => rfl
  | cons c rest ih =>
    rw [drawAll_cons, h s, Candidate.withVerdict_cons, c.verdict_decide, List.filter_cons, ih]
    cases c.admissible admitNegativeGaps <;> cases drawn <;> rfl

theorem select_uniform (rate : Float) (e : Ensemble) (ranked : List Candidate) (t : UInt32)
    (s : RandomStream) :
    (uniform rate admitNegativeGaps).select e ranked t s =
      .ok (⟨"uniform", (drawAll rate admitNegativeGaps ranked s).1, none⟩,
        .skip ranked.length s) := by
  rw [← drawAll_stream rate admitNegativeGaps ranked s]
  rfl

/-- Uniform selection is coupled in the rate: from one stream a larger rate accepts the same
candidates and more, and leaves the same stream behind. Each draw is a fraction of 53 bits, at least
zero and below one, that nothing rounds. -/
theorem uniform_coupled (e : Ensemble) (ranked : List Candidate) (t : UInt32) (s : RandomStream) :
    (∀ p q : Float, p ≤ q → ∃ fewer more,
      (uniform p admitNegativeGaps).select e ranked t s = .ok (fewer, .skip ranked.length s) ∧
      (uniform q admitNegativeGaps).select e ranked t s = .ok (more, .skip ranked.length s) ∧
      fewer.Decides ranked ∧ more.Decides ranked ∧ Decision.Nested fewer.decisions more.decisions ∧
      (Candidate.withVerdict .accepted ranked fewer.decisions).Sublist
        (Candidate.withVerdict .accepted ranked more.decisions)) ∧
    (∀ p : Float, p ≤ 0.0 → ∃ selection,
      (uniform p admitNegativeGaps).select e ranked t s = .ok (selection, .skip ranked.length s) ∧
      Candidate.withVerdict .accepted ranked selection.decisions = []) ∧
    (∀ p : Float, 1.0 ≤ p → ∃ selection,
      (uniform p admitNegativeGaps).select e ranked t s = .ok (selection, .skip ranked.length s) ∧
      Candidate.withVerdict .rejectedNegativeGap ranked selection.decisions =
        ranked.filter (!·.admissible admitNegativeGaps) ∧
      Candidate.withVerdict .accepted ranked selection.decisions =
        ranked.filter (·.admissible admitNegativeGaps)) ∧
    0.0 ≤ s.unit.1 ∧ s.unit.1 < 1.0 ∧
    Binary64.Exact (s.next.1 >>> 11).toFloat (s.next.1 >>> 11).toNat ∧
    Binary64.Exact s.unit.1 ((s.next.1 >>> 11).toNat / 2^53) := by
  have hselect (rate : Float) := select_uniform admitNegativeGaps rate e ranked t s
  refine ⟨?_, ?_, ?_, s.unit_bounds.1, s.unit_bounds.2, s.exact_unit.1, s.exact_unit.2⟩
  · intro p q hpq
    have hnested := drawAll_nested admitNegativeGaps p q hpq ranked s
    exact ⟨_, _, hselect p, hselect q, drawAll_decides p admitNegativeGaps ranked s,
      drawAll_decides q admitNegativeGaps ranked s, hnested,
      Candidate.withVerdict_sublist ranked _ _ hnested⟩
  · intro p hp
    have hnone := drawAll_accepted admitNegativeGaps p false (·.chance_of_le_zero hp) ranked s
    simp only [Bool.false_and, List.filter_false] at hnone
    exact ⟨_, hselect p, hnone⟩
  · intro p hp
    have hall := drawAll_accepted admitNegativeGaps p true (·.chance_of_one_le hp) ranked s
    simp only [Bool.true_and] at hall
    exact ⟨_, hselect p, drawAll_negative admitNegativeGaps p ranked s, hall⟩

theorem uniform_coupled_mixed :
    (0.25 : Float) ≤ 0.75 ∧ (-0.0 : Float) ≤ 0.0 ∧ (1.0 : Float) ≤ 2.0 ∧
    ∃ none fewer more all,
      (uniform (-0.0) false).select .traffic mixed 1 ⟨1⟩ = .ok (none, .skip 4 ⟨1⟩) ∧
      (uniform 0.25 false).select .traffic mixed 1 ⟨1⟩ = .ok (fewer, .skip 4 ⟨1⟩) ∧
      (uniform 0.75 false).select .traffic mixed 1 ⟨1⟩ = .ok (more, .skip 4 ⟨1⟩) ∧
      (uniform 2.0 false).select .traffic mixed 1 ⟨1⟩ = .ok (all, .skip 4 ⟨1⟩) ∧
      Candidate.withVerdict .accepted mixed none.decisions = [] ∧
      Decision.Nested fewer.decisions more.decisions ∧
      (Candidate.withVerdict .accepted mixed all.decisions).map Candidate.agent =
        ["a", "b", "d"] := by
  have hle : (0.25 : Float) ≤ 0.75 := by decide +kernel
  have hzero : (-0.0 : Float) ≤ 0.0 := by decide +kernel
  have hone : (1.0 : Float) ≤ 2.0 := by decide +kernel
  obtain ⟨hcoupled, hnone, hall, _⟩ := uniform_coupled false .traffic mixed 1 ⟨1⟩
  obtain ⟨fewer, more, hfewer, hmore, _, _, hnested, _⟩ := hcoupled 0.25 0.75 hle
  obtain ⟨none, hnone, haccepted⟩ := hnone (-0.0) hzero
  obtain ⟨all, hall, _, hadmissible⟩ := hall 2.0 hone
  refine ⟨hle, hzero, hone, none, fewer, more, all, hnone, hfewer, hmore, hall, haccepted, hnested,
    ?_⟩
  rw [hadmissible]
  decide +kernel

end Policy
end Replanning
