import Replanning.Proofs.Acceptance
import Replanning.Proofs.Binary64.Monotone
import Replanning.Proofs.Ranking

namespace Replanning

namespace Policy

variable (admitNegativeGaps : Bool)

/-- A quota that is used up stays so. -/
theorem takeBest_cons (left : ℕ) (c : Candidate) (ranked : List Candidate) :
    takeBest admitNegativeGaps left (c :: ranked) =
      c.decide admitNegativeGaps (0 < left) :: takeBest admitNegativeGaps
        (if c.admissible admitNegativeGaps then left - 1 else left) ranked := by
  rw [takeBest, c.verdict_decide]
  cases c.admissible admitNegativeGaps with
  | false => rfl
  | true => cases left <;> rfl

/-- The candidates that the score does not speak against are accepted until the quota is used up. -/
theorem takeBest_withVerdict (left : ℕ) (ranked : List Candidate) :
    Candidate.withVerdict .accepted ranked (takeBest admitNegativeGaps left ranked) =
        (ranked.filter (·.admissible admitNegativeGaps)).take left ∧
      Candidate.withVerdict .rejectedByPolicy ranked (takeBest admitNegativeGaps left ranked) =
        (ranked.filter (·.admissible admitNegativeGaps)).drop left ∧
      Candidate.withVerdict .rejectedNegativeGap ranked (takeBest admitNegativeGaps left ranked) =
        ranked.filter (!·.admissible admitNegativeGaps) := by
  induction ranked generalizing left with
  | nil => exact ⟨List.take_nil.symm, List.drop_nil.symm, rfl⟩
  | cons c rest ih =>
    obtain ⟨htake, hdrop, hneg⟩ := ih (if c.admissible admitNegativeGaps then left - 1 else left)
    rw [takeBest_cons]
    simp only [Candidate.withVerdict_cons, c.verdict_decide, List.filter_cons, htake, hdrop, hneg]
    cases c.admissible admitNegativeGaps with
    | false => exact ⟨rfl, rfl, rfl⟩
    | true => cases left <;> exact ⟨rfl, rfl, rfl⟩

/-- With a larger quota there is no candidate that is left out. -/
theorem takeBest_nested (left left' : ℕ) (h : left ≤ left') (ranked : List Candidate) :
    Decision.Nested (takeBest admitNegativeGaps left ranked)
      (takeBest admitNegativeGaps left' ranked) := by
  induction ranked generalizing left left' with
  | nil => exact List.Forall₂.nil
  | cons c rest ih =>
    rw [takeBest_cons, takeBest_cons]
    refine List.Forall₂.cons ?_ (ih _ _ ?_)
    · exact c.verdict_decide_mono admitNegativeGaps
        fun hleft => decide_eq_true ((of_decide_eq_true hleft).trans_le h)
    · split_ifs
      · exact Nat.sub_le_sub_right h 1
      · exact h

/-- A larger share has no smaller quota. -/
theorem quota_mono (share share' : Float) (h : share ≤ share') (n : ℕ) :
    quota share n ≤ quota share' n := by
  have hword := Binary64.ceilWord_mul_mono share share' (ofCount n) h (ofCount_cases n)
  exact min_le_min_right n (UInt64.le_iff_toNat_le.mp hword)

/-- A top share takes the best: of the candidates whose scores do not speak against them it accepts
the first ones up to its quota, none below one that is left out, and a larger share accepts them
too. -/
theorem topShare_takes_best (share : Float) (e : Ensemble) (ranked : List Candidate) (t : UInt32)
    (s : RandomStream)
    (hdown : ranked.Pairwise fun a b => (b.score.totalCompare a.score).isLE = true) :
    ∃ selection, (topShare share admitNegativeGaps).select e ranked t s = .ok (selection, s) ∧
      selection.Decides ranked ∧ quota share ranked.length ≤ ranked.length ∧
      Candidate.withVerdict .rejectedNegativeGap ranked selection.decisions =
        ranked.filter (!·.admissible admitNegativeGaps) ∧
      selection.count .accepted =
        min (quota share ranked.length) (ranked.filter (·.admissible admitNegativeGaps)).length ∧
      Candidate.withVerdict .accepted ranked selection.decisions =
        (ranked.filter (·.admissible admitNegativeGaps)).take (quota share ranked.length) ∧
      (∀ c ∈ Candidate.withVerdict .accepted ranked selection.decisions,
        ∀ d ∈ Candidate.withVerdict .rejectedByPolicy ranked selection.decisions,
          (d.score.totalCompare c.score).isLE = true) ∧
      ∀ share', share ≤ share' → ∃ selection',
        (topShare share' admitNegativeGaps).select e ranked t s = .ok (selection', s) ∧
        quota share ranked.length ≤ quota share' ranked.length ∧
        Decision.Nested selection.decisions selection'.decisions := by
  obtain ⟨htake, hdrop, hneg⟩ :=
    takeBest_withVerdict admitNegativeGaps (quota share ranked.length) ranked
  have hdecides := takeBest_decides admitNegativeGaps (quota share ranked.length) ranked
  refine ⟨_, rfl, hdecides, min_le_right _ _, hneg, ?_, htake, ?_, ?_⟩
  · have hlength := Candidate.length_withVerdict .accepted ranked _
      (Selection.Decides.length_eq (s := ⟨"", _, none⟩) hdecides)
    rw [htake, List.length_take] at hlength
    exact hlength.symm
  -- what is accepted stands before what is left out, and the scores go down
  · intro c hc d hd
    rw [htake] at hc
    rw [hdrop] at hd
    have hsplit := hdown.filter (·.admissible admitNegativeGaps)
    rw [← List.take_append_drop (quota share ranked.length) (List.filter _ _),
      List.pairwise_append] at hsplit
    exact hsplit.2.2 c hc d hd
  · intro share' hle
    have hquota := quota_mono share share' hle ranked.length
    exact ⟨_, rfl, hquota, takeBest_nested admitNegativeGaps _ _ hquota ranked⟩

theorem topShare_takes_best_mixed :
    mixed.Pairwise (fun a b => (b.score.totalCompare a.score).isLE = true) ∧ (0.5 : Float) ≤ 0.6 ∧
    ∃ selection selection',
      (topShare 0.5 false).select .traffic mixed 1 (.ofSeed 1) = .ok (selection, .ofSeed 1) ∧
      (topShare 0.6 false).select .traffic mixed 1 (.ofSeed 1) = .ok (selection', .ofSeed 1) ∧
      selection.count .accepted = 2 ∧
      (Candidate.withVerdict .accepted mixed selection.decisions).map Candidate.agent = ["a", "b"] ∧
      selection'.count .accepted = 3 ∧ Decision.Nested selection.decisions selection'.decisions := by
  have hdown : mixed.Pairwise (fun a b => (b.score.totalCompare a.score).isLE = true) := by
    decide +kernel
  have hle : (0.5 : Float) ≤ 0.6 := by decide +kernel
  obtain ⟨selection, hselect, _, _, _, hcount, hfirst, _, hnested⟩ :=
    topShare_takes_best false 0.5 .traffic mixed 1 (.ofSeed 1) hdown
  obtain ⟨selection', hselect', _, hnested⟩ := hnested 0.6 hle
  obtain ⟨_, hselect'', _, _, _, hcount', _⟩ :=
    topShare_takes_best false 0.6 .traffic mixed 1 (.ofSeed 1) hdown
  obtain ⟨rfl, _⟩ := Prod.mk.inj (Except.ok.inj (hselect'.symm.trans hselect''))
  refine ⟨hdown, hle, selection, selection', hselect, hselect', ?_, ?_, ?_, hnested⟩
  · rw [hcount]
    decide +kernel
  · rw [hfirst]
    decide +kernel
  · rw [hcount']
    decide +kernel

end Policy
end Replanning
