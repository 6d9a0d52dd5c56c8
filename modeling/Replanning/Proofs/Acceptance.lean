import Replanning.Proofs.Decisions

namespace Replanning

/-- The score does not speak against the candidate. -/
def Candidate.admissible (admitNegativeGaps : Bool) (c : Candidate) : Bool :=
  admitNegativeGaps || !c.score.isNegative

/-- The candidates with a verdict, in the order of the ranking. -/
def Candidate.withVerdict (v : Verdict) (ranked : List Candidate) (ds : List Decision) :
    List Candidate :=
  ((ranked.zip ds).filter (·.2.verdict = v)).map Prod.fst

/-- Whatever is accepted in the first decisions is accepted in the second ones. -/
def Decision.Nested (ds ds' : List Decision) : Prop :=
  List.Forall₂ (fun d d' => d.verdict = .accepted → d'.verdict = .accepted) ds ds'

namespace Candidate

/-- The score decides first, and where it does not speak against the candidate, the policy does. -/
theorem verdict_decide (c : Candidate) (admitNegativeGaps accept : Bool) :
    (c.decide admitNegativeGaps accept).verdict =
      if c.admissible admitNegativeGaps then if accept then .accepted else .rejectedByPolicy
      else .rejectedNegativeGap := by
  unfold decide admissible
  cases admitNegativeGaps <;> cases c.score.isNegative <;> rfl

/-- A policy that accepts more leaves out no candidate. -/
theorem verdict_decide_mono (c : Candidate) (admitNegativeGaps : Bool) {accept accept' : Bool}
    (h : accept = true → accept' = true)
    (ha : (c.decide admitNegativeGaps accept).verdict = .accepted) :
    (c.decide admitNegativeGaps accept').verdict = .accepted := by
  rw [verdict_decide] at ha ⊢
  cases hc : c.admissible admitNegativeGaps with
  | false => rw [hc] at ha; cases ha
  | true =>
    cases accept with
    | false => rw [hc] at ha; cases ha
    | true => rw [h rfl]; rfl

theorem withVerdict_cons (v : Verdict) (c : Candidate) (ranked : List Candidate) (d : Decision)
    (ds : List Decision) :
    withVerdict v (c :: ranked) (d :: ds) =
      if d.verdict = v then c :: withVerdict v ranked ds else withVerdict v ranked ds := by
  rw [withVerdict, List.zip_cons_cons, List.filter_cons]
  by_cases h : d.verdict = v
  · rw [if_pos (decide_eq_true h), if_pos h]
    rfl
  · rw [if_neg (mt of_decide_eq_true h), if_neg h]
    rfl

theorem length_withVerdict (v : Verdict) (ranked : List Candidate) (ds : List Decision)
    (h : ds.length = ranked.length) :
    (withVerdict v ranked ds).length = (ds.filter (·.verdict = v)).length := by
  rw [withVerdict, List.length_map]
  conv_rhs => rw [← List.map_snd_zip h.le, List.filter_map, List.length_map]
  rfl

theorem withVerdict_sublist (ranked : List Candidate) (ds ds' : List Decision)
    (h : Decision.Nested ds ds') :
    (withVerdict .accepted ranked ds).Sublist (withVerdict .accepted ranked ds') := by
  induction h generalizing ranked with
  | nil => exact List.Sublist.refl _
  | @cons d d' ds ds' hd _ ih =>
    cases ranked with
    | nil => exact List.Sublist.refl _
    | cons c ranked =>
      rw [withVerdict_cons, withVerdict_cons]
      by_cases ha : d.verdict = .accepted
      · rw [if_pos ha, if_pos (hd ha)]
        exact (ih ranked).cons_cons c
      · rw [if_neg ha]
        split_ifs
        · exact (ih ranked).cons c
        · exact ih ranked

end Candidate

/-- Four candidates in a ranking, two of them with scores that are no numbers and one below zero. -/
def Policy.mixed : List Candidate :=
  [⟨0, "a", ⟨0x7FF8000000000000⟩, [0]⟩, ⟨1, "b", .ofFloat 3.0, [0]⟩, ⟨2, "c", .ofFloat (-1.0), [0]⟩,
    ⟨3, "d", ⟨0xFFF8000000000000⟩, [0]⟩]

end Replanning
