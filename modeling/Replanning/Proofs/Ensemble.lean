import Replanning.Ensemble
import Replanning.Proofs.Outcome
import Mathlib.Data.List.Nodup

namespace Replanning
namespace Agent

theorem require_of_observed (a : Agent) (r : ℕ) (o : Observation)
    (h : a.observation? r = some o) : a.require r = .ok o := by
  rw [require, h]

theorem observed_of_require (a : Agent) (r : ℕ) (o : Observation) (h : a.require r = .ok o) :
    a.observation? r = some o := by
  rw [require] at h
  cases ho : a.observation? r with
  | none => simp [ho] at h
  | some o' =>
    rw [ho] at h
    rw [Except.ok.inj h]

theorem observed_of_checkFrom (a : Agent) (r count : ℕ) (h : a.checkFrom r count = .ok ())
    (k : ℕ) (hl : r ≤ k) (hu : k < r+count) :
    ∃ o, a.observation? k = some o ∧ o.isFinite = true := by
  induction count generalizing r with
  | zero => omega
  | succ count ih =>
    rw [checkFrom] at h
    cases hreq : a.require r with
    | error e => simp [hreq, bind, Except.bind] at h
    | ok o =>
      simp only [hreq, bind, Except.bind] at h
      split_ifs at h with hfin
      -- the first replication has been looked at here, and the others are left to the induction
      rcases Nat.eq_or_lt_of_le hl with rfl | hlt
      · exact ⟨o, observed_of_require a r o hreq, hfin⟩
      · exact ih (r+1) h (by omega) (by omega)

/-- An agent without a defect of its own is well-formed. -/
theorem wellFormed_of_check (a : Agent) (replications : ℕ) (h : a.check replications = .ok ()) :
    a.WellFormed replications := by
  unfold check at h
  obtain ⟨hlen, h⟩ := (guard_eq_ok _ _ _ _ _).mp h
  have hscores : a.checkFrom 0 replications = .ok () ∧
      ∀ g, a.generating = some g → g < replications := by
    cases hg : a.generating with
    | none =>
      rw [hg] at h
      exact ⟨h, by simp⟩
    | some g =>
      rw [hg] at h
      obtain ⟨hlt, h⟩ := (guard_eq_ok _ _ _ _ _).mp h
      refine ⟨h, ?_⟩
      intro k hk
      rw [← Option.some.inj hk]
      omega
  exact {
    length := not_not.mp hlen
    observed := fun r hr => observed_of_checkFrom a 0 replications hscores.1 r (by omega) (by omega)
    generating := hscores.2 }

end Agent

namespace Ensemble

theorem wellFormed_of_checkAgents (replications : ℕ) (seen : List String) (agents : List Agent)
    (h : checkAgents replications seen agents = .ok ()) :
    (agents.map Agent.id).Nodup ∧ (∀ a ∈ agents, a.id ∉ seen) ∧
      ∀ a ∈ agents, a.WellFormed replications := by
  induction agents generalizing seen with
  | nil => simp
  | cons a rest ih =>
    rw [checkAgents] at h
    obtain ⟨hnew, h⟩ := (guard_eq_ok _ _ _ _ _).mp h
    obtain ⟨_, ha, h⟩ := (bind_eq_ok _ _ _).mp h
    obtain ⟨hids, hfresh, hrest⟩ := ih (a.id :: seen) h
    -- the agents that follow were checked against the name of this one
    have hself : a.id ∉ rest.map Agent.id := by
      intro hmem
      obtain ⟨b, hb, hid⟩ := List.mem_map.mp hmem
      exact hfresh b hb (hid ▸ List.mem_cons_self)
    refine ⟨List.nodup_cons.mpr ⟨hself, hids⟩, ?_, ?_⟩
    · intro b hb
      rcases List.mem_cons.mp hb with rfl | hb
      · simpa using hnew
      · exact fun hs => hfresh b hb (List.mem_cons_of_mem _ hs)
    · intro b hb
      rcases List.mem_cons.mp hb with rfl | hb
      · exact Agent.wellFormed_of_check b replications ha
      · exact hrest b hb

/-- Validation passes well-formed ensembles only. -/
theorem wellFormed_of_validate (e : Ensemble) (h : e.validate = .ok ()) : e.WellFormed := by
  unfold validate at h
  split_ifs at h with hr
  obtain ⟨hids, _, hagents⟩ := wellFormed_of_checkAgents e.replications [] e.agents h
  exact ⟨Nat.pos_of_ne_zero hr, hids, hagents⟩

/-- Two agents that gain by moving to the same slot, on both of two replications. -/
def rivals : Ensemble :=
  let plan (gain : Float) : Observation := ⟨0.0, gain, [], [⟨"link", 7⟩]⟩
  ⟨2, [⟨"a", some 0, [some (plan 1.0), some (plan 2.0)]⟩,
    ⟨"b", none, [some (plan 3.0), some (plan 1.0)]⟩]⟩

theorem rivals_valid : rivals.validate = .ok () :=
  eq_ok_of_isOk _ (by decide +kernel)

/-- Two agents that would move from a node to a link and gain, and one that would come back from
there and lose on average. -/
def traffic : Ensemble :=
  let link : Slot := ⟨"link", 7⟩
  let node : Slot := ⟨"node", 1⟩
  let join (gain : Float) : Option Observation := some ⟨0.0, gain, [node], [link]⟩
  let leave (gain : Float) : Option Observation := some ⟨0.0, gain, [link], [node]⟩
  ⟨2, [⟨"a", some 0, [join 9.0, join 2.0]⟩, ⟨"b", none, [leave (-1.0), leave 0.5]⟩,
    ⟨"c", some 1, [join 3.0, join 8.0]⟩]⟩

theorem traffic_valid : traffic.validate = .ok () :=
  eq_ok_of_isOk _ (by decide +kernel)

/-- One agent that gains the same on every replication. -/
def single (replications : ℕ) (gain : Float) : Ensemble :=
  ⟨replications, [⟨"x", none, List.replicate replications (some ⟨0.0, gain, [], []⟩)⟩]⟩

end Ensemble
end Replanning
