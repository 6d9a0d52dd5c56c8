import Mathlib.Data.List.Induction
import Mathlib.Data.Nat.Find
import Replanning.Proofs.Ensemble

namespace Replanning
namespace Agent

/-- The replication is observed with two finite scores. -/
def Observed (a : Agent) (r : ℕ) : Prop :=
  ∃ o, a.observation? r = some o ∧ o.isFinite = true

/-- What stands against one replication of an agent. -/
inductive ReplicationDefect (a : Agent) (r : ℕ) : EnsembleError → Prop
  | missing : a.observation? r = none → a.ReplicationDefect r (.missingReplication a.id r)
  | nonFinite (o : Observation) : a.observation? r = some o → o.isFinite = false →
      a.ReplicationDefect r (.nonFiniteScore a.id r)

/-- The first thing that stands against an agent by itself: the number of its entries, then its
generating replication, then the first replication that is not observed with finite scores. -/
inductive OwnDefect (a : Agent) (replications : ℕ) : EnsembleError → Prop
  | count : a.entries.length ≠ replications → a.OwnDefect replications
      (.replicationCountMismatch a.id replications a.entries.length)
  | generating (g : ℕ) : a.entries.length = replications → a.generating = some g →
      replications ≤ g → a.OwnDefect replications (.invalidGeneratingReplication a.id g replications)
  | replication (r : ℕ) (err : EnsembleError) : a.entries.length = replications →
      (∀ g, a.generating = some g → g < replications) → r < replications →
      (∀ k < r, a.Observed k) → a.ReplicationDefect r err → a.OwnDefect replications err

/-- The first thing that stands against an agent behind agents of some names. -/
inductive FirstDefect (a : Agent) (replications : ℕ) (names : List String) : EnsembleError → Prop
  | duplicate : a.id ∈ names → a.FirstDefect replications names (.duplicateAgent a.id)
  | own (err : EnsembleError) : a.id ∉ names → a.OwnDefect replications err →
      a.FirstDefect replications names err

/-- Observed replications are passed over. -/
theorem checkFrom_of_observed (a : Agent) (r k count : ℕ)
    (h : ∀ j, r ≤ j → j < r+k → a.Observed j) :
    a.checkFrom r (k + count) = a.checkFrom (r + k) count := by
  induction k generalizing r with
  | zero => rw [Nat.zero_add, Nat.add_zero]
  | succ k ih =>
    obtain ⟨o, ho, hfin⟩ := h r le_rfl (by omega)
    have hrest := ih (r+1) fun j hl hu => h j (by omega) (by omega)
    rw [Nat.succ_add, checkFrom, require_of_observed a r o ho]
    change (if o.isFinite = true then a.checkFrom (r+1) (k + count) else _) = _
    rw [if_pos hfin, hrest, Nat.add_assoc, Nat.add_comm 1 k]

theorem checkFrom_of_defect (a : Agent) (r count : ℕ) (err : EnsembleError)
    (h : a.ReplicationDefect r err) : a.checkFrom r (count + 1) = .error err := by
  rw [checkFrom]
  cases h with
  | missing hnone =>
    rw [require, hnone]
    rfl
  | nonFinite o ho hfin =>
    rw [require_of_observed a r o ho]
    change (if o.isFinite = true then _ else _) = _
    rw [if_neg (Bool.not_eq_true _ ▸ hfin)]
    rfl

/-- With the right number of entries and a generating replication in range, the entries decide. -/
theorem check_eq_checkFrom (a : Agent) (replications : ℕ) (hlen : a.entries.length = replications)
    (hgen : ∀ g, a.generating = some g → g < replications) :
    a.check replications = a.checkFrom 0 replications := by
  rw [check, if_neg (not_not.mpr hlen)]
  cases hg : a.generating with
  | none => rfl
  | some g => exact if_neg (not_le.mpr (hgen g hg))

theorem check_of_wellFormed (a : Agent) (replications : ℕ) (h : a.WellFormed replications) :
    a.check replications = .ok () := by
  rw [check_eq_checkFrom a replications h.length h.generating]
  exact checkFrom_of_observed a 0 replications 0 fun j _ hj => h.observed j (by omega)

theorem check_of_ownDefect (a : Agent) (replications : ℕ) (err : EnsembleError)
    (h : a.OwnDefect replications err) : a.check replications = .error err := by
  cases h with
  | count hlen =>
    rw [check, if_pos hlen]
    rfl
  | generating g hlen hg hle =>
    rw [check, if_neg (not_not.mpr hlen), hg]
    exact if_pos hle
  | replication r err hlen hgen hr hbefore hdefect =>
    have hsplit : replications = r + (replications - r - 1 + 1) := by omega
    rw [check_eq_checkFrom a replications hlen hgen, hsplit,
      checkFrom_of_observed a 0 r _ fun j _ hj => hbefore j (by omega)]
    exact checkFrom_of_defect a _ _ err ((Nat.zero_add r).symm ▸ hdefect)

/-- Something stands against every agent that is not well-formed. -/
theorem wellFormed_or_ownDefect (a : Agent) (replications : ℕ) :
    a.WellFormed replications ∨ ∃ err, a.OwnDefect replications err := by
  by_cases hlen : a.entries.length = replications
  swap
  · exact Or.inr ⟨_, .count hlen⟩
  by_cases hgen : ∀ g, a.generating = some g → g < replications
  swap
  · simp only [not_forall, not_lt] at hgen
    obtain ⟨g, hg, hle⟩ := hgen
    exact Or.inr ⟨_, .generating g hlen hg hle⟩
  by_cases hobs : ∀ r < replications, a.Observed r
  · exact Or.inl ⟨hlen, hobs, hgen⟩
  -- the smallest replication that is not observed is the one to report
  classical
  have hex : ∃ r, r < replications ∧ ¬a.Observed r := by
    simpa only [not_forall, exists_prop] using hobs
  obtain ⟨hr, hnot⟩ := Nat.find_spec hex
  have hbefore : ∀ k < Nat.find hex, a.Observed k := by
    intro k hk
    by_contra hk'
    exact Nat.find_min hex hk ⟨Nat.lt_trans hk hr, hk'⟩
  cases ho : a.observation? (Nat.find hex) with
  | none => exact Or.inr ⟨_, .replication _ _ hlen hgen hr hbefore (.missing ho)⟩
  | some o =>
    have hfin : o.isFinite = false := Bool.eq_false_iff.mpr fun hfin => hnot ⟨o, ho, hfin⟩
    exact Or.inr ⟨_, .replication _ _ hlen hgen hr hbefore (.nonFinite o ho hfin)⟩

end Agent

namespace Ensemble

/-- Well-formed agents under new names are passed over, and their names are taken from then on. -/
theorem checkAgents_append (replications : ℕ) (seen : List String) (agents rest : List Agent)
    (hids : (agents.map Agent.id).Nodup) (hfresh : ∀ a ∈ agents, a.id ∉ seen)
    (hagents : ∀ a ∈ agents, a.WellFormed replications) :
    checkAgents replications seen (agents ++ rest) =
      checkAgents replications ((agents.map Agent.id).reverse ++ seen) rest := by
  induction agents generalizing seen with
  | nil => rfl
  | cons a others ih =>
    obtain ⟨hself, hids⟩ := List.nodup_cons.mp hids
    obtain ⟨hnew, hfresh⟩ := List.forall_mem_cons.mp hfresh
    obtain ⟨ha, hagents⟩ := List.forall_mem_cons.mp hagents
    have hothers : ∀ b ∈ others, b.id ∉ a.id :: seen := by
      intro b hb hmem
      rcases List.mem_cons.mp hmem with hid | hmem
      · exact hself (hid ▸ List.mem_map_of_mem hb)
      · exact hfresh b hb hmem
    rw [List.cons_append, checkAgents, if_neg (by simpa using hnew), a.check_of_wellFormed _ ha]
    change checkAgents replications (a.id :: seen) (others ++ rest) = _
    rw [ih _ hids hothers hagents, List.map_cons, List.reverse_cons, List.append_assoc]
    rfl

theorem checkAgents_of_firstDefect (replications : ℕ) (names : List String) (a : Agent)
    (rest : List Agent) (err : EnsembleError) (h : a.FirstDefect replications names err) :
    checkAgents replications names (a :: rest) = .error err := by
  rw [checkAgents]
  cases h with
  | duplicate hmem =>
    rw [if_pos (by simpa using hmem)]
    rfl
  | own err hnew hown =>
    rw [if_neg (by simpa using hnew), a.check_of_ownDefect _ err hown]
    rfl

/-- There is a first agent that cannot follow the ones before it, and `err` is what stands against
it. -/
def Blames (e : Ensemble) (err : EnsembleError) : Prop :=
  ∃ before a after, e.agents = before ++ a :: after ∧
    (⟨e.replications, before⟩ : Ensemble).WellFormed ∧
    a.FirstDefect e.replications (before.map Agent.id) err

theorem validate_of_wellFormed (e : Ensemble) (h : e.WellFormed) : e.validate = .ok () := by
  have happend := checkAgents_append e.replications [] e.agents [] h.ids
    (fun _ _ => List.not_mem_nil) h.agents
  rw [List.append_nil] at happend
  rw [validate, if_neg (Nat.ne_of_gt h.replications), happend]
  rfl

theorem validate_of_blames (e : Ensemble) (err : EnsembleError) (h : e.Blames err) :
    e.validate = .error err := by
  obtain ⟨before, a, after, hsplit, hbefore, hdefect⟩ := h
  rw [validate, if_neg (Nat.ne_of_gt hbefore.replications), hsplit,
    checkAgents_append e.replications [] before _ hbefore.ids (fun _ _ => List.not_mem_nil)
      hbefore.agents, List.append_nil]
  apply checkAgents_of_firstDefect
  cases hdefect with
  | duplicate hmem => exact .duplicate (List.mem_reverse.mpr hmem)
  | own err hnew hown => exact .own err (mt List.mem_reverse.mp hnew) hown

/-- With replications, either all agents follow one another or there is a first one that does not. -/
theorem wellFormed_or_blames (replications : ℕ) (agents : List Agent) (h : 1 ≤ replications) :
    (⟨replications, agents⟩ : Ensemble).WellFormed ∨
      ∃ err, (⟨replications, agents⟩ : Ensemble).Blames err := by
  induction agents using List.reverseRecOn with
  | nil => exact Or.inl ⟨h, List.nodup_nil, fun _ hb => absurd hb List.not_mem_nil⟩
  | append_singleton agents a ih =>
    rcases ih with hwell | ⟨err, before, b, after, rfl, hbefore, hdefect⟩
    · by_cases hmem : a.id ∈ agents.map Agent.id
      · exact Or.inr ⟨_, agents, a, [], rfl, hwell, .duplicate hmem⟩
      rcases a.wellFormed_or_ownDefect replications with ha | ⟨err, hown⟩
      · refine Or.inl ⟨h, ?_, ?_⟩
        · rw [List.map_append, List.nodup_append]
          exact ⟨hwell.ids, List.nodup_singleton _, by simpa using hmem⟩
        · exact List.forall_mem_append.mpr ⟨hwell.agents, List.forall_mem_singleton.mpr ha⟩
      · exact Or.inr ⟨err, agents, a, [], rfl, hwell, .own err hmem hown⟩
    -- an agent that is refused stays the first one, whoever comes at the end
    · exact Or.inr ⟨err, before, b, after ++ [a], List.append_assoc _ _ _, hbefore, hdefect⟩

/-- Validation is exact: an ensemble passes if and only if it is well-formed, and otherwise the error
is the first thing that stands against the first agent that is not, or that repeats a name. -/
theorem validate_exact (e : Ensemble) :
    (e.validate = .ok () ↔ e.WellFormed) ∧
    ∀ err, e.validate = .error err ↔
      e.replications = 0 ∧ err = .noReplications ∨ e.Blames err := by
  refine ⟨⟨e.wellFormed_of_validate, e.validate_of_wellFormed⟩, fun err => ⟨?_, ?_⟩⟩
  · intro herror
    by_cases hzero : e.replications = 0
    · rw [validate, if_pos hzero] at herror
      exact Or.inl ⟨hzero, (Except.error.inj herror).symm⟩
    rcases wellFormed_or_blames e.replications e.agents (Nat.pos_of_ne_zero hzero) with
      hwell | ⟨err', hblames⟩
    · rw [e.validate_of_wellFormed hwell] at herror
      cases herror
    · rw [e.validate_of_blames err' hblames] at herror
      exact Or.inr (Except.error.inj herror ▸ hblames)
  · rintro (⟨hzero, rfl⟩ | hblames)
    · exact if_pos hzero
    · exact e.validate_of_blames err hblames

-- the second agent has three defects, and the third one repeats a name
example : validate ⟨2, [⟨"a", none, [some ⟨0.0, 1.0, [], []⟩, some ⟨0.0, 1.0, [], []⟩]⟩,
    ⟨"b", some 5, [none]⟩, ⟨"a", none, []⟩]⟩ = .error (.replicationCountMismatch "b" 2 1) := by
  rfl

end Ensemble
end Replanning
