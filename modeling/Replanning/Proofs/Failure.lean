import Replanning.Proofs.Bounds
import Replanning.Proofs.Policy

/-! All ranked candidates are looked up before any is packed, and all their replications checked
before the ledger is read. So a candidate that is not found is reported before one out of range. -/
namespace Replanning

namespace Agent

/-- The agent is observed on the replication, whatever its scores are. -/
def SeenOn (a : Agent) (r : ℕ) : Prop :=
  ∃ o, a.observation? r = some o

end Agent

namespace Candidate

/-- The agent stands at the position of the candidate and has its name. -/
def Names (c : Candidate) (e : Ensemble) (a : Agent) : Prop :=
  e.agents[c.index]? = some a ∧ a.id = c.agent

/-- The ensemble has the agent of the candidate, observed wherever the candidate was scored. -/
def Known (c : Candidate) (e : Ensemble) : Prop :=
  ∃ a, c.Names e a ∧ ∀ r ∈ c.eligible, a.SeenOn r

/-- What keeps a candidate from being known: there is no agent for it, or there is one that is not
observed on some replication, of which the first is named. -/
inductive LookupDefect (c : Candidate) (e : Ensemble) : EnsembleError → Prop
  | agent : (∀ a, ¬c.Names e a) → c.LookupDefect e (.unknownAgent c.agent)
  | replication (a : Agent) (r : ℕ) : c.Names e a → Behind a.SeenOn c.eligible r → ¬a.SeenOn r →
      c.LookupDefect e (.missingReplication c.agent r)

/-- The first replication of the candidate that is not among the first `n`. -/
def Leaves (c : Candidate) (n r : ℕ) : Prop :=
  Behind (· < n) c.eligible r ∧ n ≤ r

/-- Nothing keeps the candidate from being packed. -/
def InRange (c : Candidate) (n : ℕ) : Prop :=
  ∀ r ∈ c.eligible, r < n

end Candidate

/-- The error of a ranking that cannot be packed. No replication is looked at for being in range
before all candidates are known. -/
inductive Ensemble.RankingDefect (e : Ensemble) (ranked : List Candidate) : EnsembleError → Prop
  | unknown (c : Candidate) (err : EnsembleError) : Behind (·.Known e) ranked c →
      c.LookupDefect e err → e.RankingDefect ranked err
  | outOfRange (c : Candidate) (r : ℕ) : (∀ d ∈ ranked, d.Known e) →
      Behind (·.InRange e.replications) ranked c → c.Leaves e.replications r →
      e.RankingDefect ranked (.replicationOutOfRange c.agent r e.replications)

namespace Candidate

theorem agentOf_eq_error (e : Ensemble) (c : Candidate) (err : EnsembleError) :
    e.agentOf c = .error err ↔ (∀ a, ¬c.Names e a) ∧ err = .unknownAgent c.agent := by
  simp only [← Ensemble.agentOf_eq_ok, Names]
  cases h : e.agentOf c with
  | ok a => exact iff_of_false nofun fun hnone => hnone.1 a rfl
  | error err' =>
    have herr : err' = .unknownAgent c.agent := by
      unfold Ensemble.agentOf at h
      split at h
      · split_ifs at h
        exact (Except.error.inj h).symm
      · exact (Except.error.inj h).symm
    rw [herr, Except.error.injEq, eq_comm]
    exact (and_iff_right nofun).symm

end Candidate

/-- The footprint of an agent on one replication. -/
def Agent.footprintOn (a : Agent) (countVacated : Bool) (r : ℕ) :
    Except EnsembleError (ℕ × List Slot) := do
  let o ← a.require r
  return (r, footprint o.currentSlots o.candidateSlots countVacated)

/-- The load of one candidate of a ranking. -/
def Ensemble.loadOf (e : Ensemble) (countVacated : Bool) (c : Candidate) :
    Except EnsembleError Load := do
  c.load (← e.agentOf c) countVacated

/-- What the load of a candidate says of it: its name, and the replications it was scored on. -/
def Load.Of (load : Load) (c : Candidate) : Prop :=
  load.agent = c.agent ∧ load.footprints.map Prod.fst = c.eligible

variable (a : Agent) (c : Candidate) (e : Ensemble) (countVacated : Bool)

theorem Agent.footprintOn_ok_iff (r : ℕ) :
    (∃ f, a.footprintOn countVacated r = .ok f) ↔ a.SeenOn r := by
  unfold footprintOn SeenOn require
  cases a.observation? r with
  | none => exact iff_of_false nofun nofun
  | some o => exact iff_of_true ⟨_, rfl⟩ ⟨o, rfl⟩

theorem Agent.footprintOn_eq_error (r : ℕ) (err : EnsembleError) :
    a.footprintOn countVacated r = .error err ↔
      ¬a.SeenOn r ∧ err = .missingReplication a.id r := by
  unfold footprintOn SeenOn require
  cases a.observation? r with
  | none => exact ⟨fun h => ⟨nofun, (Except.error.inj h).symm⟩, fun h => congrArg _ h.2.symm⟩
  | some o => exact iff_of_false nofun fun h => h.1 ⟨o, rfl⟩

theorem Agent.fst_footprintOn (r : ℕ) (f : ℕ × List Slot)
    (h : a.footprintOn countVacated r = .ok f) : r = f.1 := by
  obtain ⟨o, _, h⟩ := (bind_eq_ok _ _ _).mp h
  exact congrArg Prod.fst (Except.ok.inj h)

namespace Candidate

theorem load_eq : c.load a countVacated = (do
    return ⟨c.agent, c.score.toFloat, ← c.eligible.mapM (a.footprintOn countVacated)⟩) :=
  rfl

theorem load_ok_iff : (∃ load, c.load a countVacated = .ok load) ↔ ∀ r ∈ c.eligible, a.SeenOn r := by
  simp only [load_eq, bind_eq_ok, ← a.footprintOn_ok_iff countVacated, ← mapM_ok_iff]
  exact ⟨fun ⟨_, footprints, h, _⟩ => ⟨footprints, h⟩, fun ⟨footprints, h⟩ => ⟨_, footprints, h, rfl⟩⟩

theorem load_eq_error (err : EnsembleError) :
    c.load a countVacated = .error err ↔
      ∃ r, Behind a.SeenOn c.eligible r ∧ ¬a.SeenOn r ∧ err = .missingReplication a.id r := by
  simp only [load_eq, bind_pure_eq_error, mapM_eq_error, a.footprintOn_ok_iff,
    a.footprintOn_eq_error]

theorem load_of (load : Load) (h : c.load a countVacated = .ok load) : load.Of c := by
  obtain ⟨footprints, hall, h⟩ := (bind_eq_ok _ _ _).mp h
  obtain rfl := Except.ok.inj h
  have hfst := map_eq_of_forall₂ id Prod.fst _ _
    ((forall₂_of_mapM _ _ _ hall).imp (a.fst_footprintOn countVacated))
  exact ⟨rfl, by rw [← hfst, List.map_id]⟩

end Candidate

namespace Ensemble

theorem loadOf_ok_iff : (∃ load, e.loadOf countVacated c = .ok load) ↔ c.Known e := by
  simp only [loadOf, bind_eq_ok, agentOf_eq_ok]
  constructor
  · rintro ⟨load, a, ha, hload⟩
    exact ⟨a, ha, (c.load_ok_iff a countVacated).mp ⟨load, hload⟩⟩
  · rintro ⟨a, ha, hseen⟩
    obtain ⟨load, hload⟩ := (c.load_ok_iff a countVacated).mpr hseen
    exact ⟨load, a, ha, hload⟩

theorem loadOf_eq_error (err : EnsembleError) :
    e.loadOf countVacated c = .error err ↔ c.LookupDefect e err := by
  simp only [loadOf, bind_eq_error, c.agentOf_eq_error, agentOf_eq_ok, c.load_eq_error]
  constructor
  · rintro (⟨hnone, rfl⟩ | ⟨a, ha, r, hbehind, hr, rfl⟩)
    · exact .agent hnone
    · exact ha.2 ▸ .replication a r ha hbehind hr
  · intro h
    cases h with
    | agent hnone => exact Or.inl ⟨hnone, rfl⟩
    | replication a r ha hbehind hr => exact Or.inr ⟨a, ha, r, hbehind, hr, by rw [ha.2]⟩

variable (ranked : List Candidate)

theorem loads_ok_iff : (∃ loads, e.loads countVacated ranked = .ok loads) ↔
    ∀ c ∈ ranked, c.Known e := by
  simp only [← e.loadOf_ok_iff _ countVacated]
  exact mapM_ok_iff _ ranked

theorem loads_eq_error (err : EnsembleError) : e.loads countVacated ranked = .error err ↔
    ∃ c, Behind (·.Known e) ranked c ∧ c.LookupDefect e err := by
  simp only [← e.loadOf_ok_iff _ countVacated, ← e.loadOf_eq_error _ countVacated]
  exact mapM_eq_error _ ranked err

theorem loads_of (loads : List Load) (h : e.loads countVacated ranked = .ok loads) :
    List.Forall₂ (fun c load => load.Of c) ranked loads := by
  refine (forall₂_of_mapM _ ranked loads h).imp ?_
  intro c load hload
  obtain ⟨a, _, hload⟩ := (bind_eq_ok _ _ _).mp hload
  exact c.load_of a countVacated load hload

end Ensemble

namespace Load

/-- The check of a load looks at the replications of its candidate. -/
theorem outOfRange_eq_some (load : Load) (c : Candidate) (h : load.Of c) (n r : ℕ) :
    load.outOfRange? n = some r ↔ c.Leaves n r := by
  have hfind : load.outOfRange? n = c.eligible.find? fun r => n ≤ r := by
    rw [← h.2, List.find?_map]
    rfl
  rw [hfind, List.find?_eq_some_iff_append]
  simp only [decide_eq_true_eq, Bool.not_eq_true', decide_eq_false_iff_not, not_le,
    Candidate.Leaves, Behind]
  constructor
  · rintro ⟨hr, before, after, hsplit, hbefore⟩
    exact ⟨⟨before, after, hsplit, hbefore⟩, hr⟩
  · rintro ⟨⟨before, after, hsplit, hbefore⟩, hr⟩
    exact ⟨hr, before, after, hsplit, hbefore⟩

theorem inRange_iff_of (load : Load) (c : Candidate) (h : load.Of c) (n : ℕ) :
    load.InRange n ↔ c.InRange n := by
  rw [Load.InRange, Candidate.InRange, ← h.2, List.forall_mem_map]

theorem outOfRange_eq_none (load : Load) (n : ℕ) : load.outOfRange? n = none ↔ load.InRange n := by
  rw [Load.outOfRange?, Option.map_eq_none_iff, List.find?_eq_none]
  simp only [decide_eq_true_eq, not_le, Load.InRange]

end Load

namespace PackerConfig

/-- The range check names the first candidate of the ranking that is not in range. -/
theorem checkRange_eq_error (n : ℕ) (ranked : List Candidate) (loads : List Load)
    (h : List.Forall₂ (fun c load => load.Of c) ranked loads) (err : EnsembleError) :
    checkRange n loads = .error err ↔ ∃ c r, Behind (·.InRange n) ranked c ∧ c.Leaves n r ∧
      err = .replicationOutOfRange c.agent r n := by
  induction h with
  | nil =>
    constructor
    · intro hcheck
      cases hcheck
    · rintro ⟨c, _, hc, _⟩
      exact absurd hc (behind_nil _ c)
  | @cons c load ranked loads hof hrest ih =>
    have hnone := load.outOfRange_eq_none n
    rw [load.inRange_iff_of c hof] at hnone
    rw [checkRange]
    simp only [behind_cons]
    cases hout : load.outOfRange? n with
    | some r =>
      rw [hout] at hnone
      have hsome := load.outOfRange_eq_some c hof n
      constructor
      · intro herr
        exact ⟨c, r, Or.inl rfl, (hsome r).mp hout, hof.1 ▸ (Except.error.inj herr).symm⟩
      · rintro ⟨d, r', rfl | ⟨hin, _⟩, hleaves, rfl⟩
        · rw [Option.some.inj (hout.symm.trans ((hsome r').mpr hleaves)), hof.1]
        · cases hnone.mpr hin
    | none =>
      have hin := hnone.mp hout
      change checkRange n loads = .error err ↔ _
      rw [ih]
      constructor
      · rintro ⟨d, r, hd, hleaves, herr⟩
        exact ⟨d, r, Or.inr ⟨hin, hd⟩, hleaves, herr⟩
      · rintro ⟨d, r, rfl | ⟨_, hd⟩, hleaves, herr⟩
        · rw [(load.outOfRange_eq_some d hof n r).mpr hleaves] at hout
          cases hout
        · exact ⟨d, r, hd, hleaves, herr⟩

end PackerConfig

namespace Policy

variable (packer : PackerConfig) (e : Ensemble) (ranked : List Candidate) (t : UInt32)
  (s : RandomStream)

theorem select_ok_iff :
    (∃ selection, (trustRegion packer).select e ranked t s = .ok (selection, s)) ↔
      ∀ c ∈ ranked, c.Known e ∧ c.InRange e.replications := by
  constructor
  · rintro ⟨selection, h⟩ c hc
    obtain ⟨loads, packed, hloads, hpack, _⟩ := loads_of_select packer e ranked t s _ _ h
    obtain ⟨load, hload, hof⟩ :=
      exists_of_mem_forall₂ _ _ _ (e.loads_of _ ranked loads hloads).flip c hc
    have hin := packer.inRange_of_pack t e.replications loads packed hpack load hload
    exact ⟨(e.loads_ok_iff _ ranked).mp ⟨loads, hloads⟩ c hc,
      (load.inRange_iff_of c hof _).mp hin⟩
  · intro h
    obtain ⟨loads, hloads⟩ :=
      (e.loads_ok_iff packer.countVacatedSlots ranked).mpr fun c hc => (h c hc).1
    have hrange : ∀ load ∈ loads, load.InRange e.replications := by
      intro load hload
      obtain ⟨c, hc, hof⟩ := exists_of_mem_forall₂ _ _ _ (e.loads_of _ ranked loads hloads) load hload
      exact (load.inRange_iff_of c hof _).mpr (h c hc).2
    exact ⟨_, select_of_loads packer e ranked t s loads _ hloads
      (packer.pack_ok t e.replications loads hrange)⟩

theorem select_eq_error (err : EnsembleError) :
    (trustRegion packer).select e ranked t s = .error err ↔ e.RankingDefect ranked err := by
  have hrange (loads : List Load) (hloads : e.loads packer.countVacatedSlots ranked = .ok loads) :=
    PackerConfig.checkRange_eq_error e.replications ranked loads (e.loads_of _ ranked loads hloads)
      err
  rw [select, bind_eq_error, e.loads_eq_error]
  constructor
  · rintro (⟨c, hc, herr⟩ | ⟨loads, hloads, h⟩)
    · exact .unknown c err hc herr
    · rw [bind_pure_eq_error, packer.pack_eq_error, hrange loads hloads] at h
      obtain ⟨c, r, hc, hr, rfl⟩ := h
      exact .outOfRange c r ((e.loads_ok_iff _ ranked).mp ⟨loads, hloads⟩) hc hr
  · rintro (⟨c, err, hc, herr⟩ | ⟨c, r, hknown, hc, hr⟩)
    · exact Or.inl ⟨c, hc, herr⟩
    · obtain ⟨loads, hloads⟩ := (e.loads_ok_iff packer.countVacatedSlots ranked).mpr hknown
      have hcheck := (hrange loads hloads).mpr ⟨c, r, hc, hr, rfl⟩
      refine Or.inr ⟨loads, hloads, ?_⟩
      rw [bind_pure_eq_error, packer.pack_eq_error]
      exact hcheck

/-- A trust region selects exactly if every candidate is found and scored in range. Else the error
is that of the first candidate with something missing, and only where there is none that of the first
one out of range. The other policies never fail. -/
theorem select_exact :
    ((∃ selection, (trustRegion packer).select e ranked t s = .ok (selection, s)) ↔
      ∀ c ∈ ranked, c.Known e ∧ c.InRange e.replications) ∧
    (∀ err, (trustRegion packer).select e ranked t s = .error err ↔ e.RankingDefect ranked err) ∧
    (∀ loads, packer.checkedPack t loads e.replications = .ok (packer.pack loads t e.replications)) ∧
    (∀ rate admitNegativeGaps, ∃ selection,
      (uniform rate admitNegativeGaps).select e ranked t s = .ok selection) ∧
    ∀ share admitNegativeGaps, ∃ selection,
      (topShare share admitNegativeGaps).select e ranked t s = .ok selection :=
  ⟨select_ok_iff packer e ranked t s, select_eq_error packer e ranked t s,
    fun loads => packer.checkedPack_eq t loads e.replications, fun _ _ => ⟨_, rfl⟩,
    fun _ _ => ⟨_, rfl⟩⟩

-- the replication of the first candidate is out of range, but the second one has no agent
example : (trustRegion {}).select ⟨1, [⟨"a", none, List.replicate 2 (some ⟨0.0, 1.0, [], []⟩)⟩]⟩
    [⟨0, "a", ⟨0⟩, [1]⟩, ⟨0, "b", ⟨0⟩, []⟩] 16 (.ofSeed 1) = .error (.unknownAgent "b") := by
  rfl

end Policy
end Replanning
