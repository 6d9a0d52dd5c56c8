import Replanning.Proofs.SlotLocal

namespace Replanning

/-- The visits of a slot that a switch of plans adds, negative if it takes some away. -/
def Observation.shift (o : Observation) (s : Slot) : ℤ :=
  (o.candidateSlots.count s : ℤ) - o.currentSlots.count s

/-- The visits that a switch of the agent adds on a replication that it is scored on. -/
def Agent.shift (a : Agent) (selfExclusion : Bool) (replications r : ℕ) (s : Slot) : ℤ :=
  if r ∈ eligible selfExclusion a.generating replications then
    ((a.observation? r).map (·.shift s)).getD 0
  else 0

/-- The change of occupancy if some agents switch, added up over the agents scored on `r`. -/
def Ensemble.occupancyShift (e : Ensemble) (selfExclusion : Bool) (switching : List String) (r : ℕ)
    (s : Slot) : ℤ :=
  ((e.agents.filter (·.id ∈ switching)).map (·.shift selfExclusion e.replications r s)).sum

/-- The load of an agent: its name, and a footprint of every replication that it is scored on. -/
structure Load.Covers (load : Load) (a : Agent) (selfExclusion countVacated : Bool)
    (replications : ℕ) : Prop where
  agent : load.agent = a.id
  footprint : ∀ r ∈ eligible selfExclusion a.generating replications, ∃ o,
    a.observation? r = some o ∧
      (r, footprint o.currentSlots o.candidateSlots countVacated) ∈ load.footprints

/-- Every load is the one of an agent of the ensemble. -/
theorem Ensemble.covers_of_loads (e : Ensemble) (selfExclusion countVacated : Bool)
    (ranked : List Candidate) (hr : ∀ c ∈ ranked, e.Scored selfExclusion c) (loads : List Load)
    (hloads : e.loads countVacated ranked = .ok loads) :
    ∀ load ∈ loads, ∃ a ∈ e.agents,
      load.Covers a selfExclusion countVacated e.replications := by
  intro load hl
  obtain ⟨c, hc, hload⟩ := exists_of_mem_forall₂ _ _ _ (forall₂_of_mapM _ _ _ hloads) load hl
  obtain ⟨a, ha, hload⟩ := (bind_eq_ok _ _ _).mp hload
  obtain ⟨hat, hid⟩ := (e.agentOf_eq_ok c a).mp ha
  obtain ⟨a', hat', _, heligible⟩ := hr c hc
  obtain rfl := Option.some.inj (hat.symm.trans hat')
  obtain ⟨footprints, hfootprints, hload⟩ := (bind_eq_ok _ _ _).mp hload
  obtain rfl := Except.ok.inj hload
  refine ⟨a, List.mem_of_getElem? hat, hid.symm, ?_⟩
  intro r hr
  rw [← heligible] at hr
  -- the footprints stand at the places of the replications
  obtain ⟨f, hf, hone⟩ := exists_of_mem_forall₂ (flip _) _ _
    (forall₂_of_mapM _ _ _ hfootprints).flip r hr
  obtain ⟨o, ho, hone⟩ := (bind_eq_ok _ _ _).mp hone
  obtain rfl := Except.ok.inj hone
  exact ⟨o, a.observed_of_require r o ho, hf⟩

namespace Load.Covers

variable {load : Load} {a : Agent} {selfExclusion countVacated : Bool} {replications : ℕ}

/-- Where a switch changes the occupancy, the slot is in the footprint. -/
theorem one_le_count (h : load.Covers a selfExclusion countVacated replications) (r : ℕ) (s : Slot)
    (hs : 0 < a.shift selfExclusion replications r s ∨
      countVacated = true ∧ a.shift selfExclusion replications r s < 0) :
    1 ≤ (load.slots r).count s := by
  unfold Agent.shift at hs
  split_ifs at hs with hr
  · obtain ⟨o, ho, hf⟩ := h.footprint r hr
    rw [List.one_le_count_iff, mem_slots]
    refine ⟨_, hf, rfl, (mem_footprint _ _ _ s).mpr ?_⟩
    rw [ho] at hs
    change 0 < o.shift s ∨ _ ∧ o.shift s < 0 at hs
    unfold Observation.shift at hs
    exact hs.imp (fun h => by omega) fun ⟨hv, h⟩ => ⟨hv, by omega⟩
  -- the agent is not scored on the replication, and changes nothing there
  · omega

theorem shift_le_count (h : load.Covers a selfExclusion countVacated replications) (r : ℕ)
    (s : Slot) (hone : a.shift selfExclusion replications r s ≤ 1) :
    a.shift selfExclusion replications r s ≤ (load.slots r).count s := by
  by_cases hs : 0 < a.shift selfExclusion replications r s
  · have := h.one_le_count r s (Or.inl hs)
    omega
  · omega

theorem neg_count_le_shift (h : load.Covers a selfExclusion true replications) (r : ℕ) (s : Slot)
    (hone : -1 ≤ a.shift selfExclusion replications r s) :
    -((load.slots r).count s : ℤ) ≤ a.shift selfExclusion replications r s := by
  by_cases hs : a.shift selfExclusion replications r s < 0
  · have := h.one_le_count r s (Or.inr ⟨rfl, hs⟩)
    omega
  · omega

end Load.Covers

theorem occurrences_eq_sum (loads : List Load) (r : ℕ) (s : Slot) :
    (occurrences loads r s : ℤ) = (loads.map fun c => ((c.slots r).count s : ℤ)).sum := by
  rw [occurrences, allSlots, List.count_flatMap, Nat.cast_list_sum, List.map_map]
  rfl

namespace Ensemble

/-- The agents of some loads are the ones that stand under their names. -/
theorem filter_perm_map (e : Ensemble) (hids : (e.agents.map Agent.id).Nodup) (loads : List Load)
    (hn : (loads.map Load.agent).Nodup) (agentOf : Load → Agent)
    (hof : ∀ load ∈ loads, agentOf load ∈ e.agents ∧ load.agent = (agentOf load).id) :
    (e.agents.filter (·.id ∈ loads.map Load.agent)).Perm (loads.map agentOf) := by
  have hnames : (loads.map agentOf).map Agent.id = loads.map Load.agent := by
    rw [List.map_map]
    exact List.map_congr_left fun load hl => (hof load hl).2.symm
  -- neither list repeats an agent, so the same members are enough
  refine (List.perm_ext_iff_of_nodup (hids.of_map.filter _) (hnames ▸ hn).of_map).mpr ?_
  intro a
  rw [List.mem_filter, decide_eq_true_eq, List.mem_map, List.mem_map]
  constructor
  · rintro ⟨ha, load, hl, hid⟩
    obtain ⟨hmem, hagent⟩ := hof load hl
    exact ⟨load, hl, List.inj_on_of_nodup_map hids hmem ha (hagent.symm.trans hid)⟩
  · rintro ⟨load, hl, rfl⟩
    exact ⟨(hof load hl).1, load, hl, (hof load hl).2⟩

/-- The occupancy changes load by load. -/
theorem occupancyShift_eq (e : Ensemble) (hids : (e.agents.map Agent.id).Nodup)
    (selfExclusion countVacated : Bool) (loads : List Load) (hn : (loads.map Load.agent).Nodup)
    (hcov : ∀ load ∈ loads, ∃ a ∈ e.agents,
      load.Covers a selfExclusion countVacated e.replications) :
    ∃ agentOf : Load → Agent, (∀ load ∈ loads, agentOf load ∈ e.agents ∧
        load.Covers (agentOf load) selfExclusion countVacated e.replications) ∧
      ∀ r s, e.occupancyShift selfExclusion (loads.map Load.agent) r s =
        (loads.map fun load => (agentOf load).shift selfExclusion e.replications r s).sum := by
  have : Nonempty Agent := ⟨.new "" 0⟩
  choose! agentOf hof using hcov
  refine ⟨agentOf, hof, ?_⟩
  intro r s
  have hperm := e.filter_perm_map hids loads hn agentOf fun load hl =>
    ⟨(hof load hl).1, (hof load hl).2.agent⟩
  rw [occupancyShift, (hperm.map _).sum_eq, List.map_map]
  rfl

/-- No slot has two visits more in the new plan of an agent, where the agent is scored. -/
def GainsOne (e : Ensemble) (selfExclusion : Bool) : Prop :=
  ∀ a ∈ e.agents, ∀ r ∈ eligible selfExclusion a.generating e.replications, ∀ o,
    a.observation? r = some o → ∀ s, o.candidateSlots.count s ≤ o.currentSlots.count s + 1

/-- No slot has two visits less in the new plan of an agent, where the agent is scored. -/
def LosesOne (e : Ensemble) (selfExclusion : Bool) : Prop :=
  ∀ a ∈ e.agents, ∀ r ∈ eligible selfExclusion a.generating e.replications, ∀ o,
    a.observation? r = some o → ∀ s, o.currentSlots.count s ≤ o.candidateSlots.count s + 1

theorem GainsOne.shift_le_one {e : Ensemble} {selfExclusion : Bool} (h : e.GainsOne selfExclusion)
    (a : Agent) (ha : a ∈ e.agents) (r : ℕ) (s : Slot) :
    a.shift selfExclusion e.replications r s ≤ 1 := by
  unfold Agent.shift
  split_ifs with hr
  · cases ho : a.observation? r with
    | none => exact zero_le_one
    | some o =>
      have hs := h a ha r hr o ho s
      change o.shift s ≤ 1
      unfold Observation.shift
      omega
  · exact zero_le_one

theorem LosesOne.neg_one_le_shift {e : Ensemble} {selfExclusion : Bool}
    (h : e.LosesOne selfExclusion) (a : Agent) (ha : a ∈ e.agents) (r : ℕ) (s : Slot) :
    -1 ≤ a.shift selfExclusion e.replications r s := by
  unfold Agent.shift
  split_ifs with hr
  · cases ho : a.observation? r with
    | none => exact neg_one_lt_zero.le
    | some o =>
      have hs := h a ha r hr o ho s
      change -1 ≤ o.shift s
      unfold Observation.shift
      omega
  · exact neg_one_lt_zero.le

/-- The occupancy changes no more than the footprints of the switching agents say. -/
theorem occupancyShift_le (e : Ensemble) (hids : (e.agents.map Agent.id).Nodup)
    (selfExclusion countVacated : Bool) (loads : List Load) (hn : (loads.map Load.agent).Nodup)
    (hcov : ∀ load ∈ loads, ∃ a ∈ e.agents,
      load.Covers a selfExclusion countVacated e.replications) (r : ℕ) (s : Slot) :
    (e.GainsOne selfExclusion →
      e.occupancyShift selfExclusion (loads.map Load.agent) r s ≤ occurrences loads r s) ∧
    (countVacated = true → e.LosesOne selfExclusion →
      -(occurrences loads r s : ℤ) ≤
        e.occupancyShift selfExclusion (loads.map Load.agent) r s) := by
  obtain ⟨agentOf, hof, hshift⟩ :=
    e.occupancyShift_eq hids selfExclusion countVacated loads hn hcov
  rw [hshift r s, occurrences_eq_sum]
  constructor
  · intro hgain
    apply List.sum_le_sum
    intro load hl
    obtain ⟨hmem, hcovers⟩ := hof load hl
    exact hcovers.shift_le_count r s (hgain.shift_le_one _ hmem r s)
  · rintro rfl hlose
    rw [List.sum_neg, List.map_map]
    apply List.sum_le_sum
    intro load hl
    obtain ⟨hmem, hcovers⟩ := hof load hl
    exact hcovers.neg_count_le_shift r s (hlose.neg_one_le_shift _ hmem r s)

end Ensemble

/-- The names that are accepted are those of the accepted loads. -/
theorem accepted_agents (policy : String) (ledger : Option Ledger) (loads : List Load)
    (decisions : List Decision) (h : decisions.map Decision.agent = loads.map Load.agent) :
    (Selection.mk policy decisions ledger).accepted =
      (Load.accepted loads decisions).map Load.agent := by
  change (decisions.filter (·.verdict = .accepted)).map Decision.agent = _
  induction decisions generalizing loads with
  | nil =>
    rw [Load.accepted, List.zip_nil_right]
    rfl
  | cons d rest ih =>
    cases loads with
    | nil => cases h
    | cons c others =>
      obtain ⟨hagent, hrest⟩ := List.cons.inj h
      rw [Load.accepted_cons, List.map_append, ← ih others hrest, List.filter_cons]
      by_cases hd : d.verdict = .accepted
      · rw [if_pos (decide_eq_true hd), Load.accepted_of_accepted c d hd, List.map_cons, hagent]
        rfl
      · rw [if_neg (mt of_decide_eq_true hd), Load.accepted_of_rejected c d hd]
        rfl

/-- Packing ranked candidates by the worst replication accepts loads of agents of the ensemble, which
touch no slot more than `T` times. -/
theorem PackerConfig.select_worst (packer : PackerConfig) (hw : packer.aggregation = .worst)
    (e : Ensemble) (h : e.WellFormed) (selfExclusion : Bool) (ranked : List Candidate)
    (hr : ∀ c ∈ ranked, e.Scored selfExclusion c) (t : UInt32) (s : RandomStream) :
    ∃ selection taken, (Policy.trustRegion packer).select e ranked t s = .ok (selection, s) ∧
      selection.Decides ranked ∧ selection.accepted = taken.map Load.agent ∧
      (∀ load ∈ taken, ∃ a ∈ e.agents,
        load.Covers a selfExclusion packer.countVacatedSlots e.replications) ∧
      ∀ r slot, occurrences taken r slot ≤ t.toNat := by
  obtain ⟨loads, hloads, hcarries⟩ := e.loads_ok h selfExclusion packer.countVacatedSlots ranked hr
  have hsimple : ∀ load ∈ loads, load.Simple ∧ load.InRange e.replications := by
    intro load hl
    obtain ⟨c, _, hload⟩ := exists_of_mem_forall₂ _ _ _ hcarries load hl
    exact ⟨hload.simple, hload.range⟩
  obtain ⟨decisions, ledger, hpack, _, _, _, hbound⟩ :=
    packer.pack_worst t hw e.replications loads hsimple
  have hdecides := packer.pack_decides t e.replications loads _ hpack
  have hagents : decisions.map Decision.agent = loads.map Load.agent :=
    map_fst_eq _ _ _ _ _ _ hdecides
  have hcov := e.covers_of_loads selfExclusion packer.countVacatedSlots ranked hr loads hloads
  exact ⟨_, Load.accepted loads decisions,
    Policy.select_of_loads packer e ranked t s loads _ hloads hpack,
    hdecides.trans (names_of_carries ranked loads e.replications hcarries),
    accepted_agents _ _ loads decisions hagents,
    fun load hl => hcov load (Load.mem_of_mem_accepted loads decisions load hl), hbound⟩

/-- The accepted agents together add at most `T` visits to a slot if none of them alone adds two. With
vacated slots counted they take away at most `T` if none of them alone takes away two. -/
theorem occupancy_within (e : Ensemble) (he : e.validate = .ok ()) (selfExclusion : Bool)
    (packer : PackerConfig) (hw : packer.aggregation = .worst) (t : UInt32) (s : RandomStream) :
    ∃ est, e.estimate selfExclusion = .ok est ∧ ∃ selection stream,
      (Policy.trustRegion packer).select e (rank est.candidates s).1 t (rank est.candidates s).2 =
        .ok (selection, stream) ∧
      selection.Decides (rank est.candidates s).1 ∧
      (∀ name, name ∈ selection.accepted ↔
        ∃ d ∈ selection.decisions, d.verdict = .accepted ∧ d.agent = name) ∧
      (e.GainsOne selfExclusion → ∀ r slot,
        e.occupancyShift selfExclusion selection.accepted r slot ≤ t.toNat) ∧
      (packer.countVacatedSlots = true → e.LosesOne selfExclusion → ∀ r slot,
        -(t.toNat : ℤ) ≤ e.occupancyShift selfExclusion selection.accepted r slot) := by
  have h := e.wellFormed_of_validate he
  obtain ⟨est, hest, _, hall⟩ := e.estimate_ok selfExclusion he
  obtain ⟨selection, taken, hselect, hdecides, haccepted, hcov, hbound⟩ :=
    packer.select_worst hw e h selfExclusion _ (e.scored_rank selfExclusion est.candidates s hall) t
      (rank est.candidates s).2
  -- an agent accepted twice would switch once, but count twice in the ledger
  have hnodup : (taken.map Load.agent).Nodup := by
    rw [← haccepted]
    exact (hdecides.agents ▸ selection.accepted_sublist).nodup
      (e.nodup_ranked selfExclusion est hest s)
  have hbound' (r : ℕ) (slot : Slot) : (occurrences taken r slot : ℤ) ≤ t.toNat :=
    Int.ofNat_le.mpr (hbound r slot)
  have hshift := e.occupancyShift_le h.ids selfExclusion _ taken hnodup hcov
  refine ⟨est, hest, selection, _, hselect, hdecides, selection.mem_accepted_iff, ?_, ?_⟩
  · intro hgain r slot
    rw [haccepted]
    exact ((hshift r slot).1 hgain).trans (hbound' r slot)
  · intro hv hlose r slot
    rw [haccepted]
    exact (neg_le_neg (hbound' r slot)).trans ((hshift r slot).2 hv hlose)

theorem Agent.mem_entries (a : Agent) (r : ℕ) (o : Observation) (h : a.observation? r = some o) :
    some o ∈ a.entries :=
  List.mem_of_getElem? (Option.join_eq_some_iff.mp h)

theorem occupancy_within_traffic :
    let packer : PackerConfig := ⟨true, true, .worst⟩
    Ensemble.traffic.validate = .ok () ∧ packer.aggregation = .worst ∧
    Ensemble.traffic.GainsOne true ∧ Ensemble.traffic.LosesOne true ∧
    ∃ est, Ensemble.traffic.estimate true = .ok est ∧ ∃ selection stream,
      (Policy.trustRegion packer).select .traffic (rank est.candidates (.ofSeed 1)).1 1
        (rank est.candidates (.ofSeed 1)).2 = .ok (selection, stream) ∧
      ∀ r slot, Ensemble.traffic.occupancyShift true selection.accepted r slot ≤ 1 ∧
        -1 ≤ Ensemble.traffic.occupancyShift true selection.accepted r slot := by
  intro packer
  -- no plan has more than one slot
  have hshort : ∀ a ∈ Ensemble.traffic.agents, ∀ entry ∈ a.entries, entry.all
      (fun o => o.candidateSlots.length ≤ 1 && o.currentSlots.length ≤ 1) = true := by
    decide
  have hone (a : Agent) (ha : a ∈ Ensemble.traffic.agents) (r : ℕ) (o : Observation)
      (ho : a.observation? r = some o) :
      o.candidateSlots.length ≤ 1 ∧ o.currentSlots.length ≤ 1 := by
    simpa using hshort a ha _ (a.mem_entries r o ho)
  have hgain : Ensemble.traffic.GainsOne true := fun a ha r _ o ho s =>
    (List.count_le_length.trans (hone a ha r o ho).1).trans (Nat.le_add_left _ _)
  have hlose : Ensemble.traffic.LosesOne true := fun a ha r _ o ho s =>
    (List.count_le_length.trans (hone a ha r o ho).2).trans (Nat.le_add_left _ _)
  obtain ⟨est, hest, selection, stream, hselect, _, _, hupper, hlower⟩ :=
    occupancy_within .traffic Ensemble.traffic_valid true packer rfl 1 (.ofSeed 1)
  exact ⟨Ensemble.traffic_valid, rfl, hgain, hlose, est, hest, selection, stream, hselect,
    fun r slot => ⟨hupper hgain r slot, hlower rfl hlose r slot⟩⟩

end Replanning
