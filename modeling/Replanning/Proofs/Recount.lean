import Replanning.Proofs.Tally

namespace Replanning

/-- The largest change of a replication if some slots changed once more, counted anew. -/
def raised (taken : List Load) (r : ℕ) (slots : List Slot) : ℕ :=
  max (peak (allSlots taken r)) (slots.toFinset.sup fun s => 1 + occurrences taken r s)

theorem raised_le_iff (taken : List Load) (r : ℕ) (slots : List Slot) (n : ℕ) :
    raised taken r slots ≤ n ↔
      (∀ s, occurrences taken r s ≤ n) ∧ ∀ s ∈ slots, 1 + occurrences taken r s ≤ n := by
  simp only [raised, max_le_iff, peak_le_iff, Finset.sup_le_iff, List.mem_toFinset, occurrences]

/-- The slot change that accepting a load would lead to, counted anew. -/
def Aggregate.recount (how : Aggregate) (taken : List Load) (c : Load) : Float :=
  how.combine (c.footprints.map fun (r, slots) => raised taken r slots)

/-- The decision on a load behind the loads accepted so far, without a ledger. -/
def PackerConfig.recount (config : PackerConfig) (t : UInt32) (taken : List Load) (c : Load) :
    Decision :=
  if !config.admitNegativeGaps && c.score < 0.0 then c.decide .rejectedNegativeGap none
  else if c.isInert then c.decide .accepted none
  else
    let change := config.aggregation.recount taken c
    c.decide (if change ≤ t.toFloat then .accepted else .rejectedInfeasible) (some change)

namespace Load

/-- The accepted ones of some loads, given the decisions on them. -/
def accepted (cs : List Load) (ds : List Decision) : List Load :=
  ((cs.zip ds).filter (·.2.verdict = .accepted)).map Prod.fst

theorem accepted_cons (c : Load) (cs : List Load) (d : Decision) (ds : List Decision) :
    accepted (c :: cs) (d :: ds) = accepted [c] [d] ++ accepted cs ds := by
  rw [accepted, List.zip_cons_cons, ← List.singleton_append, List.filter_append, List.map_append]
  rfl

theorem accepted_of_accepted (c : Load) (d : Decision) (h : d.verdict = .accepted) :
    accepted [c] [d] = [c] := by
  simp only [accepted, List.zip_cons_cons, List.zip_nil_right, List.filter_cons, h, decide_true,
    ↓reduceIte, List.filter_nil, List.map_cons, List.map_nil]

theorem accepted_of_rejected (c : Load) (d : Decision) (h : d.verdict ≠ .accepted) :
    accepted [c] [d] = [] := by
  simp only [accepted, List.zip_cons_cons, List.zip_nil_right, List.filter_cons, h, decide_false,
    Bool.false_eq_true, ↓reduceIte, List.filter_nil, List.map_nil]

theorem mem_of_mem_accepted (cs : List Load) (ds : List Decision) (c : Load)
    (h : c ∈ accepted cs ds) : c ∈ cs := by
  obtain ⟨p, hp, rfl⟩ := List.mem_map.mp h
  exact (List.of_mem_zip (List.mem_of_mem_filter hp)).1

/-- What is accepted of the first loads is accepted of all. -/
theorem accepted_take_sublist (cs : List Load) (ds : List Decision) (i : ℕ) :
    (accepted (cs.take i) (ds.take i)).Sublist (accepted cs ds) := by
  have htake : (cs.take i).zip (ds.take i) = (cs.zip ds).take i := List.take_zipWith.symm
  rw [accepted, htake]
  exact ((List.take_sublist i _).filter _).map _

/-- The first load out of range is `c`, and `r` is the first replication out of range that it
names. -/
def FirstOutside (n : ℕ) (cs : List Load) (c : Load) (r : ℕ) : Prop :=
  ∃ before after front slots rest, cs = before ++ c :: after ∧ (∀ d ∈ before, d.InRange n) ∧
    c.footprints = front ++ (r, slots) :: rest ∧ (∀ f ∈ front, f.1 < n) ∧ n ≤ r

end Load

namespace Ledger

variable {l : Ledger} {taken : List Load}

theorem Tallies.anticipate_eq (h : l.Tallies taken) (r : ℕ) (slots : List Slot) :
    l.anticipate r slots = raised taken r slots := by
  apply eq_of_forall_ge_iff
  intro n
  simp only [anticipate, LedgerRow.anticipate_le_iff, (h r).maxChange, (h r).change, peak_le_iff,
    raised_le_iff, occurrences]

theorem Tallies.anticipated_eq (h : l.Tallies taken) (how : Aggregate) (c : Load) :
    l.anticipated how c = how.recount taken c := by
  rw [anticipated, Aggregate.recount]
  congr 1
  exact List.map_congr_left fun f _ => h.anticipate_eq f.1 f.2

end Ledger

namespace PackerConfig

/-- One decision with a ledger is the one without, and keeps the ledger in step. -/
theorem step_recounts (config : PackerConfig) (t : UInt32) (l : Ledger) (taken : List Load)
    (h : l.Tallies taken) (c : Load) (hr : c.InRange l.rows.length) :
    (config.step t l c).1 = config.recount t taken c ∧
      (config.step t l c).2.Tallies (taken ++ Load.accepted [c] [config.recount t taken c]) ∧
      (config.step t l c).2.rows.length = l.rows.length := by
  rw [step, recount, h.anticipated_eq]
  -- the pass and the recount test the same conditions now, and a refused load changes nothing
  split_ifs with hneg hinert
  · rw [Load.accepted_of_rejected c _ (by exact nofun), List.append_nil]
    exact ⟨rfl, h, rfl⟩
  · rw [Load.accepted_of_accepted c _ rfl]
    exact ⟨rfl, h.concat_of_isInert c hinert, rfl⟩
  dsimp only
  split_ifs with hfit
  · rw [Load.accepted_of_accepted c _ rfl]
    exact ⟨rfl, l.accept_tallies taken h c hr, l.length_accept c⟩
  · rw [Load.accepted_of_rejected c _ (by exact nofun), List.append_nil]
    exact ⟨rfl, h, rfl⟩

/-- Every decision of a pass is made as if the slots accepted before it had been counted anew. -/
def Recounts (config : PackerConfig) (t : UInt32) (taken cs : List Load) (ds : List Decision) :
    Prop :=
  ∀ i c, cs[i]? = some c →
    ds[i]? = some (config.recount t (taken ++ Load.accepted (cs.take i) (ds.take i)) c)

theorem steps_recounts (config : PackerConfig) (t : UInt32) (l : Ledger) (taken cs : List Load)
    (h : l.Tallies taken) (hr : ∀ c ∈ cs, c.InRange l.rows.length) :
    config.Recounts t taken cs (config.steps t l cs).1 ∧
      (config.steps t l cs).2.Tallies (taken ++ Load.accepted cs (config.steps t l cs).1) := by
  induction cs generalizing l taken with
  | nil => exact ⟨fun i c hc => by simp at hc, (List.append_nil taken).symm ▸ h⟩
  | cons c rest ih =>
    obtain ⟨hc, hrest⟩ := List.forall_mem_cons.mp hr
    obtain ⟨hd, htallies, hlen⟩ := config.step_recounts t l taken h c hc
    obtain ⟨hafter, hfinal⟩ := ih (config.step t l c).2 _ htallies (hlen.symm ▸ hrest)
    rw [steps]
    refine ⟨?_, ?_⟩
    · intro i c' hi
      cases i with
      | zero =>
        obtain rfl := Option.some.inj hi
        rw [List.take_zero, List.take_zero, Load.accepted, List.zip_nil_left, List.filter_nil,
          List.map_nil, List.append_nil]
        exact congrArg some hd
      -- the later decisions have this one before them
      | succ i =>
        rw [List.take_succ_cons, List.take_succ_cons, Load.accepted_cons, hd, ← List.append_assoc]
        exact hafter i c' hi
    · rw [Load.accepted_cons, hd, ← List.append_assoc]
      exact hfinal

/-- The check names the first load out of range with the first replication that is. -/
theorem checkRange_error (n : ℕ) (cs : List Load) (h : ∃ c ∈ cs, ¬ c.InRange n) :
    ∃ c r, Load.FirstOutside n cs c r ∧
      checkRange n cs = .error (.replicationOutOfRange c.agent r n) := by
  induction cs with
  | nil =>
    obtain ⟨c, hc, _⟩ := h
    exact absurd hc List.not_mem_nil
  | cons c rest ih =>
    rw [checkRange]
    cases hfind : c.footprints.find? (fun f => n ≤ f.1) with
    | some f =>
      obtain ⟨hf, front, back, hsplit, hfront⟩ := List.find?_eq_some_iff_append.mp hfind
      refine ⟨c, f.1, ⟨[], rest, front, f.2, back, rfl, by simp, hsplit, ?_, by simpa using hf⟩, ?_⟩
      · intro g hg
        simpa using hfront g hg
      · rw [Load.outOfRange?, hfind]
        rfl
    | none =>
      have hin : c.InRange n := by
        intro f hf
        simpa using List.find?_eq_none.mp hfind f hf
      -- the load at the front is in range, so one of the others is not
      have hrest : ∃ d ∈ rest, ¬ d.InRange n := by
        obtain ⟨d, hd, hout⟩ := h
        rcases List.mem_cons.mp hd with rfl | hd
        · exact absurd hin hout
        · exact ⟨d, hd, hout⟩
      obtain ⟨d, r, ⟨before, after, front, slots, back, rfl, hbefore, hd⟩, herror⟩ := ih hrest
      refine ⟨d, r, ⟨c :: before, after, front, slots, back, rfl, ?_, hd⟩, ?_⟩
      · exact List.forall_mem_cons.mpr ⟨hin, hbefore⟩
      · rw [Load.outOfRange?, hfind]
        exact herror

/-- A pass over loads in range returns the recounted decisions with a ledger in step. -/
theorem pack_tallies (config : PackerConfig) (t : UInt32) (n : ℕ) (cs : List Load)
    (h : ∀ c ∈ cs, c.InRange n) :
    ∃ decisions ledger, config.pack cs t n = .ok (decisions, ledger) ∧
      decisions.length = cs.length ∧ config.Recounts t [] cs decisions ∧
      ledger.Tallies (Load.accepted cs decisions) := by
  have hlen : (Ledger.empty n).rows.length = n := List.length_replicate
  obtain ⟨hrecounts, htallies⟩ :=
    config.steps_recounts t (.empty n) [] cs (Ledger.empty_tallies n) (by rwa [hlen])
  exact ⟨_, _, config.pack_ok t n cs h, config.length_steps t _ cs, hrecounts, htallies⟩

/-- The packer with a ledger decides as the one that counts all accepted loads anew, and fails for
the first footprint out of range. At the end the ledger has the occurrences of every slot in the
accepted loads, their maximum, and the slots that occur, each of them once. -/
theorem pack_recounts (config : PackerConfig) (t : UInt32) (n : ℕ) (cs : List Load) :
    ((∃ c ∈ cs, ¬ c.InRange n) → ∃ c r, Load.FirstOutside n cs c r ∧
      config.pack cs t n = .error (.replicationOutOfRange c.agent r n)) ∧
    ((∀ c ∈ cs, c.InRange n) → ∃ decisions ledger,
      config.pack cs t n = .ok (decisions, ledger) ∧ decisions.length = cs.length ∧
      (∀ i c, cs[i]? = some c → decisions[i]? =
        some (config.recount t (Load.accepted (cs.take i) (decisions.take i)) c)) ∧
      ∀ r, (∀ s, ledger.change r s = occurrences (Load.accepted cs decisions) r s) ∧
        IsGreatest (Set.range (occurrences (Load.accepted cs decisions) r)) (ledger.maxChange r) ∧
        ((ledger.changedSlots r).map Prod.fst).Nodup ∧
        ∀ s k, (s, k) ∈ ledger.changedSlots r ↔
          0 < k ∧ k = occurrences (Load.accepted cs decisions) r s) := by
  constructor
  · intro h
    obtain ⟨c, r, hfirst, herror⟩ := checkRange_error n cs h
    refine ⟨c, r, hfirst, ?_⟩
    rw [pack, herror]
    rfl
  · intro h
    obtain ⟨decisions, ledger, hpack, hcount, hrecounts, htallies⟩ := config.pack_tallies t n cs h
    refine ⟨decisions, ledger, hpack, hcount, hrecounts, ?_⟩
    intro r
    have hrow := htallies r
    refine ⟨hrow.change, ?_, hrow.nodup_slots, hrow.mem_counts_iff⟩
    rw [Ledger.maxChange, hrow.maxChange]
    exact peak_isGreatest _

/-- Five loads that name a slot or a replication more than once, and the second replication late. -/
def repeats : List Load :=
  let link : Slot := ⟨"link", 7⟩
  let node : Slot := ⟨"node", 1⟩
  [⟨"a", 5.0, [(0, [link, link]), (0, [node])]⟩, ⟨"b", -1.0, [(0, [link])]⟩,
    ⟨"c", 3.0, [(0, [link]), (1, [])]⟩, ⟨"d", 2.0, [(0, [link])]⟩, ⟨"e", 1.0, [(1, [node])]⟩]

theorem pack_recounts_repeats :
    (∀ c ∈ repeats, c.InRange 2) ∧ (∃ c ∈ repeats, ¬ c.InRange 1) ∧
    (∃ decisions ledger, pack {} repeats 2 2 = .ok (decisions, ledger) ∧
      decisions.map Decision.verdict =
        [.accepted, .rejectedNegativeGap, .accepted, .rejectedInfeasible, .accepted] ∧
      occurrences (Load.accepted repeats decisions) 0 ⟨"link", 7⟩ = 3 ∧
      IsGreatest (Set.range (occurrences (Load.accepted repeats decisions) 0)) 3) ∧
    ∃ c r, Load.FirstOutside 1 repeats c r ∧
      pack {} repeats 2 1 = .error (.replicationOutOfRange c.agent r 1) := by
  have hin : ∀ c ∈ repeats, c.InRange 2 := by
    unfold Load.InRange
    decide
  have hout : ∃ c ∈ repeats, ¬ c.InRange 1 := by
    unfold Load.InRange
    decide
  obtain ⟨decisions, ledger, hpack, _, _, hledger⟩ := (pack_recounts {} 2 2 repeats).2 hin
  have hrun : (pack {} repeats 2 2).map (fun p =>
      (p.1.map Decision.verdict, p.2.change 0 ⟨"link", 7⟩, p.2.maxChange 0)) = .ok
        ([.accepted, .rejectedNegativeGap, .accepted, .rejectedInfeasible, .accepted], 3, 3) := by
    decide +kernel
  simp only [hpack, Except.map, Except.ok.injEq, Prod.mk.injEq] at hrun
  obtain ⟨hverdicts, hchange, hmax⟩ := hrun
  obtain ⟨hcounts, hgreatest, _⟩ := hledger 0
  refine ⟨hin, hout, ⟨decisions, ledger, hpack, hverdicts, ?_, ?_⟩,
    (pack_recounts {} 2 1 repeats).1 hout⟩
  · rw [← hcounts]
    exact hchange
  · rw [← hmax]
    exact hgreatest

end PackerConfig
end Replanning
