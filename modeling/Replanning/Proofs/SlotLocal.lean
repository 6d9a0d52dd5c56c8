import Replanning.Proofs.Decisions
import Replanning.Proofs.Recount

namespace Replanning

/-- How many of some loads touch a slot of a replication. -/
def touching (loads : List Load) (r : ℕ) (s : Slot) : ℕ :=
  loads.countP fun c => s ∈ c.slots r

theorem touching_cons (c : Load) (loads : List Load) (r : ℕ) (s : Slot) :
    touching (c :: loads) r s = touching loads r s + if s ∈ c.slots r then 1 else 0 := by
  rw [touching, List.countP_cons]
  simp only [decide_eq_true_eq]
  rfl

/-- Each slot of the load is touched by fewer than `t` of the loads accepted before it. -/
def Load.HasRoom (c : Load) (taken : List Load) (t : ℕ) : Prop :=
  ∀ r, ∀ s ∈ c.slots r, touching taken r s < t

/-- Among simple loads the occurrences of a slot are the loads that touch it. -/
theorem occurrences_eq_touching (loads : List Load) (h : ∀ c ∈ loads, c.Simple) (r : ℕ)
    (s : Slot) : occurrences loads r s = touching loads r s := by
  induction loads with
  | nil => rfl
  | cons c rest ih =>
    obtain ⟨hc, hrest⟩ := List.forall_mem_cons.mp h
    have hcount : (c.slots r).count s = if s ∈ c.slots r then 1 else 0 := (hc.nodup_slots r).count
    rw [occurrences, allSlots, List.flatMap_cons, List.count_append, hcount, touching_cons,
      ← ih hrest, add_comm]
    rfl

/-- As long as no slot exceeds the bound, the worst replication decides slot by slot. -/
theorem recount_worst_le_iff (taken : List Load) (t : UInt32)
    (h : ∀ r s, occurrences taken r s ≤ t.toNat) (c : Load) :
    Aggregate.worst.recount taken c ≤ t.toFloat ↔
      ∀ r, ∀ s ∈ c.slots r, occurrences taken r s < t.toNat := by
  have hsmall : ∀ n ∈ c.footprints.map (fun f => raised taken f.1 f.2), n < 2^53 := by
    intro n hn
    obtain ⟨f, _, rfl⟩ := List.mem_map.mp hn
    have hle : raised taken f.1 f.2 ≤ 1 + t.toNat :=
      (raised_le_iff taken f.1 f.2 _).mpr ⟨fun s => (h f.1 s).trans (Nat.le_add_left _ _),
        fun s _ => Nat.add_le_add_left (h f.1 s) 1⟩
    have ht := t.toNat_lt
    omega
  rw [Aggregate.recount, combine_worst_le_iff _ t hsmall, List.forall_mem_map]
  constructor
  · intro hall r s hs
    obtain ⟨f, hf, rfl, hmem⟩ := (mem_slots c r s).mp hs
    have hs := ((raised_le_iff taken f.1 f.2 _).mp (hall f hf)).2 s hmem
    omega
  -- the slots that are not touched are within the bound anyway
  · intro hroom f hf
    refine (raised_le_iff taken f.1 f.2 _).mpr ⟨h f.1, ?_⟩
    intro s hmem
    have hs := hroom f.1 s ((mem_slots c f.1 s).mpr ⟨f, hf, rfl, hmem⟩)
    omega

namespace PackerConfig

variable (config : PackerConfig) (t : UInt32)

theorem recount_signed (taken : List Load) (c : Load) :
    (config.recount t taken c).Signed config.admitNegativeGaps := by
  unfold recount
  split_ifs with hneg hinert
  · exact Decision.signed_of_refused rfl hneg
  · exact Decision.signed_of_kept nofun hneg
  · dsimp only
    split_ifs
    · exact Decision.signed_of_kept nofun hneg
    · exact Decision.signed_of_kept nofun hneg

theorem recount_score (taken : List Load) (c : Load) :
    (config.recount t taken c).score = c.score := by
  unfold recount
  split_ifs <;> rfl

/-- A load that is not refused for its sign is accepted exactly if its slots are below the bound. -/
theorem recount_accepted_iff (hw : config.aggregation = .worst) (taken : List Load)
    (h : ∀ r s, occurrences taken r s ≤ t.toNat) (c : Load)
    (hs : (config.recount t taken c).verdict ≠ .rejectedNegativeGap) :
    (config.recount t taken c).verdict = .accepted ↔
      ∀ r, ∀ s ∈ c.slots r, occurrences taken r s < t.toNat := by
  unfold recount at hs ⊢
  split_ifs at hs ⊢ with hneg hinert
  · exact absurd rfl hs
  · refine iff_of_true rfl ?_
    intro r s hmem
    rw [slots_of_isInert c hinert r] at hmem
    exact absurd hmem List.not_mem_nil
  · rw [hw, ← recount_worst_le_iff taken t h c]
    dsimp only
    split_ifs with hfit
    · exact iff_of_true rfl hfit
    · exact iff_of_false nofun hfit

/-- Packing simple loads by the worst replication never lets a slot exceed the bound. -/
theorem pack_worst (hw : config.aggregation = .worst) (n : ℕ) (cs : List Load)
    (hc : ∀ c ∈ cs, c.Simple ∧ c.InRange n) :
    ∃ decisions ledger, config.pack cs t n = .ok (decisions, ledger) ∧
      decisions.length = cs.length ∧ config.Recounts t [] cs decisions ∧
      ledger.Tallies (Load.accepted cs decisions) ∧
      ∀ r s, occurrences (Load.accepted cs decisions) r s ≤ t.toNat := by
  obtain ⟨decisions, ledger, hpack, hcount, hrecounts, htallies⟩ :=
    config.pack_tallies t n cs fun c hmem => (hc c hmem).2
  obtain ⟨_, _, hpack', hsound, hbound⟩ :=
    config.pack_within t n cs fun c hmem => ⟨(hc c hmem).1, (hc c hmem).2, Or.inl hw⟩
  -- one pass, of which one lemma gives the counts and the other the bound
  obtain ⟨rfl, rfl⟩ := Prod.mk.inj (Except.ok.inj (hpack.symm.trans hpack'))
  refine ⟨decisions, ledger, hpack, hcount, hrecounts, htallies, ?_⟩
  intro r s
  rw [occurrences, ← (htallies r).change]
  exact (ledger.change_le_maxChange hsound r s).trans (hbound r)

/-- A refused load touches a slot that is full when it is refused, and full it remains. -/
theorem full_of_infeasible (hw : config.aggregation = .worst) (taken final : List Load)
    (hsub : taken.Sublist final) (h : ∀ r s, occurrences final r s ≤ t.toNat) (c : Load)
    (hv : (config.recount t taken c).verdict = .rejectedInfeasible) :
    ∃ r, ∃ s ∈ c.slots r, occurrences final r s = t.toNat := by
  have hmono := occurrences_le_of_sublist taken final hsub
  have hiff := config.recount_accepted_iff t hw taken (fun r s => (hmono r s).trans (h r s)) c
    (by rw [hv]; exact nofun)
  have hfull : ¬ ∀ r, ∀ s ∈ c.slots r, occurrences taken r s < t.toNat := by
    rw [← hiff, hv]
    exact nofun
  simp only [not_forall, not_lt] at hfull
  obtain ⟨r, s, hs, hle⟩ := hfull
  -- accepting more does not lower a count, and the bound holds to the end
  exact ⟨r, s, hs, le_antisymm (h r s) (hle.trans (hmono r s))⟩

/-- Packing by the worst replication is slot-local and maximal: a load is accepted exactly if fewer
than `T` of the loads accepted before it touch each of its slots, and one that is refused as
infeasible touches a slot that the accepted loads fill up. -/
theorem pack_slotLocal (hw : config.aggregation = .worst) (n : ℕ) (cs : List Load)
    (hc : ∀ c ∈ cs, c.Simple ∧ c.InRange n) :
    ∃ decisions ledger, config.pack cs t n = .ok (decisions, ledger) ∧
      decisions.length = cs.length ∧
      (∀ i c d, cs[i]? = some c → decisions[i]? = some d →
        let before := Load.accepted (cs.take i) (decisions.take i)
        (d.verdict = .rejectedNegativeGap ↔ config.admitNegativeGaps = false ∧ c.score < 0.0) ∧
        (d.verdict ≠ .rejectedNegativeGap → (d.verdict = .accepted ↔ c.HasRoom before t.toNat)) ∧
        (Aggregate.worst.recount before c ≤ t.toFloat ↔ c.HasRoom before t.toNat) ∧
        (d.verdict = .rejectedInfeasible → ∃ r, ∃ s ∈ c.slots r, ledger.change r s = t.toNat ∧
          t.toNat < touching (c :: Load.accepted cs decisions) r s)) ∧
      ∀ r s, ledger.change r s = touching (Load.accepted cs decisions) r s ∧
        ledger.change r s ≤ t.toNat := by
  obtain ⟨decisions, ledger, hpack, hcount, hrecounts, htallies, hbound⟩ :=
    config.pack_worst t hw n cs hc
  have hsimple : ∀ c ∈ Load.accepted cs decisions, c.Simple := fun c hmem =>
    (hc c (Load.mem_of_mem_accepted cs decisions c hmem)).1
  have hchange (r : ℕ) (s : Slot) : ledger.change r s = occurrences _ r s := (htallies r).change s
  refine ⟨decisions, ledger, hpack, hcount, ?_, ?_⟩
  · intro i c d hi hd before
    have hsub : before.Sublist (Load.accepted cs decisions) := Load.accepted_take_sublist _ _ i
    have hbefore (r : ℕ) (s : Slot) : occurrences before r s ≤ t.toNat :=
      (occurrences_le_of_sublist before _ hsub r s).trans (hbound r s)
    -- for simple loads to have room is to have the occurrences below the bound
    have hroom : c.HasRoom before t.toNat ↔
        ∀ r, ∀ s ∈ c.slots r, occurrences before r s < t.toNat := by
      simp only [Load.HasRoom,
        occurrences_eq_touching before fun c hmem => hsimple c (hsub.subset hmem)]
    obtain rfl := Option.some.inj (hd.symm.trans (hrecounts i c hi))
    refine ⟨config.recount_score t before c ▸ config.recount_signed t before c, ?_, ?_, ?_⟩
    · rw [hroom]
      exact config.recount_accepted_iff t hw before hbefore c
    · rw [hroom]
      exact recount_worst_le_iff before t hbefore c
    · intro hv
      obtain ⟨r, s, hs, hfull⟩ := config.full_of_infeasible t hw before _ hsub hbound c hv
      refine ⟨r, s, hs, (hchange r s).trans hfull, ?_⟩
      rw [touching_cons, if_pos hs, ← occurrences_eq_touching _ hsimple, hfull]
      exact Nat.lt_succ_self _
  · intro r s
    rw [← occurrences_eq_touching _ hsimple, hchange]
    exact ⟨rfl, hbound r s⟩

/-- Five loads on one link: the third one comes to a link that is full for it, the second has no
slots, and the fourth would lose. -/
def crossing : List Load :=
  let link : Slot := ⟨"link", 7⟩
  let node : Slot := ⟨"node", 1⟩
  [⟨"a", 5.0, [(0, [link]), (1, [link])]⟩, ⟨"b", 4.0, [(0, []), (1, [])]⟩,
    ⟨"c", 3.0, [(0, [link, node])]⟩, ⟨"d", -1.0, [(1, [link])]⟩, ⟨"e", 1.0, [(1, [node])]⟩]

theorem pack_slotLocal_crossing :
    (∀ c ∈ crossing, c.Simple ∧ c.InRange 2) ∧
    ∃ decisions ledger, pack { aggregation := .worst } crossing 1 2 = .ok (decisions, ledger) ∧
      decisions.map Decision.verdict =
        [.accepted, .accepted, .rejectedInfeasible, .rejectedNegativeGap, .accepted] ∧
      ∃ c, crossing[2]? = some c ∧ ∃ r, ∃ s ∈ c.slots r, ledger.change r s = 1 ∧
        1 < touching (c :: Load.accepted crossing decisions) r s := by
  have hc : ∀ c ∈ crossing, c.Simple ∧ c.InRange 2 := by
    have hdec : ∀ c ∈ crossing, (c.footprints.map Prod.fst).Nodup ∧
        (∀ f ∈ c.footprints, f.2.Nodup) ∧ ∀ f ∈ c.footprints, f.1 < 2 := by
      decide
    intro c hmem
    obtain ⟨hreplications, hslots, hrange⟩ := hdec c hmem
    exact ⟨⟨hreplications, hslots⟩, hrange⟩
  obtain ⟨decisions, ledger, hpack, _, hlocal, _⟩ :=
    pack_slotLocal { aggregation := .worst } 1 rfl 2 crossing hc
  have hrun : (pack { aggregation := .worst } crossing 1 2).map
      (fun p => p.1.map Decision.verdict) = .ok
        [.accepted, .accepted, .rejectedInfeasible, .rejectedNegativeGap, .accepted] := by
    decide +kernel
  simp only [hpack, Except.map, Except.ok.injEq] at hrun
  have hthird : (decisions.map Decision.verdict)[2]? = some .rejectedInfeasible := by
    rw [hrun]
    rfl
  rw [List.getElem?_map, Option.map_eq_some_iff] at hthird
  obtain ⟨d, hd, hv⟩ := hthird
  exact ⟨hc, decisions, ledger, hpack, hrun, _, rfl, (hlocal 2 _ d rfl hd).2.2.2 hv⟩

end PackerConfig
end Replanning
