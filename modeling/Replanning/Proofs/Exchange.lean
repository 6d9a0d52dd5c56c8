import Replanning.Proofs.SlotLocal

/-! Of two neighbours without a slot in common the later one may read a largest change that the
earlier one has raised, and is decided as before nevertheless. -/
namespace Replanning

/-- The loads have no slot of a replication in common. -/
def Load.Independent (a b : Load) : Prop :=
  ∀ r, ∀ s ∈ a.slots r, s ∉ b.slots r

theorem Load.Independent.symm {a b : Load} (h : a.Independent b) : b.Independent a :=
  fun r s hb ha => h r s ha hb

theorem occurrences_append (loads more : List Load) (r : ℕ) (s : Slot) :
    occurrences (loads ++ more) r s = occurrences loads r s + occurrences more r s := by
  rw [occurrences, allSlots, List.flatMap_append, List.count_append]
  rfl

/-- Loads that do not touch a slot do not change its occurrences. -/
theorem occurrences_append_of_not_mem (loads more : List Load) (r : ℕ) (s : Slot)
    (h : ∀ c ∈ more, s ∉ c.slots r) : occurrences (loads ++ more) r s = occurrences loads r s := by
  have hzero : occurrences more r s = 0 := by
    apply List.count_eq_zero_of_not_mem
    intro hs
    obtain ⟨c, hc, hmem⟩ := List.mem_flatMap.mp hs
    exact h c hc hmem
  rw [occurrences_append, hzero, add_zero]

/-- A row is determined by the slots that it counts, in whatever order they came. -/
theorem LedgerRow.Tallies.unique {row row' : LedgerRow} {slots slots' : List Slot}
    (h : row.Tallies slots) (h' : row'.Tallies slots') (hp : slots.Perm slots') : row = row' := by
  have hmem (p : Slot × ℕ) : p ∈ row.counts ↔ p ∈ row'.counts := by
    obtain ⟨s, k⟩ := p
    rw [h.mem_counts_iff, h'.mem_counts_iff, hp.count_eq]
  have hcounts : row.counts = row'.counts :=
    Slot.sorted_eq_of_mem_iff Prod.fst _ _ h.sorted h'.sorted hmem
  have hmax : row.maxChange = row'.maxChange := by
    apply eq_of_forall_ge_iff
    intro k
    simp only [h.maxChange, h'.maxChange, peak_le_iff, hp.count_eq]
  cases row
  cases row'
  exact congrArg₂ LedgerRow.mk hcounts hmax

namespace Ledger

/-- A ledger of some rows is determined by the loads that it counts. -/
theorem Tallies.unique {l l' : Ledger} {loads loads' : List Load} (h : l.Tallies loads)
    (h' : l'.Tallies loads') (hp : loads.Perm loads') (hlen : l.rows.length = l'.rows.length) :
    l = l' := by
  have hrow (r : ℕ) : l.row r = l'.row r := (h r).unique (h' r) (hp.flatMap_right _)
  have hrows : l.rows = l'.rows := by
    apply List.ext_getElem hlen
    intro r hr hr'
    have hr'' := hrow r
    simpa only [row, List.getD_eq_getElem?_getD, List.getElem?_eq_getElem hr,
      List.getElem?_eq_getElem hr', Option.getD_some] using hr''
  exact congrArg Ledger.mk hrows

/-- The ledger of `n` replications counts the loads taken so far and is within the bound. -/
structure Packs (l : Ledger) (n t : ℕ) (taken : List Load) : Prop where
  tallies : l.Tallies taken
  length : l.rows.length = n
  within : ∀ r, l.maxChange r ≤ t

theorem Packs.occurrences_le {l : Ledger} {n t : ℕ} {taken : List Load} (h : l.Packs n t taken)
    (r : ℕ) (s : Slot) : occurrences taken r s ≤ t := by
  rw [occurrences, ← (h.tallies r).change]
  exact (l.change_le_maxChange h.tallies.sound r s).trans (h.within r)

theorem empty_packs (n t : ℕ) : (empty n).Packs n t [] where
  tallies := empty_tallies n
  length := List.length_replicate
  within := fun r => (maxChange_empty n r).le.trans (Nat.zero_le t)

end Ledger

/-- Whether a load is accepted can be told from its verdict. -/
theorem Load.accepted_congr (c : Load) (d d' : Decision) (h : d.verdict = d'.verdict) :
    Load.accepted [c] [d] = Load.accepted [c] [d'] := by
  by_cases hv : d.verdict = .accepted
  · rw [accepted_of_accepted c d hv, accepted_of_accepted c d' (h ▸ hv)]
  · rw [accepted_of_rejected c d hv, accepted_of_rejected c d' (h ▸ hv)]

namespace PackerConfig

variable (config : PackerConfig) (t : UInt32)

/-- Only the occurrences of the slots of a load enter its verdict. -/
theorem recount_verdict_congr (hw : config.aggregation = .worst) (taken taken' : List Load)
    (h : ∀ r s, occurrences taken r s ≤ t.toNat) (h' : ∀ r s, occurrences taken' r s ≤ t.toNat)
    (c : Load) (hc : ∀ r, ∀ s ∈ c.slots r, occurrences taken r s = occurrences taken' r s) :
    (config.recount t taken c).verdict = (config.recount t taken' c).verdict := by
  have hfit : Aggregate.worst.recount taken c ≤ t.toFloat ↔
      Aggregate.worst.recount taken' c ≤ t.toFloat := by
    rw [recount_worst_le_iff taken t h, recount_worst_le_iff taken' t h']
    refine forall_congr' fun r => forall₂_congr fun s hs => ?_
    rw [hc r s hs]
  unfold recount
  rw [hw]
  split_ifs
  · rfl
  · rfl
  · exact if_congr hfit rfl rfl

theorem step_packs (hw : config.aggregation = .worst) {l : Ledger} {n : ℕ} {taken : List Load}
    (h : l.Packs n t.toNat taken) (c : Load) (hc : c.Simple) (hr : c.InRange n) :
    (config.step t l c).2.Packs n t.toNat
      (taken ++ Load.accepted [c] [(config.step t l c).1]) := by
  have hr' : c.InRange l.rows.length := h.length.symm ▸ hr
  obtain ⟨hd, htallies, hlen⟩ := config.step_recounts t l taken h.tallies c hr'
  obtain ⟨_, hwithin, _⟩ :=
    config.step_within t l c h.tallies.sound h.within hc hr' (Or.inl hw)
  exact ⟨hd ▸ htallies, hlen.trans h.length, hwithin⟩

theorem steps_packs (hw : config.aggregation = .worst) {l : Ledger} {n : ℕ} {taken : List Load}
    (h : l.Packs n t.toNat taken) (cs : List Load) (hc : ∀ c ∈ cs, c.Simple ∧ c.InRange n) :
    ∃ taken', (config.steps t l cs).2.Packs n t.toNat taken' := by
  induction cs generalizing l taken with
  | nil => exact ⟨taken, h⟩
  | cons c rest ih =>
    obtain ⟨⟨hsimple, hrange⟩, hrest⟩ := List.forall_mem_cons.mp hc
    exact ih (config.step_packs t hw h c hsimple hrange) hrest

variable {config t} {l : Ledger} {n : ℕ} {taken : List Load} {a b : Load}

/-- A load is decided as if an independent one had not been there. -/
theorem verdict_step_of_independent (hw : config.aggregation = .worst)
    (h : l.Packs n t.toNat taken) (ha : a.Simple ∧ a.InRange n) (hb : b.InRange n)
    (hab : a.Independent b) :
    (config.step t (config.step t l a).2 b).1.verdict = (config.step t l b).1.verdict := by
  have hbehind := config.step_packs t hw h a ha.1 ha.2
  obtain ⟨hd, _⟩ := config.step_recounts t l taken h.tallies b (h.length.symm ▸ hb)
  obtain ⟨hd', _⟩ :=
    config.step_recounts t _ _ hbehind.tallies b (hbehind.length.symm ▸ hb)
  rw [hd, hd']
  apply config.recount_verdict_congr t hw _ _ hbehind.occurrences_le h.occurrences_le
  intro r s hs
  apply occurrences_append_of_not_mem
  intro c hc
  rw [List.mem_singleton.mp (Load.mem_of_mem_accepted [a] _ c hc)]
  exact hab.symm r s hs

/-- Two independent loads leave the same ledger in either order. -/
theorem ledger_step_exchange (hw : config.aggregation = .worst) (h : l.Packs n t.toNat taken)
    (ha : a.Simple ∧ a.InRange n) (hb : b.Simple ∧ b.InRange n) (hab : a.Independent b) :
    (config.step t (config.step t l a).2 b).2 = (config.step t (config.step t l b).2 a).2 := by
  have hleft := config.step_packs t hw (config.step_packs t hw h a ha.1 ha.2) b hb.1 hb.2
  have hright := config.step_packs t hw (config.step_packs t hw h b hb.1 hb.2) a ha.1 ha.2
  -- the same loads are accepted, the later one first
  rw [Load.accepted_congr b _ _ (verdict_step_of_independent hw h ha hb.2 hab)] at hleft
  rw [Load.accepted_congr a _ _ (verdict_step_of_independent hw h hb ha.2 hab.symm)] at hright
  apply hleft.tallies.unique hright.tallies _ (hleft.length.trans hright.length.symm)
  rw [List.append_assoc, List.append_assoc]
  exact List.perm_append_comm.append_left taken

variable (config t)

/-- Independent candidates commute. If two neighbours have no slot of a replication in common, then
packing by the worst replication decides every candidate the same in either order, and the ledger at
the end is the same. The candidates around the two are decided alike in all details. -/
theorem pack_exchange (hw : config.aggregation = .worst) (n : ℕ) (before after : List Load)
    (a b : Load) (hc : ∀ c ∈ before ++ a :: b :: after, c.Simple ∧ c.InRange n)
    (hab : a.Independent b) :
    ∃ first da db da' db' last ledger,
      config.pack (before ++ a :: b :: after) t n = .ok (first ++ da :: db :: last, ledger) ∧
      config.pack (before ++ b :: a :: after) t n = .ok (first ++ db' :: da' :: last, ledger) ∧
      first.length = before.length ∧ last.length = after.length ∧
      da'.verdict = da.verdict ∧ db'.verdict = db.verdict := by
  have hswap : (before ++ b :: a :: after).Perm (before ++ a :: b :: after) :=
    (List.Perm.swap a b after).append_left before
  obtain ⟨hbefore, hrest⟩ := List.forall_mem_append.mp hc
  obtain ⟨ha, hb, _⟩ := List.forall_mem_cons.mp hrest |>.imp_right List.forall_mem_cons.mp
  -- behind the loads in front of the two, nothing exceeds the bound
  obtain ⟨taken, hpacks⟩ := config.steps_packs t hw (Ledger.empty_packs n t.toNat) before hbefore
  have hleft := config.pack_ok t n _ fun c hmem => (hc c hmem).2
  have hright := config.pack_ok t n _ fun c hmem => (hc c (hswap.mem_iff.mp hmem)).2
  rw [steps_append, steps_cons, steps_cons] at hleft hright
  rw [← ledger_step_exchange hw hpacks ha hb hab] at hright
  exact ⟨_, _, _, _, _, _, _, hleft, hright, config.length_steps t (.empty n) before,
    config.length_steps t _ after, verdict_step_of_independent hw hpacks hb ha.2 hab.symm,
    (verdict_step_of_independent hw hpacks ha hb.2 hab).symm⟩

/-- Four loads on a link and a node, of which the first and the last stay in their places. -/
def queue (a b : Load) : List Load :=
  ⟨"a", 4.0, [(0, [⟨"link", 7⟩])]⟩ :: a :: b :: [⟨"d", 1.0, [(0, [⟨"link", 7⟩, ⟨"node", 1⟩])]⟩]

def follower : Load :=
  ⟨"b", 3.0, [(0, [⟨"link", 7⟩])]⟩

def crosser : Load :=
  ⟨"c", 2.0, [(0, [⟨"node", 1⟩])]⟩

theorem pack_exchange_queue :
    (∀ c ∈ queue follower crosser, c.Simple ∧ c.InRange 1) ∧ follower.Independent crosser ∧
    ∃ decisions decisions' ledger,
      pack { aggregation := .worst } (queue follower crosser) 2 1 = .ok (decisions, ledger) ∧
      pack { aggregation := .worst } (queue crosser follower) 2 1 = .ok (decisions', ledger) ∧
      decisions.map Decision.verdict = [.accepted, .accepted, .accepted, .rejectedInfeasible] := by
  have hc : ∀ c ∈ queue follower crosser, c.Simple ∧ c.InRange 1 := by
    have hdec : ∀ c ∈ queue follower crosser, (c.footprints.map Prod.fst).Nodup ∧
        (∀ f ∈ c.footprints, f.2.Nodup) ∧ ∀ f ∈ c.footprints, f.1 < 1 := by
      decide
    intro c hmem
    obtain ⟨hreplications, hslots, hrange⟩ := hdec c hmem
    exact ⟨⟨hreplications, hslots⟩, hrange⟩
  have hab : follower.Independent crosser := by
    intro r s ha hb
    obtain ⟨f, hf, _, hs⟩ := (mem_slots _ r s).mp ha
    obtain ⟨g, hg, _, hs'⟩ := (mem_slots _ r s).mp hb
    obtain rfl := List.mem_singleton.mp hf
    obtain rfl := List.mem_singleton.mp hg
    rw [List.mem_singleton.mp hs, List.mem_singleton] at hs'
    exact absurd hs' (by decide)
  obtain ⟨first, da, db, da', db', last, ledger, hpack, hpack', _⟩ :=
    pack_exchange { aggregation := .worst } 2 rfl 1 [_] [_] follower crosser hc hab
  have hrun : (pack { aggregation := .worst } (queue follower crosser) 2 1).map
      (fun p => p.1.map Decision.verdict) =
        .ok [.accepted, .accepted, .accepted, .rejectedInfeasible] := by
    decide +kernel
  refine ⟨hc, hab, _, _, ledger, hpack, hpack', ?_⟩
  rw [queue, ← List.singleton_append, hpack] at hrun
  exact Except.ok.inj hrun

-- the change that is read depends on the order: the crosser reads what the follower led to
example :
    ((pack { aggregation := .worst } (queue follower crosser) 2 1).map fun p =>
      p.1.map (·.anticipatedChange == some 1.0)) = .ok [true, false, false, false] ∧
    ((pack { aggregation := .worst } (queue crosser follower) 2 1).map fun p =>
      p.1.map (·.anticipatedChange == some 1.0)) = .ok [true, true, false, false] := by
  decide +kernel

end PackerConfig
end Replanning
