import Replanning.Ledger
import Replanning.Proofs.Outcome
import Replanning.Proofs.Slot

namespace Replanning
namespace LedgerRow

theorem lookup_eq_none_of_before (s : Slot) (counts : List (Slot × ℕ))
    (h : ∀ p ∈ counts, s.before p.1 = true) : counts.lookup s = none := by
  rw [List.lookup_eq_none_iff]
  intro p hp
  exact bne_iff_ne.mpr (Slot.ne_of_before s p.1 (h p hp))

/-- In a sorted list one more change of a slot is counted for this slot alone. -/
theorem lookup_bump (s t : Slot) (counts : List (Slot × ℕ))
    (h : counts.Pairwise fun p q => p.1.before q.1 = true) :
    ((bump s counts).lookup t).getD 0 =
      (counts.lookup t).getD 0 + if t = s then 1 else 0 := by
  induction counts with
  | nil =>
    rw [bump, lookup_cons_ite]
    split_ifs <;> rfl
  | cons p rest ih =>
    obtain ⟨u, n⟩ := p
    obtain ⟨hu, hrest⟩ := List.pairwise_cons.mp h
    -- the new slot belongs in front of the first one, is the first one, or goes further down
    by_cases hb : s.before u = true
    · rw [bump, if_pos hb, lookup_cons_ite]
      by_cases ht : t = s
      · subst ht
        -- the slot stands before all others, so it was not counted yet
        have hnone : List.lookup t ((u, n) :: rest) = none := by
          apply lookup_eq_none_of_before
          intro q hq
          rcases List.mem_cons.mp hq with rfl | hq
          · exact hb
          · exact Slot.before_trans t u q.1 hb (hu q hq)
        rw [if_pos rfl, if_pos rfl, hnone]
        rfl
      · rw [if_neg ht, if_neg ht, add_zero]
    by_cases he : s = u
    · subst he
      rw [bump, if_neg hb, if_pos rfl, lookup_cons_ite, lookup_cons_ite]
      split_ifs <;> rfl
    · rw [bump, if_neg hb, if_neg he, lookup_cons_ite, lookup_cons_ite]
      by_cases ht : t = u
      · have hts : ¬ t = s := fun h => he (h.symm.trans ht)
        rw [if_pos ht, if_pos ht, if_neg hts, add_zero]
      · rw [if_neg ht, if_neg ht, ih hrest]

theorem mem_bump (s : Slot) (counts : List (Slot × ℕ)) (p : Slot × ℕ) (hp : p ∈ bump s counts) :
    p.1 = s ∨ ∃ q ∈ counts, p.1 = q.1 := by
  induction counts with
  | nil => exact Or.inl (by rw [List.mem_singleton.mp hp])
  | cons q rest ih =>
    obtain ⟨u, n⟩ := q
    rw [bump] at hp
    split_ifs at hp with hb he
    · rcases List.mem_cons.mp hp with rfl | hp
      · exact Or.inl rfl
      · exact Or.inr ⟨p, hp, rfl⟩
    · rcases List.mem_cons.mp hp with rfl | hp
      · exact Or.inl he.symm
      · exact Or.inr ⟨p, List.mem_cons_of_mem _ hp, rfl⟩
    · rcases List.mem_cons.mp hp with rfl | hp
      · exact Or.inr ⟨(u, n), List.mem_cons_self, rfl⟩
      · rcases ih hp with h | ⟨q, hq, h⟩
        · exact Or.inl h
        · exact Or.inr ⟨q, List.mem_cons_of_mem _ hq, h⟩

theorem bump_pairwise (s : Slot) (counts : List (Slot × ℕ))
    (h : counts.Pairwise fun p q => p.1.before q.1 = true) :
    (bump s counts).Pairwise fun p q => p.1.before q.1 = true := by
  induction counts with
  | nil => exact List.pairwise_singleton _ _
  | cons p rest ih =>
    obtain ⟨u, n⟩ := p
    obtain ⟨hu, hrest⟩ := List.pairwise_cons.mp h
    rw [bump]
    split_ifs with hb he
    · refine List.pairwise_cons.mpr ⟨?_, h⟩
      intro q hq
      rcases List.mem_cons.mp hq with rfl | hq
      · exact hb
      · exact Slot.before_trans s u q.1 hb (hu q hq)
    · exact List.pairwise_cons.mpr ⟨hu, hrest⟩
    -- what stands behind the first slot now is the new slot or was there before
    · refine List.pairwise_cons.mpr ⟨?_, ih hrest⟩
      intro q hq
      rcases mem_bump s rest q hq with h' | ⟨r, hr, h'⟩
      · rw [h']
        exact Slot.before_of_not_before s u hb he
      · rw [h']
        exact hu r hr

/-- The counts are in order, and the largest one bounds them all. -/
structure Sound (row : LedgerRow) : Prop where
  sorted : row.counts.Pairwise fun p q => p.1.before q.1 = true
  bounded : ∀ s, row.change s ≤ row.maxChange

theorem empty_sound : empty.Sound :=
  ⟨List.Pairwise.nil, fun _ => le_rfl⟩

theorem change_add (row : LedgerRow) (h : row.Sound) (s t : Slot) :
    (row.add s).change t = row.change t + if t = s then 1 else 0 :=
  lookup_bump s t row.counts h.sorted

theorem add_sound (row : LedgerRow) (h : row.Sound) (s : Slot) : (row.add s).Sound := by
  refine ⟨bump_pairwise s row.counts h.sorted, ?_⟩
  intro t
  rw [change_add row h s t]
  change _ ≤ max row.maxChange (row.change s + 1)
  have ht := h.bounded t
  split_ifs with hts
  · subst hts
    omega
  · omega

theorem commit_sound (row : LedgerRow) (h : row.Sound) (slots : List Slot) :
    (row.commit slots).Sound := by
  induction slots generalizing row with
  | nil => exact h
  | cons s rest ih => exact ih (row.add s) (add_sound row h s)

/-- Only the counts of the committed slots enter an anticipation. -/
theorem anticipate_congr (row row' : LedgerRow) (slots : List Slot)
    (hm : row.maxChange = row'.maxChange) (hc : ∀ s ∈ slots, row.change s = row'.change s) :
    row.anticipate slots = row'.anticipate slots := by
  unfold anticipate
  rw [hm]
  -- the largest change grows along the slots, so the induction is for every value of it
  generalize row'.maxChange = m
  induction slots generalizing m with
  | nil => rfl
  | cons s rest ih =>
    simp only [List.foldl_cons, hc s List.mem_cons_self]
    exact ih (fun t ht => hc t (List.mem_cons_of_mem _ ht)) _

/-- Committing distinct slots leads to the largest change that was anticipated. -/
theorem maxChange_commit (row : LedgerRow) (h : row.Sound) (slots : List Slot)
    (hn : slots.Nodup) : (row.commit slots).maxChange = row.anticipate slots := by
  induction slots generalizing row with
  | nil => rfl
  | cons s rest ih =>
    obtain ⟨hs, hrest⟩ := List.nodup_cons.mp hn
    -- the slot that has just been counted is not among the rest
    have hstep : (row.add s).anticipate rest =
        (LedgerRow.mk row.counts (max row.maxChange (row.change s + 1))).anticipate rest := by
      refine anticipate_congr _ _ rest rfl fun t ht => ?_
      have hne : t ≠ s := fun he => hs (he ▸ ht)
      rw [change_add row h s t, if_neg hne]
      rfl
    calc (row.commit (s :: rest)).maxChange = (row.add s).anticipate rest :=
          ih (row.add s) (add_sound row h s) hrest
      _ = _ := hstep
      _ = row.anticipate (s :: rest) := by
        simp only [anticipate, List.foldl_cons, add_comm 1]
        rfl

/-- An anticipation is within a bound if the largest count is, and each of the slots once more. -/
theorem anticipate_le_iff (row : LedgerRow) (slots : List Slot) (n : ℕ) :
    row.anticipate slots ≤ n ↔ row.maxChange ≤ n ∧ ∀ s ∈ slots, 1 + row.change s ≤ n := by
  unfold anticipate
  -- the largest change grows along the slots, so the induction is for every value of it
  generalize row.maxChange = m
  induction slots generalizing m with
  | nil => simp only [List.foldl_nil, List.not_mem_nil, false_implies, implies_true, and_true]
  | cons s rest ih => rw [List.foldl_cons, ih, max_le_iff, List.forall_mem_cons, and_assoc]

/-- An anticipation exceeds a bound on all counts by one at most. -/
theorem anticipate_le_succ (row : LedgerRow) (h : row.Sound) (slots : List Slot) (n : ℕ)
    (hn : row.maxChange ≤ n) : row.anticipate slots ≤ n+1 := by
  rw [anticipate_le_iff]
  refine ⟨hn.trans (Nat.le_succ n), ?_⟩
  intro s _
  have hs := h.bounded s
  omega

end LedgerRow

namespace Ledger

def Sound (l : Ledger) : Prop :=
  ∀ r, (l.row r).Sound

theorem row_empty (replications r : ℕ) : (empty replications).row r = .empty := by
  simp only [row, empty, List.getD_eq_getElem?_getD, List.getElem?_replicate]
  split_ifs <;> rfl

theorem maxChange_empty (replications r : ℕ) : (empty replications).maxChange r = 0 := by
  rw [maxChange, row_empty]
  rfl

theorem empty_sound (replications : ℕ) : (empty replications).Sound := by
  intro r
  rw [row_empty]
  exact LedgerRow.empty_sound

theorem row_commit_self (l : Ledger) (r : ℕ) (slots : List Slot) (hr : r < l.rows.length) :
    (l.commit r slots).row r = (l.row r).commit slots := by
  simp only [row, commit, List.getD_eq_getElem?_getD, List.getElem?_modify_eq,
    List.getElem?_eq_getElem hr]
  rfl

theorem row_commit_ne (l : Ledger) (r r' : ℕ) (slots : List Slot) (h : r ≠ r') :
    (l.commit r slots).row r' = l.row r' := by
  simp only [row, commit, List.getD_eq_getElem?_getD, List.getElem?_modify_ne _ _ h]

theorem length_commit (l : Ledger) (r : ℕ) (slots : List Slot) :
    (l.commit r slots).rows.length = l.rows.length :=
  List.length_modify _ _ _

/-- No count of a sound ledger exceeds the largest one of its replication. -/
theorem change_le_maxChange (l : Ledger) (h : l.Sound) (r : ℕ) (s : Slot) :
    l.change r s ≤ l.maxChange r :=
  (h r).bounded s

/-- The largest change of all is one of the largest changes. -/
theorem overallMaxChange_le (l : Ledger) (n : ℕ) (h : ∀ r, l.maxChange r ≤ n) :
    l.overallMaxChange ≤ n := by
  have hrows : ∀ row ∈ l.rows, row.maxChange ≤ n := by
    intro row hrow
    obtain ⟨r, hr, rfl⟩ := List.getElem_of_mem hrow
    have hh := h r
    rwa [maxChange, Ledger.row, List.getD_eq_getElem?_getD, List.getElem?_eq_getElem hr] at hh
  have hfold (m : ℕ) (hm : m ≤ n) (rows : List LedgerRow) (hr : ∀ row ∈ rows, row.maxChange ≤ n) :
      rows.foldl (fun most row => max most row.maxChange) m ≤ n := by
    induction rows generalizing m with
    | nil => exact hm
    | cons row rest ih =>
      have hh := hr row List.mem_cons_self
      exact ih (max m row.maxChange) (by omega) fun r hr' => hr r (List.mem_cons_of_mem _ hr')
  exact hfold 0 (Nat.zero_le n) l.rows hrows

end Ledger
end Replanning
