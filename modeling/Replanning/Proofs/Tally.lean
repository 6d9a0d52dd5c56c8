import Mathlib.Data.Finset.Lattice.Fold
import Replanning.Proofs.Packing

namespace Replanning

/-- The occurrences of the slot that a list names most often, zero for the empty list. -/
def peak (slots : List Slot) : ℕ :=
  slots.toFinset.sup fun s => slots.count s

theorem peak_le_iff (slots : List Slot) (n : ℕ) :
    peak slots ≤ n ↔ ∀ s, slots.count s ≤ n := by
  rw [peak, Finset.sup_le_iff]
  constructor
  · intro h s
    by_cases hs : s ∈ slots
    · exact h s (List.mem_toFinset.mpr hs)
    · rw [List.count_eq_zero_of_not_mem hs]
      exact Nat.zero_le n
  · intro h s _
    exact h s

theorem count_le_peak (slots : List Slot) (s : Slot) : slots.count s ≤ peak slots :=
  (peak_le_iff slots _).mp le_rfl s

/-- The peak is the maximum over all slots. -/
theorem peak_isGreatest (slots : List Slot) :
    IsGreatest (Set.range fun s => slots.count s) (peak slots) := by
  constructor
  · by_cases hne : slots.toFinset.Nonempty
    · obtain ⟨s, _, hs⟩ := Finset.exists_mem_eq_sup slots.toFinset hne fun s => slots.count s
      exact ⟨s, hs.symm⟩
    -- in the empty list every slot is a maximum
    · obtain rfl : slots = [] := by
        rwa [Finset.not_nonempty_iff_eq_empty, List.toFinset_eq_empty_iff] at hne
      exact ⟨⟨"", 0⟩, rfl⟩
  · rintro _ ⟨s, rfl⟩
    exact count_le_peak slots s

theorem count_concat (slots : List Slot) (s t : Slot) :
    (slots ++ [s]).count t = slots.count t + if t = s then 1 else 0 := by
  simp only [List.count_append, List.count_singleton, beq_iff_eq, @eq_comm Slot s]

theorem peak_concat (slots : List Slot) (s : Slot) :
    peak (slots ++ [s]) = max (peak slots) (slots.count s + 1) := by
  apply eq_of_forall_ge_iff
  intro n
  rw [peak_le_iff, max_le_iff, peak_le_iff]
  simp only [count_concat]
  constructor
  · intro h
    refine ⟨fun t => (Nat.le_add_right _ _).trans (h t), ?_⟩
    simpa only [↓reduceIte] using h s
  · rintro ⟨h, hs⟩ t
    split_ifs with ht
    · rwa [ht]
    · exact h t

namespace LedgerRow

/-- The row counts the occurrences of every slot in a list. -/
structure Tallies (row : LedgerRow) (slots : List Slot) : Prop where
  sorted : row.counts.Pairwise fun p q => p.1.before q.1 = true
  positive : ∀ p ∈ row.counts, 0 < p.2
  change : ∀ s, row.change s = slots.count s
  maxChange : row.maxChange = peak slots

theorem Tallies.sound {row : LedgerRow} {slots : List Slot} (h : row.Tallies slots) :
    row.Sound := by
  refine ⟨h.sorted, ?_⟩
  intro s
  rw [h.change, h.maxChange]
  exact count_le_peak slots s

theorem empty_tallies : empty.Tallies [] where
  sorted := List.Pairwise.nil
  positive := fun _ hp => absurd hp List.not_mem_nil
  change := fun _ => rfl
  maxChange := rfl

theorem bump_positive (s : Slot) (counts : List (Slot × ℕ)) (h : ∀ p ∈ counts, 0 < p.2) :
    ∀ p ∈ bump s counts, 0 < p.2 := by
  induction counts with
  | nil =>
    intro p hp
    rw [List.mem_singleton.mp hp]
    exact Nat.one_pos
  | cons q rest ih =>
    obtain ⟨hq, hrest⟩ := List.forall_mem_cons.mp h
    rw [bump]
    split_ifs
    · exact List.forall_mem_cons.mpr ⟨Nat.one_pos, h⟩
    · exact List.forall_mem_cons.mpr ⟨Nat.succ_pos _, hrest⟩
    · exact List.forall_mem_cons.mpr ⟨hq, ih hrest⟩

theorem add_tallies (row : LedgerRow) (slots : List Slot) (h : row.Tallies slots) (s : Slot) :
    (row.add s).Tallies (slots ++ [s]) where
  sorted := (add_sound row h.sound s).sorted
  positive := bump_positive s row.counts h.positive
  change := by
    intro t
    rw [change_add row h.sound, h.change, count_concat]
  maxChange := by
    rw [peak_concat, ← h.maxChange, ← h.change]
    rfl

theorem commit_tallies (row : LedgerRow) (slots more : List Slot) (h : row.Tallies slots) :
    (row.commit more).Tallies (slots ++ more) := by
  induction more generalizing row slots with
  | nil =>
    rw [List.append_nil]
    exact h
  | cons s rest ih =>
    rw [List.append_cons]
    exact ih (row.add s) (slots ++ [s]) (add_tallies row slots h s)

/-- What a row lists is what occurs, with the number of its occurrences. -/
theorem Tallies.mem_counts_iff {row : LedgerRow} {slots : List Slot} (h : row.Tallies slots)
    (s : Slot) (n : ℕ) : (s, n) ∈ row.counts ↔ 0 < n ∧ n = slots.count s := by
  have hchange : (row.counts.lookup s).getD 0 = slots.count s := h.change s
  constructor
  · intro hmem
    refine ⟨h.positive _ hmem, ?_⟩
    -- the slots in front of this one are smaller, so looking it up finds this entry
    obtain ⟨front, rest, hsplit⟩ := List.append_of_mem hmem
    have hfront : ∀ p ∈ front, (s != p.1) = true := by
      intro p hp
      have hbefore := (List.pairwise_append.mp (hsplit ▸ h.sorted)).2.2 p hp (s, n)
        List.mem_cons_self
      exact bne_iff_ne.mpr (Slot.ne_of_before p.1 s hbefore).symm
    have hlookup : row.counts.lookup s = some n :=
      List.lookup_eq_some_iff.mpr ⟨front, rest, hsplit, hfront⟩
    rw [← hchange, hlookup]
    rfl
  · rintro ⟨hpos, hn⟩
    cases hlookup : row.counts.lookup s with
    | none =>
      rw [hlookup] at hchange
      change 0 = _ at hchange
      omega
    | some k =>
      rw [hlookup] at hchange
      obtain ⟨front, rest, hsplit, _⟩ := List.lookup_eq_some_iff.mp hlookup
      rw [hn, ← hchange, hsplit]
      exact List.mem_append_right front List.mem_cons_self

theorem Tallies.nodup_slots {row : LedgerRow} {slots : List Slot} (h : row.Tallies slots) :
    (row.counts.map Prod.fst).Nodup := by
  rw [List.Nodup, List.pairwise_map]
  exact h.sorted.imp fun {p q} hbefore => Slot.ne_of_before p.1 q.1 hbefore

end LedgerRow

/-- The slots that some loads touch in a replication, one after the other. -/
def allSlots (loads : List Load) (r : ℕ) : List Slot :=
  loads.flatMap (·.slots r)

/-- How often a slot of a replication occurs in the footprints of some loads. -/
def occurrences (loads : List Load) (r : ℕ) (s : Slot) : ℕ :=
  (allSlots loads r).count s

theorem allSlots_concat (loads : List Load) (c : Load) (r : ℕ) :
    allSlots (loads ++ [c]) r = allSlots loads r ++ c.slots r := by
  rw [allSlots, List.flatMap_append, List.flatMap_singleton]
  rfl

/-- More loads do not make any slot occur less. -/
theorem occurrences_le_of_sublist (loads loads' : List Load) (h : loads.Sublist loads') (r : ℕ)
    (s : Slot) : occurrences loads r s ≤ occurrences loads' r s :=
  (h.flatMap _).count_le s

theorem slots_of_isInert (c : Load) (h : c.isInert = true) (r : ℕ) : c.slots r = [] := by
  rw [List.eq_nil_iff_forall_not_mem]
  intro s hs
  obtain ⟨f, hf, _, hmem⟩ := (mem_slots c r s).mp hs
  rw [List.isEmpty_iff.mp (List.all_eq_true.mp h f hf)] at hmem
  exact List.not_mem_nil hmem

namespace Ledger

/-- Every row counts what the loads touch in its replication. -/
def Tallies (l : Ledger) (loads : List Load) : Prop :=
  ∀ r, (l.row r).Tallies (allSlots loads r)

theorem Tallies.sound {l : Ledger} {loads : List Load} (h : l.Tallies loads) : l.Sound :=
  fun r => (h r).sound

theorem empty_tallies (replications : ℕ) : (empty replications).Tallies [] := by
  intro r
  rw [row_empty]
  exact LedgerRow.empty_tallies

theorem accept_tallies (l : Ledger) (loads : List Load) (h : l.Tallies loads) (c : Load)
    (hr : c.InRange l.rows.length) : (l.accept c).Tallies (loads ++ [c]) := by
  intro r
  rw [row_accept l c hr r, allSlots_concat]
  exact LedgerRow.commit_tallies _ _ _ (h r)

/-- A load without slots leaves no trace. -/
theorem Tallies.concat_of_isInert {l : Ledger} {loads : List Load} (h : l.Tallies loads) (c : Load)
    (hc : c.isInert = true) : l.Tallies (loads ++ [c]) := by
  intro r
  rw [allSlots_concat, slots_of_isInert c hc r, List.append_nil]
  exact h r

end Ledger
end Replanning
