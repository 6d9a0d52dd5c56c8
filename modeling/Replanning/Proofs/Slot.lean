import Mathlib.Data.String.Basic
import Replanning.Slot

namespace Replanning
namespace Slot

theorem before_iff (s t : Slot) : s.before t = true ↔
    s.location < t.location ∨ (s.location = t.location ∧ s.timeBin < t.timeBin) := by
  simp only [before, Bool.or_eq_true, Bool.and_eq_true, decide_eq_true_eq]

theorem before_irrefl (s : Slot) : ¬ s.before s = true := by
  simp only [before_iff, lt_irrefl, UInt32.lt_irrefl, and_false, or_self, not_false_eq_true]

theorem before_trans (s t u : Slot) (hst : s.before t = true) (htu : t.before u = true) :
    s.before u = true := by
  rw [before_iff] at *
  rcases hst with h | ⟨he,h⟩ <;> rcases htu with h' | ⟨he',h'⟩
  · exact Or.inl (h.trans h')
  · exact Or.inl (he' ▸ h)
  · exact Or.inl (he ▸ h')
  · exact Or.inr ⟨he.trans he', UInt32.lt_trans h h'⟩

theorem ne_of_before (s t : Slot) (h : s.before t = true) : s ≠ t := by
  rintro rfl
  exact before_irrefl s h

/-- Two different slots stand in some order. -/
theorem before_of_not_before (s t : Slot) (h : ¬ s.before t = true) (hne : s ≠ t) :
    t.before s = true := by
  rw [before_iff] at *
  rw [not_or, not_and] at h
  -- the locations decide, and the time bins where the locations are equal
  rcases lt_trichotomy s.location t.location with hl | hl | hl
  · exact absurd hl h.1
  · refine Or.inr ⟨hl.symm, ?_⟩
    have ht : t.timeBin ≤ s.timeBin := UInt32.not_lt.mp (h.2 hl)
    apply UInt32.lt_of_le_of_ne ht
    intro he
    apply hne
    cases s
    cases t
    simp only at hl he
    rw [hl, he]
  · exact Or.inl hl

/-- Things in the strict order of their slots are determined by which things they are. -/
theorem sorted_eq_of_mem_iff {α : Type} (slot : α → Slot) (xs ys : List α)
    (hx : xs.Pairwise fun a b => (slot a).before (slot b) = true)
    (hy : ys.Pairwise fun a b => (slot a).before (slot b) = true)
    (hmem : ∀ a, a ∈ xs ↔ a ∈ ys) : xs = ys := by
  -- no slot stands before itself, so nothing is there twice
  have hnodup (zs : List α) (hz : zs.Pairwise fun a b => (slot a).before (slot b) = true) :
      zs.Nodup :=
    hz.imp fun {a b} hab heq => ne_of_before _ _ hab (congrArg slot heq)
  have hperm : xs.Perm ys := (List.perm_ext_iff_of_nodup (hnodup xs hx) (hnodup ys hy)).mpr hmem
  refine hperm.eq_of_pairwise ?_ hx hy
  intro a b _ _ hab hba
  exact absurd (before_trans _ _ _ hab hba) (before_irrefl (slot a))

theorem mem_insert (s t : Slot) (slots : List Slot) : t ∈ insert s slots ↔ t = s ∨ t ∈ slots := by
  induction slots with
  | nil => simp only [insert, List.mem_singleton, List.not_mem_nil, or_false]
  | cons u rest ih =>
    rw [insert]
    split_ifs with hb he
    · exact List.mem_cons
    · subst he
      simp only [List.mem_cons, or_self_left]
    · simp only [List.mem_cons, ih]
      tauto

theorem insert_pairwise (s : Slot) (slots : List Slot)
    (h : slots.Pairwise fun a b => a.before b = true) :
    (insert s slots).Pairwise fun a b => a.before b = true := by
  induction slots with
  | nil => exact List.pairwise_singleton _ _
  | cons u rest ih =>
    have hu := List.pairwise_cons.mp h
    rw [insert]
    split_ifs with hb he
    · refine List.pairwise_cons.mpr ⟨?_, h⟩
      intro t ht
      rcases List.mem_cons.mp ht with rfl | ht
      · exact hb
      · exact before_trans s u t hb (hu.1 t ht)
    · exact h
    · refine List.pairwise_cons.mpr ⟨?_, ih hu.2⟩
      intro t ht
      rcases (mem_insert s t rest).mp ht with rfl | ht
      · exact before_of_not_before t u hb he
      · exact hu.1 t ht

/-- The different slots of a list come in strictly increasing order. -/
theorem distinct_pairwise (slots : List Slot) :
    (distinct slots).Pairwise fun a b => a.before b = true := by
  induction slots with
  | nil => exact List.Pairwise.nil
  | cons s rest ih => exact insert_pairwise s _ ih

theorem mem_distinct (slots : List Slot) (t : Slot) : t ∈ distinct slots ↔ t ∈ slots := by
  induction slots with
  | nil => rfl
  | cons s rest ih =>
    change t ∈ insert s (distinct rest) ↔ _
    rw [mem_insert, ih, List.mem_cons]

end Slot

/-- A footprint names what is visited more often, and if vacated slots count, also what is visited
less often. -/
theorem mem_footprint (current candidate : List Slot) (countVacated : Bool) (s : Slot) :
    s ∈ footprint current candidate countVacated ↔ current.count s < candidate.count s ∨
      countVacated = true ∧ candidate.count s < current.count s := by
  simp only [footprint, List.mem_filter, Slot.mem_distinct, Bool.or_eq_true, Bool.and_eq_true,
    decide_eq_true_eq, and_iff_right_iff_imp]
  -- a slot with visits under one of the plans is a slot of this plan
  intro h
  apply List.mem_append.mpr
  rcases h with h | ⟨_, h⟩
  · exact Or.inl (List.count_pos_iff.mp (Nat.zero_lt_of_lt h))
  · exact Or.inr (List.count_pos_iff.mp (Nat.zero_lt_of_lt h))

theorem footprint_pairwise (current candidate : List Slot) (countVacated : Bool) :
    (footprint current candidate countVacated).Pairwise fun a b => a.before b = true :=
  (Slot.distinct_pairwise _).filter _

/-- A footprint names no slot twice. -/
theorem footprint_nodup (current candidate : List Slot) (countVacated : Bool) :
    (footprint current candidate countVacated).Nodup :=
  (footprint_pairwise current candidate countVacated).imp fun {a b} => Slot.ne_of_before a b

end Replanning
