import Mathlib
import Replanning.Proofs.Slot

namespace Replanning
namespace Slot

instance : Std.TransCmp order :=
  inferInstanceAs (Std.TransCmp (compareLex (compareOn location) (compareOn timeBin)))

theorem order_eq_lt_iff (s t : Slot) : order s t = .lt ↔ s.before t = true := by
  rw [before_iff, order, compareLex, Ordering.then_eq_lt, compareOn, compareOn, compare_lt_iff_lt,
    compare_eq_iff_eq, Std.compare_eq_lt]

theorem order_eq_eq_iff (s t : Slot) : order s t = .eq ↔ s = t := by
  rw [order, compareLex, Ordering.then_eq_eq, compareOn, compareOn, compare_eq_iff_eq,
    Std.LawfulEqCmp.compare_eq_iff_eq]
  cases s
  cases t
  simp only [mk.injEq]

instance : Std.LawfulEqCmp order where
  eq_of_compare := (order_eq_eq_iff _ _).mp

theorem getD_charge (gain : ℤ) (balance : Std.TreeMap Slot ℤ order) (slots : List Slot) (t : Slot) :
    (charge gain balance slots).getD t 0 = balance.getD t 0 + slots.count t * gain := by
  induction slots generalizing balance with
  | nil =>
    rw [List.count_nil, Nat.cast_zero, zero_mul, add_zero]
    rfl
  | cons s rest ih =>
    have hstep := ih (balance.insert s (balance.getD s 0 + gain))
    rw [Std.TreeMap.getD_insert] at hstep
    refine hstep.trans ?_
    by_cases hs : s = t
    · subst hs
      rw [if_pos ((order_eq_eq_iff s s).mpr rfl), List.count_cons_self]
      push_cast
      ring
    · rw [if_neg (mt (order_eq_eq_iff s t).mp hs), List.count_cons_of_ne hs]

/-- The balance of a slot is the difference of its visits. -/
theorem getD_netVisits (current candidate : List Slot) (s : Slot) :
    (netVisits current candidate).getD s 0 = candidate.count s - current.count s := by
  rw [netVisits, getD_charge, getD_charge, Std.TreeMap.getD_emptyc]
  ring

end Slot

/-- A footprint is read off the balance: the slots above zero, and if vacated slots count, also those
below zero. -/
theorem footprint_eq_netVisits (current candidate : List Slot) (countVacated : Bool) :
    footprint current candidate countVacated =
      ((Slot.netVisits current candidate).toList.filter fun p =>
        0 < p.2 || (countVacated && p.2 < 0)).map Prod.fst := by
  apply Slot.sorted_eq_of_mem_iff id
  · exact footprint_pairwise current candidate countVacated
  · rw [List.pairwise_map]
    refine (Std.TreeMap.ordered_keys_toList.filter _).imp fun {p q} h => ?_
    exact (Slot.order_eq_lt_iff p.1 q.1).mp h
  intro s
  have hnet := Slot.getD_netVisits current candidate s
  rw [mem_footprint, List.mem_map]
  constructor
  · intro hs
    -- a slot without an entry would have the balance zero
    cases hentry : (Slot.netVisits current candidate)[s]? with
    | none =>
      rw [Std.TreeMap.getD_eq_getD_getElem?, hentry, Option.getD_none] at hnet
      omega
    | some k =>
      rw [Std.TreeMap.getD_eq_getD_getElem?, hentry, Option.getD_some] at hnet
      refine ⟨(s, k), List.mem_filter.mpr ⟨?_, ?_⟩, rfl⟩
      · exact Std.TreeMap.mem_toList_iff_getElem?_eq_some.mpr hentry
      · simp only [Bool.or_eq_true, Bool.and_eq_true, decide_eq_true_eq]
        exact hs.imp (fun h => by omega) (And.imp_right fun h => by omega)
  · rintro ⟨⟨s', k⟩, hp, rfl⟩
    obtain ⟨hentry, hk⟩ := List.mem_filter.mp hp
    rw [Std.TreeMap.mem_toList_iff_getElem?_eq_some] at hentry
    rw [Std.TreeMap.getD_eq_getD_getElem?, hentry, Option.getD_some] at hnet
    simp only [Bool.or_eq_true, Bool.and_eq_true, decide_eq_true_eq] at hk
    exact hk.imp (fun h => by omega) (And.imp_right fun h => by omega)

/-- Without vacated slots a footprint has what is visited more often. -/
theorem mem_footprint_false (current candidate : List Slot) (s : Slot) :
    s ∈ footprint current candidate false ↔ current.count s < candidate.count s := by
  rw [mem_footprint, or_iff_left (fun h => absurd h.1 Bool.false_ne_true)]

/-- With vacated slots it has what is not visited as often. -/
theorem mem_footprint_true (current candidate : List Slot) (s : Slot) :
    s ∈ footprint current candidate true ↔ current.count s ≠ candidate.count s := by
  rw [mem_footprint, Nat.ne_iff_lt_or_gt, and_iff_right rfl]

theorem footprint_congr (current candidate current' candidate' : List Slot)
    (countVacated countVacated' : Bool)
    (h : ∀ s, s ∈ footprint current candidate countVacated ↔
      s ∈ footprint current' candidate' countVacated') :
    footprint current candidate countVacated = footprint current' candidate' countVacated' :=
  Slot.sorted_eq_of_mem_iff id _ _ (footprint_pairwise _ _ _) (footprint_pairwise _ _ _) h

/-- What a switch adds, the switch back vacates. -/
theorem footprint_disjoint (current candidate : List Slot) :
    (footprint current candidate false).Disjoint (footprint candidate current false) := by
  intro s hadded hvacated
  rw [mem_footprint_false] at hadded hvacated
  omega

/-- A footprint is the sorted difference of two multisets, and is read off the balance of the
switch. Counted both ways it is the disjoint union of what the two directions of the switch add. -/
theorem footprint_difference (current candidate : List Slot) (countVacated : Bool) :
    ((footprint current candidate countVacated).Pairwise fun s t =>
      s.location < t.location ∨ s.location = t.location ∧ s.timeBin < t.timeBin) ∧
    (∀ s, s ∈ footprint current candidate countVacated ↔ current.count s < candidate.count s ∨
      countVacated = true ∧ candidate.count s < current.count s) ∧
    footprint current candidate countVacated =
      ((Slot.netVisits current candidate).toList.filter fun p =>
        0 < p.2 || (countVacated && p.2 < 0)).map Prod.fst ∧
    (∀ current' candidate', current.Perm current' → candidate.Perm candidate' →
      footprint current candidate countVacated = footprint current' candidate' countVacated) ∧
    footprint current candidate true = footprint candidate current true ∧
    (footprint current candidate false).Disjoint (footprint candidate current false) ∧
    (footprint current candidate false ++ footprint candidate current false).Perm
      (footprint current candidate true) := by
  have hmem := mem_footprint current candidate countVacated
  refine ⟨?_, hmem, footprint_eq_netVisits _ _ _, ?_, ?_, footprint_disjoint _ _, ?_⟩
  · exact (footprint_pairwise _ _ _).imp fun {s t} h => (Slot.before_iff s t).mp h
  · intro current' candidate' hcurrent hcandidate
    apply footprint_congr
    intro s
    rw [hmem, mem_footprint, hcurrent.count_eq, hcandidate.count_eq]
  · apply footprint_congr
    intro s
    rw [mem_footprint_true, mem_footprint_true, ne_comm]
  -- neither side names a slot twice
  · have hnodup : (footprint current candidate false ++ footprint candidate current false).Nodup :=
      (footprint_nodup _ _ _).append (footprint_nodup _ _ _) (footprint_disjoint _ _)
    rw [List.perm_ext_iff_of_nodup hnodup (footprint_nodup _ _ _)]
    intro s
    rw [List.mem_append, mem_footprint_false, mem_footprint_false, mem_footprint_true]
    omega

/-- A detour: one of two visits to the link is given up, the node keeps its own, and the square is
new. -/
theorem footprint_difference_detour :
    let link : Slot := ⟨"link", 7⟩
    let node : Slot := ⟨"node", 1⟩
    let square : Slot := ⟨"square", 3⟩
    [link, node, link].Perm [link, link, node] ∧ [node, square, link].Perm [link, node, square] ∧
    footprint [link, node, link] [node, square, link] true =
      footprint [link, link, node] [link, node, square] true ∧
    footprint [link, node, link] [node, square, link] true =
      footprint [node, square, link] [link, node, link] true ∧
    footprint [link, node, link] [node, square, link] false = [square] ∧
    ([square] ++ [link]).Perm (footprint [link, node, link] [node, square, link] true) := by
  intro link node square
  have hcurrent : [link, node, link].Perm [link, link, node] := by decide
  have hcandidate : [node, square, link].Perm [link, node, square] := by decide
  obtain ⟨_, _, _, hperm, hback, _, hunion⟩ :=
    footprint_difference [link, node, link] [node, square, link] true
  have hadded : footprint [link, node, link] [node, square, link] false = [square] := by
    decide +kernel
  have hvacated : footprint [node, square, link] [link, node, link] false = [link] := by
    decide +kernel
  rw [hadded, hvacated] at hunion
  exact ⟨hcurrent, hcandidate, hperm _ _ hcurrent hcandidate, hback, hadded, hunion⟩

end Replanning
