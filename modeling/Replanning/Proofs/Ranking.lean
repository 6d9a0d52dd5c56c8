import Replanning.Proofs.Binary64.Signed
import Replanning.Proofs.Listing

namespace Replanning
namespace RandomStream

variable {α : Type}

/-- What the exchange of the positions `i`, …, `1` draws: each position, the highest first, with the
one to exchange it with. -/
def exchanges : ℕ → RandomStream → List (ℕ × ℕ)
  | 0, _ => []
  | i + 1, s => (i + 1, (s.below (i + 2)).1) :: exchanges i s.next.2

/-- The exchanges are those that were drawn, one after the other. -/
theorem exchange_eq_foldl (i : ℕ) (items : Array α) (s : RandomStream) :
    (exchange i items s).1 =
      (exchanges i s).foldl (fun items p => items.swapIfInBounds p.1 p.2) items := by
  induction i generalizing items s with
  | zero => rfl
  | succ i ih => exact ih _ s.next.2

theorem length_exchanges (i : ℕ) (s : RandomStream) : (exchanges i s).length = i := by
  induction i generalizing s with
  | zero => rfl
  | succ i ih => exact congrArg (· + 1) (ih s.next.2)

/-- Behind `k` draws the position is `i - k`, and the next draw is below the number of positions that
are not above it. -/
theorem exchanges_drawn (i k : ℕ) (s : RandomStream) (hk : k < i) :
    ∃ j, (exchanges i s)[k]? = some (i - k, j) ∧ j ≤ i - k ∧
      (skip k s).below? (i - k + 1) = .ok (j, skip (k + 1) s) := by
  induction i generalizing k s with
  | zero => exact absurd hk (Nat.not_lt_zero k)
  | succ i ih =>
    cases k with
    | zero => exact ⟨_, rfl, Nat.le_of_lt_succ (Nat.mod_lt _ (Nat.succ_pos _)), rfl⟩
    -- the later draws are those that the stream behind the first one gives to the positions below
    | succ k =>
      rw [Nat.add_sub_add_right]
      exact ih k s.next.2 (Nat.lt_of_succ_lt_succ hk)

/-- The list is shuffled by Fisher and Yates. Its items stay the same, and each of its positions but
the first, from the last one down, is exchanged with one that is drawn from those not above it. Every
such draw has something to draw from, and there are no others. -/
structure Shuffles (s : RandomStream) (items shuffled : List α) (behind : RandomStream) : Prop where
  perm : shuffled.Perm items
  exchanged : shuffled.toArray = (exchanges (items.length - 1) s).foldl
    (fun items p => items.swapIfInBounds p.1 p.2) items.toArray
  draws : (exchanges (items.length - 1) s).length = items.length - 1
  drawn : ∀ k < items.length - 1, ∃ j,
    (exchanges (items.length - 1) s)[k]? = some (items.length - 1 - k, j) ∧
    j ≤ items.length - 1 - k ∧ (skip k s).below? (items.length - k) = .ok (j, skip (k + 1) s)
  behind_eq : behind = skip (items.length - 1) s

theorem shuffle_shuffles (s : RandomStream) (items : List α) :
    s.Shuffles items (s.shuffle items).1 (s.shuffle items).2 where
  perm := s.shuffle_perm items
  exchanged := exchange_eq_foldl _ _ s
  draws := length_exchanges _ s
  drawn k hk := by
    have hbound : items.length - k = items.length - 1 - k + 1 := by omega
    rw [hbound]
    exact exchanges_drawn _ k s hk
  behind_eq := s.shuffle_stream items

end RandomStream

namespace Score

/-- The total order of doubles. -/
def totalCompare (a b : Score) : Ordering :=
  compare (Binary64.place a.bits) (Binary64.place b.bits)

/-- Only equal words tie. -/
theorem totalCompare_eq_iff (a b : Score) : a.totalCompare b = .eq ↔ a = b := by
  rw [totalCompare, Int.compare_eq_eq, Binary64.place_inj]
  constructor
  · intro h
    cases a
    cases b
    exact congrArg Score.mk h
  · exact congrArg bits

/-- Where one score is below another as a double, it is so in the total order. -/
theorem totalCompare_of_lt (a b : Score) (h : a.toFloat < b.toFloat) : a.totalCompare b = .lt :=
  Int.compare_eq_lt.mpr (Binary64.place_lt_of_lt a.bits b.bits h)

-- what is no number lies beyond the infinity of its sign, and the two zeros are apart
example : ([⟨0xFFF8000000000000⟩, ⟨0xFFF0000000000000⟩, ⟨0x8000000000000000⟩, ⟨0⟩,
    ⟨0x7FF0000000000000⟩, ⟨0x7FF8000000000000⟩] : List Score).Pairwise
      (fun a b => a.totalCompare b = .lt) := by
  decide +kernel

/-- The rank is the place, moved up so that no place is negative. -/
theorem rank_eq_place (s : Score) : (s.rank.toNat : ℤ) = Binary64.place s.bits + 2^63 := by
  have hlt := s.bits.toNat_lt
  have hsign : s.bits >>> 63 = 1 ↔ 2^63 ≤ s.bits.toNat := by
    rw [← UInt64.toNat_inj, UInt64.toNat_shiftRight, Nat.shiftRight_eq_div_pow]
    change s.bits.toNat / 2^63 = 1 ↔ _
    omega
  unfold rank Binary64.place
  simp only [hsign]
  split_ifs with hs
  · rw [UInt64.toNat_not]
    change ((2^64 - 1 - s.bits.toNat : ℕ) : ℤ) = _
    omega
  -- the sign bit is not set yet, so setting it adds it
  · have hor : (s.bits ||| 0x8000000000000000).toNat = 2^63 + s.bits.toNat := by
      rw [UInt64.toNat_or, Nat.or_comm]
      exact (Nat.two_pow_add_eq_or_of_lt (not_le.mp hs) 1).symm
    rw [hor]
    push_cast
    ring

theorem rank_le_iff (a b : Score) : a.rank ≤ b.rank ↔ (a.totalCompare b).isLE = true := by
  have ha := a.rank_eq_place
  have hb := b.rank_eq_place
  rw [UInt64.le_iff_toNat_le, totalCompare, Int.isLE_compare]
  omega

end Score

theorem notBehind_iff (a b : Candidate) :
    a.notBehind b = true ↔ (b.score.totalCompare a.score).isLE = true := by
  rw [← Score.rank_le_iff]
  exact decide_eq_true_iff

/-- Sorting leaves candidates with one score in the order in which they are. -/
theorem filter_mergeSort (candidates : List Candidate) (score : Score) :
    (candidates.mergeSort Candidate.notBehind).filter (·.score = score) =
      candidates.filter (·.score = score) := by
  have hsorted : (candidates.filter (·.score = score)).Pairwise
      fun a b => a.notBehind b = true := by
    apply List.pairwise_of_forall_mem_list
    intro a ha b hb
    rw [List.mem_filter, decide_eq_true_iff] at ha hb
    rw [notBehind_iff, ha.2, hb.2, (Score.totalCompare_eq_iff score score).mpr rfl]
    rfl
  -- they are sorted already, so they remain a part of the list, and it has no others of the score
  have hsub := (List.sublist_mergeSort notBehind_trans notBehind_total hsorted
    List.filter_sublist).filter (·.score = score)
  rw [List.filter_filter] at hsub
  simp only [Bool.and_self] at hsub
  exact (hsub.eq_of_length ((List.mergeSort_perm _ _).filter _).length_eq.symm).symm

/-- A ranking is a shuffle by Fisher and Yates, sorted stably in the total order of doubles. It has
all candidates, whatever their scores are, and those that tie in it have equal words for scores. -/
theorem rank_sorts_shuffled (candidates : List Candidate) (s : RandomStream) :
    (rank candidates s).1.Perm candidates ∧
    (rank candidates s).1.Pairwise (fun a b => (b.score.totalCompare a.score).isLE = true) ∧
    (rank candidates s).1.Pairwise (fun a b => ¬ a.score.toFloat < b.score.toFloat) ∧
    (∀ score, (rank candidates s).1.filter (fun c => c.score.totalCompare score = .eq) =
      (s.shuffle candidates).1.filter fun c => c.score.totalCompare score = .eq) ∧
    (rank candidates s).2 = (s.shuffle candidates).2 ∧
    ∀ (α : Type) (items : List α), s.Shuffles items (s.shuffle items).1 (s.shuffle items).2 := by
  have hdown := (rank_pairwise candidates s).imp fun h => (Score.rank_le_iff _ _).mp h
  refine ⟨rank_perm candidates s, hdown, hdown.imp ?_, ?_, rfl, ?_⟩
  · intro a b hle hlt
    rw [Score.totalCompare, Std.OrientedOrd.eq_swap, ← Score.totalCompare,
      Score.totalCompare_of_lt _ _ hlt] at hle
    exact absurd hle Bool.false_ne_true
  · intro score
    simp only [Score.totalCompare_eq_iff]
    exact filter_mergeSort _ score
  · intro α items
    exact s.shuffle_shuffles items

end Replanning
