import Replanning.Ranking
import Mathlib.Data.Int.ModEq
import Mathlib.Logic.Function.Iterate

namespace Replanning
namespace RandomStream

/-- The stream can go on: its word is not zero. -/
def Live (s : RandomStream) : Prop :=
  s.state ≠ 0

theorem ofSeed_live (seed : UInt64) : (ofSeed seed).Live := by
  unfold Live ofSeed
  dsimp only
  split_ifs with h
  · decide
  · exact h

/-- The word of a live stream is a seed of this stream. -/
theorem ofSeed_state (s : RandomStream) (h : s.Live) : ofSeed s.state = s := by
  rw [ofSeed, if_neg h]

theorem xor_shiftRight_ne_zero (x k : UInt64) (hx : x ≠ 0) (hk : 0 < k.toNat % 64) :
    x ^^^ (x >>> k) ≠ 0 := by
  intro h
  have hs : x.toNat = x.toNat >>> (k.toNat % 64) := by
    rw [← UInt64.toNat_shiftRight, ← UInt64.xor_eq_zero_iff.mp h]
  have hpos : x.toNat ≠ 0 := fun h0 => hx (UInt64.toNat_inj.mp h0)
  rw [Nat.shiftRight_eq_div_pow] at hs
  -- a positive number is larger than what is left of it behind a shift
  have hlt : x.toNat / 2^(k.toNat % 64) < x.toNat :=
    Nat.div_lt_self (Nat.pos_of_ne_zero hpos) (Nat.one_lt_two_pow (by omega))
  omega

theorem xor_shiftLeft_ne_zero (x : UInt64) (hx : x ≠ 0) : x ^^^ (x <<< 25) ≠ 0 := by
  intro h
  have hs : x.toNat = x.toNat * 2^25 % 2^64 := by
    have hh := congrArg UInt64.toNat (UInt64.xor_eq_zero_iff.mp h)
    rwa [UInt64.toNat_shiftLeft, Nat.shiftLeft_eq] at hh
  -- the factor is odd, so the number itself would be a multiple of `2 ^ 64`
  have hd : 2^64 ∣ x.toNat * (2^25-1) := by
    have hm : Nat.ModEq (2^64) x.toNat (x.toNat * 2^25) := by
      rw [Nat.ModEq, ← hs, Nat.mod_eq_of_lt x.toNat_lt]
    rw [Nat.mul_sub_one]
    exact (Nat.modEq_iff_dvd' (Nat.le_mul_of_pos_right _ (by decide))).mp hm
  have hz : 2^64 ∣ x.toNat := Nat.Coprime.dvd_of_dvd_mul_right (by decide) hd
  exact hx (UInt64.toNat_inj.mp (Nat.eq_zero_of_dvd_of_lt hz x.toNat_lt))

/-- Stirring is injective at zero. -/
theorem stir_ne_zero (x : UInt64) (hx : x ≠ 0) : stir x ≠ 0 := by
  have h1 := xor_shiftRight_ne_zero x 12 hx (by decide)
  have h2 := xor_shiftLeft_ne_zero _ h1
  exact xor_shiftRight_ne_zero _ 27 h2 (by decide)

theorem next_live (s : RandomStream) (h : s.Live) : s.next.2.Live :=
  stir_ne_zero s.state h

/-- The stream behind `n` draws. -/
def skip (n : ℕ) (s : RandomStream) : RandomStream :=
  (fun s => s.next.2)^[n] s

theorem skip_skip (m n : ℕ) (s : RandomStream) : skip n (skip m s) = skip (m + n) s := by
  rw [Nat.add_comm]
  exact (Function.iterate_add_apply _ n m s).symm

theorem skip_live (n : ℕ) (s : RandomStream) (h : s.Live) : (skip n s).Live := by
  induction n generalizing s with
  | zero => exact h
  | succ n ih => exact ih s.next.2 (next_live s h)

/-- Every position but the first takes one draw. -/
theorem exchange_stream {α : Type} (i : ℕ) (items : Array α) (s : RandomStream) :
    (exchange i items s).2 = skip i s := by
  induction i generalizing items s with
  | zero => rfl
  | succ i ih => exact ih _ s.next.2

theorem exchange_perm {α : Type} (i : ℕ) (items : Array α) (s : RandomStream) :
    (exchange i items s).1.Perm items := by
  induction i generalizing items s with
  | zero => exact Array.Perm.refl items
  | succ i ih =>
    apply (ih _ _).trans
    rw [Array.swapIfInBounds_def]
    split_ifs with hi hj
    · exact Array.swap_perm hi hj
    · exact Array.Perm.refl items
    · exact Array.Perm.refl items

theorem shuffle_stream {α : Type} (s : RandomStream) (items : List α) :
    (s.shuffle items).2 = skip (items.length - 1) s :=
  exchange_stream _ _ s

theorem shuffle_perm {α : Type} (s : RandomStream) (items : List α) :
    (s.shuffle items).1.Perm items :=
  Array.perm_iff_toList_perm.mp (exchange_perm _ items.toArray s)

end RandomStream

theorem rank_stream (candidates : List Candidate) (s : RandomStream) :
    (rank candidates s).2 = .skip (candidates.length - 1) s :=
  s.shuffle_stream candidates

/-- Ranking puts the candidates in another order. -/
theorem rank_perm (candidates : List Candidate) (s : RandomStream) :
    (rank candidates s).1.Perm candidates :=
  (List.mergeSort_perm _ _).trans (RandomStream.shuffle_perm s candidates)

theorem mem_rank (candidates : List Candidate) (s : RandomStream) (c : Candidate) :
    c ∈ (rank candidates s).1 ↔ c ∈ candidates :=
  (rank_perm candidates s).mem_iff

end Replanning
