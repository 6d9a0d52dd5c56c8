import Mathlib.Data.FinEnum
import Replanning.Proofs.RandomStream

/-! Stirring a word loses nothing and neither does the odd factor on the way out, so two streams
that draw the same are the same. -/
namespace Replanning
namespace RandomStream

/-- Stirring goes through the sum of words without carries. -/
theorem stir_xor (x y : UInt64) : stir (x ^^^ y) = stir x ^^^ stir y := by
  have hdistrib (a b c d : UInt64) : (a ^^^ b) ^^^ (c ^^^ d) = (a ^^^ c) ^^^ (b ^^^ d) := by ac_rfl
  simp only [stir, UInt64.shiftRight_xor, UInt64.shiftLeft_xor, hdistrib]

theorem stir_injective : Function.Injective stir := by
  intro x y h
  -- otherwise the words would differ by a word that is stirred into zero
  by_contra hne
  have hstir := stir_ne_zero (x ^^^ y) fun h0 => hne (UInt64.xor_eq_zero_iff.mp h0)
  rw [stir_xor, h, UInt64.xor_self] at hstir
  exact hstir rfl

theorem stir_bijective : Function.Bijective stir :=
  Finite.injective_iff_bijective.mp stir_injective

theorem stir_zero : stir 0 = 0 := by
  decide

/-- The word behind an output. The factor is odd, so it has an inverse modulo `2 ^ 64`. -/
def ofOutput (y : UInt64) : UInt64 :=
  y * 0x59071D96D81ECD35

theorem leftInverse_output : Function.LeftInverse ofOutput output := by
  intro x
  have hunit : (0x2545F4914F6CDD1D : UInt64) * 0x59071D96D81ECD35 = 1 := by decide
  rw [ofOutput, output, UInt64.mul_assoc, hunit, UInt64.mul_one]

theorem output_injective : Function.Injective output :=
  leftInverse_output.injective

/-- Streams with different words draw different outputs. -/
theorem next_injective : Function.Injective fun s : RandomStream => s.next.1 := by
  intro s t h
  have hstate : s.state = t.state := stir_injective (output_injective h)
  exact congrArg RandomStream.mk hstate

theorem next_ne_zero (s : RandomStream) (h : s.Live) : s.next.1 ≠ 0 := by
  intro h0
  have hzero : output 0 = 0 := UInt64.zero_mul
  exact next_live s h (output_injective (h0.trans hzero.symm))

/-- One use of a stream. A draw from an empty range is refused. -/
inductive Call : Type 1 where
  | next
  | below (bound : ℕ)
  | unit
  | gaussian
  | chance (p : Float)
  | shuffle {α : Type} (items : List α)

namespace Call

/-- What a use answers with. -/
def Answer : Call → Type
  | next => UInt64
  | below _ => Except DrawError ℕ
  | unit => Float
  | gaussian => Float
  | chance _ => Bool
  | shuffle (α := α) _ => List α

/-- The answer, and the stream behind it. -/
def run : (c : Call) → RandomStream → c.Answer × RandomStream
  | next, s => s.next
  | below bound, s =>
    match s.below? bound with
    | .ok (x, s) => (.ok x, s)
    | .error reason => (.error reason, s)
  | unit, s => s.unit
  | gaussian, s => s.gaussian
  | chance p, s => s.chance p
  | shuffle items, s => s.shuffle items

/-- How many outputs a use takes from the stream. -/
def draws : Call → ℕ
  | next => 1
  | below bound => if bound = 0 then 0 else 1
  | unit => 1
  | gaussian => 2
  | chance _ => 1
  | shuffle items => items.length - 1

theorem run_stream (c : Call) (s : RandomStream) : (c.run s).2 = skip c.draws s := by
  cases c with
  | next => rfl
  | below bound =>
    rw [run, draws, below?]
    split_ifs <;> rfl
  | unit => rfl
  | gaussian => rfl
  | chance p => rfl
  | shuffle items => exact s.shuffle_stream items

theorem run_live (c : Call) (s : RandomStream) (h : s.Live) : (c.run s).2.Live := by
  rw [run_stream]
  exact skip_live _ s h

end Call

/-- Uses a stream several times, one after the other, and lists the answers. -/
def runAll : List Call → RandomStream → List ((c : Call) × c.Answer) × RandomStream
  | [], s => ([], s)
  | c :: rest, s =>
    let (answer, s) := c.run s
    let (answers, s) := runAll rest s
    (⟨c, answer⟩ :: answers, s)

theorem runAll_stream (calls : List Call) (s : RandomStream) :
    (runAll calls s).2 = skip (calls.map Call.draws).sum s := by
  induction calls generalizing s with
  | nil => rfl
  | cons c rest ih =>
    change (runAll rest (c.run s).2).2 = _
    rw [ih, c.run_stream, skip_skip, List.map_cons, List.sum_cons]

theorem runAll_live (calls : List Call) (s : RandomStream) (h : s.Live) :
    (runAll calls s).2.Live := by
  rw [runAll_stream]
  exact skip_live _ s h

/-- Whatever a live stream is used for, it never draws zero. -/
theorem zero_not_mem_runAll (calls : List Call) (s : RandomStream) (h : s.Live) :
    ⟨.next, (0 : UInt64)⟩ ∉ (runAll calls s).1 := by
  induction calls generalizing s with
  | nil => exact List.not_mem_nil
  | cons c rest ih =>
    change _ ∉ ⟨c, (c.run s).1⟩ :: (runAll rest (c.run s).2).1
    rw [List.mem_cons, not_or]
    refine ⟨fun heq => ?_, ih _ (c.run_live s h)⟩
    cases c with
    | next => exact next_ne_zero s h (eq_of_heq (Sigma.mk.inj heq).2).symm
    | _ => nomatch (Sigma.mk.inj heq).1

/-- The word is the whole future of a stream: it is never zero, drawing permutes the words, and
different words give different outputs. So the word is a seed of what follows, and no other one is. -/
theorem state_determines_future (seed : UInt64) (calls : List Call) :
    let (answers, s) := runAll calls (ofSeed seed)
    (s.state ≠ 0 ∧ s.next.1 ≠ 0 ∧ ⟨.next, (0 : UInt64)⟩ ∉ answers) ∧
    (Function.Bijective (fun x => (next ⟨x⟩).2.state) ∧ (next ⟨0⟩).2.state = 0 ∧
      Function.Injective (fun x => (next ⟨x⟩).1)) ∧
    ofSeed s.state = s ∧ (∀ more, runAll more (ofSeed s.state) = runAll more s) ∧
    ∀ t, (∀ more, (runAll more t).1 = (runAll more s).1) ↔ t = s := by
  have hlive := runAll_live calls _ (ofSeed_live seed)
  have hseed := ofSeed_state _ hlive
  refine ⟨⟨hlive, next_ne_zero _ hlive, zero_not_mem_runAll calls _ (ofSeed_live seed)⟩,
    ⟨stir_bijective, stir_zero, output_injective.comp stir_injective⟩, hseed, ?_, ?_⟩
  · intro more
    rw [hseed]
  · intro t
    refine ⟨fun h => ?_, fun h more => by rw [h]⟩
    have hnext := (List.cons.inj (h [.next])).1
    exact next_injective (eq_of_heq (Sigma.mk.inj hnext).2)

end RandomStream

end Replanning
