import Replanning.Binary64

namespace Replanning

structure RandomStream where
  state : UInt64
deriving DecidableEq, Repr

inductive DrawError where
  | emptyRange
deriving DecidableEq, Repr

def DrawError.message : DrawError → String
  | .emptyRange => "upper bound must be positive"

namespace RandomStream

/-- The stream of a seed. The word zero would stay zero, so it is replaced. -/
def ofSeed (seed : UInt64) : RandomStream :=
  ⟨if seed = 0 then 1 else seed⟩

/-- The word after one draw. -/
def stir (x : UInt64) : UInt64 :=
  let x := x ^^^ (x >>> 12)
  let x := x ^^^ (x <<< 25)
  x ^^^ (x >>> 27)

def output (x : UInt64) : UInt64 :=
  x * 0x2545F4914F6CDD1D

def next (s : RandomStream) : UInt64 × RandomStream :=
  let x := stir s.state
  (output x, ⟨x⟩)

def below (s : RandomStream) (bound : Nat) : Nat × RandomStream :=
  let (x, s) := s.next
  (x.toNat % bound, s)

/-- A draw below any bound. Nothing is drawn if there is nothing below it. -/
def below? (s : RandomStream) (bound : Nat) : Except DrawError (Nat × RandomStream) :=
  if bound = 0 then .error .emptyRange else .ok (s.below bound)

/-- A draw from the unit interval without its upper end, in steps of `2 ^ -53`. -/
def unit (s : RandomStream) : Float × RandomStream :=
  let (x, s) := s.next
  ((x >>> 11).toFloat * (1.0 / 9007199254740992.0), s)

/-- A standard normal draw by the Box–Muller transform, made of two unit draws. -/
def gaussian (s : RandomStream) : Float × RandomStream :=
  let (u, s) := s.unit
  let (v, s) := s.unit
  -- the unit draw may be zero and is never one, so the logarithm is of a positive number
  let radius := (-2.0 * (1.0 - u).log).sqrt
  (radius * (6.283185307179586 * v).cos, s)

/-- The nearest probability. -/
def clampRate (p : Float) : Float :=
  if p < 0.0 then 0.0 else if p > 1.0 then 1.0 else p

/-- True with probability `p`. There is one draw whatever the probability. -/
def chance (s : RandomStream) (p : Float) : Bool × RandomStream :=
  let (u, s) := s.unit
  (u < clampRate p, s)

/-- Exchanges each of the positions `i`, …, `1` with one that is not above it, the highest first. -/
def exchange {α : Type} : Nat → Array α → RandomStream → Array α × RandomStream
  | 0, items, s => (items, s)
  | i + 1, items, s =>
    let (j, s) := s.below (i + 2)
    exchange i (items.swapIfInBounds (i + 1) j) s

/-- A shuffled list, by Fisher and Yates. -/
def shuffle {α : Type} (s : RandomStream) (items : List α) : List α × RandomStream :=
  let (shuffled, s) := exchange (items.length - 1) items.toArray s
  (shuffled.toList, s)

end RandomStream

end Replanning
