/-! Doubles as exact numbers: a sign and a natural multiple of a power of two. The non-negative
ones, read as bit patterns, count up from zero in the order of their values. -/
namespace Replanning

/-- The magnitude of a finite double, `significand * 2 ^ exponent`. -/
structure Binary64 where
  significand : Nat
  exponent : Int
deriving DecidableEq, Repr

/-- The double that stands for a count, exact below `2 ^ 53`. -/
def ofCount (n : Nat) : Float :=
  n.toUInt64.toFloat

namespace Binary64

/-- The sign bit, which is set for `-0.0` too. -/
def isNegative (x : Float) : Bool :=
  x.toBits >>> 63 == 1

/-- Subnormal doubles share the exponent of the smallest normal ones. -/
def magnitude (x : Float) : Binary64 :=
  let field := (x.toBits >>> 52 &&& 0x7FF).toNat
  let fraction := (x.toBits &&& 0xFFFFFFFFFFFFF).toNat
  if field = 0 then ⟨fraction, -1074⟩ else ⟨0x10000000000000 + fraction, field - 1075⟩

/-- The ratio `num / den` in units of `2 ^ e`, as a numerator and a denominator. -/
def inUnits (num den : Nat) (e : Int) : Nat × Nat :=
  (num <<< (-e).toNat, den <<< e.toNat)

def ratio (m : Binary64) : Nat × Nat :=
  (m.significand <<< m.exponent.toNat, 1 <<< (-m.exponent).toNat)

/-- The quotient rounded to the nearest natural, a half to the even neighbour. -/
def roundHalfEven (num den : Nat) : Nat :=
  let q := num / den
  let r := num % den
  if 2 * r < den ∨ (2 * r = den ∧ q % 2 = 0) then q else q + 1

/-- The exponent of the last place of the double nearest to a positive ratio: the significand then
has 53 bits, or fewer at the lower end of the range. -/
def lastPlace (num den : Nat) : Int :=
  let e := max ((num.log2 : Int) - den.log2 - 53) (-1074)
  let (n, d) := inUnits num den e
  if d <<< 53 ≤ n then e + 1 else e

/-- The double nearest to the ratio `num / den`, a half to the even neighbour; infinite beyond the
largest finite double. -/
def nearest (num den : Nat) : Float :=
  if num = 0 then 0.0
  else
    let e := lastPlace num den
    let (n, d) := inUnits num den e
    -- a carry into the next power of two is a carry between the two bit fields
    let pattern := (e + 1074).toNat <<< 52 + roundHalfEven n d
    Float.ofBits (min pattern 0x7FF0000000000000).toUInt64

def ofInt (i : Int) : Float :=
  if i < 0 then -(nearest i.natAbs 1) else nearest i.natAbs 1

/-- The least natural that is not below the double, within 64 bits. Nothing below zero is a count,
and neither is NaN. -/
def ceilWord (x : Float) : UInt64 :=
  if x.isNaN || isNegative x then 0
  else if x.isInf then 0xFFFFFFFFFFFFFFFF
  else
    let (n, d) := (magnitude x).ratio
    (min ((n + (d - 1)) / d) 0xFFFFFFFFFFFFFFFF).toUInt64

end Binary64

end Replanning
