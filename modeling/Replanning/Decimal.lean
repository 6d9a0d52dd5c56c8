import Replanning.Binary64

/-! Every numeral has a nearest double. Every positive double has a shortest numeral: the fewest
digits that read back as it and, among those, the nearest. -/
namespace Replanning

/-- The non-negative number `digits * 10 ^ exponent`. -/
structure Decimal where
  digits : Nat
  exponent : Int
deriving DecidableEq, Repr

/-- Which of two equally near numerals is taken. -/
inductive Tie where
  | even
  | up
deriving DecidableEq, Repr

namespace Decimal

/-- The double nearest to a numeral. -/
def toFloat (d : Decimal) : Float :=
  if d.digits = 0 then 0.0
  -- what lies far outside the range of doubles is answered at once, whatever the exponent
  else if 400 < d.exponent then Binary64.nearest (1 <<< 1100) 1
  else if (d.digits.log2 : Int) + 3 * d.exponent < -1200 then 0.0
  else Binary64.nearest (d.digits * Nat.pow 10 d.exponent.toNat) (Nat.pow 10 (-d.exponent).toNat)

/-- Moves trailing zeros of the digits into the exponent; `fuel` bounds how many. -/
def trim : Nat → Decimal → Decimal
  | 0, d => d
  | fuel + 1, d =>
    if d.digits % 10 = 0 then trim fuel ⟨d.digits / 10, d.exponent + 1⟩ else d

/-- `num / den < 10 ^ k`. -/
def below (num den : Nat) (k : Int) : Bool :=
  num * Nat.pow 10 (-k).toNat < den * Nat.pow 10 k.toNat

/-- The least `k` with `num / den < 10 ^ k`, a few steps above an estimate from binary logarithms. -/
def places (num den : Nat) : Int :=
  let k := ((num.log2 : Int) - den.log2 - 1) * 1233 / 4096
  if below num den k then k else if below num den (k + 1) then k + 1
  else if below num den (k + 2) then k + 2 else k + 3

/-- The numeral of `count` digits nearest to the positive double `x = num / den < 10 ^ k`, if one of
its two neighbours on that grid reads back as `x`. -/
def onGrid? (tie : Tie) (x : Float) (num den : Nat) (k : Int) (count : Nat) : Option Decimal :=
  let e := k - count
  let n := num * Nat.pow 10 (-e).toNat
  let d := den * Nat.pow 10 e.toNat
  let low := n / d
  let readsBack (digits : Nat) : Bool := (toFloat ⟨digits, e⟩).toBits == x.toBits
  match readsBack low, readsBack (low + 1) with
  | false, false => none
  | true, false => some ⟨low, e⟩
  | false, true => some ⟨low + 1, e⟩
  | true, true =>
    match compare (2 * (n % d)) d with
    | .lt => some ⟨low, e⟩
    | .gt => some ⟨low + 1, e⟩
    | .eq => if tie = .even ∧ low % 2 = 0 then some ⟨low, e⟩ else some ⟨low + 1, e⟩

def exact (m : Binary64) : Decimal :=
  if 0 ≤ m.exponent then ⟨m.significand <<< m.exponent.toNat, 0⟩
  else ⟨m.significand * Nat.pow 5 (-m.exponent).toNat, m.exponent⟩

/-- The shortest numeral that reads back as the positive finite double `x`. -/
def shortest (tie : Tie) (x : Float) : Decimal :=
  let m := Binary64.magnitude x
  let (num, den) := m.ratio
  let k := places num den
  -- seventeen digits are enough for every double
  match (List.range' 1 17).findSome? (onGrid? tie x num den k) with
  | some d => trim 17 d
  | none => exact m

end Decimal

end Replanning
