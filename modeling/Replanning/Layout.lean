import Replanning.Decimal

namespace Replanning

/-- The decisions of one number format. -/
structure Layout where
  /-- Which of two equally near shortest numerals is written. -/
  tie : Tie
  /-- Whether a number whose leading digit counts `10 ^ e` is written without an exponent. -/
  positional : Int → Bool
  /-- Whether a whole number ends in `.0`. -/
  pointZero : Bool

namespace Layout

def positionalText (pointZero : Bool) (digits : List Char) (exponent : Int) : List Char :=
  if 0 ≤ exponent then
    digits ++ List.replicate exponent.toNat '0' ++ (if pointZero then ['.', '0'] else [])
  else
    let places := (-exponent).toNat
    if places < digits.length then
      digits.take (digits.length - places) ++ '.' :: digits.drop (digits.length - places)
    else
      '0' :: '.' :: List.replicate (places - digits.length) '0' ++ digits

def scientificText (digits : List Char) (leading : Int) : List Char :=
  let mark := if leading < 0 then ['e', '-'] else ['e', '+']
  let fraction := if digits.length ≤ 1 then [] else '.' :: digits.drop 1
  digits.take 1 ++ fraction ++ mark ++ Nat.toDigits 10 leading.natAbs

def numeralText (layout : Layout) (d : Decimal) : List Char :=
  let digits := Nat.toDigits 10 d.digits
  let leading := d.exponent + digits.length - 1
  if layout.positional leading then positionalText layout.pointZero digits d.exponent
  else scientificText digits leading

/-- The text of a finite double. Zero keeps its sign. -/
def text (layout : Layout) (x : Float) : String :=
  let body :=
    if x == 0.0 then positionalText layout.pointZero ['0'] 0
    else layout.numeralText (Decimal.shortest layout.tie x.abs)
  String.ofList (if Binary64.isNegative x then '-' :: body else body)

end Layout

/-- Messages and table cells never use an exponent, and whole numbers have no point. -/
def plainLayout : Layout where
  tie := .up
  positional _ := true
  pointZero := false

/-- A double in messages and table cells, where values that are no numbers have names. -/
def plainText (x : Float) : String :=
  if x.isNaN then "NaN"
  else if x.isInf then (if Binary64.isNegative x then "-inf" else "inf")
  else plainLayout.text x

end Replanning
