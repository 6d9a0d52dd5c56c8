import Replanning.Json.Basic

namespace Replanning.Json

/-- One token. A string is `none` if its escapes spell half of a surrogate pair. -/
inductive Token where
  | openBracket
  | closeBracket
  | openBrace
  | closeBrace
  | comma
  | colon
  | scalar (value : Json)
  | text (value : Option String)

/-- A part of a string: a character as it stands, or the code unit of a numeric escape. -/
inductive Piece where
  | char (c : Char)
  | unit (code : Nat)

def hexValue? (c : Char) : Option Nat :=
  if '0' ≤ c && c ≤ '9' then some (c.toNat - '0'.toNat)
  else if 'a' ≤ c && c ≤ 'f' then some (c.toNat - 'a'.toNat + 10)
  else if 'A' ≤ c && c ≤ 'F' then some (c.toNat - 'A'.toNat + 10)
  else none

def codeUnit? (a b c d : Char) : Option Nat := do
  return (((← hexValue? a) * 16 + (← hexValue? b)) * 16 + (← hexValue? c)) * 16 + (← hexValue? d)

def escape? : Char → Option Char
  | '"' => some '"'
  | '\\' => some '\\'
  | '/' => some '/'
  | 'b' => some '\x08'
  | 'f' => some '\x0c'
  | 'n' => some '\n'
  | 'r' => some '\r'
  | 't' => some '\t'
  | _ => none

/-- The rest of a string behind its opening quote, and what follows the closing one. Control
characters have to be escaped. -/
def scanString : List Char → Option (List Piece × List Char)
  | [] => none
  | '"' :: rest => some ([], rest)
  | '\\' :: 'u' :: a :: b :: c :: d :: rest => do
    let code ← codeUnit? a b c d
    let (pieces, rest) ← scanString rest
    return (.unit code :: pieces, rest)
  | '\\' :: e :: rest => do
    let c ← escape? e
    let (pieces, rest) ← scanString rest
    return (.char c :: pieces, rest)
  | c :: rest =>
    if c.toNat < 0x20 || c = '\\' then none
    else do
      let (pieces, rest) ← scanString rest
      return (.char c :: pieces, rest)

/-- Joins the two halves of every surrogate pair; a half that stands alone spells nothing. -/
def join? : List Piece → Option (List Char)
  | [] => some []
  | .char c :: rest => (join? rest).map (c :: ·)
  -- a high half has to be followed by a low one
  | .unit high :: .unit low :: rest =>
    if 0xD800 ≤ high && high < 0xDC00 then
      if 0xDC00 ≤ low && low < 0xE000 then
        (join? rest).map (Char.ofNat (0x10000 + (high - 0xD800) * 0x400 + (low - 0xDC00)) :: ·)
      else none
    else if 0xDC00 ≤ high && high < 0xE000 then none
    else (join? (.unit low :: rest)).map (Char.ofNat high :: ·)
  | .unit code :: rest =>
    if 0xD800 ≤ code && code < 0xE000 then none
    else (join? rest).map (Char.ofNat code :: ·)

/-- The natural that decimal digits spell. -/
def digitsValue (digits : List Char) : Nat :=
  digits.foldl (fun n c => 10 * n + (c.toNat - '0'.toNat)) 0

/-- The natural that a text of digits alone spells. -/
def digits? (cs : List Char) : Option Nat :=
  if !cs.isEmpty && cs.all Char.isDigit then some (digitsValue cs) else none

def exponent? : List Char → Option Int
  | '+' :: cs => (digits? cs).map fun n => (n : Int)
  | '-' :: cs => (digits? cs).map fun n => -(n : Int)
  | cs => (digits? cs).map fun n => (n : Int)

/-- The power of ten behind a numeral. -/
def power? : List Char → Option Int
  | 'e' :: cs => exponent? cs
  | 'E' :: cs => exponent? cs
  | _ => none

/-- The number that a numeral with fraction digits and an exponent stands for. -/
def floatOf (negative : Bool) (whole fraction : List Char) (exponent : Int) : Json :=
  let x := Decimal.toFloat ⟨digitsValue (whole ++ fraction), exponent - fraction.length⟩
  if x.isFinite then .float (if negative then -x else x) else .unreadable

/-- The number that a numeral of digits alone stands for. The negative zero is no integer. -/
def integerOf (negative : Bool) (whole : List Char) : Json :=
  let n := digitsValue whole
  let i : Int := if negative then -n else n
  -- an integer beyond 64 bits is held as a double
  if fitsWord i && !(negative && n = 0) then .integer i else floatOf negative whole [] 0

/-- A numeral without its sign: digits without a superfluous zero, a fraction, an exponent. -/
def unsigned? (negative : Bool) (cs : List Char) : Option Json :=
  let whole := cs.takeWhile Char.isDigit
  let rest := cs.dropWhile Char.isDigit
  -- no digits at all, or a zero with other digits behind it
  if whole.isEmpty || (whole.head? = some '0' && 1 < whole.length) then none
  else
    match rest with
    | [] => some (integerOf negative whole)
    | '.' :: rest =>
      let fraction := rest.takeWhile Char.isDigit
      if fraction.isEmpty then none
      else
        match rest.dropWhile Char.isDigit with
        | [] => some (floatOf negative whole fraction 0)
        | rest => (power? rest).map (floatOf negative whole fraction)
    | rest => (power? rest).map (floatOf negative whole [])

def scalar? : List Char → Option Json
  | ['n', 'u', 'l', 'l'] => some .null
  | ['t', 'r', 'u', 'e'] => some (.bool true)
  | ['f', 'a', 'l', 's', 'e'] => some (.bool false)
  | '-' :: cs => unsigned? true cs
  | cs => unsigned? false cs

def isBlank (c : Char) : Bool :=
  c = ' ' || c = '\n' || c = '\r' || c = '\t'

def isWordChar (c : Char) : Bool :=
  c.isAlphanum || c = '-' || c = '+' || c = '.'

def mark? (c : Char) : Option Token :=
  match c with
  | '[' => some .openBracket
  | ']' => some .closeBracket
  | '\x7b' => some .openBrace
  | '\x7d' => some .closeBrace
  | ',' => some .comma
  | ':' => some .colon
  | _ => none

theorem length_scanString {cs : List Char} {pieces : List Piece} {rest : List Char}
    (h : scanString cs = some (pieces, rest)) : rest.length < cs.length := by
  fun_induction scanString cs generalizing pieces rest with
  | case1 => simp at h
  | case2 => simp_all
  | case3 a b c d tail ih =>
    simp only [Option.bind_eq_bind, Option.bind_eq_some_iff, Option.pure_def, Option.some.injEq,
      Prod.mk.injEq] at h
    obtain ⟨_, _, ⟨_, _⟩, hs, _, rfl⟩ := h
    have := ih hs
    simp only [List.length_cons]
    omega
  | case4 e tail _ ih =>
    simp only [Option.bind_eq_bind, Option.bind_eq_some_iff, Option.pure_def, Option.some.injEq,
      Prod.mk.injEq] at h
    obtain ⟨_, _, ⟨_, _⟩, hs, _, rfl⟩ := h
    have := ih hs
    simp only [List.length_cons]
    omega
  | case5 => simp at h
  | case6 c tail _ _ _ _ ih =>
    simp only [Option.bind_eq_bind, Option.bind_eq_some_iff, Option.pure_def, Option.some.injEq,
      Prod.mk.injEq] at h
    obtain ⟨⟨_, _⟩, hs, _, rfl⟩ := h
    have := ih hs
    simp only [List.length_cons]
    omega

/-- The tokens of a text, or nothing if some part of it is no token. -/
def tokens (cs : List Char) : Option (List Token) :=
  match cs with
  | [] => some []
  | c :: rest =>
    if isBlank c then tokens rest
    else if c = '"' then
      match h : scanString rest with
      | none => none
      | some (pieces, rest') =>
        have := length_scanString h
        (tokens rest').map (.text ((join? pieces).map String.ofList) :: ·)
    else if isWordChar c then
      have := (List.dropWhile_suffix (l := rest) isWordChar).length_le
      match scalar? (c :: rest.takeWhile isWordChar) with
      | none => none
      | some v => (tokens (rest.dropWhile isWordChar)).map (.scalar v :: ·)
    else
      match mark? c with
      | none => none
      | some t => (tokens rest).map (t :: ·)
termination_by cs.length

end Replanning.Json
