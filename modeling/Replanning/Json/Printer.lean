import Replanning.Json.Basic

namespace Replanning.Json

/-- Doubles in JSON: an exponent outside `1e-5 ≤ |x| < 1e16`, and a point in whole numbers. -/
def numberLayout : Layout where
  tie := .even
  positional e := -5 ≤ e && e < 16
  pointZero := true

/-- A character inside quotes. Only the quote, the backslash and the control characters are
escaped. -/
def escaped (c : Char) : List Char :=
  match c with
  | '"' => ['\\', '"']
  | '\\' => ['\\', '\\']
  | '\n' => ['\\', 'n']
  | '\r' => ['\\', 'r']
  | '\t' => ['\\', 't']
  | '\x08' => ['\\', 'b']
  | '\x0c' => ['\\', 'f']
  | c =>
    if c.toNat < 0x20 then
      ['\\', 'u', '0', '0', Nat.digitChar (c.toNat / 16), Nat.digitChar (c.toNat % 16)]
    else [c]

def quoted (s : String) : List Char :=
  '"' :: s.toList.flatMap escaped ++ ['"']

/-- The text of a value that is no container. Doubles that are no numbers have no text of their
own. -/
def scalarText : Json → List Char
  | .bool true => "true".toList
  | .bool false => "false".toList
  | .integer i => if i < 0 then '-' :: Nat.toDigits 10 i.natAbs else Nat.toDigits 10 i.natAbs
  | .float x => if x.isFinite then (numberLayout.text x).toList else "null".toList
  | .string s => quoted s
  | _ => "null".toList

mutual

def compactText : Json → List Char
  | .array items => '[' :: compactItems items ++ [']']
  | .object members => '\x7b' :: compactMembers members ++ ['\x7d']
  | v => scalarText v

def compactItems : List Json → List Char
  | [] => []
  | [v] => compactText v
  | v :: rest => compactText v ++ ',' :: compactItems rest

def compactMembers : List (String × Json) → List Char
  | [] => []
  | [(k, v)] => quoted k ++ ':' :: compactText v
  | (k, v) :: rest => quoted k ++ ':' :: compactText v ++ ',' :: compactMembers rest

end

def lineStart (level : Nat) : List Char :=
  '\n' :: List.replicate (2 * level) ' '

mutual

/-- The text with every item and member on a line of its own. Empty containers stay on one line. -/
def indentedText (level : Nat) : Json → List Char
  | .array [] => ['[', ']']
  | .object [] => ['\x7b', '\x7d']
  | .array items => '[' :: indentedItems level items ++ lineStart level ++ [']']
  | .object members => '\x7b' :: indentedMembers level members ++ lineStart level ++ ['\x7d']
  | v => scalarText v

def indentedItems (level : Nat) : List Json → List Char
  | [] => []
  | [v] => lineStart (level + 1) ++ indentedText (level + 1) v
  | v :: rest =>
    lineStart (level + 1) ++ indentedText (level + 1) v ++ ',' :: indentedItems level rest

def indentedMembers (level : Nat) : List (String × Json) → List Char
  | [] => []
  | [(k, v)] => lineStart (level + 1) ++ quoted k ++ ':' :: ' ' :: indentedText (level + 1) v
  | (k, v) :: rest =>
    lineStart (level + 1) ++ quoted k ++ ':' :: ' ' :: indentedText (level + 1) v ++
      ',' :: indentedMembers level rest

end

def compact (v : Json) : String :=
  String.ofList v.compactText

def indented (v : Json) : String :=
  String.ofList (v.indentedText 0)

end Replanning.Json
