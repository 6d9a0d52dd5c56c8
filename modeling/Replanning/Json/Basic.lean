import Replanning.Layout

namespace Replanning

/-- A JSON value. `unreadable` stands where the text has the shape of a value that nothing can hold:
a number beyond the doubles, or a string with half of a surrogate pair. -/
inductive Json where
  | null
  | bool (value : Bool)
  | integer (value : Int)
  | float (value : Float)
  | string (value : String)
  | array (items : List Json)
  | object (members : List (String × Json))
  | unreadable

namespace Json

/-- The integers that are kept as integers. -/
def fitsWord (i : Int) : Bool :=
  -0x8000000000000000 ≤ i && i < UInt64.size

mutual

/-- Everything in the value can be held, and its containers nest at most `levels` deep. -/
def readable : Nat → Json → Bool
  | _, .unreadable => false
  | 0, .array _ => false
  | 0, .object _ => false
  | levels + 1, .array items => readableItems levels items
  | levels + 1, .object members => readableMembers levels members
  | _, _ => true

def readableItems : Nat → List Json → Bool
  | _, [] => true
  | levels, v :: rest => readable levels v && readableItems levels rest

def readableMembers : Nat → List (String × Json) → Bool
  | _, [] => true
  | levels, (_, v) :: rest => readable levels v && readableMembers levels rest

end

end Json

end Replanning
