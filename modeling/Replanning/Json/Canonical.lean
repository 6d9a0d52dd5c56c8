import Replanning.Json.Printer

namespace Replanning.Json

/-- Puts a member into its place, over one of the same name. -/
def insertMember (name : String) (v : Json) : List (String × Json) → List (String × Json)
  | [] => [(name, v)]
  | (other, w) :: rest =>
    if name < other then (name, v) :: (other, w) :: rest
    else if name = other then (name, v) :: rest
    else (other, w) :: insertMember name v rest

mutual

def sorted : Json → Json
  | .array items => .array (sortedItems items)
  | .object members => .object (sortedMembers [] members)
  | v => v

def sortedItems : List Json → List Json
  | [] => []
  | v :: rest => sorted v :: sortedItems rest

/-- Puts the remaining members, each in canonical form, into those that are in place. -/
def sortedMembers (placed : List (String × Json)) : List (String × Json) → List (String × Json)
  | [] => placed
  | (name, v) :: rest => sortedMembers (insertMember name (sorted v) placed) rest

end

def canonical (v : Json) : String :=
  v.sorted.compact

end Replanning.Json
