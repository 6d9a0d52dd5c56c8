import Replanning.Json.Token

namespace Replanning.Json

/-- A member whose name may be unreadable. -/
abbrev Member := Option String × Json

/-- An open container: what it holds so far, the latest first, and the name that waits for a
value. -/
inductive Frame where
  | items (done : List Json)
  | member (done : List Member) (name : Option String)

/-- What has been read and what may follow. -/
inductive Reading where
  /-- A value has to follow. -/
  | value (outer : List Frame)
  /-- An array has just been opened. -/
  | firstItem (outer : List Frame)
  /-- An object has just been opened. -/
  | firstName (outer : List Frame)
  /-- A name has to follow a comma. -/
  | nextName (done : List Member) (outer : List Frame)
  /-- A colon has to follow a name. -/
  | colon (name : Option String) (done : List Member) (outer : List Frame)
  /-- An item is complete. -/
  | afterItem (done : List Json) (outer : List Frame)
  /-- A member is complete. -/
  | afterMember (done : List Member) (outer : List Frame)
  /-- The outermost value is complete. -/
  | finished (value : Json)

/-- The object of some members, which cannot be held if one of their names cannot. -/
def ofMembers (members : List Member) : Json :=
  match members.mapM (fun (name, v) => name.map (·, v)) with
  | some members => .object members
  | none => .unreadable

def ofText : Option String → Json
  | some s => .string s
  | none => .unreadable

/-- Hands a complete value to the container around it. -/
def complete (v : Json) : List Frame → Reading
  | [] => .finished v
  | .items done :: outer => .afterItem (v :: done) outer
  | .member done name :: outer => .afterMember ((name, v) :: done) outer

def beginValue : Token → List Frame → Option Reading
  | .scalar v, outer => some (complete v outer)
  | .text s, outer => some (complete (ofText s) outer)
  | .openBracket, outer => some (.firstItem outer)
  | .openBrace, outer => some (.firstName outer)
  | _, _ => none

/-- One token further, unless it may not stand here. -/
def Reading.step : Reading → Token → Option Reading
  | .value outer, t => beginValue t outer
  | .firstItem outer, .closeBracket => some (complete (.array []) outer)
  | .firstItem outer, t => beginValue t (.items [] :: outer)
  | .firstName outer, .closeBrace => some (complete (.object []) outer)
  | .firstName outer, .text name => some (.colon name [] outer)
  | .nextName done outer, .text name => some (.colon name done outer)
  | .colon name done outer, .colon => some (.value (.member done name :: outer))
  | .afterItem done outer, .comma => some (.value (.items done :: outer))
  | .afterItem done outer, .closeBracket => some (complete (.array done.reverse) outer)
  | .afterMember done outer, .comma => some (.nextName done outer)
  | .afterMember done outer, .closeBrace => some (complete (ofMembers done.reverse) outer)
  | _, _ => none

/-- Reads a text that is exactly one value, with blanks around its tokens. -/
def read (text : String) : Option Json := do
  match ← (← tokens text.toList).foldlM Reading.step (.value []) with
  | .finished v => some v
  | _ => none

/-- How deep containers may nest in a value that is read as a whole. -/
def maxLevels : Nat :=
  127

/-- Reads a value of which everything counts. -/
def readWhole (text : String) : Option Json := do
  let v ← read text
  if v.readable maxLevels then some v else none

end Replanning.Json
