import Replanning.Json.Reader
import Replanning.Json.Printer

/-! A record is an object that has each of its fields at most once and may have others, or an array
of the fields in order. A tagged value names its case in one member, or in the first item. -/
namespace Replanning.Json

/-- A natural below the bound. -/
def natural? (bound : Nat) : Json → Option Nat
  | .integer i => if 0 ≤ i ∧ i < bound then some i.toNat else none
  | _ => none

def position? (v : Json) : Option Nat :=
  v.natural? UInt64.size

def word64? (v : Json) : Option UInt64 :=
  (v.natural? UInt64.size).map Nat.toUInt64

def word32? (v : Json) : Option UInt32 :=
  (v.natural? UInt32.size).map Nat.toUInt32

/-- A double, for which integers stand too. -/
def float? : Json → Option Float
  | .integer i => some (Binary64.ofInt i)
  | .float x => some x
  | _ => none

def bool? : Json → Option Bool
  | .bool b => some b
  | _ => none

def string? : Json → Option String
  | .string s => some s
  | _ => none

def list? {α : Type} (read : Json → Option α) : Json → Option (List α)
  | .array items => items.mapM read
  | _ => none

def optional? {α : Type} (read : Json → Option α) : Json → Option (Option α)
  | .null => some none
  | v => (read v).map some

/-- One of some names, alone or as the only member of an object with nothing as its value. -/
def name? {α : Type} (values : List (String × α)) : Json → Option α
  | .string s => values.lookup s
  | .object [(s, .null)] => values.lookup s
  | _ => none

/-- One of some names inside a tagged value, where an empty object passes for nothing. -/
def innerName? {α : Type} (values : List (String × α)) : Json → Option α
  | .object [(s, .object [])] => values.lookup s
  | v => name? values v

/-- The double as a value; doubles that are no numbers have none. -/
def ofFloat (x : Float) : Json :=
  if x.isFinite then .float x else .null

def ofOption {α : Type} (write : α → Json) : Option α → Json
  | some a => write a
  | none => .null

def ofNat (n : Nat) : Json :=
  .integer n

/-- The members that a record is read from. Fields without a value can be left out of an object, and
of an array only where the record has a default for them. -/
structure Fields where
  positional : Bool
  members : List (String × Json)

/-- The fields of a record with these names, from an object or an array. -/
def fields? (names : List String) : Json → Option Fields
  | .object members =>
    if names.all (fun name => members.countP (·.1 = name) ≤ 1) then some ⟨false, members⟩ else none
  | .array items => if items.length ≤ names.length then some ⟨true, names.zip items⟩ else none
  | _ => none

namespace Fields

def required {α : Type} (f : Fields) (name : String) (read : Json → Option α) : Option α :=
  (f.members.lookup name).bind read

def defaulted {α : Type} (f : Fields) (name : String) (read : Json → Option α) (default : α) :
    Option α :=
  match f.members.lookup name with
  | some v => read v
  | none => some default

/-- A field whose value may be absent. -/
def optional {α : Type} (f : Fields) (name : String) (read : Json → Option α) : Option (Option α) :=
  match f.members.lookup name with
  | some v => optional? read v
  | none => if f.positional then none else some none

end Fields

/-- The case and the content of a tagged value that stands inside `outer` containers. All of the
content has to be readable, also what belongs to no field. -/
def tagged? (outer : Nat) (tag : String) (v : Json) : Option (String × Json) :=
  if !v.readable (maxLevels - outer) then none
  else
    match v with
    | .object members =>
      match members.filter (·.1 = tag) with
      | [(_, .string s)] => some (s, .object (members.filter (·.1 ≠ tag)))
      | _ => none
    | .array (.string s :: rest) => some (s, .array rest)
    | _ => none

end Replanning.Json
