namespace Replanning

/-- What has been written and how many more bytes are accepted, if that is limited. -/
structure Writer where
  written : List UInt8
  room : Option Nat
deriving DecidableEq, Repr

namespace Writer

def bytes (text : String) : List UInt8 :=
  text.toUTF8.toList

def new (room : Option Nat) : Writer :=
  ⟨[], room⟩

def full : String :=
  "writer full"

/-- Writes some bytes, or as many as there is room for. -/
def write (w : Writer) (data : List UInt8) : Except String Unit × Writer :=
  match w.room with
  | none => (.ok (), { w with written := w.written ++ data })
  | some room =>
    (if data.length ≤ room then .ok () else .error full,
      ⟨w.written ++ data.take room, some (room - data.length)⟩)

end Writer

end Replanning
