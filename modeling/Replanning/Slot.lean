import Std.Data.TreeMap

namespace Replanning

/-- A location during one bin of time. -/
structure Slot where
  location : String
  timeBin : UInt32
deriving DecidableEq, Repr

namespace Slot

def text (s : Slot) : String :=
  s.location ++ "@" ++ Nat.repr s.timeBin.toNat

/-- Slots are ordered by location and then by time. -/
def before (s t : Slot) : Bool :=
  s.location < t.location || (s.location = t.location && s.timeBin < t.timeBin)

/-- Puts a slot into its place, unless it is there already. -/
def insert (s : Slot) : List Slot → List Slot
  | [] => [s]
  | t :: rest =>
    if s.before t then s :: t :: rest
    else if s = t then t :: rest
    else t :: insert s rest

def distinct (slots : List Slot) : List Slot :=
  slots.foldr insert []

/-- Slots compare by location and then by time. -/
def order : Slot → Slot → Ordering :=
  compareLex (compareOn location) (compareOn timeBin)

/-- A balance of visits, to which every slot of a list adds the same. -/
def charge (gain : Int) (balance : Std.TreeMap Slot Int order) (slots : List Slot) :
    Std.TreeMap Slot Int order :=
  slots.foldl (fun b s => b.insert s (b.getD s 0 + gain)) balance

/-- The balance of a switch: visits of the candidate plan count for it, those of the current plan
against it. Slots whose visits cancel stay in it with zero. -/
def netVisits (current candidate : List Slot) : Std.TreeMap Slot Int order :=
  charge (-1) (charge 1 ∅ candidate) current

end Slot

/-- The slots whose occupancy changes when `current` gives way to `candidate`, in order; those that
lose visits are included only if `countVacated`. `footprint_eq_netVisits` reads them off the
balance. -/
def footprint (current candidate : List Slot) (countVacated : Bool) : List Slot :=
  (Slot.distinct (candidate ++ current)).filter fun s =>
    current.count s < candidate.count s || (countVacated && candidate.count s < current.count s)

end Replanning
