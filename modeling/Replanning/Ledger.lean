import Replanning.Slot

namespace Replanning

/-- The changes of one replication, with the slots in order and each count positive. The counts are
not words of 32 bits: it is assumed that a slot changes fewer than `2^32` times. -/
structure LedgerRow where
  counts : List (Slot × Nat)
  maxChange : Nat
deriving DecidableEq, Repr

namespace LedgerRow

def empty : LedgerRow :=
  ⟨[], 0⟩

def change (row : LedgerRow) (s : Slot) : Nat :=
  (row.counts.lookup s).getD 0

/-- The counts with one more change of a slot. -/
def bump (s : Slot) : List (Slot × Nat) → List (Slot × Nat)
  | [] => [(s, 1)]
  | (t, n) :: rest =>
    if s.before t then (s, 1) :: (t, n) :: rest
    else if s = t then (t, n + 1) :: rest
    else (t, n) :: bump s rest

def add (row : LedgerRow) (s : Slot) : LedgerRow :=
  ⟨bump s row.counts, max row.maxChange (row.change s + 1)⟩

def commit (row : LedgerRow) (slots : List Slot) : LedgerRow :=
  slots.foldl add row

/-- The largest change if every slot of a list changed once more. -/
def anticipate (row : LedgerRow) (slots : List Slot) : Nat :=
  slots.foldl (fun most s => max most (1 + row.change s)) row.maxChange

end LedgerRow

structure Ledger where
  rows : List LedgerRow
deriving DecidableEq, Repr

namespace Ledger

def empty (replications : Nat) : Ledger :=
  ⟨List.replicate replications .empty⟩

/-- The row of a replication; beyond the last one nothing changes. -/
def row (l : Ledger) (r : Nat) : LedgerRow :=
  l.rows.getD r .empty

def change (l : Ledger) (r : Nat) (s : Slot) : Nat :=
  (l.row r).change s

def maxChange (l : Ledger) (r : Nat) : Nat :=
  (l.row r).maxChange

def overallMaxChange (l : Ledger) : Nat :=
  l.rows.foldl (fun most row => max most row.maxChange) 0

def changedSlots (l : Ledger) (r : Nat) : List (Slot × Nat) :=
  (l.row r).counts

def commit (l : Ledger) (r : Nat) (slots : List Slot) : Ledger :=
  ⟨l.rows.modify r (·.commit slots)⟩

/-- The largest change in a replication if every slot of a list changed once more. -/
def anticipate (l : Ledger) (r : Nat) (slots : List Slot) : Nat :=
  (l.row r).anticipate slots

end Ledger

end Replanning
