/-
Module: I8085.Directory
Layer: Data
Purpose: Rows that are found by a number. Rows are added at the end, in any order. Once the
  directory has been sorted, a row is found by halving the range in which its key can stand.
  Sorting is stable and sorting again changes nothing.
Imports: none
Main exports: Directory, Directory.add, Directory.sorted, Directory.find?
-/

namespace I8085

/-- Rows with their keys. -/
structure Directory (α : Type) where
  rows : Array (Nat × α) := #[]
deriving Repr

namespace Directory

variable {α : Type}

def empty : Directory α := {}

instance : Inhabited (Directory α) := ⟨empty⟩

def size (directory : Directory α) : Nat := directory.rows.size

def add (directory : Directory α) (key : Nat) (value : α) : Directory α where
  rows := directory.rows.push (key, value)

/-- The rows in ascending order of their keys. -/
def sorted (directory : Directory α) : Directory α where
  rows := (directory.rows.toList.mergeSort fun first second => first.1 ≤ second.1).toArray

/-- Look for a key among the rows from `low` up to `high`. -/
def search (rows : Array (Nat × α)) (key low high : Nat) (bound : high ≤ rows.size) :
    Option α :=
  if range : low < high then
    let middle := low + (high - low) / 2
    have inside : middle < rows.size := by omega
    let row := rows[middle]
    if row.1 = key then some row.2
    else if row.1 < key then search rows key (middle + 1) high bound
    else search rows key low middle (by omega)
  else none
termination_by high - low

/-- The value in the row of a key. The directory has to be sorted. -/
def find? (directory : Directory α) (key : Nat) : Option α :=
  search directory.rows key 0 directory.rows.size (Nat.le_refl _)

end Directory

end I8085
