/-
Module: I8085.Memory
Layer: Data
Purpose: The 65536 memory cells, with an optional record of the writes made to them. Cells are
  kept in 256 pages of 256: the high byte of an address names the page and the low byte the cell
  in it, so a write replaces one page and shares the others. Words lie low byte first and may not
  straddle the top of memory. The accessors that can fail do so before they change anything.
Imports: I8085.Word, I8085.Text.Hex
Main exports: Memory, Memory.read, Memory.write, Memory.readWord, Memory.writeWord, Memory.load,
  Memory.readAt, Memory.writeAt, Memory.slice, Memory.clear, MemoryError
-/
import I8085.Word
import I8085.Text.Hex

namespace I8085

def Memory.size : Nat := 65536

def Memory.maxAddress : Word := 0xFFFF

/-- Why a memory access was refused. -/
inductive MemoryError where
  /-- The access needs a cell at an address above the top of memory. -/
  | addressOutOfRange (address : Nat)
  /-- The value to be written is no byte. -/
  | valueOutOfRange (address : Word) (value : Nat)
  /-- A program of `length` bytes from `base` on runs past the top of memory. -/
  | programOverflow (base : Word) (length : Nat)
deriving Repr, DecidableEq

def MemoryError.message : MemoryError → String
  | .addressOutOfRange address => s!"Invalid memory address: 0x{Text.hex 4 address}"
  | .valueOutOfRange address value =>
      let place := s!"0x{Text.hex 4 address.toNat}"
      s!"Invalid memory write: value 0x{Text.hex 1 value} at {place} is not a byte"
  | .programOverflow base length =>
      s!"Program of {length} bytes loaded at 0x{Text.hex 4 base.toNat} runs past 0xFFFF"

structure MemoryWrite where
  address : Word
  value : Byte
deriving Repr, DecidableEq, Inhabited

structure Memory where
  /-- The cells, by high byte and then low byte of their address. -/
  pages : Vector (Vector Byte 256) 256
  /-- The writes observed so far, newest first; `none` when nothing observes them. -/
  observed : Option (List MemoryWrite)
deriving DecidableEq

namespace Memory

def blankPages : Vector (Vector Byte 256) 256 :=
  Vector.replicate 256 (Vector.replicate 256 0)

/-- Zeroed memory that nothing observes. -/
def blank : Memory := { pages := blankPages, observed := none }

instance : Inhabited Memory := ⟨blank⟩

def read (m : Memory) (address : Word) : Byte :=
  m.pages[(Word.high address).toFin][(Word.low address).toFin]

/-- Put a byte into a cell, and tell the observer if there is one. -/
def write (m : Memory) (address : Word) (value : Byte) : Memory where
  pages :=
    let page := m.pages[(Word.high address).toFin]
    m.pages.set (Word.high address).toFin (page.set (Word.low address).toFin value)
  observed := m.observed.map (⟨address, value⟩ :: ·)

/-! ### Words -/

/-- The word that starts at an address, low byte first. There is none at the last address. -/
def readWord (m : Memory) (address : Word) : Except MemoryError Word :=
  if address = maxAddress then .error (.addressOutOfRange size)
  else .ok (Word.ofBytes (m.read (address + 1)) (m.read address))

/-- Store a word at an address, low byte first. It is refused at the last address. -/
def writeWord (m : Memory) (address value : Word) : Except MemoryError Memory :=
  if address = maxAddress then .error (.addressOutOfRange size)
  else .ok ((m.write address (Word.low value)).write (address + 1) (Word.high value))

/-! ### Runs of cells -/

/-- Put bytes into consecutive cells, the first at `base`. Addresses wrap. -/
def writeAll (m : Memory) (base : Word) : List Byte → Memory
  | [] => m
  | byte :: rest => (m.write base byte).writeAll (base + 1) rest

/-- Load a program. It is refused as a whole when it runs past the top of memory. -/
def load (m : Memory) (program : List Byte) (base : Word) : Except MemoryError Memory :=
  if size < base.toNat + program.length then .error (.programOverflow base program.length)
  else .ok (m.writeAll base program)

/-- The bytes of `length` cells from `start` on, fewer when the top of memory comes first. -/
def slice (m : Memory) (start : Word) (length : Nat) : List Byte :=
  (List.range' start.toNat (min (start.toNat + length) size - start.toNat)).map
    fun address => m.read (UInt16.ofNat address)

/-- Zero every cell. The observer is kept and is told nothing. -/
def clear (m : Memory) : Memory := { m with pages := blankPages }

/-! ### Addresses and values of any size -/

/-- Read at an address of any size. -/
def readAt (m : Memory) (address : Nat) : Except MemoryError Byte :=
  if address < size then .ok (m.read (UInt16.ofNat address))
  else .error (.addressOutOfRange address)

/-- Write a value of any size at an address of any size. The address is checked first. -/
def writeAt (m : Memory) (address value : Nat) : Except MemoryError Memory :=
  if address < size then
    if value < 256 then .ok (m.write (UInt16.ofNat address) (UInt8.ofNat value))
    else .error (.valueOutOfRange (UInt16.ofNat address) value)
  else .error (.addressOutOfRange address)

/-! ### Observation -/

def observe (m : Memory) : Memory := { m with observed := some [] }

def unobserve (m : Memory) : Memory := { m with observed := none }

def isObserved (m : Memory) : Bool := m.observed.isSome

/-- The writes recorded since the last drain, oldest first, and the memory with an empty record. -/
def drain (m : Memory) : List MemoryWrite × Memory :=
  ((m.observed.getD []).reverse, { m with observed := m.observed.map fun _ => [] })

/-- One-line description for inspection: the size and whether writes are observed. -/
def summary (m : Memory) : String :=
  s!"FlatMemory \x7b size: {size}, observer: {m.isObserved} \x7d"

/-! ### What a cell holds -/

@[simp] theorem read_clear (m : Memory) (address : Word) : m.clear.read address = 0 := by
  simp [read, clear, blankPages]

/-- The cell written holds the value; every other cell is as before. -/
theorem read_write (m : Memory) (address other : Word) (value : Byte) :
    (m.write address value).read other = if address = other then value else m.read other := by
  simp only [read, write, Fin.getElem_fin, Vector.getElem_set]
  by_cases hi : Word.high address = Word.high other
  · by_cases lo : Word.low address = Word.low other
    · have := Word.ext_halves hi lo
      subst this
      simp
    · have : address ≠ other := fun e => lo (by rw [e])
      have : (Word.low address).toFin.val ≠ (Word.low other).toFin.val := fun e =>
        lo (UInt8.toNat_inj.1 e)
      simp_all
  · have : address ≠ other := fun e => hi (by rw [e])
    have : (Word.high address).toFin.val ≠ (Word.high other).toFin.val := fun e =>
      hi (UInt8.toNat_inj.1 e)
    simp_all

end Memory

end I8085
