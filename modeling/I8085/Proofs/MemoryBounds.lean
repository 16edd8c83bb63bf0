/-
Module: I8085.Proofs.MemoryBounds
Layer: Proofs
Purpose: Access to memory stays within its bounds. What is asked of a memory is refused exactly if it
  needs an address above the top or a value that is no byte, and is otherwise done as a whole: the
  cells that are addressed take the bytes, from the first to the last, and no other cell changes
  (`Memory.Fills`). The same is said of the work cell by cell, in which a cell once written stays
  written and every sum of addresses has to be an address (`Memory.ByCells`): no sum fails, and what
  is refused is refused before the first cell is written (`Memory.keeps_bounds`).
Imports: I8085.Machine.Command, I8085.Proofs.ProgramSteps
Main exports: Memory.Fills, Memory.fills_writeAll, Memory.getElem?_slice, Memory.ByCells.edit,
  Memory.ByCells.edit_eq, Memory.ByCells.readWord_eq, Memory.ByCells.slice?_eq, Memory.KeepsBounds,
  Memory.keeps_bounds
-/
import I8085.Machine.Command
import I8085.Proofs.ProgramSteps

namespace I8085.Memory

/-! ### Cells that are filled -/

/-- The writes that put bytes into the cells from an address on. -/
def writes (base : Word) (bytes : List Byte) : List MemoryWrite :=
  bytes.mapIdx fun index byte => { address := base + UInt16.ofNat index, value := byte }

/-- What it is for bytes to have been put into the cells from an address on, and for nothing else to
have been done. -/
structure Fills (before : Memory) (base : Word) (bytes : List Byte) (after : Memory) : Prop where
  inside : ∀ (index : Nat) (byte : Byte), bytes[index]? = some byte →
    ∃ address : Word, address.toNat = base.toNat + index ∧ after.read address = byte
  outside : ∀ address : Word,
    address.toNat < base.toNat ∨ base.toNat + bytes.length ≤ address.toNat →
    after.read address = before.read address
  /-- The observer is told each cell once, from the first to the last. -/
  observed_eq : after.observed = before.observed.map ((writes base bytes).reverse ++ ·)

variable {m later : Memory} {base address : Word} {bytes : List Byte}

/-- Every address but the last has one after it. -/
theorem toNat_add_one (inner : address ≠ maxAddress) : (address + 1).toNat = address.toNat + 1 := by
  have below := address.toNat_lt
  have apart : address.toNat ≠ 65535 := fun last => inner (UInt16.toNat_inj.1 last)
  rw [UInt16.toNat_add, UInt16.toNat_one]
  omega

theorem add_ofNat_zero (base : Word) : base + UInt16.ofNat 0 = base := UInt16.add_zero base

theorem add_ofNat_succ (base : Word) (index : Nat) :
    base + UInt16.ofNat (index + 1) = base + 1 + UInt16.ofNat index := by
  rw [Nat.add_comm, UInt16.ofNat_add, UInt16.add_assoc]
  rfl

theorem writes_cons (base : Word) (byte : Byte) (rest : List Byte) :
    writes base (byte :: rest) = { address := base, value := byte } :: writes (base + 1) rest := by
  simp only [writes, List.mapIdx_cons, add_ofNat_zero, add_ofNat_succ]

theorem observed_writeAll (m : Memory) (base : Word) (bytes : List Byte) :
    (m.writeAll base bytes).observed =
      m.observed.map ((writes base bytes).reverse ++ ·) := by
  induction bytes generalizing m base with
  | nil => simp [writeAll, writes]
  | cons byte rest ih =>
    rw [writeAll, ih, writes_cons, write, Option.map_map]
    congr 1
    funext record
    simp

/-- A cell that holds one of some bytes is found by the place of the byte. -/
theorem Holds.read_eq (holds : m.Holds base bytes) {index : Nat} {byte : Byte}
    (place : bytes[index]? = some byte) : m.read (base + UInt16.ofNat index) = byte := by
  obtain ⟨below, rfl⟩ := List.getElem?_eq_some_iff.1 place
  have split := List.take_append_drop index bytes
  rw [List.drop_eq_getElem_cons below] at split
  rw [← split, holds_append] at holds
  obtain ⟨_, here, _⟩ := holds
  rwa [List.length_take_of_le (Nat.le_of_lt below)] at here

/-- Writing bytes that end below the top of memory fills the cells with them. -/
theorem fills_writeAll (m : Memory) (fits : base.toNat + bytes.length ≤ size) :
    m.Fills base bytes (m.writeAll base bytes) where
  inside := by
    intro index byte place
    have below := (List.getElem?_eq_some_iff.1 place).1
    have holds := m.holds_writeAll base (Nat.le_of_add_left_le fits)
    exact ⟨_, toNat_add_ofNat (by omega), holds.read_eq place⟩
  outside := by
    intro address outside
    apply read_writeAll_of_ne
    rintro index below rfl
    rw [toNat_add_ofNat (by omega)] at outside
    omega
  observed_eq := observed_writeAll m base bytes

/-! ### Runs of cells -/

/-- A slice has the cells from its start on up to its length or to the top of memory. -/
theorem getElem?_slice (m : Memory) (start : Word) (length index : Nat) :
    (m.slice start length)[index]? =
      if start.toNat + index < min (start.toNat + length) size then
        some (m.read (UInt16.ofNat (start.toNat + index)))
      else none := by
  rw [slice, List.getElem?_map]
  by_cases within : start.toNat + index < min (start.toNat + length) size
  · rw [if_pos within, List.getElem?_range' (by omega), Nat.one_mul, Option.map_some]
  · rw [if_neg within, List.getElem?_eq_none, Option.map_none]
    rw [List.length_range']
    omega

/-- The cells that have been filled are read back as a slice. -/
theorem Fills.slice_eq (fills : m.Fills base bytes later)
    (fits : base.toNat + bytes.length ≤ size) : later.slice base bytes.length = bytes := by
  apply List.ext_getElem?
  intro index
  rw [getElem?_slice]
  by_cases below : index < bytes.length
  · obtain ⟨address, place, held⟩ := fills.inside index _ (List.getElem?_eq_getElem below)
    rw [if_pos (by omega), List.getElem?_eq_getElem below, ← place, UInt16.ofNat_toNat, held]
  · rw [if_neg (by omega), List.getElem?_eq_none (Nat.le_of_not_lt below)]

/-! ### Cell by cell -/

/-- What can keep work on the cells of a memory from being done. -/
inductive Obstacle where
  | refused (error : MemoryError)
  /-- The sum of two addresses is no address. -/
  | overflow
deriving Repr, DecidableEq

namespace ByCells

/-- The sum of two addresses, if it is an address. -/
def sum? (first second : Word) : Option Word :=
  if first.toNat + second.toNat < size then some (first + second) else none

def readWord (m : Memory) (address : Word) : Except Obstacle Word :=
  if address = maxAddress then .error (.refused (.addressOutOfRange (address.toNat + 1)))
  else
    match sum? address 1 with
    | none => .error .overflow
    | some next => .ok (Word.ofBytes (m.read next) (m.read address))

/-- Put the bytes that are left of a program into their cells. The first of them stands at `offset`
in the program. -/
def putAll (m : Memory) (base : Word) (offset : Nat) : List Byte → Memory × Except Obstacle Unit
  | [] => (m, .ok ())
  | byte :: rest =>
      match sum? base (UInt16.ofNat offset) with
      | none => (m, .error .overflow)
      | some address => putAll (m.write address byte) base (offset + 1) rest

/-- The memory that work on its cells leaves, whether or not it is done to the end. -/
def edit (m : Memory) : Edit → Memory × Except Obstacle Unit
  | .write address value => (m.write address value, .ok ())
  | .writeWord address value =>
      if address = maxAddress then
        (m, .error (.refused (.addressOutOfRange (address.toNat + 1))))
      else
        let begun := m.write address (Word.low value)
        match sum? address 1 with
        | none => (begun, .error .overflow)
        | some next => (begun.write next (Word.high value), .ok ())
  | .writeAt address value =>
      if size ≤ address then (m, .error (.refused (.addressOutOfRange address)))
      else if 256 ≤ value then
        (m, .error (.refused (.valueOutOfRange (UInt16.ofNat address) value)))
      else (m.write (UInt16.ofNat address) (UInt8.ofNat value), .ok ())
  | .load program base =>
      if size < base.toNat + program.length then
        (m, .error (.refused (.programOverflow base program.length)))
      else putAll m base 0 program

/-- The cells between two places of a memory, if the places are in order and none lies beyond the
end. -/
def between? (m : Memory) (first last : Nat) : Option (List Byte) :=
  if first ≤ last ∧ last ≤ size then
    some ((List.range' first (last - first)).map fun place => m.read (UInt16.ofNat place))
  else none

/-- The sum of two numbers of 64 bits, or the greatest such number if there is none. -/
def saturatingSum (first second : Nat) : Nat := min (first + second) (2 ^ 64 - 1)

def slice? (m : Memory) (start : Word) (length : Nat) : Option (List Byte) :=
  between? m start.toNat (min (saturatingSum start.toNat length) size)

theorem sum?_one (inner : address ≠ maxAddress) : sum? address 1 = some (address + 1) := by
  rw [sum?, if_pos]
  rw [UInt16.toNat_one, ← toNat_add_one inner]
  exact (address + 1).toNat_lt

theorem sum?_ofNat {offset : Nat} (within : base.toNat + offset < size) :
    sum? base (UInt16.ofNat offset) = some (base + UInt16.ofNat offset) := by
  have small : (UInt16.ofNat offset).toNat = offset := by
    rw [UInt16.toNat_ofNat', Nat.mod_eq_of_lt]
    unfold size at within
    omega
  rw [sum?, small, if_pos within]

theorem putAll_eq (m : Memory) {offset : Nat} (fits : base.toNat + offset + bytes.length ≤ size) :
    putAll m base offset bytes = (m.writeAll (base + UInt16.ofNat offset) bytes, .ok ()) := by
  induction bytes generalizing m offset with
  | nil => rfl
  | cons byte rest ih =>
    rw [List.length_cons] at fits
    have next : base + UInt16.ofNat offset + 1 = base + UInt16.ofNat (offset + 1) := by
      rw [UInt16.ofNat_add, UInt16.add_assoc]
      rfl
    rw [putAll, sum?_ofNat (by omega)]
    simp only
    rw [ih _ (by omega), writeAll, next]

/-- The sum of addresses that is asked for is always an address, and what is refused has changed
nothing. -/
theorem edit_eq (m : Memory) (change : Edit) :
    edit m change =
      match m.edit change with
      | .ok later => (later, .ok ())
      | .error e => (m, .error (.refused e)) := by
  cases change with
  | write address value => rfl
  | writeWord address value =>
    by_cases last : address = maxAddress
    · subst last
      rfl
    · simp only [edit, Memory.edit, Memory.writeWord, if_neg last, sum?_one last]
  | writeAt address value =>
    by_cases above : size ≤ address
    · simp only [edit, Memory.edit, Memory.writeAt, if_pos above, if_neg (Nat.not_lt.2 above)]
    · by_cases large : 256 ≤ value
      · simp only [edit, Memory.edit, Memory.writeAt, if_neg above, if_pos large,
          if_pos (Nat.not_le.1 above), if_neg (Nat.not_lt.2 large)]
      · simp only [edit, Memory.edit, Memory.writeAt, if_neg above, if_neg large,
          if_pos (Nat.not_le.1 above), if_pos (Nat.not_le.1 large)]
  | load program base =>
    by_cases beyond : size < base.toNat + program.length
    · simp only [edit, Memory.edit, Memory.load, if_pos beyond]
    · simp only [edit, Memory.edit, Memory.load, if_neg beyond]
      rw [putAll_eq m (Nat.le_of_not_lt beyond), add_ofNat_zero]

theorem readWord_eq (m : Memory) (address : Word) :
    readWord m address = (m.readWord address).mapError .refused := by
  by_cases last : address = maxAddress
  · subst last
    rfl
  · simp only [readWord, Memory.readWord, if_neg last, sum?_one last]
    rfl

/-- The ends of a slice are in order and within the memory, however long it is asked to be. -/
theorem slice?_eq (m : Memory) (start : Word) (length : Nat) :
    slice? m start length = some (m.slice start length) := by
  have below : start.toNat < size := start.toNat_lt
  have stop : min (saturatingSum start.toNat length) size = min (start.toNat + length) size := by
    unfold saturatingSum size
    omega
  rw [slice?, stop, between?, if_pos]
  · rfl
  · omega

end ByCells

/-! ### Bounds -/

/-- What it is for the accesses to a memory to keep within its bounds. -/
structure KeepsBounds (m : Memory) : Prop where
  /-- A word is stored unless it would begin at the last address. -/
  writeWord : ∀ address value : Word,
    if address = 0xFFFF then m.writeWord address value = .error (.addressOutOfRange 0x10000)
    else
      ∃ later, m.writeWord address value = .ok later ∧
        m.Fills address (Word.littleEndian value) later ∧ later.readWord address = .ok value
  /-- A value is stored if it is a byte and the address is one. -/
  writeAt : ∀ address value : Nat,
    if 0xFFFF < address then m.writeAt address value = .error (.addressOutOfRange address)
    else if 0xFF < value then
      m.writeAt address value = .error (.valueOutOfRange (UInt16.ofNat address) value)
    else
      ∃ later, m.writeAt address value = .ok later ∧
        m.Fills (UInt16.ofNat address) [UInt8.ofNat value] later ∧
        later.readAt address = .ok (UInt8.ofNat value)
  /-- A program is loaded if it ends below the top of memory. -/
  load : ∀ (program : List Byte) (base : Word),
    if 65536 < base.toNat + program.length then
      m.load program base = .error (.programOverflow base program.length)
    else
      ∃ later, m.load program base = .ok later ∧ m.Fills base program later ∧
        later.slice base program.length = program
  /-- A word is read, the low byte first, unless it would begin at the last address. -/
  readWord : ∀ address : Word,
    if address = 0xFFFF then m.readWord address = .error (.addressOutOfRange 0x10000)
    else
      ∃ next : Word, next.toNat = address.toNat + 1 ∧
        m.readWord address = .ok (Word.ofBytes (m.read next) (m.read address))
  readAt : ∀ address : Nat,
    if 0xFFFF < address then m.readAt address = .error (.addressOutOfRange address)
    else m.readAt address = .ok (m.read (UInt16.ofNat address))
  /-- A slice has the cells from its start on that lie below its end and below the top of memory. -/
  slice : ∀ (start : Word) (length index : Nat),
    (m.slice start length)[index]? =
      if start.toNat + index < min (start.toNat + length) 65536 then
        some (m.read (UInt16.ofNat (start.toNat + index)))
      else none
  /-- Done cell by cell, a change is the same: it is refused before the first cell is written, or
  done to the end. -/
  edit_byCells : ∀ change : Edit, ByCells.edit m change =
    match m.edit change with
    | .ok later => (later, .ok ())
    | .error e => (m, .error (.refused e))
  readWord_byCells : ∀ address : Word,
    ByCells.readWord m address = (m.readWord address).mapError .refused
  slice_byCells : ∀ (start : Word) (length : Nat),
    ByCells.slice? m start length = some (m.slice start length)

theorem writeWord_bounds (m : Memory) (address value : Word) :
    if address = 0xFFFF then m.writeWord address value = .error (.addressOutOfRange 0x10000)
    else
      ∃ later, m.writeWord address value = .ok later ∧
        m.Fills address (Word.littleEndian value) later ∧ later.readWord address = .ok value := by
  split
  next last => exact if_pos last
  next inner =>
    have next := toNat_add_one inner
    have below := (address + 1).toNat_lt
    have fits : address.toNat + (Word.littleEndian value).length ≤ size := by
      rw [Word.littleEndian, size]
      simp only [List.length_cons, List.length_nil]
      omega
    have fills := m.fills_writeAll fits
    refine ⟨_, if_neg inner, fills, ?_⟩
    -- The two bytes are read back from the cells that hold them.
    have apart : address + 1 ≠ address := fun same => by rw [same] at next; omega
    refine (if_neg inner).trans ?_
    rw [read_write, if_pos rfl, read_write, if_neg apart, read_write, if_pos rfl,
      Word.ofBytes_halves]

theorem writeAt_bounds (m : Memory) (address value : Nat) :
    if 0xFFFF < address then m.writeAt address value = .error (.addressOutOfRange address)
    else if 0xFF < value then
      m.writeAt address value = .error (.valueOutOfRange (UInt16.ofNat address) value)
    else
      ∃ later, m.writeAt address value = .ok later ∧
        m.Fills (UInt16.ofNat address) [UInt8.ofNat value] later ∧
        later.readAt address = .ok (UInt8.ofNat value) := by
  split
  next above => exact if_neg (Nat.not_lt.2 above)
  next inner =>
    have below : address < size := Nat.lt_succ_of_le (Nat.le_of_not_lt inner)
    split
    next large => rw [Memory.writeAt, if_pos below, if_neg (Nat.not_lt.2 large)]
    next small =>
      have byte : value < 256 := Nat.lt_succ_of_le (Nat.le_of_not_lt small)
      have fills : m.Fills (UInt16.ofNat address) [UInt8.ofNat value] _ :=
        m.fills_writeAll (UInt16.toNat_lt _)
      refine ⟨_, ?_, fills, ?_⟩
      · rw [Memory.writeAt, if_pos below, if_pos byte]
        rfl
      · rw [Memory.readAt, if_pos below, writeAll, writeAll, read_write, if_pos rfl]

theorem load_bounds (m : Memory) (program : List Byte) (base : Word) :
    if 65536 < base.toNat + program.length then
      m.load program base = .error (.programOverflow base program.length)
    else
      ∃ later, m.load program base = .ok later ∧ m.Fills base program later ∧
        later.slice base program.length = program := by
  split
  next beyond => exact if_pos beyond
  next inner =>
    have fits : base.toNat + program.length ≤ size := Nat.le_of_not_lt inner
    have fills := m.fills_writeAll fits
    exact ⟨_, if_neg inner, fills, fills.slice_eq fits⟩

/-- Every memory, whatever its cells hold and whether or not it is observed, is accessed within its
bounds. -/
theorem keeps_bounds (m : Memory) : m.KeepsBounds where
  writeWord := writeWord_bounds m
  writeAt := writeAt_bounds m
  load := load_bounds m
  readWord := by
    intro address
    split
    next last => exact if_pos last
    next inner => exact ⟨address + 1, toNat_add_one inner, if_neg inner⟩
  readAt := by
    intro address
    split
    next above => exact if_neg (Nat.not_lt.2 above)
    next inner => exact if_pos (Nat.lt_succ_of_le (Nat.le_of_not_lt inner))
  slice := getElem?_slice m
  edit_byCells := ByCells.edit_eq m
  readWord_byCells := ByCells.readWord_eq m
  slice_byCells := ByCells.slice?_eq m

end I8085.Memory
