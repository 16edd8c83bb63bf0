/-
Module: I8085.Proofs.DataEffects
Layer: Proofs
Purpose: The instructions that move and count data do what their chart entry names. What an entry
  names is read off its mnemonic and the names of its operands, without regard to bits of the
  opcode: which places receive which bytes, all of them computed from the contents before the step
  (`Contents.named`). The flag byte, which is stored with the processor status word, is given by its
  bits (`Flags.packed`). The step, which decodes the opcode by its bit fields, leaves exactly these
  contents behind (`step_changes_named`): no other register or cell and no other stack pointer.
Imports: I8085.Proofs.StepFaults, Mathlib.Data.Nat.Init
Main exports: Flags.bit, Flags.packed, Flags.ofBits, Flags.testBit_toByte, Location, Contents,
  Changes, Contents.after, Contents.named, Mnemonic.dataFamilies, Machine.contents, Machine.Shows,
  Contents.made, Contents.named_entry, Action.execute_shows, Machine.step_changes_named
-/
import I8085.Proofs.StepFaults
import Mathlib.Data.Nat.Init

namespace I8085

/-! ### The flag byte -/

namespace Flags

/-- What stands in a bit of the flag byte. Bits 5, 3 and 1 carry nothing and are zero. -/
def bit (f : Flags) : Nat → Bool
  | 7 => f.sign
  | 6 => f.zero
  | 4 => f.auxCarry
  | 2 => f.parity
  | 0 => f.carry
  | _ => false

/-- The byte with these bits. -/
def packed (f : Flags) : Byte := UInt8.ofNat (Nat.ofBits fun place : Fin 8 => f.bit place)

/-- The flags that stand in bits 7, 6, 4, 2 and 0 of a byte. -/
def ofBits (b : Byte) : Flags where
  sign := b.toNat.testBit 7
  zero := b.toNat.testBit 6
  auxCarry := b.toNat.testBit 4
  parity := b.toNat.testBit 2
  carry := b.toNat.testBit 0

theorem bit_of_le (f : Flags) {place : Nat} (outside : 8 ≤ place) : f.bit place = false := by
  obtain ⟨more, rfl⟩ := Nat.exists_eq_add_of_le' outside
  rfl

/-- The masks put every flag into its bit and nothing into the others. -/
theorem testBit_toByte (f : Flags) (place : Nat) : f.toByte.toNat.testBit place = f.bit place := by
  rcases Nat.lt_or_ge place 8 with inside | outside
  · have each : ∀ place : Fin 8, f.toByte.toNat.testBit place = f.bit place := by
      obtain ⟨sign, zero, auxCarry, parity, carry⟩ := f
      revert sign zero auxCarry parity carry
      decide +kernel
    exact each ⟨place, inside⟩
  · have high : 2 ^ 8 ≤ 2 ^ place := Nat.pow_le_pow_right Nat.two_pos outside
    rw [Nat.testBit_lt_two_pow (Nat.lt_of_lt_of_le f.toByte.toNat_lt high), f.bit_of_le outside]

theorem toByte_eq_packed (f : Flags) : f.toByte = f.packed := by
  apply UInt8.toNat_inj.1
  rw [packed, UInt8.toNat_ofNat_of_lt' (Nat.ofBits_lt_two_pow _)]
  apply Nat.eq_of_testBit_eq
  intro place
  rw [testBit_toByte, Nat.testBit_ofBits]
  split
  next => rfl
  next outside => exact f.bit_of_le (Nat.le_of_not_lt outside)

/-- A packed flag has its place in the byte. -/
theorem ofByte_eq_ofBits (b : Byte) : ofByte b = ofBits b := by
  have each : ∀ code : Fin 256, ofByte (UInt8.ofNat code) = ofBits (UInt8.ofNat code) := by
    decide +kernel
  simpa using each b.toFin

end Flags

/-! ### Contents and changes of them -/

/-- A place that holds a byte. -/
inductive Location where
  | a
  | b
  | c
  | d
  | e
  | h
  | l
  | cell (address : Word)
deriving Repr, DecidableEq

/-- What the data instructions work on. -/
structure Contents where
  byte : Location → Byte
  sp : Word
  flags : Flags

/-- Bytes that are put into places, and a stack pointer and flags if those are set as well. -/
structure Changes where
  bytes : List (Location × Byte) := []
  sp : Option Word := none
  flags : Option Flags := none

namespace Changes

/-- Put a byte into a place. -/
def put (location : Location) (value : Byte) : Changes := { bytes := [(location, value)] }

/-- Put a word into the cell at an address and the one after it, low byte first. -/
def store (address value : Word) : Changes where
  bytes := [(.cell address, Word.low value), (.cell (address + 1), Word.high value)]

/-- Put a word into a pair. The flags take the five bits of the flag byte that they have. -/
def load (pair : RegisterPair) (value : Word) : Changes :=
  match pair with
  | .bc => { bytes := [(.b, Word.high value), (.c, Word.low value)] }
  | .de => { bytes := [(.d, Word.high value), (.e, Word.low value)] }
  | .hl => { bytes := [(.h, Word.high value), (.l, Word.low value)] }
  | .sp => { sp := some value }
  | .psw => { bytes := [(.a, Word.high value)], flags := some (Flags.ofBits (Word.low value)) }

end Changes

namespace Contents

/-- The contents after changes. What is not changed is as before. -/
def after (old : Contents) (changes : Changes) : Contents where
  byte location := (changes.bytes.lookup location).getD (old.byte location)
  sp := changes.sp.getD old.sp
  flags := changes.flags.getD old.flags

/-- The word in a pair. The processor status word is the accumulator over the packed flags. -/
def word (old : Contents) : RegisterPair → Word
  | .bc => Word.ofBytes (old.byte .b) (old.byte .c)
  | .de => Word.ofBytes (old.byte .d) (old.byte .e)
  | .hl => Word.ofBytes (old.byte .h) (old.byte .l)
  | .sp => old.sp
  | .psw => Word.ofBytes (old.byte .a) old.flags.packed

/-- The place that a register operand stands for. For `M` it is the cell at the address in HL. -/
def place (old : Contents) : Register → Location
  | .a => .a
  | .b => .b
  | .c => .c
  | .d => .d
  | .e => .e
  | .h => .h
  | .l => .l
  | .m => .cell (old.word .hl)

/-- The word in the cell at an address and the one after it, low byte first. -/
def wordAt (old : Contents) (address : Word) : Word :=
  Word.ofBytes (old.byte (.cell (address + 1))) (old.byte (.cell address))

/-- The changes that an instruction names by its mnemonic and the names of its operands, given the
word that follows the opcode. -/
def named (old : Contents) (operand : Word) (mnemonic : Mnemonic) (names : List String) :
    Option Changes :=
  match mnemonic, names with
  | .mov, [target, source] => do
      let target ← Register.ofName? target
      let source ← Register.ofName? source
      return .put (old.place target) (old.byte (old.place source))
  | .mvi, [target] => do
      let target ← Register.ofName? target
      return .put (old.place target) (Word.low operand)
  | .lxi, [target] => do
      let target ← RegisterPair.ofName? target
      return .load target operand
  | .lda, [] => some (.put .a (old.byte (.cell operand)))
  | .sta, [] => some (.put (.cell operand) (old.byte .a))
  | .ldax, [address] => do
      let address ← RegisterPair.ofName? address
      return .put .a (old.byte (.cell (old.word address)))
  | .stax, [address] => do
      let address ← RegisterPair.ofName? address
      return .put (.cell (old.word address)) (old.byte .a)
  | .lhld, [] => some (.load .hl (old.wordAt operand))
  | .shld, [] => some (.store operand (old.word .hl))
  | .xchg, [] =>
      some
        { bytes :=
            [(.h, old.byte .d), (.d, old.byte .h), (.l, old.byte .e), (.e, old.byte .l)] }
  | .inr, [target] => do
      let target ← Register.ofName? target
      return .put (old.place target) (old.byte (old.place target) + 1)
  | .dcr, [target] => do
      let target ← Register.ofName? target
      return .put (old.place target) (old.byte (old.place target) - 1)
  | .inx, [target] => do
      let target ← RegisterPair.ofName? target
      return .load target (old.word target + 1)
  | .dcx, [target] => do
      let target ← RegisterPair.ofName? target
      return .load target (old.word target - 1)
  | .dad, [source] => do
      let source ← RegisterPair.ofName? source
      return .load .hl (old.word .hl + old.word source)
  | .push, [source] => do
      let source ← RegisterPair.ofName? source
      return { Changes.store (old.sp - 2) (old.word source) with sp := some (old.sp - 2) }
  | .pop, [target] => do
      let target ← RegisterPair.ofName? target
      return { Changes.load target (old.wordAt old.sp) with sp := some (old.sp + 2) }
  | .xthl, [] =>
      some
        { bytes :=
            (Changes.load .hl (old.wordAt old.sp)).bytes ++
              (Changes.store old.sp (old.word .hl)).bytes }
  | .sphl, [] => some (.load .sp (old.word .hl))
  | _, _ => none

end Contents

/-- The mnemonics of the instructions that move and count data. -/
def Mnemonic.dataFamilies : List Mnemonic :=
  [mov, mvi, lxi, lda, sta, ldax, stax, lhld, shld, xchg, inr, dcr, inx, dcx, dad, push, pop, xthl,
   sphl]

theorem lookup_cons_eq (place location : Location) (value : Byte)
    (rest : List (Location × Byte)) :
    ((place, value) :: rest).lookup location =
      if location = place then some value else rest.lookup location := by
  by_cases same : location = place
  · simp [same]
  · have apart : (location == place) = false := by simpa using same
    simp [List.lookup_cons, same, apart]

/-! ### The contents of a machine -/

namespace Machine

/-- The contents of a machine. -/
def contents (m : Machine) : Contents where
  byte
    | .a => m.cpu.a
    | .b => m.cpu.b
    | .c => m.cpu.c
    | .d => m.cpu.d
    | .e => m.cpu.e
    | .h => m.cpu.h
    | .l => m.cpu.l
    | .cell address => m.memory.read address
  sp := m.cpu.sp
  flags := m.cpu.flags

theorem pair_eq_word (m : Machine) (pair : RegisterPair) :
    m.cpu.pair pair = m.contents.word pair := by
  cases pair
  case psw => rw [Cpu.pair, Contents.word, ← Flags.toByte_eq_packed, contents]
  all_goals rfl

theorem get_eq_byte (m : Machine) (register : Register) :
    m.get register = m.contents.byte (m.contents.place register) := by
  cases register <;> rfl

theorem contents_write (m : Machine) (address : Word) (value : Byte) :
    contents { m with memory := m.memory.write address value } =
      m.contents.after (.put (.cell address) value) := by
  simp only [contents, Contents.after, Changes.put, Contents.mk.injEq]
  refine ⟨?_, rfl, rfl⟩
  funext location
  cases location
  case cell other =>
      by_cases same : address = other
      · simp [Memory.read_write, same]
      · simp [Memory.read_write, lookup_cons_eq, same, Ne.symm same]
  all_goals simp [lookup_cons_eq]

theorem contents_set (m : Machine) (register : Register) (value : Byte) :
    (m.set register value).contents =
      m.contents.after (.put (m.contents.place register) value) := by
  cases register
  case m => exact contents_write m (m.cpu.pair .hl) value
  all_goals
    simp only [contents, set, Contents.after, Changes.put, Contents.place, Contents.mk.injEq]
    refine ⟨?_, rfl, rfl⟩
    funext location
    cases location <;> rfl

theorem contents_setPair (m : Machine) (pair : RegisterPair) (value : Word) :
    (m.setPair pair value).contents = m.contents.after (.load pair value) := by
  cases pair
  all_goals
    simp only [contents, setPair, Cpu.setPair, Contents.after, Changes.load, Contents.mk.injEq,
      Flags.ofByte_eq_ofBits]
    refine ⟨?_, rfl, rfl⟩
    funext location
    cases location <;> rfl

/-- A stored word is found in its two cells, which are different. -/
theorem read_withWord (m : Memory) (address other value : Word) :
    (m.withWord address value).read other =
      if other = address then Word.low value
      else if other = address + 1 then Word.high value
      else m.read other := by
  have apart : address ≠ address + 1 := by grind
  simp only [Memory.withWord, Memory.read_write, eq_comm (a := other)]
  by_cases first : address = other
  · subst first
    simp [apart.symm]
  · simp [first]

theorem contents_withWord (m : Machine) (address value : Word) :
    contents { m with memory := m.memory.withWord address value } =
      m.contents.after (.store address value) := by
  simp only [contents, Contents.after, Changes.store, Contents.mk.injEq]
  refine ⟨?_, rfl, rfl⟩
  funext location
  cases location
  case cell other =>
      by_cases first : other = address
      · simp [read_withWord, first]
      · by_cases second : other = address + 1 <;>
          simp [read_withWord, lookup_cons_eq, first, second]
  all_goals simp [lookup_cons_eq]

theorem contents_push (m : Machine) (top value : Word) :
    contents { m with memory := m.memory.withWord top value, cpu.sp := top } =
      m.contents.after { Changes.store top value with sp := some top } := by
  have stored := congrArg Contents.byte (contents_withWord m top value)
  simp only [contents, Contents.after, Contents.mk.injEq]
  exact ⟨stored, rfl, rfl⟩

theorem contents_pop (m : Machine) {target : RegisterPair} (apart : target ≠ .sp)
    (top value : Word) :
    (setPair { m with cpu.sp := top } target value).contents =
      m.contents.after { Changes.load target value with sp := some top } := by
  have loaded := contents_setPair { m with cpu.sp := top } target value
  cases target
  case sp => exact absurd rfl apart
  all_goals exact loaded

theorem contents_exchangeTop (m : Machine) (top value : Word) :
    (setPair { m with memory := m.memory.withWord top value } .hl (m.memory.wordAt top)).contents =
      m.contents.after
        { bytes :=
            (Changes.load .hl (m.contents.wordAt top)).bytes ++ (Changes.store top value).bytes } := by
  rw [contents_setPair, contents_withWord]
  simp only [Contents.after, Changes.load, Changes.store, Contents.mk.injEq]
  refine ⟨?_, rfl, rfl⟩
  funext location
  cases location <;> simp [lookup_cons_eq] <;> rfl

theorem contents_exchange (m : Machine) :
    ((m.setPair .hl (m.cpu.pair .de)).setPair .de (m.cpu.pair .hl)).contents =
      m.contents.after
        { bytes :=
            [(.h, m.cpu.d), (.d, m.cpu.h), (.l, m.cpu.e), (.e, m.cpu.l)] } := by
  simp only [contents, Contents.after, Contents.mk.injEq]
  refine ⟨?_, rfl, rfl⟩
  funext location
  cases location <;> simp [setPair, Cpu.setPair, Cpu.pair, lookup_cons_eq]

/-- The program counter is no part of the contents. -/
theorem contents_pastInstruction (m : Machine) : m.pastInstruction.contents = m.contents := rfl

end Machine

/-! ### Reading the names of operands -/

@[simp] theorem Register.ofName?_name (register : Register) :
    Register.ofName? register.name = some register := by
  cases register <;> decide +kernel

@[simp] theorem RegisterPair.ofName?_name (pair : RegisterPair) :
    RegisterPair.ofName? pair.name = some pair := by
  cases pair <;> decide +kernel

/-! ### Counting by one -/

theorem Alu.value_add_one (a : Byte) : (Alu.add a 1 false).value = a + 1 := by
  apply UInt8.toNat_inj.1
  simp [Alu.add]

theorem Alu.value_sub_one (a : Byte) : (Alu.sub a 1 false).value = a - 1 := by
  apply UInt8.toNat_inj.1
  simp [Alu.sub, UInt8.toNat_sub]
  omega

/-! ### Executing an instruction -/

/-- No opcode pops into the stack pointer. -/
theorem Opcode.cell?_ne_pop_sp (opcode : Byte) :
    Opcode.cell? opcode ≠ some (Instruction.pop .sp).entry := by
  have none : ∀ code : Fin 256,
      Opcode.cell? (UInt8.ofNat code) ≠ some (Instruction.pop .sp).entry := by
    decide +kernel
  simpa using none opcode.toFin

/-- Whether the bytes and the stack pointer of a machine are those of the contents after changes,
and the flags as well where the changes set them. -/
structure Machine.Shows (next : Machine) (old : Contents) (changes : Changes) : Prop where
  byte : next.contents.byte = (old.after changes).byte
  sp : next.contents.sp = (old.after changes).sp
  flags : ∀ flags, changes.flags = some flags → next.cpu.flags = flags

theorem Machine.Shows.of_contents {next : Machine} {old : Contents} {changes : Changes}
    (same : next.contents = old.after changes) : next.Shows old changes where
  byte := by rw [same]
  sp := by rw [same]
  flags flags set := by
    have : next.contents.flags = (old.after changes).flags := by rw [same]
    simpa [Machine.contents, Contents.after, set] using this

/-- Counting stores the result. -/
theorem Machine.count_shows (m : Machine) (target : Register) (result : Alu.Result) :
    (m.count target result).Shows m.contents (.put (m.contents.place target) result.value) := by
  have stored := m.contents_set target result.value
  have byte := congrArg Contents.byte stored
  have sp := congrArg Contents.sp stored
  constructor
  · exact byte
  · exact sp
  · intro flags set
    cases set

/-- Adding to HL stores the sum. -/
theorem Machine.addToHL_shows (m : Machine) (value : Word) :
    (m.addToHL value).Shows m.contents (.load .hl (m.cpu.pair .hl + value)) := by
  have stored := m.contents_setPair .hl (m.cpu.pair .hl + value)
  have byte := congrArg Contents.byte stored
  have sp := congrArg Contents.sp stored
  constructor
  · exact byte
  · exact sp
  · intro flags set
    cases set

/-- The changes that a decoded instruction makes, if it is one of those that move and count data. -/
def Contents.made (old : Contents) : Instruction → Option Changes
  | .mov target source => some (.put (old.place target) (old.byte (old.place source)))
  | .mvi target value => some (.put (old.place target) value)
  | .lxi target value => some (.load target value)
  | .lda address => some (.put .a (old.byte (.cell address)))
  | .sta address => some (.put (.cell address) (old.byte .a))
  | .ldax address => some (.put .a (old.byte (.cell (old.word address))))
  | .stax address => some (.put (.cell (old.word address)) (old.byte .a))
  | .lhld address => some (.load .hl (old.wordAt address))
  | .shld address => some (.store address (old.word .hl))
  | .xchg =>
      some
        { bytes :=
            [(.h, old.byte .d), (.d, old.byte .h), (.l, old.byte .e), (.e, old.byte .l)] }
  | .inr target => some (.put (old.place target) (old.byte (old.place target) + 1))
  | .dcr target => some (.put (old.place target) (old.byte (old.place target) - 1))
  | .inx target => some (.load target (old.word target + 1))
  | .dcx target => some (.load target (old.word target - 1))
  | .dad source => some (.load .hl (old.word .hl + old.word source))
  | .push source =>
      some { Changes.store (old.sp - 2) (old.word source) with sp := some (old.sp - 2) }
  | .pop target =>
      some { Changes.load target (old.wordAt old.sp) with sp := some (old.sp + 2) }
  | .xthl =>
      some
        { bytes :=
            (Changes.load .hl (old.wordAt old.sp)).bytes ++
              (Changes.store old.sp (old.word .hl)).bytes }
  | .sphl => some (.load .sp (old.word .hl))
  | .accumulate .. | .daa | .rotate _ | .cma | .stc | .cmc | .jump .. | .call .. | .ret _ | .rst _
  | .pchl | .nop | .hlt | .ei | .di | .rim | .sim => none

namespace Mnemonic

theorem operation_not_data (operation : Operation) :
    operation.registerMnemonic ∉ dataFamilies ∧ operation.immediateMnemonic ∉ dataFamilies := by
  cases operation <;> decide

theorem rotation_not_data (rotation : Rotation) : rotation.mnemonic ∉ dataFamilies := by
  cases rotation <;> decide

theorem transfer_not_data (condition : Option Condition) :
    Condition.jumpMnemonic condition ∉ dataFamilies ∧
      Condition.callMnemonic condition ∉ dataFamilies ∧
      Condition.returnMnemonic condition ∉ dataFamilies := by
  rcases condition with _ | condition
  · decide
  · cases condition <;> decide

end Mnemonic

open Opcode.Entry (fieldNames) in
open Opcode.Field (name) in
open Instruction (entry operand_of_data_byte operand_of_data_word) in
/-- The changes that an instruction makes are those that its spelling names. -/
theorem Contents.named_entry (old : Contents) {instruction : Instruction} {operand : Word}
    (data : instruction.data =
      (Word.littleEndian operand).take instruction.entry.operand.size)
    (family : instruction.entry.mnemonic ∈ Mnemonic.dataFamilies) :
    ∃ changes, old.made instruction = some changes ∧
      old.named operand instruction.entry.mnemonic instruction.entry.fieldNames =
        some changes := by
  cases instruction
  case mvi target value =>
      obtain rfl := operand_of_data_byte data
      exact ⟨_, rfl, by simp [named, entry, fieldNames, name]⟩
  case lxi target value =>
      obtain rfl := operand_of_data_word data
      exact ⟨_, rfl, by simp [named, entry, fieldNames, name]⟩
  case lda address =>
      obtain rfl := operand_of_data_word data
      exact ⟨_, rfl, rfl⟩
  case sta address =>
      obtain rfl := operand_of_data_word data
      exact ⟨_, rfl, rfl⟩
  case lhld address =>
      obtain rfl := operand_of_data_word data
      exact ⟨_, rfl, rfl⟩
  case shld address =>
      obtain rfl := operand_of_data_word data
      exact ⟨_, rfl, rfl⟩
  case accumulate operation source =>
      cases source with
      | register source => exact absurd family (Mnemonic.operation_not_data operation).1
      | immediate value => exact absurd family (Mnemonic.operation_not_data operation).2
  case rotate rotation => exact absurd family (Mnemonic.rotation_not_data rotation)
  case jump condition target => exact absurd family (Mnemonic.transfer_not_data condition).1
  case call condition target => exact absurd family (Mnemonic.transfer_not_data condition).2.1
  case ret condition => exact absurd family (Mnemonic.transfer_not_data condition).2.2
  case rst vector =>
      have outside : Mnemonic.rst ∉ Mnemonic.dataFamilies := by decide
      exact absurd family outside
  case daa | cma | stc | cmc | pchl | nop | hlt | ei | di | rim | sim =>
      exact absurd family (by decide)
  all_goals exact ⟨_, rfl, by simp [named, entry, fieldNames, name]⟩

namespace Action

/-- An instruction that comes to its end has made its changes. -/
theorem execute_shows {m next : Machine} {instruction : Instruction} {changes : Changes}
    (charted : ∃ opcode, Opcode.cell? opcode = some instruction.entry)
    (made : m.contents.made instruction = some changes)
    (executed : (execute instruction).on m = (next, .ok ())) :
    next.Shows m.contents changes := by
  obtain rfl := eq_completed executed
  cases instruction <;> cases made
  case mov target source =>
      apply Machine.Shows.of_contents
      rw [Machine.completed, Machine.contents_set, Machine.get_eq_byte]
  case mvi target value => exact .of_contents (m.contents_set target value)
  case lxi target value => exact .of_contents (m.contents_setPair target value)
  case lda address => exact .of_contents (m.contents_set .a (m.memory.read address))
  case sta address => exact .of_contents (m.contents_write address m.cpu.a)
  case ldax address =>
      apply Machine.Shows.of_contents
      rw [Machine.completed, Machine.contents_set, Machine.pair_eq_word]
      rfl
  case stax address =>
      apply Machine.Shows.of_contents
      rw [Machine.completed, Machine.contents_write, Machine.pair_eq_word]
      rfl
  case lhld address => exact .of_contents (m.contents_setPair .hl (m.memory.wordAt address))
  case shld address => exact .of_contents (m.contents_withWord address (m.cpu.pair .hl))
  case xchg => exact .of_contents m.contents_exchange
  case inr target =>
      rw [← Machine.get_eq_byte, ← Alu.value_add_one]
      exact m.count_shows target _
  case dcr target =>
      rw [← Machine.get_eq_byte, ← Alu.value_sub_one]
      exact m.count_shows target _
  case inx target =>
      apply Machine.Shows.of_contents
      rw [Machine.completed, Machine.contents_setPair, Machine.pair_eq_word]
  case dcx target =>
      apply Machine.Shows.of_contents
      rw [Machine.completed, Machine.contents_setPair, Machine.pair_eq_word]
  case dad source =>
      rw [← Machine.pair_eq_word, ← Machine.pair_eq_word]
      exact m.addToHL_shows (m.cpu.pair source)
  case push source =>
      apply Machine.Shows.of_contents
      rw [Machine.completed, Machine.contents_push, Machine.pair_eq_word]
      rfl
  case pop target =>
      have apart : target ≠ .sp := by
        rintro rfl
        obtain ⟨opcode, cell⟩ := charted
        exact Opcode.cell?_ne_pop_sp opcode cell
      exact .of_contents (m.contents_pop apart (m.cpu.sp + 2) (m.memory.wordAt m.cpu.sp))
  case xthl => exact .of_contents (m.contents_exchangeTop m.cpu.sp (m.cpu.pair .hl))
  case sphl => exact .of_contents (m.contents_setPair .sp (m.cpu.pair .hl))

end Action

/-! ### Steps -/

namespace Machine

/-- A step of a running machine that succeeds, at an opcode of one of the families, leaves the
contents that the chart entry names: every register, the stack pointer and every cell of memory is
as before but for the places that the mnemonic and its operands name. -/
theorem step_changes_named {m next : Machine} {entry : Opcode.Entry} {proceeded : Bool}
    (running : m.cpu.halted = false) (cell : Opcode.cell? m.nextOpcode = some entry)
    (family : entry.mnemonic ∈ Mnemonic.dataFamilies)
    (stepped : m.step = (next, .ok proceeded)) :
    ∃ changes,
      m.contents.named m.operandWord entry.mnemonic entry.fieldNames = some changes ∧
        next.Shows m.contents changes := by
  obtain ⟨instruction, rfl, data, executed⟩ := executed_of_step running cell stepped
  rw [← m.contents_pastInstruction]
  obtain ⟨changes, made, named⟩ := m.pastInstruction.contents.named_entry data family
  exact ⟨changes, named, Action.execute_shows ⟨m.nextOpcode, cell⟩ made executed⟩

/-- A machine that is about to exchange HL with a word in the middle of memory. -/
def exchangingInside : Machine where
  cpu := { h := 0x12, l := 0x34, sp := 0x9000 }
  memory := (Memory.blank.write 0x8000 0xE3).write 0x9001 0x56

/-- The exchange puts both bytes of each word into the other place. -/
theorem step_changes_named_exchange :
    ∃ next changes,
      exchangingInside.step = (next, .ok true) ∧
      changes.bytes = [(.h, 0x56), (.l, 0x00), (.cell 0x9000, 0x34), (.cell 0x9001, 0x12)] ∧
      next.Shows exchangingInside.contents changes := by
  have cell : Opcode.cell? exchangingInside.nextOpcode = some ⟨.xthl, [], .none⟩ := by
    decide +kernel
  have answer : exchangingInside.step.2 = .ok true :=
    answer_step_of_reachable rfl cell (by decide +kernel) (by decide +kernel)
  have stepped : exchangingInside.step = (exchangingInside.step.1, .ok true) :=
    Prod.ext rfl answer
  obtain ⟨changes, named, shown⟩ :=
    step_changes_named rfl cell (by decide) stepped
  refine ⟨_, changes, stepped, ?_, shown⟩
  obtain rfl := Option.some.inj named
  decide +kernel

end Machine

end I8085
