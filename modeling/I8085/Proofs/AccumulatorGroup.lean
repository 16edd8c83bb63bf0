/-
Module: I8085.Proofs.AccumulatorGroup
Layer: Proofs
Purpose: The instructions that combine the accumulator with a value. What one of them computes is
  read off its chart entry, the combination from the mnemonic and the value from the operand that
  is named, and is stated on numbers: sums and differences as they are before they wrap. The step,
  which selects operation, operand and carry by bits of the opcode, always succeeds and leaves that
  result and the flags that describe it, and changes nothing else (`Machine.step_combines`).
Imports: I8085.Proofs.DataEffects, I8085.Proofs.NextAddress, Mathlib.Data.Nat.Digits.Defs
Main exports: Combination, Mnemonic.combination?, Combination.carryIn, Combination.result,
  Combination.carries, Combination.halfCarries, Combination.Describes, Operation.apply_yields,
  Machine.namedValue?, Machine.Combines, Machine.step_combines
-/
import I8085.Proofs.DataEffects
import I8085.Proofs.NextAddress
import Mathlib.Data.Nat.Digits.Defs

namespace I8085

/-! ### What a mnemonic says about the accumulator -/

/-- How an instruction combines the accumulator with a value. -/
inductive Combination where
  | sum (withCarry : Bool)
  | difference (withCarry : Bool)
  /-- The difference, for the sake of the flags. -/
  | comparison
  | conjunction
  | exclusion
  | disjunction
deriving Repr, DecidableEq

/-- The combination that a mnemonic names, if it is one of the accumulator group. -/
def Mnemonic.combination? : Mnemonic → Option Combination
  | add | adi => some (.sum false)
  | adc | aci => some (.sum true)
  | sub | sui => some (.difference false)
  | sbb | sbi => some (.difference true)
  | cmp | cpi => some .comparison
  | ana | ani => some .conjunction
  | xra | xri => some .exclusion
  | ora | ori => some .disjunction
  | _ => none

namespace Combination

/-- What the old carry contributes. Only the forms with carry look at it. -/
def carryIn (flags : Flags) : Combination → Nat
  | sum true | difference true => flags.carry.toNat
  | _ => 0

/-- The result in eight bits. -/
def result (a value carried : Nat) : Combination → Nat
  | sum _ => (a + value + carried) % 256
  | difference _ | comparison => (((a : Int) - value - carried) % 256).toNat
  | conjunction => a &&& value
  | exclusion => a ^^^ value
  | disjunction => a ||| value

/-- Whether the sum passes 255 or the difference is negative. -/
def carries (a value carried : Nat) : Combination → Bool
  | sum _ => 255 < a + value + carried
  | difference _ | comparison => a < value + carried
  | conjunction | exclusion | disjunction => false

/-- Whether the sum of the low nibbles passes 15 or their difference is negative. A conjunction
counts as if it did. -/
def halfCarries (a value carried : Nat) : Combination → Bool
  | sum _ => 15 < a % 16 + value % 16 + carried
  | difference _ | comparison => a % 16 < value % 16 + carried
  | conjunction => true
  | exclusion | disjunction => false

/-- Whether flags are those of a combination. -/
structure Describes (combination : Combination) (a value carried : Nat) (flags : Flags) : Prop where
  carry : flags.carry = combination.carries a value carried
  auxCarry : flags.auxCarry = combination.halfCarries a value carried
  zero : flags.zero = true ↔ combination.result a value carried = 0
  sign : flags.sign = true ↔ 128 ≤ combination.result a value carried
  /-- The number of one bits is even. -/
  parity : flags.parity = true ↔ Even (Nat.digits 2 (combination.result a value carried)).sum

/-- Whether a result and flags are those of a combination. -/
structure Yields (combination : Combination) (a value carried : Nat) (delivered : Alu.Result) :
    Prop extends combination.Describes a value carried delivered.flags where
  value : delivered.value.toNat = combination.result a value carried

end Combination

/-! ### The arithmetic and logic unit -/

theorem evenParity_iff (b : Byte) : evenParity b = true ↔ Even (Nat.digits 2 b.toNat).sum := by
  have each : ∀ code : Fin 256, evenParity (UInt8.ofNat code) = true ↔
      Even (Nat.digits 2 (UInt8.ofNat code).toNat).sum := by
    decide +kernel
  simpa using each b.toFin

/-- Sign, zero and parity are those of the value, so only the carries depend on how it came
about. -/
theorem Combination.Yields.of_value {combination : Combination} {a b carried : Nat}
    {delivered : Alu.Result} (value : delivered.value.toNat = combination.result a b carried)
    (shown : delivered.flags =
      { Flags.ofResult delivered.value with
        auxCarry := delivered.flags.auxCarry
        carry := delivered.flags.carry })
    (carry : delivered.flags.carry = combination.carries a b carried)
    (auxCarry : delivered.flags.auxCarry = combination.halfCarries a b carried) :
    combination.Yields a b carried delivered where
  value := value
  carry := carry
  auxCarry := auxCarry
  zero := by
    rw [shown, ← value, Flags.ofResult, beq_iff_eq, ← UInt8.toNat_inj]
    rfl
  sign := by
    rw [shown, ← value, Flags.ofResult, decide_eq_true_iff]
  parity := by
    rw [shown, ← value]
    exact evenParity_iff delivered.value

namespace Alu

open Combination (Yields)

theorem add_yields (withCarry : Bool) (a b : Byte) (carry : Bool) :
    (Combination.sum withCarry).Yields a.toNat b.toNat carry.toNat (add a b carry) :=
  .of_value UInt8.toNat_ofNat' rfl rfl rfl

/-- The unit adds 512 before it subtracts, which eight bits do not show. -/
theorem toNat_value_sub (a b : Byte) (borrow : Bool) :
    (sub a b borrow).value.toNat = (((a.toNat : Int) - b.toNat - borrow.toNat) % 256).toNat := by
  have wrapped : (sub a b borrow).value.toNat =
      (a.toNat + 512 - (b.toNat + borrow.toNat)) % 256 := UInt8.toNat_ofNat'
  have first := a.toNat_lt
  have second := b.toNat_lt
  have bit := borrow.toNat_le
  omega

theorem sub_yields (withCarry : Bool) (a b : Byte) (borrow : Bool) :
    (Combination.difference withCarry).Yields a.toNat b.toNat borrow.toNat (sub a b borrow) :=
  .of_value (toNat_value_sub a b borrow) rfl rfl rfl

theorem compare_yields (a b : Byte) :
    Combination.comparison.Yields a.toNat b.toNat 0 (sub a b false) :=
  .of_value (toNat_value_sub a b false) rfl rfl rfl

theorem and_yields (a b : Byte) :
    Combination.conjunction.Yields a.toNat b.toNat 0 (and a b) :=
  .of_value (UInt8.toNat_and a b) rfl rfl rfl

theorem xor_yields (a b : Byte) :
    Combination.exclusion.Yields a.toNat b.toNat 0 (xor a b) :=
  .of_value (UInt8.toNat_xor a b) rfl rfl rfl

theorem or_yields (a b : Byte) :
    Combination.disjunction.Yields a.toNat b.toNat 0 (or a b) :=
  .of_value (UInt8.toNat_or a b) rfl rfl rfl

end Alu

namespace Operation

/-- The combination that an operation of the unit computes. -/
def combination : Operation → Combination
  | add => .sum false
  | addCarry => .sum true
  | sub => .difference false
  | subBorrow => .difference true
  | and => .conjunction
  | xor => .exclusion
  | or => .disjunction
  | compare => .comparison

/-- What the unit delivers for an operation is what its combination yields. -/
theorem apply_yields (operation : Operation) (a value : Byte) (flags : Flags) :
    operation.combination.Yields a.toNat value.toNat (operation.combination.carryIn flags)
      (operation.apply a value flags.carry) := by
  cases operation with
  | add => exact Alu.add_yields false a value false
  | addCarry => exact Alu.add_yields true a value flags.carry
  | sub => exact Alu.sub_yields false a value false
  | subBorrow => exact Alu.sub_yields true a value flags.carry
  | and => exact Alu.and_yields a value
  | xor => exact Alu.xor_yields a value
  | or => exact Alu.or_yields a value
  | compare => exact Alu.compare_yields a value

/-- Every result but that of a comparison goes into the accumulator. -/
theorem keepsResult_eq_true_iff (operation : Operation) :
    operation.keepsResult = true ↔ operation.combination ≠ .comparison := by
  cases operation <;> decide

end Operation

/-! ### Instructions of the group -/

theorem Mnemonic.combination?_operation (operation : Operation) :
    operation.registerMnemonic.combination? = some operation.combination ∧
      operation.immediateMnemonic.combination? = some operation.combination := by
  cases operation <;> exact ⟨rfl, rfl⟩

theorem Mnemonic.combination?_rotation (rotation : Rotation) :
    rotation.mnemonic.combination? = none := by
  cases rotation <;> rfl

theorem Mnemonic.combination?_transfer (condition : Option Condition) :
    (Condition.jumpMnemonic condition).combination? = none ∧
      (Condition.callMnemonic condition).combination? = none ∧
      (Condition.returnMnemonic condition).combination? = none := by
  rcases condition with _ | condition
  · exact ⟨rfl, rfl, rfl⟩
  · cases condition <;> exact ⟨rfl, rfl, rfl⟩

/-- Only the instructions that the decoder takes for an operation of the unit are written with a
mnemonic of the group. -/
theorem Instruction.eq_accumulate {instruction : Instruction} {combination : Combination}
    (group : instruction.entry.mnemonic.combination? = some combination) :
    ∃ operation source, instruction = accumulate operation source ∧
      operation.combination = combination := by
  cases instruction
  case accumulate operation source =>
      refine ⟨operation, source, rfl, ?_⟩
      have named := Mnemonic.combination?_operation operation
      cases source with
      | register _ => exact Option.some.inj (named.1.symm.trans group)
      | immediate _ => exact Option.some.inj (named.2.symm.trans group)
  case rotate rotation =>
      rw [entry, Mnemonic.combination?_rotation] at group
      cases group
  case jump condition _ =>
      rw [entry, (Mnemonic.combination?_transfer condition).1] at group
      cases group
  case call condition _ =>
      rw [entry, (Mnemonic.combination?_transfer condition).2.1] at group
      cases group
  case ret condition =>
      rw [entry, (Mnemonic.combination?_transfer condition).2.2] at group
      cases group
  all_goals cases group

namespace Machine

/-- The value of the operand with the given name, which for `M` is the cell at the address in HL. An
instruction that names none has the byte after its opcode. -/
def namedValue? (m : Machine) : List String → Option Byte
  | [] => some (m.memory.read (m.cpu.pc + 1))
  | [name] =>
      (Register.ofName? name).map fun register => m.contents.byte (m.contents.place register)
  | _ => none

/-- What it is for a machine to be the one in which the accumulator has been combined with a
value. -/
structure Combines (m next : Machine) (combination : Combination) (value : Byte) : Prop where
  accumulator : next.cpu.a.toNat =
    if combination = .comparison then m.cpu.a.toNat
    else combination.result m.cpu.a.toNat value.toNat (combination.carryIn m.cpu.flags)
  flags : combination.Describes m.cpu.a.toNat value.toNat (combination.carryIn m.cpu.flags)
    next.cpu.flags
  /-- Besides these, only the program counter has changed: it is past the instruction. -/
  rest : next =
    { m with cpu.a := next.cpu.a, cpu.flags := next.cpu.flags, cpu.pc := m.following }

/-- The value that an instruction of the group is decoded to is the one that its entry names. -/
theorem namedValue?_entry {m : Machine} {operation : Operation} {source : Source}
    (data : (Instruction.accumulate operation source).data =
      (Word.littleEndian m.operandWord).take
        (Instruction.accumulate operation source).entry.operand.size) :
    m.namedValue? (Instruction.accumulate operation source).entry.fieldNames =
      some (m.pastInstruction.sourceValue source) := by
  cases source with
  | register register =>
    have value := m.pastInstruction.get_eq_byte register
    rw [contents_pastInstruction] at value
    simp [namedValue?, Instruction.entry, Opcode.Entry.fieldNames, Opcode.Field.name, sourceValue,
      value]
  | immediate value =>
    obtain rfl := Instruction.operand_of_data_byte data
    rw [operandWord, Memory.wordAt, Word.low_ofBytes]
    rfl

theorem accumulate_combines (m : Machine) (operation : Operation) (value : Byte) :
    m.Combines (m.pastInstruction.accumulate operation value) operation.combination value where
  accumulator := by
    have yields := operation.apply_yields m.cpu.a value m.cpu.flags
    by_cases keeps : operation.keepsResult = true
    · rw [if_neg (operation.keepsResult_eq_true_iff.1 keeps), ← yields.value]
      exact congrArg UInt8.toNat (if_pos keeps)
    · have comparison : operation.combination = .comparison := by
        simpa [operation.keepsResult_eq_true_iff] using keeps
      rw [if_pos comparison]
      exact congrArg UInt8.toNat (if_neg keeps)
  flags := (operation.apply_yields m.cpu.a value m.cpu.flags).toDescribes
  rest := rfl

/-- No instruction of the group has a word after its opcode. -/
theorem operand_ne_word {opcode : Byte} {entry : Opcode.Entry} {combination : Combination}
    (cell : Opcode.cell? opcode = some entry)
    (group : entry.mnemonic.combination? = some combination) : entry.operand ≠ .word := by
  obtain ⟨pattern, _, _, spelt⟩ := Instruction.decode_of_cell cell
  obtain rfl := (spelt 0).1
  obtain ⟨operation, source, same, _⟩ := Instruction.eq_accumulate group
  rw [same]
  cases source <;> exact OperandKind.noConfusion

/-- A step of a running machine at an opcode of the accumulator group succeeds, whatever its state.
It combines the accumulator with the value that the chart entry names, and changes nothing besides
the accumulator, the flags and the program counter. -/
theorem step_combines {m : Machine} {entry : Opcode.Entry} {combination : Combination}
    (running : m.cpu.halted = false) (cell : Opcode.cell? m.nextOpcode = some entry)
    (group : entry.mnemonic.combination? = some combination) :
    ∃ next value,
      m.step = (next, .ok true) ∧
      m.namedValue? entry.fieldNames = some value ∧
      m.Combines next combination value := by
  have fetched : m.fetchStraddles entry = false := by
    simp [fetchStraddles, operand_ne_word cell group]
  obtain ⟨instruction, rfl, data, step⟩ := step_of_fetched running cell fetched
  obtain ⟨operation, source, rfl, rfl⟩ := Instruction.eq_accumulate group
  refine ⟨_, _, ?_, namedValue?_entry data, m.accumulate_combines operation _⟩
  have inside : m.pastInstruction.wordAccess? (.accumulate operation source) ≠
      some Memory.maxAddress := nofun
  rw [step, Action.on_map, Action.on_execute_of_reachable inside]
  rfl

/-- A machine that is about to subtract a byte and a borrow. The instruction stands at the last
address, so its byte is in the first cell. -/
def subtractingAtTop : Machine where
  cpu := { a := 0x0F, pc := 0xFFFF, flags := { carry := true } }
  memory := (Memory.blank.write 0xFFFF 0xDE).write 0x0000 0x0F

/-- The borrow makes the difference negative in both nibbles. -/
theorem step_combines_at_top :
    ∃ next,
      subtractingAtTop.step = (next, .ok true) ∧
      next.cpu.a.toNat = 0xFF ∧
      (next.cpu.flags.carry = true ∧ next.cpu.flags.auxCarry = true) ∧
      next.cpu.pc = 0x0001 := by
  have cell : Opcode.cell? subtractingAtTop.nextOpcode = some ⟨.sbi, [], .byte⟩ := by
    decide +kernel
  obtain ⟨next, value, step, named, combines⟩ := step_combines rfl cell rfl
  obtain rfl : value = 0x0F := by
    have held : subtractingAtTop.memory.read (subtractingAtTop.cpu.pc + 1) = 0x0F := by
      decide +kernel
    exact (Option.some.inj named).symm.trans held
  refine ⟨next, step, combines.accumulator, ⟨combines.flags.carry, combines.flags.auxCarry⟩, ?_⟩
  have past : next.cpu.pc = subtractingAtTop.following :=
    congrArg (fun machine => machine.cpu.pc) combines.rest
  rw [past]
  decide +kernel

end Machine

end I8085
