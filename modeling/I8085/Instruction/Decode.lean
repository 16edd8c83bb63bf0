/-
Module: I8085.Instruction.Decode
Layer: Data
Purpose: Decoding an opcode byte by its bit fields. The result says which operand has to be fetched
  and what instruction the operand completes, so nothing is fetched here. An opcode that stands for
  no instruction has no decoding.
Imports: I8085.Instruction, I8085.Opcode
Main exports: Instruction.Pattern, Instruction.decode
-/
import I8085.Instruction
import I8085.Opcode

namespace I8085.Instruction

/-- An instruction that may still lack the operand after its opcode. -/
inductive Pattern where
  | complete (instruction : Instruction)
  | needsByte (instruction : Byte → Instruction)
  | needsWord (instruction : Word → Instruction)

/-- Quadrant 0: transfers through pairs and memory, 8- and 16-bit counting, and the accumulator. -/
def decodeTransfer (opcode : Byte) : Option Pattern :=
  let pair := RegisterPair.ofCode (Opcode.pairCode opcode)
  let register := Register.ofCode (Opcode.row opcode)
  match Opcode.column opcode, Opcode.row opcode with
  | 0, 0 => some (.complete nop)
  | 0, 4 => some (.complete rim)
  | 0, 6 => some (.complete sim)
  | 0, _ => none
  | 1, row => some (if row.val % 2 = 0 then .needsWord (lxi pair) else .complete (dad pair))
  | 2, 4 => some (.needsWord shld)
  | 2, 5 => some (.needsWord lhld)
  | 2, 6 => some (.needsWord sta)
  | 2, 7 => some (.needsWord lda)
  | 2, row => some (.complete (if row.val % 2 = 0 then stax pair else ldax pair))
  | 3, row => some (.complete (if row.val % 2 = 0 then inx pair else dcx pair))
  | 4, _ => some (.complete (inr register))
  | 5, _ => some (.complete (dcr register))
  | 6, _ => some (.needsByte (mvi register))
  | 7, 0 => some (.complete (rotate .left))
  | 7, 1 => some (.complete (rotate .right))
  | 7, 2 => some (.complete (rotate .leftThroughCarry))
  | 7, 3 => some (.complete (rotate .rightThroughCarry))
  | 7, 4 => some (.complete daa)
  | 7, 5 => some (.complete cma)
  | 7, 6 => some (.complete stc)
  | 7, 7 => some (.complete cmc)

/-- Quadrant 1: moves between registers. The move from memory to itself is the halt. -/
def decodeMove (opcode : Byte) : Pattern :=
  match Register.ofCode (Opcode.row opcode), Register.ofCode (Opcode.column opcode) with
  | .m, .m => .complete hlt
  | target, source => .complete (mov target source)

/-- Quadrant 2: the accumulator and a register. -/
def decodeAccumulate (opcode : Byte) : Pattern :=
  .complete (accumulate (.ofCode (Opcode.row opcode))
    (.register (.ofCode (Opcode.column opcode))))

/-- Quadrant 3: control transfer, the stack, and the accumulator with an immediate byte. -/
def decodeBranch (opcode : Byte) : Option Pattern :=
  let pair := RegisterPair.ofStackCode (Opcode.pairCode opcode)
  let condition := Condition.ofCode (Opcode.row opcode)
  match Opcode.column opcode, Opcode.row opcode with
  | 0, _ => some (.complete (ret condition))
  | 1, 1 => some (.complete (ret none))
  | 1, 3 => none
  | 1, 5 => some (.complete pchl)
  | 1, 7 => some (.complete sphl)
  | 1, _ => some (.complete (pop pair))
  | 2, _ => some (.needsWord (jump condition))
  | 3, 0 => some (.needsWord (jump none))
  | 3, 4 => some (.complete xthl)
  | 3, 5 => some (.complete xchg)
  | 3, 6 => some (.complete di)
  | 3, 7 => some (.complete ei)
  | 3, _ => none
  | 4, _ => some (.needsWord (call condition))
  | 5, 1 => some (.needsWord (call none))
  | 5, 3 => none
  | 5, 5 => none
  | 5, 7 => none
  | 5, _ => some (.complete (push pair))
  | 6, row => some (.needsByte fun value => accumulate (.ofCode row) (.immediate value))
  | 7, row => some (.complete (rst row))

/-- What an opcode byte stands for; `none` when it stands for no instruction. -/
def decode (opcode : Byte) : Option Pattern :=
  match Opcode.quadrant opcode with
  | 0 => decodeTransfer opcode
  | 1 => some (decodeMove opcode)
  | 2 => some (decodeAccumulate opcode)
  | 3 => decodeBranch opcode

end I8085.Instruction
