/-
Module: I8085.Opcode
Layer: Data
Purpose: The bit fields of an opcode byte, and the kinds of operand that can follow one. An opcode
  is read as two bits, three bits and three bits, from the top: its quadrant, its row and its
  column. Bits 4 and 5, the upper part of the row, name a register pair.
Imports: I8085.Word
Main exports: Opcode.threeBits, Opcode.quadrant, Opcode.row, Opcode.column, Opcode.pairCode,
  OperandKind
-/
import I8085.Word

namespace I8085

namespace Opcode

/-- The lower three bits of a number. -/
def threeBits (n : Nat) : Fin 8 := Fin.ofNat 8 n

/-- Bits 6 and 7. -/
def quadrant (opcode : Byte) : Fin 4 := Fin.ofNat 4 (opcode.toNat / 64)

/-- Bits 3 to 5: a destination register, a condition, an operation or a restart vector. -/
def row (opcode : Byte) : Fin 8 := threeBits (opcode.toNat / 8)

/-- Bits 0 to 2: a source register, or the kind of instruction. -/
def column (opcode : Byte) : Fin 8 := threeBits opcode.toNat

/-- Bits 4 and 5: a register pair. -/
def pairCode (opcode : Byte) : Fin 4 := Fin.ofNat 4 (opcode.toNat / 16)

end Opcode

/-- What follows the opcode byte of an instruction. -/
inductive OperandKind where
  | none
  | byte
  | word
deriving Repr, DecidableEq, Inhabited

def OperandKind.size : OperandKind → Nat
  | .none => 0
  | .byte => 1
  | .word => 2

end I8085
