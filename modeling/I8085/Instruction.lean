/-
Module: I8085.Instruction
Layer: Data
Purpose: The instructions of the processor as data, each with the operands it works on. Immediate
  operands and addresses are part of the instruction; a jump, call or return carries its condition,
  or none when it is unconditional.
Imports: I8085.Alu, I8085.Register
Main exports: Operation, Operation.apply, Source, Rotation, Rotation.apply,
  Instruction
-/
import I8085.Alu
import I8085.Register

namespace I8085

/-- The eight operations of the accumulator group. -/
inductive Operation where
  | add
  | addCarry
  | sub
  | subBorrow
  | and
  | xor
  | or
  /-- Subtract for the sake of the flags; the accumulator is kept. -/
  | compare
deriving Repr, DecidableEq, Inhabited

namespace Operation

/-- The operations in the order of their codes. -/
def all : Vector Operation 8 := #v[add, addCarry, sub, subBorrow, and, xor, or, compare]

/-- The operation with a given code. -/
def ofCode (code : Fin 8) : Operation := all.get code

/-- What the arithmetic and logic unit delivers for an operation on the accumulator and a value.
Only the two carrying forms look at the carry. -/
def apply (operation : Operation) (accumulator value : Byte) (carry : Bool) : Alu.Result :=
  match operation with
  | add => Alu.add accumulator value false
  | addCarry => Alu.add accumulator value carry
  | sub => Alu.sub accumulator value false
  | subBorrow => Alu.sub accumulator value carry
  | and => Alu.and accumulator value
  | xor => Alu.xor accumulator value
  | or => Alu.or accumulator value
  | compare => Alu.sub accumulator value false

/-- Whether the result goes into the accumulator. -/
def keepsResult (operation : Operation) : Bool := operation != compare

end Operation

/-- Where the second operand of the accumulator group comes from. -/
inductive Source where
  | register (register : Register)
  | immediate (value : Byte)
deriving Repr, DecidableEq

/-- The four rotations of the accumulator by one bit. -/
inductive Rotation where
  /-- The top bit goes to the bottom and to the carry. -/
  | left
  /-- The bottom bit goes to the top and to the carry. -/
  | right
  /-- The top bit goes to the carry and the old carry to the bottom. -/
  | leftThroughCarry
  /-- The bottom bit goes to the carry and the old carry to the top. -/
  | rightThroughCarry
deriving Repr, DecidableEq, Inhabited

/-- A byte and a carry after a rotation. -/
def Rotation.apply (rotation : Rotation) (value : Byte) (carry : Bool) : Byte × Bool :=
  let n := value.toNat
  match rotation with
  | left => (UInt8.ofNat (2 * n + n / 128), 128 ≤ n)
  | right => (UInt8.ofNat (n / 2 + n % 2 * 128), n % 2 == 1)
  | leftThroughCarry => (UInt8.ofNat (2 * n + carry.toNat), 128 ≤ n)
  | rightThroughCarry => (UInt8.ofNat (n / 2 + carry.toNat * 128), n % 2 == 1)

/-- An instruction with its operands. -/
inductive Instruction where
  -- Data transfer
  | mov (target source : Register)
  | mvi (target : Register) (value : Byte)
  | lxi (target : RegisterPair) (value : Word)
  | lda (address : Word)
  | sta (address : Word)
  | ldax (address : RegisterPair)
  | stax (address : RegisterPair)
  | lhld (address : Word)
  | shld (address : Word)
  | xchg
  -- Arithmetic and logic
  | accumulate (operation : Operation) (source : Source)
  | inr (target : Register)
  | dcr (target : Register)
  | inx (target : RegisterPair)
  | dcx (target : RegisterPair)
  | dad (source : RegisterPair)
  | daa
  | rotate (rotation : Rotation)
  | cma
  | stc
  | cmc
  -- Control transfer
  | jump (condition : Option Condition) (target : Word)
  | call (condition : Option Condition) (target : Word)
  | ret (condition : Option Condition)
  | rst (vector : Fin 8)
  | pchl
  -- Stack
  | push (source : RegisterPair)
  | pop (target : RegisterPair)
  | xthl
  | sphl
  -- Control
  | nop
  | hlt
  | ei
  | di
  | rim
  | sim
deriving Repr, DecidableEq

end I8085
