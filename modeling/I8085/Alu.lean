/-
Module: I8085.Alu
Layer: Data
Purpose: The arithmetic and logic unit: 8-bit addition, subtraction and the three bitwise
  operations, each with the flags it leaves behind. Sign, zero and parity describe the 8-bit result.
  Carry and auxiliary carry are decided on the unwrapped sum or difference of the whole operands and
  of their low nibbles. The wide forms take operands of any size, as an editor would supply them.
Imports: I8085.Flags, I8085.Text.Hex
Main exports: Alu.Result, Alu.add, Alu.sub, Alu.and, Alu.or, Alu.xor, Alu.decimalAdjust,
  Alu.addWide, Alu.subWide
-/
import I8085.Flags
import I8085.Text.Hex

namespace I8085.Alu

/-- What the unit delivers: the 8-bit value and the flags that describe it. -/
structure Result where
  value : Byte
  flags : Flags
deriving Repr, DecidableEq, Inhabited

/-- Sum of two bytes and an incoming carry. Carry is set when the whole sum passes 255, auxiliary
carry when the sum of the low nibbles passes 15. -/
def add (a b : Byte) (carry : Bool) : Result :=
  let value := UInt8.ofNat (a.toNat + b.toNat + carry.toNat)
  { value
    flags :=
      { Flags.ofResult value with
        auxCarry := 15 < a.toNat % 16 + b.toNat % 16 + carry.toNat
        carry := 255 < a.toNat + b.toNat + carry.toNat } }

/-- Difference of two bytes less an incoming borrow. Carry is set when the whole difference is
negative, auxiliary carry when that of the low nibbles is. -/
def sub (a b : Byte) (borrow : Bool) : Result :=
  let value := UInt8.ofNat (a.toNat + 512 - (b.toNat + borrow.toNat))
  { value
    flags :=
      { Flags.ofResult value with
        auxCarry := a.toNat % 16 < b.toNat % 16 + borrow.toNat
        carry := a.toNat < b.toNat + borrow.toNat } }

/-- Bitwise conjunction. It always sets auxiliary carry and clears carry. -/
def and (a b : Byte) : Result :=
  { value := a &&& b, flags := { Flags.ofResult (a &&& b) with auxCarry := true } }

/-- Bitwise disjunction. It clears both carries. -/
def or (a b : Byte) : Result :=
  { value := a ||| b, flags := Flags.ofResult (a ||| b) }

/-- Bitwise exclusive disjunction. It clears both carries. -/
def xor (a b : Byte) : Result :=
  { value := a ^^^ b, flags := Flags.ofResult (a ^^^ b) }

/-- Decimal adjustment of the sum of two packed decimal bytes, given the flags that the addition
left. Six is added to a digit that passed nine, by value or by carry. Carry is set when the upper
digit is adjusted and never cleared. -/
def decimalAdjust (a : Byte) (flags : Flags) : Result :=
  let lower := 9 < a.toNat % 16 || flags.auxCarry
  let upper := 0x99 < a.toNat || flags.carry
  let sum := add a ((if lower then 0x06 else 0) + (if upper then 0x60 else 0)) false
  { sum with flags.carry := upper }

/-! ### Operands of any size -/

/-- At least one of the two operands is no byte. -/
structure OperandError where
  a : Nat
  b : Nat
deriving Repr, DecidableEq

/-- Wording of an operand error. -/
def OperandError.message (e : OperandError) : String :=
  s!"Invalid ALU operands: a=0x{Text.hex 2 e.a}, b=0x{Text.hex 2 e.b}"

/-- Apply a byte operation when both operands fit into a byte. -/
def onBytes (operation : Byte → Byte → Result) (a b : Nat) : Except OperandError Result :=
  if a < 256 ∧ b < 256 then .ok (operation (UInt8.ofNat a) (UInt8.ofNat b)) else .error ⟨a, b⟩

/-- Addition of operands of any size; both must be bytes. -/
def addWide (a b : Nat) (carry : Bool) : Except OperandError Result :=
  onBytes (add · · carry) a b

/-- Subtraction of operands of any size; both must be bytes. -/
def subWide (a b : Nat) (borrow : Bool) : Except OperandError Result :=
  onBytes (sub · · borrow) a b

end I8085.Alu
