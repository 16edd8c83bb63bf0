/-
Module: I8085.Flags
Layer: Data
Purpose: The five condition flags and the byte that packs them. The flag byte is the lower half of
  the processor status word: sign in bit 7, zero in bit 6, auxiliary carry in bit 4, parity in bit 2
  and carry in bit 0. The other three bits carry nothing: they are written as zero and ignored when
  read.
Imports: I8085.Word
Main exports: Flags, Flags.toByte, Flags.ofByte, evenParity, Flags.ofResult
-/
import I8085.Word

namespace I8085

structure Flags where
  sign : Bool := false
  zero : Bool := false
  auxCarry : Bool := false
  parity : Bool := false
  carry : Bool := false
deriving Repr, DecidableEq, Inhabited

namespace Flags

def signMask : Byte := 0x80

def zeroMask : Byte := 0x40

def auxCarryMask : Byte := 0x10

def parityMask : Byte := 0x04

def carryMask : Byte := 0x01

/-- The flag byte: each flag that is set contributes its mask. -/
def toByte (f : Flags) : Byte :=
  (if f.sign then signMask else 0) ||| (if f.zero then zeroMask else 0) |||
  (if f.auxCarry then auxCarryMask else 0) ||| (if f.parity then parityMask else 0) |||
  (if f.carry then carryMask else 0)

/-- The flags that a flag byte stands for. The three bits without a mask are ignored. -/
def ofByte (b : Byte) : Flags where
  sign := b &&& signMask != 0
  zero := b &&& zeroMask != 0
  auxCarry := b &&& auxCarryMask != 0
  parity := b &&& parityMask != 0
  carry := b &&& carryMask != 0

end Flags

/-- Whether the number of one bits in the byte is even. -/
def evenParity (b : Byte) : Bool :=
  ((List.range 8).filter b.toNat.testBit).length % 2 == 0

/-- Sign, zero and parity of an 8-bit result, with both carries clear. -/
def Flags.ofResult (result : Byte) : Flags where
  sign := 128 ≤ result.toNat
  zero := result == 0
  parity := evenParity result

end I8085
