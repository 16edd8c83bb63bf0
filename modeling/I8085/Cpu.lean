/-
Module: I8085.Cpu
Layer: Machine
Purpose: The state inside the processor: registers, program counter, stack pointer, flags, and the
  two latches for halting and for interrupts. The field defaults are the power-on state. An edit is
  one change that a front-end may make by hand; no edit reaches the halt latch.
Imports: I8085.Register
Main exports: Cpu, Cpu.powerOn, Cpu.pair, Cpu.setPair, Cpu.Edit, Cpu.edit
-/
import I8085.Register

namespace I8085

/-- Where execution starts after power-on, and where programs are loaded by default. -/
def origin : Word := 0x8000

structure Cpu where
  a : Byte := 0
  b : Byte := 0
  c : Byte := 0
  d : Byte := 0
  e : Byte := 0
  h : Byte := 0
  l : Byte := 0
  /-- The address of the next instruction. -/
  pc : Word := origin
  /-- The address of the word on top of the stack. -/
  sp : Word := 0xFFFF
  flags : Flags := {}
  halted : Bool := false
  interruptEnable : Bool := false
deriving Repr, DecidableEq, Inhabited

namespace Cpu

def powerOn : Cpu := {}

/-- The value of a register pair, the first register being the high byte. -/
def pair (cpu : Cpu) : RegisterPair → Word
  | .bc => Word.ofBytes cpu.b cpu.c
  | .de => Word.ofBytes cpu.d cpu.e
  | .hl => Word.ofBytes cpu.h cpu.l
  | .sp => cpu.sp
  | .psw => Word.ofBytes cpu.a cpu.flags.toByte

/-- Set a register pair. The flags take only the five bits that they have. -/
def setPair (cpu : Cpu) (pair : RegisterPair) (value : Word) : Cpu :=
  match pair with
  | .bc => { cpu with b := Word.high value, c := Word.low value }
  | .de => { cpu with d := Word.high value, e := Word.low value }
  | .hl => { cpu with h := Word.high value, l := Word.low value }
  | .sp => { cpu with sp := value }
  | .psw => { cpu with a := Word.high value, flags := Flags.ofByte (Word.low value) }

/-! ### Editing by hand -/

/-- One change of the visible state. -/
inductive Edit where
  | a (value : Byte)
  | b (value : Byte)
  | c (value : Byte)
  | d (value : Byte)
  | e (value : Byte)
  | h (value : Byte)
  | l (value : Byte)
  | bc (value : Word)
  | de (value : Word)
  | hl (value : Word)
  | pc (value : Word)
  | sp (value : Word)
  | flags (value : Flags)
  | sign (value : Bool)
  | zero (value : Bool)
  | auxCarry (value : Bool)
  | parity (value : Bool)
  | carry (value : Bool)
  | interruptEnable (value : Bool)
deriving Repr, DecidableEq

def edit (cpu : Cpu) : Edit → Cpu
  | .a value => { cpu with a := value }
  | .b value => { cpu with b := value }
  | .c value => { cpu with c := value }
  | .d value => { cpu with d := value }
  | .e value => { cpu with e := value }
  | .h value => { cpu with h := value }
  | .l value => { cpu with l := value }
  | .bc value => cpu.setPair .bc value
  | .de value => cpu.setPair .de value
  | .hl value => cpu.setPair .hl value
  | .pc value => { cpu with pc := value }
  | .sp value => { cpu with sp := value }
  | .flags value => { cpu with flags := value }
  | .sign value => { cpu with flags.sign := value }
  | .zero value => { cpu with flags.zero := value }
  | .auxCarry value => { cpu with flags.auxCarry := value }
  | .parity value => { cpu with flags.parity := value }
  | .carry value => { cpu with flags.carry := value }
  | .interruptEnable value => { cpu with interruptEnable := value }

end Cpu

end I8085
