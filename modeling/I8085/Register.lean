/-
Module: I8085.Register
Layer: Data
Purpose: The operands that an opcode byte can name: a register, a register pair and a branch
  condition. Registers and conditions have a three-bit code, pairs a two-bit one. Code 6 of the
  register field is no register but `m`, the memory cell at the address in HL. Pair code 3 names the
  stack pointer, except in PUSH and POP, where it names the accumulator together with the flags.
Imports: I8085.Flags, I8085.Opcode, I8085.Text.Case
Main exports: Register, RegisterPair, Condition, Condition.holds
-/
import I8085.Flags
import I8085.Opcode
import I8085.Text.Case

namespace I8085

/-! ### Registers -/

/-- An 8-bit operand of an instruction. -/
inductive Register where
  | b
  | c
  | d
  | e
  | h
  | l
  /-- The memory cell at the address in HL. -/
  | m
  | a
deriving Repr, DecidableEq, Inhabited

namespace Register

def all : Vector Register 8 := #v[b, c, d, e, h, l, m, a]

def ofCode (code : Fin 8) : Register := all.get code

def code : Register → Fin 8
  | b => Opcode.threeBits 0
  | c => Opcode.threeBits 1
  | d => Opcode.threeBits 2
  | e => Opcode.threeBits 3
  | h => Opcode.threeBits 4
  | l => Opcode.threeBits 5
  | m => Opcode.threeBits 6
  | a => Opcode.threeBits 7

/-- The name of a register in assembly text. -/
def name : Register → String
  | b => "B"
  | c => "C"
  | d => "D"
  | e => "E"
  | h => "H"
  | l => "L"
  | m => "M"
  | a => "A"

/-- The register with a given name, in either case. -/
def ofName? (text : String) : Option Register :=
  all.toList.find? fun register => register.name == Text.upper text

@[simp] theorem ofCode_code (register : Register) : ofCode register.code = register := by
  cases register <;> rfl

end Register

/-! ### Register pairs -/

/-- A 16-bit operand of an instruction. -/
inductive RegisterPair where
  | bc
  | de
  | hl
  | sp
  /-- The accumulator over the flag byte. -/
  | psw
deriving Repr, DecidableEq, Inhabited

namespace RegisterPair

/-- The pair with a given code in LXI, INX, DCX, DAD, LDAX and STAX. -/
def ofCode : Fin 4 → RegisterPair
  | 0 => bc
  | 1 => de
  | 2 => hl
  | 3 => sp

/-- The pair with a given code in PUSH and POP. -/
def ofStackCode (code : Fin 4) : RegisterPair :=
  match ofCode code with
  | sp => psw
  | pair => pair

/-- The name of a pair in assembly text. A pair of two registers goes by the first of them. -/
def name : RegisterPair → String
  | bc => "B"
  | de => "D"
  | hl => "H"
  | sp => "SP"
  | psw => "PSW"

/-- The pair with a given name, in either case. -/
def ofName? (text : String) : Option RegisterPair :=
  [bc, de, hl, sp, psw].find? fun pair => pair.name == Text.upper text

end RegisterPair

/-! ### Branch conditions -/

inductive Condition where
  | notZero
  | zero
  | noCarry
  | carry
  | parityOdd
  | parityEven
  | plus
  | minus
deriving Repr, DecidableEq, Inhabited

namespace Condition

/-- The conditions in the order of their codes. -/
def all : Vector Condition 8 :=
  #v[notZero, zero, noCarry, carry, parityOdd, parityEven, plus, minus]

def ofCode (code : Fin 8) : Condition := all.get code

/-- Whether the flags meet the condition. -/
def holds (flags : Flags) : Condition → Bool
  | notZero => !flags.zero
  | zero => flags.zero
  | noCarry => !flags.carry
  | carry => flags.carry
  | parityOdd => !flags.parity
  | parityEven => flags.parity
  | plus => !flags.sign
  | minus => flags.sign

end Condition

end I8085
