/-
Module: I8085.Machine
Layer: Machine
Purpose: The machine: a processor, its memory and a set of breakpoints. Operands of instructions are
  read and set here, since the register `m` is a memory cell.
Imports: I8085.Breakpoints, I8085.Cpu, I8085.Memory
Main exports: Machine, Machine.reset, Machine.edit, Machine.addBreakpoint, Machine.removeBreakpoint,
  Machine.get, Machine.set, Machine.setPair, Machine.withPc
-/
import I8085.Breakpoints
import I8085.Cpu
import I8085.Memory

namespace I8085

/-- A processor with its memory and breakpoints. -/
structure Machine where
  cpu : Cpu := .powerOn
  memory : Memory := .blank
  breakpoints : Breakpoints := .empty
deriving Inhabited

namespace Machine

/-- Bring the processor into its power-on state. Memory and breakpoints are kept. -/
def reset (m : Machine) : Machine := { m with cpu := .powerOn }

def edit (m : Machine) (change : Cpu.Edit) : Machine := { m with cpu := m.cpu.edit change }

def addBreakpoint (m : Machine) (address : Word) : Machine :=
  { m with breakpoints := m.breakpoints.insert address }

/-- Remove a breakpoint. The answer is whether there was one. -/
def removeBreakpoint (m : Machine) (address : Word) : Bool × Machine :=
  (m.breakpoints.contains address, { m with breakpoints := m.breakpoints.erase address })

def clearBreakpoints (m : Machine) : Machine := { m with breakpoints := .empty }

/-- The opcode byte at the program counter. -/
def nextOpcode (m : Machine) : Byte := m.memory.read m.cpu.pc

def withPc (m : Machine) (address : Word) : Machine := { m with cpu.pc := address }

/-! ### Operands -/

def get (m : Machine) : Register → Byte
  | .a => m.cpu.a
  | .b => m.cpu.b
  | .c => m.cpu.c
  | .d => m.cpu.d
  | .e => m.cpu.e
  | .h => m.cpu.h
  | .l => m.cpu.l
  | .m => m.memory.read (m.cpu.pair .hl)

def set (m : Machine) (register : Register) (value : Byte) : Machine :=
  match register with
  | .a => { m with cpu.a := value }
  | .b => { m with cpu.b := value }
  | .c => { m with cpu.c := value }
  | .d => { m with cpu.d := value }
  | .e => { m with cpu.e := value }
  | .h => { m with cpu.h := value }
  | .l => { m with cpu.l := value }
  | .m => { m with memory := m.memory.write (m.cpu.pair .hl) value }

def setPair (m : Machine) (pair : RegisterPair) (value : Word) : Machine :=
  { m with cpu := m.cpu.setPair pair value }

end Machine

end I8085
