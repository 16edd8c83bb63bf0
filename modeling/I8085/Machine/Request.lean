/-
Module: I8085.Machine.Request
Layer: Machine
Purpose: Everything that the holder of a machine can ask of it: to carry out a command, to change its
  registers by hand, to work on its memory, to place and remove breakpoints, and to be reset. The
  memory is the holder's to exchange as a whole.
Imports: I8085.Machine.Command
Main exports: Machine.Request, Machine.serve, Machine.serveAll
-/
import I8085.Machine.Command

namespace I8085.Machine

inductive Request where
  /-- Change a cell, take a step or run. -/
  | command (command : Command)
  | edit (change : Cpu.Edit)
  | clearMemory
  /-- Put another memory in the place of the one that there is. -/
  | exchangeMemory (memory : Memory)
  /-- Have the writes to memory told from now on. -/
  | observe
  | unobserve
  | addBreakpoint (address : Word)
  | removeBreakpoint (address : Word)
  | clearBreakpoints
  | reset
deriving DecidableEq

/-- The machine after a request. One that fails leaves it as far as it came. -/
def serve (m : Machine) : Request → Machine
  | .command command => (m.perform command).1
  | .edit change => m.edit change
  | .clearMemory => { m with memory := m.memory.clear }
  | .exchangeMemory memory => { m with memory }
  | .observe => { m with memory := m.memory.observe }
  | .unobserve => { m with memory := m.memory.unobserve }
  | .addBreakpoint address => m.addBreakpoint address
  | .removeBreakpoint address => (m.removeBreakpoint address).2
  | .clearBreakpoints => m.clearBreakpoints
  | .reset => m.reset

/-- The machine after requests, one after another. -/
def serveAll (m : Machine) (requests : List Request) : Machine :=
  requests.foldl serve m

end I8085.Machine
