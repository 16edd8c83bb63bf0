/-
Module: I8085.Machine.Command
Layer: Machine
Purpose: What the holder of a machine has it do, one thing after another: change the cells of its
  memory, or let the processor go on. Each command has an answer, and one that fails is no end of
  the sequence: the next command finds the machine that it leaves.
Imports: I8085.Machine.Run
Main exports: Memory.Edit, Memory.edit, Machine.Command, Machine.Answer, Machine.perform,
  Machine.performAll
-/
import I8085.Machine.Run

namespace I8085

namespace Memory

/-- One change of the cells. -/
inductive Edit where
  | write (address : Word) (value : Byte)
  | writeWord (address value : Word)
  | writeAt (address value : Nat)
  | load (program : List Byte) (base : Word)
deriving Repr, DecidableEq

def edit (m : Memory) : Edit → Except MemoryError Memory
  | .write address value => .ok (m.write address value)
  | .writeWord address value => m.writeWord address value
  | .writeAt address value => m.writeAt address value
  | .load program base => m.load program base

end Memory

namespace Machine

inductive Command where
  | edit (change : Memory.Edit)
  | step
  | run (budget : Nat)
deriving Repr, DecidableEq

/-- The answer to a command. -/
inductive Answer where
  | edited (result : Except MemoryError Unit)
  /-- Whether an instruction was executed. -/
  | stepped (result : Except Fault Bool)
  | ran (result : Except Fault Stop)
deriving Repr

/-- The machine after a command, and the answer. -/
def perform (m : Machine) : Command → Machine × Answer
  | .edit change =>
      match m.memory.edit change with
      | .ok memory => ({ m with memory }, .edited (.ok ()))
      | .error e => (m, .edited (.error e))
  | .step => (m.step.1, .stepped m.step.2)
  | .run budget => ((m.run budget).1, .ran (m.run budget).2)

/-- Commands one after another, and the answer to each of them. -/
def performAll (m : Machine) : List Command → Machine × List Answer
  | [] => (m, [])
  | command :: rest =>
      let (next, answer) := m.perform command
      let (last, answers) := next.performAll rest
      (last, answer :: answers)

end Machine

end I8085
