/-
Module: I8085.Machine.Step
Layer: Machine
Purpose: One step of the machine: fetch the opcode, fetch its operand, execute. The program
  counter moves past the opcode when the opcode is fetched and past the operand when that is, so
  after a failure it shows how far the step came. A halted machine does nothing.
Imports: I8085.Instruction.Decode, I8085.Machine.Execute, I8085.Opcode.Chart
Main exports: Action.cycle, Machine.step
-/
import I8085.Instruction.Decode
import I8085.Machine.Execute
import I8085.Opcode.Chart

namespace I8085

namespace Action

/-- Fetch the operand that a decoded opcode calls for, which completes the instruction. A byte is
fetched at any address; a word may not straddle the top of memory. -/
def fetchOperand : Instruction.Pattern → Action Instruction
  | .complete instruction => pure instruction
  | .needsByte instruction => do return instruction (← fetchByte)
  | .needsWord instruction => do return instruction (← fetchWord)

/-- Fetch, decode and execute. The answer is whether an instruction was executed: none is when the
machine is halted. An opcode is looked up in the chart before it is decoded. -/
def cycle : Action Bool := do
  let m ← get
  if m.cpu.halted then return false
  else
    let opcode ← fetchByte
    match Opcode.cell? opcode with
    | none => throw (.unknownOpcode opcode m.cpu.pc)
    | some _ =>
        match Instruction.decode opcode with
        | none => throw (.unknownOpcode opcode m.cpu.pc)
        | some pattern =>
            let instruction ← fetchOperand pattern
            execute instruction
            return true

end Action

/-- One step: the machine after it, and whether an instruction was executed. -/
def Machine.step (m : Machine) : Machine × Except Fault Bool := Action.cycle.on m

end I8085
