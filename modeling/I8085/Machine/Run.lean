/-
Module: I8085.Machine.Run
Layer: Machine
Purpose: Running the machine within a budget of steps. A run ends when the machine is halted, when
  it arrives at a breakpoint, when the budget is used up, or when a step fails. A breakpoint at
  the starting address does not end the run, so a run can be continued from where the last one
  stopped.
Imports: I8085.Machine.Step
Main exports: Stop, Stop.steps, Machine.run
-/
import I8085.Machine.Step

namespace I8085

/-- Why a run ended, and after how many steps. -/
inductive Stop where
  | halted (steps : Nat)
  | breakpoint (address : Word) (steps : Nat)
  | stepLimit (steps : Nat)
deriving Repr, DecidableEq

def Stop.steps : Stop → Nat
  | .halted steps => steps
  | .breakpoint _ steps => steps
  | .stepLimit steps => steps

namespace Machine

/-- Go on with a run after a number of steps. -/
def runAfter (steps : Nat) : Nat → Machine → Machine × Except Fault Stop
  | 0, m => (m, .ok (if m.cpu.halted then .halted steps else .stepLimit steps))
  | budget + 1, m =>
      if m.cpu.halted then (m, .ok (.halted steps))
      else if 0 < steps ∧ m.breakpoints.contains m.cpu.pc then
        (m, .ok (.breakpoint m.cpu.pc steps))
      else
        match m.step with
        | (next, .ok _) => runAfter (steps + 1) budget next
        | (next, .error fault) => (next, .error fault)

/-- Run for at most `budget` steps. -/
def run (m : Machine) (budget : Nat) : Machine × Except Fault Stop := runAfter 0 budget m

end Machine

end I8085
