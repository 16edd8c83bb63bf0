/-
Module: I8085.Machine.Execute
Layer: Machine
Purpose: The effect of one instruction on the machine. The program counter already points past the
  instruction, so a call pushes it as it stands and an untaken branch leaves it alone. An
  instruction is cut short only where it reaches a word of memory.
Imports: I8085.Instruction, I8085.Machine.Action
Main exports: Action.execute
-/
import I8085.Instruction
import I8085.Machine.Action

namespace I8085

namespace Machine

/-- The value of the second operand of the accumulator group. -/
def sourceValue (m : Machine) : Source → Byte
  | .register register => m.get register
  | .immediate value => value

/-- Combine the accumulator with a value. All five flags are set. -/
def accumulate (m : Machine) (operation : Operation) (value : Byte) : Machine :=
  let result := operation.apply m.cpu.a value m.cpu.flags.carry
  { m with
    cpu.a := if operation.keepsResult then result.value else m.cpu.a
    cpu.flags := result.flags }

/-- Count a register operand up or down: the result is stored, and all flags but carry are set. -/
def count (m : Machine) (target : Register) (result : Alu.Result) : Machine :=
  let stored := m.set target result.value
  { stored with cpu.flags := { result.flags with carry := m.cpu.flags.carry } }

/-- Add a word to HL. Only carry is set, when the whole sum passes 65535. -/
def addToHL (m : Machine) (value : Word) : Machine :=
  let hl := m.cpu.pair .hl
  let sum := m.setPair .hl (hl + value)
  { sum with cpu.flags.carry := 65535 < hl.toNat + value.toNat }

/-- Adjust the accumulator after a decimal addition. All five flags are set. -/
def adjust (m : Machine) : Machine :=
  let result := Alu.decimalAdjust m.cpu.a m.cpu.flags
  { m with cpu.a := result.value, cpu.flags := result.flags }

/-- Rotate the accumulator. Only carry is set. -/
def rotate (m : Machine) (rotation : Rotation) : Machine :=
  let rotated := rotation.apply m.cpu.a m.cpu.flags.carry
  { m with cpu.a := rotated.1, cpu.flags.carry := rotated.2 }

/-- Whether a control transfer takes place. One without a condition always does. -/
def takes (m : Machine) (condition : Option Condition) : Bool :=
  condition.all (·.holds m.cpu.flags)

/-- The byte that reports the interrupt state: bit 3 is the enable latch. -/
def interruptReport (enabled : Bool) : Byte := if enabled then 0x08 else 0

end Machine

namespace Action

def callTo (target : Word) : Action Unit := do
  push (← get).cpu.pc
  modify (·.withPc target)

def goBack : Action Unit := do
  let target ← pop
  modify (·.withPc target)

/-- Exchange HL with the word on top of the stack. -/
def exchangeTop : Action Unit := do
  let m ← get
  let top ← loadWord m.cpu.sp
  storeWord m.cpu.sp (m.cpu.pair .hl)
  modify (·.setPair .hl top)

def execute : Instruction → Action Unit
  | .mov target source => modify fun m => m.set target (m.get source)
  | .mvi target value => modify (·.set target value)
  | .lxi target value => modify (·.setPair target value)
  | .lda address => modify fun m => m.set .a (m.memory.read address)
  | .sta address => modify fun m => { m with memory := m.memory.write address m.cpu.a }
  | .ldax pair => modify fun m => m.set .a (m.memory.read (m.cpu.pair pair))
  | .stax pair => modify fun m => { m with memory := m.memory.write (m.cpu.pair pair) m.cpu.a }
  | .lhld address => do
      let value ← loadWord address
      modify (·.setPair .hl value)
  | .shld address => do storeWord address ((← get).cpu.pair .hl)
  | .xchg => modify fun m => (m.setPair .hl (m.cpu.pair .de)).setPair .de (m.cpu.pair .hl)
  | .accumulate operation source => modify fun m => m.accumulate operation (m.sourceValue source)
  | .inr target => modify fun m => m.count target (Alu.add (m.get target) 1 false)
  | .dcr target => modify fun m => m.count target (Alu.sub (m.get target) 1 false)
  | .inx target => modify fun m => m.setPair target (m.cpu.pair target + 1)
  | .dcx target => modify fun m => m.setPair target (m.cpu.pair target - 1)
  | .dad source => modify fun m => m.addToHL (m.cpu.pair source)
  | .daa => modify Machine.adjust
  | .rotate rotation => modify (·.rotate rotation)
  | .cma => modify fun m => { m with cpu.a := ~~~m.cpu.a }
  | .stc => modify ({ · with cpu.flags.carry := true })
  | .cmc => modify fun m => { m with cpu.flags.carry := !m.cpu.flags.carry }
  | .jump condition target => do
      if (← get).takes condition then modify (·.withPc target)
  | .call condition target => do
      if (← get).takes condition then callTo target
  | .ret condition => do
      if (← get).takes condition then goBack
  | .rst vector => callTo (UInt16.ofNat (8 * vector.val))
  | .pchl => modify fun m => m.withPc (m.cpu.pair .hl)
  | .push source => do push ((← get).cpu.pair source)
  | .pop target => do
      let value ← pop
      modify (·.setPair target value)
  | .xthl => exchangeTop
  | .sphl => modify fun m => m.setPair .sp (m.cpu.pair .hl)
  | .nop => pure ()
  | .hlt => modify ({ · with cpu.halted := true })
  | .ei => modify ({ · with cpu.interruptEnable := true })
  | .di => modify ({ · with cpu.interruptEnable := false })
  | .rim => modify fun m => m.set .a (Machine.interruptReport m.cpu.interruptEnable)
  | .sim => pure ()

end Action

end I8085
