/-
Module: I8085.Proofs.NextAddress
Layer: Proofs
Purpose: Where a step goes. The mnemonic of the chart entry says how the next instruction is chosen:
  it is the one after the instruction, unless the instruction transfers control and its condition
  holds. The length of an instruction is that of its chart entry, while the program counter is
  moved by what the decoder fetches; a step that succeeds arrives where the chart says, and a
  transfer of control changes nothing but the program counter and the stack
  (`Machine.step_arrives`).
Imports: I8085.Proofs.StepFaults
Main exports: Mnemonic.Transfer, Mnemonic.transfer, Machine.following, Machine.destination,
  Machine.stackAfter, Machine.memoryAfter, Machine.transferred, Machine.step_arrives
-/
import I8085.Proofs.StepFaults

namespace I8085

/-! ### What a mnemonic says about the next instruction -/

namespace Mnemonic

/-- How an instruction whose condition holds chooses the next one. -/
inductive Transfer where
  /-- The next one is the one that follows. -/
  | onward
  /-- It is at the address in the operand. -/
  | jump
  /-- It is at the address in the operand, and the address of the one that follows is pushed. -/
  | call
  /-- It is at the address on top of the stack, which is popped. -/
  | ret
  /-- It is at the vector, and the address of the one that follows is pushed. -/
  | restart
  /-- It is at the address in HL. -/
  | indirect
deriving Repr, DecidableEq

def transfer : Mnemonic → Transfer
  | jmp | jnz | jz | jnc | jc | jpo | jpe | jp | jm => .jump
  | call | cnz | cz | cnc | cc | cpo | cpe | cp | cm => .call
  | ret | rnz | rz | rnc | rc | rpo | rpe | rp | rm => .ret
  | rst => .restart
  | pchl => .indirect
  | _ => .onward

end Mnemonic

/-- The vector that an entry names, if it names one. -/
def Opcode.Entry.vector? (entry : Opcode.Entry) : Option (Fin 8) :=
  match entry.fields with
  | [.vector number] => some number
  | _ => none

/-- The address of a restart vector. -/
def Opcode.Entry.restartAddress (entry : Opcode.Entry) : Word :=
  match entry.vector? with
  | some number => UInt16.ofNat (8 * number.val)
  | none => 0

namespace Machine

/-- The address after the instruction at the program counter, which is as long as the chart says. -/
def following (m : Machine) : Word := m.cpu.pc + UInt16.ofNat (Opcode.size m.nextOpcode)

/-- Whether the instruction at the program counter, which is written as the entry, goes ahead. -/
def goesAhead (m : Machine) (entry : Opcode.Entry) : Bool := entry.mnemonic.condition m.cpu.flags

/-- The address of the next instruction. -/
def destination (m : Machine) (entry : Opcode.Entry) : Word :=
  if m.goesAhead entry then
    match entry.mnemonic.transfer with
    | .onward => m.following
    | .jump => m.operandWord
    | .call => m.operandWord
    | .ret => m.memory.wordAt m.cpu.sp
    | .restart => entry.restartAddress
    | .indirect => m.cpu.pair .hl
  else m.following

/-- The stack pointer after a transfer of control. -/
def stackAfter (m : Machine) (entry : Opcode.Entry) : Word :=
  if m.goesAhead entry then
    match entry.mnemonic.transfer with
    | .call => m.cpu.sp - 2
    | .restart => m.cpu.sp - 2
    | .ret => m.cpu.sp + 2
    | _ => m.cpu.sp
  else m.cpu.sp

/-- The memory after a transfer of control: a call that goes ahead stores the address of the
instruction that follows, low byte first, in the two cells below the stack pointer. -/
def memoryAfter (m : Machine) (entry : Opcode.Entry) : Memory :=
  if m.goesAhead entry then
    match entry.mnemonic.transfer with
    | .call => m.memory.withWord (m.cpu.sp - 2) m.following
    | .restart => m.memory.withWord (m.cpu.sp - 2) m.following
    | _ => m.memory
  else m.memory

/-- The machine after a transfer of control. -/
def transferred (m : Machine) (entry : Opcode.Entry) : Machine :=
  { m with
    memory := m.memoryAfter entry
    cpu.sp := m.stackAfter entry
    cpu.pc := m.destination entry }

/-! ### Instructions that do not transfer control -/

@[simp] theorem pc_set (m : Machine) (register : Register) (value : Byte) :
    (m.set register value).cpu.pc = m.cpu.pc := by
  cases register <;> rfl

@[simp] theorem pc_setPair (m : Machine) (pair : RegisterPair) (value : Word) :
    (m.setPair pair value).cpu.pc = m.cpu.pc := by
  cases pair <;> rfl

@[simp] theorem pc_count (m : Machine) (target : Register) (result : Alu.Result) :
    (m.count target result).cpu.pc = m.cpu.pc :=
  m.pc_set target result.value

end Machine

open Opcode (Entry)

namespace Instruction

/-- How an instruction whose condition holds chooses the next one. -/
def transfer : Instruction → Mnemonic.Transfer
  | jump .. => .jump
  | call .. => .call
  | ret _ => .ret
  | rst _ => .restart
  | pchl => .indirect
  | _ => .onward

theorem transfer_jumpMnemonic (condition : Option Condition) :
    (Condition.jumpMnemonic condition).transfer = .jump := by
  rcases condition with _ | condition
  · rfl
  · cases condition <;> rfl

theorem transfer_callMnemonic (condition : Option Condition) :
    (Condition.callMnemonic condition).transfer = .call := by
  rcases condition with _ | condition
  · rfl
  · cases condition <;> rfl

theorem transfer_returnMnemonic (condition : Option Condition) :
    (Condition.returnMnemonic condition).transfer = .ret := by
  rcases condition with _ | condition
  · rfl
  · cases condition <;> rfl

/-- The mnemonic of an instruction says how it chooses the next one. -/
theorem transfer_entry (instruction : Instruction) :
    instruction.entry.mnemonic.transfer = instruction.transfer := by
  cases instruction
  case accumulate operation source => cases source <;> cases operation <;> rfl
  case rotate rotation => cases rotation <;> rfl
  case jump condition target => exact transfer_jumpMnemonic condition
  case call condition target => exact transfer_callMnemonic condition
  case ret condition => exact transfer_returnMnemonic condition
  all_goals rfl

end Instruction

namespace Machine

/-! ### Instructions that come to their end -/

/-- An instruction that does not transfer control leaves the program counter where it is. -/
theorem pc_completed (m : Machine) {instruction : Instruction}
    (onward : instruction.transfer = .onward) : (m.completed instruction).cpu.pc = m.cpu.pc := by
  cases instruction
  case jump | call | ret | rst | pchl => cases onward
  all_goals first | rfl | simp [completed]

theorem takes_jump (m : Machine) (condition : Option Condition) :
    m.takes condition = (Condition.jumpMnemonic condition).condition m.cpu.flags := by
  rcases condition with _ | condition
  · rfl
  · cases condition <;> rfl

/-- The program counter does not decide whether control is transferred. -/
theorem takes_pastInstruction (m : Machine) (condition : Option Condition) :
    m.pastInstruction.takes condition = m.takes condition := rfl

/-- A transfer of control, executed past its operand, leaves the machine that its chart entry
says. -/
theorem completed_transfer {m : Machine} {instruction : Instruction}
    (data : instruction.data =
      (Word.littleEndian m.operandWord).take instruction.entry.operand.size)
    (transfers : instruction.transfer ≠ .onward) :
    m.pastInstruction.completed instruction = m.transferred instruction.entry := by
  cases instruction
  case jump condition target =>
      obtain rfl : target = m.operandWord := Instruction.operand_of_data_word data
      simp only [completed, transferred, destination, stackAfter, memoryAfter, goesAhead,
        Instruction.entry, Instruction.transfer_jumpMnemonic, takes_pastInstruction, ← takes_jump]
      by_cases taken : m.takes condition
      · simp only [taken, if_true]
        rfl
      · simp only [taken]
        rfl
  case call condition target =>
      obtain rfl : target = m.operandWord := Instruction.operand_of_data_word data
      simp only [completed, transferred, destination, stackAfter, memoryAfter, goesAhead,
        Instruction.entry, Instruction.transfer_callMnemonic, takes_pastInstruction, ← takes_call]
      by_cases taken : m.takes condition
      · simp only [taken, if_true]
        rfl
      · simp only [taken]
        rfl
  case ret condition =>
      simp only [completed, transferred, destination, stackAfter, memoryAfter, goesAhead,
        Instruction.entry, Instruction.transfer_returnMnemonic, takes_pastInstruction,
        ← takes_return]
      by_cases taken : m.takes condition
      · simp only [taken, if_true]
        rfl
      · simp only [taken]
        rfl
  case rst vector => rfl
  case pchl => rfl
  all_goals exact absurd rfl transfers

/-! ### Steps -/

/-- A step of a running machine that succeeds arrives at the address that the chart entry of the
opcode says. If that entry transfers control, nothing but the program counter, the stack pointer
and the word pushed has changed. -/
theorem step_arrives {m next : Machine} {proceeded : Bool} (running : m.cpu.halted = false)
    (stepped : m.step = (next, .ok proceeded)) :
    ∃ entry,
      Opcode.cell? m.nextOpcode = some entry ∧
      next.cpu.pc = m.destination entry ∧
      (entry.mnemonic.transfer ≠ .onward → next = m.transferred entry) := by
  rcases cell : Opcode.cell? m.nextOpcode with _ | entry
  · rw [step_of_no_cell running cell] at stepped
    cases stepped
  · obtain ⟨instruction, rfl, data, executed⟩ := executed_of_step running cell stepped
    obtain rfl := Action.eq_completed executed
    refine ⟨_, rfl, ?_⟩
    rw [Instruction.transfer_entry]
    by_cases onward : instruction.transfer = .onward
    · refine ⟨?_, fun transfers => absurd onward transfers⟩
      have next : m.destination instruction.entry = m.following := by
        simp [destination, Instruction.transfer_entry, onward]
      rw [pc_completed _ onward, next]
      rfl
    · have moved := completed_transfer data onward
      exact ⟨congrArg (fun machine => machine.cpu.pc) moved, fun _ => moved⟩

/-- A machine whose stack lies just above its next instruction, a call. -/
def callingOverItself : Machine where
  cpu := { sp := 0x8003 }
  memory := ((Memory.blank.write 0x8000 0xCD).write 0x8001 0x34).write 0x8002 0x12

/-- The call goes to the address in its operand, which the address it pushes overwrites. -/
theorem step_arrives_over_itself :
    ∃ next,
      callingOverItself.step = (next, .ok true) ∧
      next.cpu.pc = 0x1234 ∧
      next.cpu.sp = 0x8001 ∧
      next.memory.wordAt 0x8001 = 0x8003 := by
  have stepped : callingOverItself.step = (callingOverItself.step.1, .ok true) := rfl
  obtain ⟨entry, cell, arrived, transfers⟩ := step_arrives rfl stepped
  obtain rfl : entry = ⟨.call, [], .word⟩ := by
    have charted : Opcode.cell? callingOverItself.nextOpcode = some ⟨.call, [], .word⟩ := by
      decide +kernel
    exact Option.some.inj (cell.symm.trans charted)
  have moved := transfers (by decide)
  refine ⟨_, stepped, ?_, ?_, ?_⟩
  · rw [arrived]
    decide +kernel
  · rw [moved]
    rfl
  · rw [moved]
    decide +kernel

end Machine

end I8085
