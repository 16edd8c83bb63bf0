/-
Module: I8085.Proofs.StepFaults
Layer: Proofs
Purpose: When a step fails and what it leaves behind. The answer of a step is decided by the chart
  entry of the opcode, the program counter, the stack pointer, the operand and the flags: a step
  fails for want of an instruction, or where a word would straddle the top of memory, be it the
  operand, the word at a direct address or the word on the stack (`step_answer_eq`). A step that
  fails has changed nothing but the program counter (`failed_step_eq`), although an instruction
  works on the machine one action after another.
Imports: I8085.Proofs.StepEquation
Main exports: Mnemonic.condition, Mnemonic.wordAccess, Machine.accessStraddles,
  Machine.step_answer_eq, Machine.failed_step_eq
-/
import I8085.Proofs.StepEquation

namespace I8085

/-! ### What a mnemonic says about words of memory -/

namespace Mnemonic

/-- Whether the flags meet the condition that a mnemonic names. One that names none always goes
ahead. -/
def condition (flags : Flags) : Mnemonic → Bool
  | jnz | cnz | rnz => !flags.zero
  | jz | cz | rz => flags.zero
  | jnc | cnc | rnc => !flags.carry
  | jc | cc | rc => flags.carry
  | jpo | cpo | rpo => !flags.parity
  | jpe | cpe | rpe => flags.parity
  | jp | cp | rp => !flags.sign
  | jm | cm | rm => flags.sign
  | _ => true

/-- Where an instruction reaches a word of memory besides its own operand. -/
inductive WordAccess where
  | nowhere
  /-- At the address that follows the opcode. -/
  | direct
  /-- On top of the stack. -/
  | top
  /-- In the place below the top of the stack. -/
  | belowTop
deriving Repr, DecidableEq

/-- Where the instructions with a mnemonic reach a word of memory. -/
def wordAccess : Mnemonic → WordAccess
  | lhld | shld => .direct
  | pop | xthl | ret | rnz | rz | rnc | rc | rpo | rpe | rp | rm => .top
  | push | rst | call | cnz | cz | cnc | cc | cpo | cpe | cp | cm => .belowTop
  | _ => .nowhere

end Mnemonic

namespace Machine

/-- Whether the instruction at the program counter, which is written as the entry, goes ahead to
reach a word that straddles the top of memory. -/
def accessStraddles (m : Machine) (entry : Opcode.Entry) : Bool :=
  match entry.mnemonic.wordAccess with
  | .nowhere => false
  | .direct => m.operandWord = 0xFFFF
  | .top => entry.mnemonic.condition m.cpu.flags ∧ m.cpu.sp = 0xFFFF
  | .belowTop => entry.mnemonic.condition m.cpu.flags ∧ m.cpu.sp = 0x0001

theorem takes_call (m : Machine) (condition : Option Condition) :
    m.takes condition = (Condition.callMnemonic condition).condition m.cpu.flags := by
  rcases condition with _ | condition
  · rfl
  · cases condition <;> rfl

theorem takes_return (m : Machine) (condition : Option Condition) :
    m.takes condition = (Condition.returnMnemonic condition).condition m.cpu.flags := by
  rcases condition with _ | condition
  · rfl
  · cases condition <;> rfl

theorem wordAccess_call (condition : Option Condition) :
    (Condition.callMnemonic condition).wordAccess = .belowTop := by
  rcases condition with _ | condition
  · rfl
  · cases condition <;> rfl

theorem wordAccess_return (condition : Option Condition) :
    (Condition.returnMnemonic condition).wordAccess = .top := by
  rcases condition with _ | condition
  · rfl
  · cases condition <;> rfl

theorem wordAccess_jump (condition : Option Condition) :
    (Condition.jumpMnemonic condition).wordAccess = .nowhere := by
  rcases condition with _ | condition
  · rfl
  · cases condition <;> rfl

theorem wordAccess_rotation (rotation : Rotation) : rotation.mnemonic.wordAccess = .nowhere := by
  cases rotation <;> rfl

theorem wordAccess_accumulate (operation : Operation) (source : Source) :
    (Instruction.accumulate operation source).entry.mnemonic.wordAccess = .nowhere := by
  cases source <;> cases operation <;> rfl

/-- Past its operand, an instruction reaches for a word at the last address exactly if its chart
entry says so. -/
theorem wordAccess?_eq_iff {m : Machine} {instruction : Instruction}
    (data : instruction.data =
      (Word.littleEndian m.operandWord).take instruction.entry.operand.size) :
    m.pastInstruction.wordAccess? instruction = some Memory.maxAddress ↔
      m.accessStraddles instruction.entry = true := by
  have below : m.cpu.sp - 2 = 0xFFFF ↔ m.cpu.sp = 1 := by grind
  cases instruction
  case lhld address =>
      have operand : address = m.operandWord := Instruction.operand_of_data_word data
      simp [wordAccess?, accessStraddles, Instruction.entry, Mnemonic.wordAccess, operand,
        Memory.maxAddress]
  case shld address =>
      have operand : address = m.operandWord := Instruction.operand_of_data_word data
      simp [wordAccess?, accessStraddles, Instruction.entry, Mnemonic.wordAccess, operand,
        Memory.maxAddress]
  case call condition target =>
      simp only [wordAccess?, accessStraddles, Instruction.entry, wordAccess_call, ← takes_call]
      change (if m.takes condition then some (m.cpu.sp - 2) else none) = _ ↔ _
      by_cases taken : m.takes condition <;> simp [taken, below, Memory.maxAddress]
  case ret condition =>
      simp only [wordAccess?, accessStraddles, Instruction.entry, wordAccess_return,
        ← takes_return]
      change (if m.takes condition then some m.cpu.sp else none) = _ ↔ _
      by_cases taken : m.takes condition <;> simp [taken, Memory.maxAddress]
  case accumulate operation source =>
      simp [wordAccess?, accessStraddles, wordAccess_accumulate]
  case jump condition target =>
      simp [wordAccess?, accessStraddles, Instruction.entry, wordAccess_jump]
  case rotate rotation =>
      simp [wordAccess?, accessStraddles, Instruction.entry, wordAccess_rotation]
  all_goals
    simp [wordAccess?, accessStraddles, Instruction.entry, Mnemonic.wordAccess, Mnemonic.condition,
      pastInstruction, withPc, below, Memory.maxAddress]

/-! ### Steps that go ahead and steps that fail -/

/-- A step that reaches for a word at the last address is cut short past the instruction. -/
theorem step_of_access_straddles {m : Machine} {entry : Opcode.Entry}
    (running : m.cpu.halted = false) (cell : Opcode.cell? m.nextOpcode = some entry)
    (fetched : m.fetchStraddles entry = false) (straddles : m.accessStraddles entry = true) :
    m.step = (m.pastInstruction, .error .straddle) := by
  obtain ⟨instruction, rfl, data, step⟩ := step_of_fetched running cell fetched
  have last := (wordAccess?_eq_iff data).2 straddles
  rw [step, Action.on_map, Action.on_execute_of_straddle last]

/-- A step that reaches no word at the last address comes to its end. -/
theorem answer_step_of_reachable {m : Machine} {entry : Opcode.Entry}
    (running : m.cpu.halted = false) (cell : Opcode.cell? m.nextOpcode = some entry)
    (fetched : m.fetchStraddles entry = false) (reachable : m.accessStraddles entry = false) :
    m.step.2 = .ok true := by
  obtain ⟨instruction, rfl, data, step⟩ := step_of_fetched running cell fetched
  have inside : m.pastInstruction.wordAccess? instruction ≠ some Memory.maxAddress := by
    rw [Ne, wordAccess?_eq_iff data, reachable]
    simp
  have answer := Action.answer_execute inside
  rw [step, Action.on_map]
  rcases executed : (Action.execute instruction).on m.pastInstruction with ⟨next, result⟩
  rw [executed] at answer
  simp only at answer
  rw [answer]

/-- The answer of a step, whatever the state of the machine. A halted machine executes nothing. A
running one fails if there is no instruction at the program counter, or if a word that it has to
reach straddles the top of memory, and otherwise executes one instruction. Every opcode of the chart
has a decoding, and no other has one. -/
theorem step_answer_eq (m : Machine) :
    m.step.2 =
        (if m.cpu.halted then .ok false
        else
          match Opcode.cell? m.nextOpcode with
          | none => .error (.unknownOpcode m.nextOpcode m.cpu.pc)
          | some entry =>
              if m.fetchStraddles entry ∨ m.accessStraddles entry then
                .error (.memory (.addressOutOfRange 0x10000))
              else .ok true) ∧
      ∀ opcode, (Instruction.decode opcode).isSome = (Opcode.cell? opcode).isSome := by
  refine ⟨?_, Instruction.isSome_decode⟩
  rcases running : m.cpu.halted with _ | _
  · rcases cell : Opcode.cell? m.nextOpcode with _ | entry
    · simp [step_of_no_cell running cell]
    · rcases fetched : m.fetchStraddles entry with _ | _
      · rcases reachable : m.accessStraddles entry with _ | _
        · simp [answer_step_of_reachable running cell fetched reachable, fetched, reachable]
        · simp [step_of_access_straddles running cell fetched reachable, reachable,
            Fault.straddle, Memory.size]
      · simp [step_of_fetch_straddles running cell fetched, fetched, Fault.straddle, Memory.size]
  · simp [step_of_halted running]

/-- How far a step that fails has moved the program counter: past the opcode if there is no
instruction or its operand cannot be fetched, and past the whole instruction otherwise. -/
def failedAdvance (m : Machine) : Word :=
  match Opcode.cell? m.nextOpcode with
  | none => 1
  | some entry => if m.fetchStraddles entry then 1 else UInt16.ofNat (Opcode.size m.nextOpcode)

/-- A step that fails has moved the program counter and left everything else as it was: registers,
stack pointer, flags and latches, every memory cell, the record of writes and the breakpoints. -/
theorem failed_step_eq {m next : Machine} {fault : Fault}
    (failed : m.step = (next, .error fault)) :
    next = { m with cpu.pc := m.cpu.pc + m.failedAdvance } := by
  rcases running : m.cpu.halted with _ | _
  · rcases cell : Opcode.cell? m.nextOpcode with _ | entry
    · rw [step_of_no_cell running cell] at failed
      simp [failedAdvance, cell, ← (Prod.mk.inj failed).1, withPc]
    · rcases fetched : m.fetchStraddles entry with _ | _
      · rcases reachable : m.accessStraddles entry with _ | _
        · have answer := answer_step_of_reachable running cell fetched reachable
          simp [failed] at answer
        · rw [step_of_access_straddles running cell fetched reachable] at failed
          simp [failedAdvance, cell, fetched, ← (Prod.mk.inj failed).1, pastInstruction, withPc]
      · rw [step_of_fetch_straddles running cell fetched] at failed
        simp [failedAdvance, cell, fetched, ← (Prod.mk.inj failed).1, withPc]
  · simp [step_of_halted running] at failed

/-- A machine that is about to exchange HL with the word at the last address. -/
def exchangingAtTop : Machine where
  cpu := { h := 0x12, l := 0x34, sp := 0xFFFF }
  memory := Memory.blank.write 0x8000 0xE3

/-- The exchange has passed its own byte when it is cut short. -/
theorem failed_step_eq_at_top :
    exchangingAtTop.step = (exchangingAtTop.pastInstruction, .error .straddle) ∧
      exchangingAtTop.pastInstruction = { exchangingAtTop with cpu.pc := 0x8000 + 1 } := by
  have cell : Opcode.cell? exchangingAtTop.nextOpcode = some ⟨.xthl, [], .none⟩ := by
    decide +kernel
  have failed : exchangingAtTop.step = (exchangingAtTop.pastInstruction, .error .straddle) :=
    step_of_access_straddles rfl cell (by decide +kernel) (by decide +kernel)
  have advance : exchangingAtTop.failedAdvance = 1 := by decide +kernel
  refine ⟨failed, ?_⟩
  rw [failed_step_eq failed, advance]
  rfl

end Machine

end I8085
