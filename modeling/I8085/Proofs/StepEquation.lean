/-
Module: I8085.Proofs.StepEquation
Layer: Proofs
Purpose: One step of the machine as one equation for each way that it can go. A machine that is not
  halted either finds no instruction at the program counter, or is cut short while it fetches the
  operand, or executes an instruction that is spelt as the chart has it and whose data are the bytes
  after the opcode. Whatever is to be shown of a step is shown of these three.
Imports: I8085.Machine.Step, I8085.Proofs.ActionEquations, I8085.Proofs.ChartAgreement
Main exports: Machine.operandWord, Machine.pastInstruction, Machine.fetchStraddles,
  Machine.step_of_halted, Machine.step_of_no_cell, Machine.step_of_fetch_straddles,
  Machine.fetchOperand_of_cell, Machine.step_of_fetched, Machine.executed_of_step,
  Machine.step_cases
-/
import I8085.Machine.Step
import I8085.Proofs.ActionEquations
import I8085.Proofs.ChartAgreement

namespace I8085

/-- Fetching an operand completes the pattern with the word at the program counter, and moves past
as much of it as the pattern takes. -/
theorem Action.on_fetchOperand (pattern : Instruction.Pattern) (m : Machine) :
    (fetchOperand pattern).on m =
      if pattern.kind = .word ∧ m.cpu.pc = Memory.maxAddress then (m, .error .straddle)
      else
        (m.withPc (m.cpu.pc + UInt16.ofNat pattern.kind.size),
          .ok (pattern.instruction (m.memory.wordAt m.cpu.pc))) := by
  cases pattern with
  | complete instruction =>
      simp [fetchOperand, Instruction.Pattern.kind, Instruction.Pattern.instruction,
        OperandKind.size, Machine.withPc]
  | needsByte instruction =>
      simp [fetchOperand, Instruction.Pattern.kind, Instruction.Pattern.instruction,
        OperandKind.size, Memory.wordAt]
  | needsWord instruction =>
      by_cases last : m.cpu.pc = Memory.maxAddress <;>
        simp [fetchOperand, Instruction.Pattern.kind, Instruction.Pattern.instruction,
          OperandKind.size, last]

namespace Machine

/-- The word in the two cells after the one at the program counter. An instruction with a byte
takes the lower half of it. -/
def operandWord (m : Machine) : Word := m.memory.wordAt (m.cpu.pc + 1)

/-- The machine with the program counter after the instruction. -/
def pastInstruction (m : Machine) : Machine :=
  m.withPc (m.cpu.pc + UInt16.ofNat (Opcode.size m.nextOpcode))

/-- Whether an instruction has a word after its opcode and that word straddles the top of memory. -/
def fetchStraddles (m : Machine) (entry : Opcode.Entry) : Bool :=
  entry.operand = .word ∧ m.cpu.pc = 0xFFFE

theorem step_of_halted {m : Machine} (halted : m.cpu.halted = true) :
    m.step = (m, .ok false) := by
  simp [step, Action.cycle, halted]

theorem step_of_no_cell {m : Machine} (running : m.cpu.halted = false)
    (noCell : Opcode.cell? m.nextOpcode = none) :
    m.step = (m.withPc (m.cpu.pc + 1), .error (.unknownOpcode m.nextOpcode m.cpu.pc)) := by
  simp only [nextOpcode] at noCell
  simp [step, Action.cycle, running, noCell, nextOpcode]

/-- A step that finds an opcode of the chart fetches its operand and executes. -/
theorem step_of_decoded {m : Machine} {entry : Opcode.Entry} {pattern : Instruction.Pattern}
    (running : m.cpu.halted = false) (cell : Opcode.cell? m.nextOpcode = some entry)
    (decoded : Instruction.decode m.nextOpcode = some pattern) :
    m.step =
      Action.on (do
        let instruction ← Action.fetchOperand pattern
        Action.execute instruction
        return true) (m.withPc (m.cpu.pc + 1)) := by
  simp only [nextOpcode] at cell decoded
  simp [step, Action.cycle, running, cell, decoded]

theorem step_of_fetch_straddles {m : Machine} {entry : Opcode.Entry}
    (running : m.cpu.halted = false) (cell : Opcode.cell? m.nextOpcode = some entry)
    (straddles : m.fetchStraddles entry = true) :
    m.step = (m.withPc (m.cpu.pc + 1), .error .straddle) := by
  obtain ⟨pattern, decoded, kind, _⟩ := Instruction.decode_of_cell cell
  obtain ⟨word, atTop⟩ := of_decide_eq_true straddles
  have last : (m.withPc (m.cpu.pc + 1)).cpu.pc = Memory.maxAddress := by
    rw [withPc, atTop]
    rfl
  rw [step_of_decoded running cell decoded, Action.on_bind, Action.on_fetchOperand,
    if_pos ⟨kind.trans word, last⟩]

/-- An operand that does not straddle the top of memory is fetched. It completes the instruction
that the chart has for the opcode, with the bytes after the opcode as its data. -/
theorem fetchOperand_of_cell {m : Machine} {entry : Opcode.Entry}
    (cell : Opcode.cell? m.nextOpcode = some entry) (fetched : m.fetchStraddles entry = false) :
    ∃ (pattern : Instruction.Pattern) (instruction : Instruction),
      Instruction.decode m.nextOpcode = some pattern ∧
      instruction.entry = entry ∧
      instruction.data = (Word.littleEndian m.operandWord).take entry.operand.size ∧
      (Action.fetchOperand pattern).on (m.withPc (m.cpu.pc + 1)) =
        (m.pastInstruction, .ok instruction) := by
  obtain ⟨pattern, decoded, kind, spelt⟩ := Instruction.decode_of_cell cell
  have inside :
      ¬ (pattern.kind = .word ∧ (m.withPc (m.cpu.pc + 1)).cpu.pc = Memory.maxAddress) := by
    rintro ⟨word, last⟩
    have atTop : m.cpu.pc = 0xFFFE := by
      have : m.cpu.pc + 1 = 0xFFFF := last
      grind
    exact of_decide_eq_false fetched ⟨kind.symm.trans word, atTop⟩
  have past : (m.withPc (m.cpu.pc + 1)).withPc
      ((m.withPc (m.cpu.pc + 1)).cpu.pc + UInt16.ofNat pattern.kind.size) = m.pastInstruction := by
    simp [pastInstruction, withPc, Opcode.size, Opcode.operand, cell, kind, UInt16.ofNat_add,
      UInt16.add_assoc]
  refine ⟨pattern, pattern.instruction m.operandWord, decoded, (spelt _).1, (spelt _).2, ?_⟩
  rw [Action.on_fetchOperand, if_neg inside, past]
  rfl

/-- A step whose operand is fetched executes the instruction that it completes. -/
theorem step_of_operand {m : Machine} {entry : Opcode.Entry} {pattern : Instruction.Pattern}
    {instruction : Instruction} (running : m.cpu.halted = false)
    (cell : Opcode.cell? m.nextOpcode = some entry)
    (decoded : Instruction.decode m.nextOpcode = some pattern)
    (completes : (Action.fetchOperand pattern).on (m.withPc (m.cpu.pc + 1)) =
      (m.pastInstruction, .ok instruction)) :
    m.step = Action.on ((fun _ => true) <$> Action.execute instruction) m.pastInstruction := by
  rw [step_of_decoded running cell decoded, Action.on_bind, completes, Action.on_map]
  simp only [Action.on_bind, Action.on_pure]

/-- A step whose operand is fetched executes the instruction that the chart has for the opcode, with
the bytes after the opcode as its data. -/
theorem step_of_fetched {m : Machine} {entry : Opcode.Entry}
    (running : m.cpu.halted = false) (cell : Opcode.cell? m.nextOpcode = some entry)
    (fetched : m.fetchStraddles entry = false) :
    ∃ instruction : Instruction,
      instruction.entry = entry ∧
      instruction.data = (Word.littleEndian m.operandWord).take entry.operand.size ∧
      m.step = Action.on ((fun _ => true) <$> Action.execute instruction) m.pastInstruction := by
  obtain ⟨_, instruction, decoded, spelt, data, completes⟩ := fetchOperand_of_cell cell fetched
  exact ⟨instruction, spelt, data, step_of_operand running cell decoded completes⟩

/-- A step of a running machine that succeeds has executed the instruction that the chart has for
the opcode. -/
theorem executed_of_step {m next : Machine} {entry : Opcode.Entry} {proceeded : Bool}
    (running : m.cpu.halted = false) (cell : Opcode.cell? m.nextOpcode = some entry)
    (stepped : m.step = (next, .ok proceeded)) :
    ∃ instruction : Instruction,
      instruction.entry = entry ∧
      instruction.data = (Word.littleEndian m.operandWord).take entry.operand.size ∧
      (Action.execute instruction).on m.pastInstruction = (next, .ok ()) := by
  rcases fetched : m.fetchStraddles entry with _ | _
  · obtain ⟨instruction, spelt, data, step⟩ := step_of_fetched running cell fetched
    refine ⟨instruction, spelt, data, ?_⟩
    rw [step, Action.on_map] at stepped
    rcases executed : (Action.execute instruction).on m.pastInstruction with ⟨last, result⟩
    rw [executed] at stepped
    cases result with
    | error fault => simp at stepped
    | ok _ =>
      obtain rfl : last = next := (Prod.mk.inj stepped).1
      rfl
  · rw [step_of_fetch_straddles running cell fetched] at stepped
    simp at stepped

/-- What a step can do. A halted machine stays as it is. A running one either is cut short, having
moved the program counter only, or completes the instruction that the chart has for the opcode, with
the bytes after the opcode as its data. -/
theorem step_cases (m : Machine) :
    (m.cpu.halted = true ∧ m.step = (m, .ok false)) ∨
      (m.cpu.halted = false ∧ ∃ address fault, m.step = (m.withPc address, .error fault)) ∨
      (m.cpu.halted = false ∧ ∃ instruction : Instruction,
        Opcode.cell? m.nextOpcode = some instruction.entry ∧
        instruction.data =
          (Word.littleEndian m.operandWord).take instruction.entry.operand.size ∧
        m.step = (m.pastInstruction.completed instruction, .ok true)) := by
  rcases running : m.cpu.halted with _ | _
  · rcases cell : Opcode.cell? m.nextOpcode with _ | entry
    · exact .inr (.inl ⟨rfl, _, _, step_of_no_cell running cell⟩)
    · rcases fetched : m.fetchStraddles entry with _ | _
      · obtain ⟨instruction, rfl, data, step⟩ := step_of_fetched running cell fetched
        by_cases straddles : m.pastInstruction.wordAccess? instruction = some Memory.maxAddress
        · rw [Action.on_map, Action.on_execute_of_straddle straddles] at step
          exact .inr (.inl ⟨rfl, _, _, step⟩)
        · rw [Action.on_map, Action.on_execute_of_reachable straddles] at step
          exact .inr (.inr ⟨rfl, instruction, rfl, data, step⟩)
      · exact .inr (.inl ⟨rfl, _, _, step_of_fetch_straddles running cell fetched⟩)
  · exact .inl ⟨rfl, step_of_halted running⟩

end Machine

end I8085
