/-
Module: I8085.Proofs.ActionEquations
Layer: Proofs
Purpose: What each action does to a machine, as one equation for each. A word can be reached at
  every address but the last, so the actions that reach one have two outcomes: at the last address
  they are cut short and the machine is as it was. From the equations follows when an instruction
  is cut short, which is decided by the one address at which it reaches a word
  (`Machine.wordAccess?`), and that it is cut short before it has changed anything
  (`Action.on_execute_of_straddle`).
Imports: I8085.Machine.Execute
Main exports: Memory.wordAt, Memory.withWord, Fault.straddle, Machine.wordAccess?,
  Machine.completed, Action.on_execute_of_straddle, Action.on_execute_of_reachable,
  Action.answer_execute, Action.eq_completed
-/
import I8085.Machine.Execute

namespace I8085

/-- The word in the cell at an address and the one after it. At the last address it wraps. -/
def Memory.wordAt (m : Memory) (address : Word) : Word :=
  Word.ofBytes (m.read (address + 1)) (m.read address)

/-- The memory with a word in the cell at an address and the one after it. -/
def Memory.withWord (m : Memory) (address value : Word) : Memory :=
  (m.write address (Word.low value)).write (address + 1) (Word.high value)

/-- The fault of reaching for a word at the last address. -/
def Fault.straddle : Fault := .memory (.addressOutOfRange Memory.size)

/-- The machine that a call leaves: the program counter is pushed and set to the target. -/
def Machine.called (m : Machine) (target : Word) : Machine :=
  { m with
    memory := m.memory.withWord (m.cpu.sp - 2) m.cpu.pc
    cpu.sp := m.cpu.sp - 2
    cpu.pc := target }

/-- The machine that a return leaves: the program counter is popped. -/
def Machine.returned (m : Machine) : Machine :=
  { m with cpu.sp := m.cpu.sp + 2, cpu.pc := m.memory.wordAt m.cpu.sp }

namespace Action

/-! ### Words of memory -/

@[simp] theorem on_loadWord (address : Word) (m : Machine) :
    (loadWord address).on m =
      if address = Memory.maxAddress then (m, .error .straddle)
      else (m, .ok (m.memory.wordAt address)) := by
  by_cases last : address = Memory.maxAddress
  · simp [loadWord, Memory.readWord, last, Fault.straddle]
  · simp [loadWord, Memory.readWord, last, Memory.wordAt]

@[simp] theorem on_storeWord (address value : Word) (m : Machine) :
    (storeWord address value).on m =
      if address = Memory.maxAddress then (m, .error .straddle)
      else ({ m with memory := m.memory.withWord address value }, .ok ()) := by
  by_cases last : address = Memory.maxAddress
  · simp [storeWord, Memory.writeWord, last, Fault.straddle]
  · simp [storeWord, Memory.writeWord, last, Memory.withWord]

/-! ### Fetching -/

@[simp] theorem on_fetchByte (m : Machine) :
    fetchByte.on m = (m.withPc (m.cpu.pc + 1), .ok (m.memory.read m.cpu.pc)) := rfl

@[simp] theorem on_fetchWord (m : Machine) :
    fetchWord.on m =
      if m.cpu.pc = Memory.maxAddress then (m, .error .straddle)
      else (m.withPc (m.cpu.pc + 2), .ok (m.memory.wordAt m.cpu.pc)) := by
  by_cases last : m.cpu.pc = Memory.maxAddress <;> simp [fetchWord, last]

/-! ### The stack -/

@[simp] theorem on_push (value : Word) (m : Machine) :
    (push value).on m =
      if m.cpu.sp - 2 = Memory.maxAddress then (m, .error .straddle)
      else
        ({ m with
            memory := m.memory.withWord (m.cpu.sp - 2) value
            cpu.sp := m.cpu.sp - 2 }, .ok ()) := by
  by_cases last : m.cpu.sp - 2 = Memory.maxAddress <;> simp [push, last]

@[simp] theorem on_pop (m : Machine) :
    pop.on m =
      if m.cpu.sp = Memory.maxAddress then (m, .error .straddle)
      else ({ m with cpu.sp := m.cpu.sp + 2 }, .ok (m.memory.wordAt m.cpu.sp)) := by
  by_cases last : m.cpu.sp = Memory.maxAddress <;> simp [pop, last]

@[simp] theorem on_callTo (target : Word) (m : Machine) :
    (callTo target).on m =
      if m.cpu.sp - 2 = Memory.maxAddress then (m, .error .straddle)
      else (m.called target, .ok ()) := by
  by_cases last : m.cpu.sp - 2 = Memory.maxAddress <;>
    simp [callTo, last, Machine.withPc, Machine.called]

@[simp] theorem on_goBack (m : Machine) :
    goBack.on m =
      if m.cpu.sp = Memory.maxAddress then (m, .error .straddle)
      else (m.returned, .ok ()) := by
  by_cases last : m.cpu.sp = Memory.maxAddress <;>
    simp [goBack, last, Machine.withPc, Machine.returned]

@[simp] theorem on_exchangeTop (m : Machine) :
    exchangeTop.on m =
      if m.cpu.sp = Memory.maxAddress then (m, .error .straddle)
      else
        (({ m with memory := m.memory.withWord m.cpu.sp (m.cpu.pair .hl) }).setPair .hl
            (m.memory.wordAt m.cpu.sp), .ok ()) := by
  by_cases last : m.cpu.sp = Memory.maxAddress <;> simp [exchangeTop, last]

end Action

/-! ### Instructions -/

/-- The address at which an instruction reaches a word of memory, if it does so. -/
def Machine.wordAccess? (m : Machine) : Instruction → Option Word
  | .lhld address => some address
  | .shld address => some address
  | .call condition _ => if m.takes condition then some (m.cpu.sp - 2) else none
  | .ret condition => if m.takes condition then some m.cpu.sp else none
  | .rst _ => some (m.cpu.sp - 2)
  | .push _ => some (m.cpu.sp - 2)
  | .pop _ => some m.cpu.sp
  | .xthl => some m.cpu.sp
  | .mov .. | .mvi .. | .lxi .. | .lda _ | .sta _ | .ldax _ | .stax _ | .xchg | .accumulate ..
  | .inr _ | .dcr _ | .inx _ | .dcx _ | .dad _ | .daa | .rotate _ | .cma | .stc | .cmc | .jump ..
  | .pchl | .sphl | .nop | .hlt | .ei | .di | .rim | .sim => none

/-- The machine that an instruction leaves if it comes to its end. -/
def Machine.completed (m : Machine) : Instruction → Machine
  | .mov target source => m.set target (m.get source)
  | .mvi target value => m.set target value
  | .lxi target value => m.setPair target value
  | .lda address => m.set .a (m.memory.read address)
  | .sta address => { m with memory := m.memory.write address m.cpu.a }
  | .ldax pair => m.set .a (m.memory.read (m.cpu.pair pair))
  | .stax pair => { m with memory := m.memory.write (m.cpu.pair pair) m.cpu.a }
  | .lhld address => m.setPair .hl (m.memory.wordAt address)
  | .shld address => { m with memory := m.memory.withWord address (m.cpu.pair .hl) }
  | .xchg => (m.setPair .hl (m.cpu.pair .de)).setPair .de (m.cpu.pair .hl)
  | .accumulate operation source => m.accumulate operation (m.sourceValue source)
  | .inr target => m.count target (Alu.add (m.get target) 1 false)
  | .dcr target => m.count target (Alu.sub (m.get target) 1 false)
  | .inx target => m.setPair target (m.cpu.pair target + 1)
  | .dcx target => m.setPair target (m.cpu.pair target - 1)
  | .dad source => m.addToHL (m.cpu.pair source)
  | .daa => m.adjust
  | .rotate rotation => m.rotate rotation
  | .cma => { m with cpu.a := ~~~m.cpu.a }
  | .stc => { m with cpu.flags.carry := true }
  | .cmc => { m with cpu.flags.carry := !m.cpu.flags.carry }
  | .jump condition target => if m.takes condition then m.withPc target else m
  | .call condition target => if m.takes condition then m.called target else m
  | .ret condition => if m.takes condition then m.returned else m
  | .rst vector => m.called (UInt16.ofNat (8 * vector.val))
  | .pchl => m.withPc (m.cpu.pair .hl)
  | .push source =>
      { m with
        memory := m.memory.withWord (m.cpu.sp - 2) (m.cpu.pair source)
        cpu.sp := m.cpu.sp - 2 }
  | .pop target => setPair { m with cpu.sp := m.cpu.sp + 2 } target (m.memory.wordAt m.cpu.sp)
  | .xthl =>
      setPair { m with memory := m.memory.withWord m.cpu.sp (m.cpu.pair .hl) } .hl
        (m.memory.wordAt m.cpu.sp)
  | .sphl => m.setPair .sp (m.cpu.pair .hl)
  | .nop => m
  | .hlt => { m with cpu.halted := true }
  | .ei => { m with cpu.interruptEnable := true }
  | .di => { m with cpu.interruptEnable := false }
  | .rim => m.set .a (interruptReport m.cpu.interruptEnable)
  | .sim => m

namespace Action

/-- An instruction that reaches for a word at the last address is cut short, and the machine is as
it was. -/
theorem on_execute_of_straddle {m : Machine} {instruction : Instruction}
    (straddles : m.wordAccess? instruction = some Memory.maxAddress) :
    (execute instruction).on m = (m, .error .straddle) := by
  cases instruction
  case lhld address =>
      have last : address = Memory.maxAddress := Option.some.inj straddles
      simp [execute, last]
  case shld address =>
      have last : address = Memory.maxAddress := Option.some.inj straddles
      simp [execute, last]
  case call condition target =>
      by_cases taken : m.takes condition
      · have last : m.cpu.sp - 2 = Memory.maxAddress := by
          simpa [Machine.wordAccess?, taken] using straddles
        simp [execute, taken, last]
      · simp [Machine.wordAccess?, taken] at straddles
  case ret condition =>
      by_cases taken : m.takes condition
      · have last : m.cpu.sp = Memory.maxAddress := by
          simpa [Machine.wordAccess?, taken] using straddles
        simp [execute, taken, last]
      · simp [Machine.wordAccess?, taken] at straddles
  case rst vector =>
      have last : m.cpu.sp - 2 = Memory.maxAddress := Option.some.inj straddles
      simp [execute, last]
  case push source =>
      have last : m.cpu.sp - 2 = Memory.maxAddress := Option.some.inj straddles
      simp [execute, last]
  case pop target =>
      have last : m.cpu.sp = Memory.maxAddress := Option.some.inj straddles
      simp [execute, last]
  case xthl =>
      have last : m.cpu.sp = Memory.maxAddress := Option.some.inj straddles
      simp [execute, last]
  all_goals cases straddles

/-- Every other instruction comes to its end. -/
theorem on_execute_of_reachable {m : Machine} {instruction : Instruction}
    (reachable : m.wordAccess? instruction ≠ some Memory.maxAddress) :
    (execute instruction).on m = (m.completed instruction, .ok ()) := by
  have apart {address : Word} (reached : m.wordAccess? instruction = some address) :
      address ≠ Memory.maxAddress := by
    rintro rfl
    exact reachable reached
  cases instruction
  case lhld address => simp [execute, Machine.completed, apart rfl]
  case shld address => simp [execute, Machine.completed, apart rfl]
  case jump condition target =>
      by_cases taken : m.takes condition <;> simp [execute, Machine.completed, taken]
  case call condition target =>
      by_cases taken : m.takes condition
      · have inside := apart (if_pos taken)
        simp [execute, Machine.completed, taken, inside]
      · simp [execute, Machine.completed, taken]
  case ret condition =>
      by_cases taken : m.takes condition
      · have inside := apart (if_pos taken)
        simp [execute, Machine.completed, taken, inside]
      · simp [execute, Machine.completed, taken]
  case rst vector => simp [execute, Machine.completed, apart rfl]
  case push source => simp [execute, Machine.completed, apart rfl]
  case pop target => simp [execute, Machine.completed, apart rfl]
  case xthl => simp [execute, Machine.completed, apart rfl]
  all_goals rfl

theorem answer_execute {m : Machine} {instruction : Instruction}
    (reachable : m.wordAccess? instruction ≠ some Memory.maxAddress) :
    ((execute instruction).on m).2 = .ok () := by
  rw [on_execute_of_reachable reachable]

/-- An instruction that comes to its end has left the machine complete. -/
theorem eq_completed {m next : Machine} {instruction : Instruction}
    (executed : (execute instruction).on m = (next, .ok ())) : next = m.completed instruction := by
  by_cases straddles : m.wordAccess? instruction = some Memory.maxAddress
  · rw [on_execute_of_straddle straddles] at executed
    cases executed
  · rw [on_execute_of_reachable straddles] at executed
    exact (Prod.mk.inj executed).1.symm

end Action

end I8085
