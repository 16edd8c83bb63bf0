/-
Module: I8085.Proofs.WriteObservation
Layer: Proofs
Purpose: Who is told the writes to a memory can keep a copy of it. Every change of a cell goes with
  one entry in the record, and in the same order (`Memory.Written`), be it made from outside or by
  an instruction; so the record, replayed onto what the memory held when it began, gives what the
  memory holds now. What fails is not in the record, since it has changed nothing. And nothing
  depends on the record: without an observer every answer is the same, and so are the processor and
  the memory afterwards (`Machine.observer_mirrors`).
Imports: I8085.Machine.Command, I8085.Proofs.RunIteration, I8085.Proofs.StepFaults,
  Mathlib.Logic.Function.Basic
Main exports: Memory.replay, Memory.Written, Memory.Traced, Machine.traced_completed,
  Machine.traced_step, Machine.traced_perform, Machine.FailsSilently, Machine.failsSilently,
  Machine.unobserved, Machine.unobserved_step, Machine.unobserved_perform, Machine.Mirrored,
  Machine.observer_mirrors
-/
import I8085.Machine.Command
import I8085.Proofs.RunIteration
import I8085.Proofs.StepFaults
import Mathlib.Logic.Function.Basic

namespace I8085

/-! ### Writes and their record -/

namespace Memory

/-- What the cells hold after writes, made one after another. -/
def replay (cells : Word → Byte) (writes : List MemoryWrite) : Word → Byte :=
  writes.foldl (fun cells write => Function.update cells write.address write.value) cells

/-- What it is for a memory to have come from another one by writes, each of which is recorded if
there is a record. -/
structure Written (before : Memory) (writes : List MemoryWrite) (after : Memory) : Prop where
  observed_eq : after.observed = before.observed.map (writes.reverse ++ ·)
  read_eq : after.read = replay before.read writes

/-- Whether a memory has come from another one by recorded writes. -/
def Traced (before after : Memory) : Prop := ∃ writes, Written before writes after

variable {first second third m later : Memory}

theorem replay_append (cells : Word → Byte) (before after : List MemoryWrite) :
    replay cells (before ++ after) = replay (replay cells before) after :=
  List.foldl_append ..

theorem Written.nil (m : Memory) : Written m [] m where
  observed_eq := by cases m.observed <;> rfl
  read_eq := rfl

/-- Writes after other writes. -/
theorem Written.append {before after : List MemoryWrite} (one : Written first before second)
    (other : Written second after third) : Written first (before ++ after) third where
  observed_eq := by
    rw [other.observed_eq, one.observed_eq, Option.map_map, List.reverse_append]
    congr 1
    funext record
    exact (List.append_assoc ..).symm
  read_eq := by rw [other.read_eq, one.read_eq, replay_append]

theorem Traced.refl (m : Memory) : Traced m m := ⟨[], .nil m⟩

theorem Traced.trans (one : Traced first second) (other : Traced second third) :
    Traced first third := by
  obtain ⟨before, one⟩ := one
  obtain ⟨after, other⟩ := other
  exact ⟨before ++ after, one.append other⟩

theorem written_write (m : Memory) (address : Word) (value : Byte) :
    Written m [⟨address, value⟩] (m.write address value) where
  observed_eq := rfl
  read_eq := by
    funext other
    rw [read_write, replay, List.foldl_cons, List.foldl_nil, Function.update_apply]
    simp only [eq_comm]

theorem traced_write (m : Memory) (address : Word) (value : Byte) :
    Traced m (m.write address value) := ⟨_, written_write m address value⟩

theorem traced_withWord (m : Memory) (address value : Word) :
    Traced m (m.withWord address value) :=
  (traced_write m _ _).trans (traced_write _ _ _)

theorem traced_writeAll (m : Memory) (base : Word) (bytes : List Byte) :
    Traced m (m.writeAll base bytes) := by
  induction bytes generalizing m base with
  | nil => exact .refl m
  | cons byte rest ih => exact (traced_write m base byte).trans (ih (m.write base byte) (base + 1))

/-- A change from outside that is not refused is recorded. -/
theorem traced_edit {change : Edit} (edited : m.edit change = .ok later) : Traced m later := by
  cases change with
  | write address value =>
    obtain rfl := Except.ok.inj edited
    exact traced_write m address value
  | writeWord address value =>
    rw [edit, writeWord] at edited
    split at edited
    next => cases edited
    next =>
      obtain rfl := Except.ok.inj edited
      exact traced_withWord m address value
  | writeAt address value =>
    rw [edit, writeAt] at edited
    split at edited
    next =>
      split at edited
      next =>
        obtain rfl := Except.ok.inj edited
        exact traced_write m _ _
      next => cases edited
    next => cases edited
  | load program base =>
    rw [edit, load] at edited
    split at edited
    next => cases edited
    next =>
      obtain rfl := Except.ok.inj edited
      exact traced_writeAll m base program

end Memory

/-! ### Commands leave a trace -/

namespace Machine

open Memory (Traced)

variable {m : Machine}

theorem traced_set (m : Machine) (register : Register) (value : Byte) :
    Traced m.memory (m.set register value).memory := by
  cases register
  case m => exact Memory.traced_write m.memory _ _
  all_goals exact .refl m.memory

/-- An instruction writes to the memory in no other way. -/
theorem traced_completed (m : Machine) (instruction : Instruction) :
    Traced m.memory (m.completed instruction).memory := by
  cases instruction
  case mov target source => exact traced_set m target _
  case mvi target value => exact traced_set m target value
  case inr target => exact traced_set m target _
  case dcr target => exact traced_set m target _
  case sta address => exact Memory.traced_write m.memory _ _
  case stax pair => exact Memory.traced_write m.memory _ _
  case shld address => exact Memory.traced_withWord m.memory _ _
  case jump condition target =>
    rw [completed]
    split <;> exact .refl m.memory
  case call condition target =>
    rw [completed]
    split
    · exact Memory.traced_withWord m.memory _ _
    · exact .refl m.memory
  case ret condition =>
    rw [completed]
    split <;> exact .refl m.memory
  case rst vector => exact Memory.traced_withWord m.memory _ _
  case push source => exact Memory.traced_withWord m.memory _ _
  case xthl => exact Memory.traced_withWord m.memory _ _
  all_goals exact .refl m.memory

theorem traced_step (m : Machine) : Traced m.memory m.step.1.memory := by
  rcases m.step_cases with ⟨_, step⟩ | ⟨_, address, fault, step⟩ | ⟨_, instruction, _, _, step⟩
  · rw [step]
    exact .refl m.memory
  · rw [step]
    exact .refl m.memory
  · rw [step]
    exact m.pastInstruction.traced_completed instruction

theorem traced_after (m : Machine) (steps : Nat) : Traced m.memory (m.after steps).memory := by
  induction steps with
  | zero => exact .refl m.memory
  | succ steps ih => exact ih.trans (traced_step (m.after steps))

theorem traced_perform (m : Machine) (command : Command) :
    Traced m.memory (m.perform command).1.memory := by
  cases command with
  | edit change =>
    rw [perform]
    rcases edited : m.memory.edit change with error | later
    · exact .refl m.memory
    · exact Memory.traced_edit edited
  | step => exact m.traced_step
  | run budget =>
    obtain ⟨steps, iterates⟩ := m.exists_iterates budget
    obtain ⟨taken, ended⟩ := iterates.ending.exists_after
    -- Whether it stops or fails, a run ends in a machine that steps alone lead to.
    rw [perform, ended]
    exact m.traced_after taken

theorem traced_performAll (m : Machine) (commands : List Command) :
    Traced m.memory (m.performAll commands).1.memory := by
  induction commands generalizing m with
  | nil => exact .refl m.memory
  | cons command rest ih => exact (m.traced_perform command).trans (ih (m.perform command).1)

/-! ### What fails is not recorded -/

/-- Whether a command that fails leaves the memory and its record alone, as far as it fails: a run
that comes to a failing step has made the steps before. -/
structure FailsSilently (m : Machine) (command : Command) : Prop where
  edit : ∀ error, (m.perform command).2 = .edited (.error error) → (m.perform command).1 = m
  step : ∀ fault, (m.perform command).2 = .stepped (.error fault) →
    (m.perform command).1.memory = m.memory
  run : ∀ fault, (m.perform command).2 = .ran (.error fault) →
    ∃ steps, (∀ earlier, earlier < steps → (m.after earlier).step.2 = .ok true) ∧
      (m.after steps).step.2 = .error fault ∧
      (m.perform command).1.memory = (m.after steps).memory

theorem memory_of_failed_step {fault : Fault} (failed : m.step.2 = .error fault) :
    m.step.1.memory = m.memory := by
  have moved : m.step.1 = { m with cpu.pc := m.cpu.pc + m.failedAdvance } :=
    failed_step_eq (Prod.ext rfl failed)
  rw [moved]

/-- A run that fails has come to a step that fails, after steps that executed instructions. -/
theorem exists_steps_of_failed_run {budget : Nat} {fault : Fault}
    (failed : (m.run budget).2 = .error fault) :
    ∃ steps, (∀ earlier, earlier < steps → (m.after earlier).step.2 = .ok true) ∧
      (m.after steps).step.2 = .error fault ∧
      (m.run budget).1.memory = (m.after steps).memory := by
  obtain ⟨steps, iterates⟩ := m.exists_iterates budget
  have ending := iterates.ending
  rcases ran : m.run budget with ⟨last, result⟩
  rw [ran] at failed ending
  obtain rfl : result = .error fault := failed
  cases ending with
  | fault _ _ _ stepped =>
    have answer : (m.after steps).step.2 = .error fault := by rw [stepped]
    have kept := memory_of_failed_step answer
    rw [stepped] at kept
    exact ⟨steps, iterates.executed, answer, kept⟩

theorem failsSilently (m : Machine) (command : Command) : m.FailsSilently command := by
  constructor
  case edit =>
    intro error failed
    cases command with
    | edit change =>
      rw [perform] at failed ⊢
      rcases edited : m.memory.edit change with _ | later
      · rfl
      · rw [edited] at failed
        cases failed
    | step => cases failed
    | run budget => cases failed
  case step =>
    intro fault failed
    cases command with
    | edit change =>
      rw [perform] at failed
      split at failed <;> cases failed
    | step => exact memory_of_failed_step (Answer.stepped.inj failed)
    | run budget => cases failed
  case run =>
    intro fault failed
    cases command with
    | edit change =>
      rw [perform] at failed
      split at failed <;> cases failed
    | step => cases failed
    | run budget => exact exists_steps_of_failed_run (Answer.ran.inj failed)

end Machine

/-! ### Nothing depends on the record -/

namespace Memory

theorem unobserve_writeAll (m : Memory) (base : Word) (bytes : List Byte) :
    m.unobserve.writeAll base bytes = (m.writeAll base bytes).unobserve := by
  induction bytes generalizing m base with
  | nil => rfl
  | cons byte rest ih => exact ih (m.write base byte) (base + 1)

theorem unobserve_edit (m : Memory) (change : Edit) :
    m.unobserve.edit change = (m.edit change).map unobserve := by
  cases change with
  | write address value => rfl
  | writeWord address value =>
    rw [edit, edit, writeWord, writeWord]
    split <;> rfl
  | writeAt address value =>
    rw [edit, edit, writeAt, writeAt]
    split
    · split <;> rfl
    · rfl
  | load program base =>
    rw [edit, edit, load, load, unobserve_writeAll]
    split <;> rfl

end Memory

namespace Machine

/-- The same machine with nothing that observes its memory. -/
def unobserved (m : Machine) : Machine := { m with memory := m.memory.unobserve }

theorem unobserved_set (m : Machine) (register : Register) (value : Byte) :
    m.unobserved.set register value = (m.set register value).unobserved := by
  cases register <;> rfl

theorem get_unobserved (m : Machine) (register : Register) :
    m.unobserved.get register = m.get register := by
  cases register <;> rfl

theorem unobserved_count (m : Machine) (target : Register) (result : Alu.Result) :
    m.unobserved.count target result = (m.count target result).unobserved := by
  rw [count, count, unobserved_set]
  rfl

/-- What an instruction does to the rest of the machine it does without an observer as well. -/
theorem unobserved_completed (m : Machine) (instruction : Instruction) :
    m.unobserved.completed instruction = (m.completed instruction).unobserved := by
  cases instruction
  case mov target source =>
    rw [completed, completed, get_unobserved, unobserved_set]
  case mvi target value => exact unobserved_set m target value
  case inr target =>
    rw [completed, completed, get_unobserved, unobserved_count]
  case dcr target =>
    rw [completed, completed, get_unobserved, unobserved_count]
  case accumulate operation source => cases source <;> rfl
  case jump condition target =>
    rw [completed, completed, apply_ite unobserved]
    rfl
  case call condition target =>
    rw [completed, completed, apply_ite unobserved]
    rfl
  case ret condition =>
    rw [completed, completed, apply_ite unobserved]
    rfl
  all_goals rfl

end Machine

/-- Whether an action does and answers the same without an observer. To look at the whole machine is
no such action, since it shows the record; what is made of such actions is one. -/
def Action.Blind {α : Type} (action : Action α) : Prop :=
  ∀ m : Machine, action.on m.unobserved = ((action.on m).1.unobserved, (action.on m).2)

namespace Action

variable {α β : Type}

theorem Blind.bind {action : Action α} {next : α → Action β} (first : action.Blind)
    (rest : ∀ value, (next value).Blind) : (action >>= next).Blind := by
  intro m
  rw [on_bind, on_bind, first m]
  rcases action.on m with ⟨later, fault | value⟩
  · rfl
  · exact rest value later

theorem blind_pure (value : α) : (pure value : Action α).Blind := fun _ => rfl

theorem blind_fetchOperand (pattern : Instruction.Pattern) : (fetchOperand pattern).Blind := by
  intro m
  have same : m.unobserved.cpu = m.cpu := rfl
  rw [on_fetchOperand, on_fetchOperand, same]
  split <;> rfl

theorem blind_execute (instruction : Instruction) : (execute instruction).Blind := by
  intro m
  have same : m.unobserved.wordAccess? instruction = m.wordAccess? instruction := by
    cases instruction <;> rfl
  by_cases straddles : m.wordAccess? instruction = some Memory.maxAddress
  · rw [on_execute_of_straddle straddles, on_execute_of_straddle (same.trans straddles)]
  · have reachable : m.unobserved.wordAccess? instruction ≠ some Memory.maxAddress := by
      rwa [same]
    rw [on_execute_of_reachable straddles, on_execute_of_reachable reachable,
      Machine.unobserved_completed]

end Action

namespace Machine

theorem unobserved_step (m : Machine) :
    m.unobserved.step = (m.step.1.unobserved, m.step.2) := by
  rcases running : m.cpu.halted with _ | _
  · rcases cell : Opcode.cell? m.nextOpcode with _ | entry
    · rw [step_of_no_cell running cell, step_of_no_cell (m := m.unobserved) running cell]
      rfl
    · obtain ⟨pattern, decoded, _⟩ := Instruction.decode_of_cell cell
      have blind := (Action.blind_fetchOperand pattern).bind fun instruction =>
        (Action.blind_execute instruction).bind fun _ => Action.blind_pure true
      rw [step_of_decoded running cell decoded,
        step_of_decoded (m := m.unobserved) running cell decoded]
      exact blind (m.withPc (m.cpu.pc + 1))
  · rw [step_of_halted running, step_of_halted (m := m.unobserved) running]

theorem unobserved_runAfter (m : Machine) (steps budget : Nat) :
    runAfter steps budget m.unobserved =
      ((runAfter steps budget m).1.unobserved, (runAfter steps budget m).2) := by
  induction budget generalizing m steps with
  | zero => rfl
  | succ budget ih =>
    have same : m.unobserved.cpu = m.cpu := rfl
    have kept : m.unobserved.breakpoints = m.breakpoints := rfl
    rw [runAfter, runAfter, unobserved_step, same, kept]
    split
    · rfl
    · split
      · rfl
      · rcases m.step with ⟨next, fault | proceeded⟩
        · rfl
        · exact ih next (steps + 1)

theorem unobserved_perform (m : Machine) (command : Command) :
    m.unobserved.perform command =
      ((m.perform command).1.unobserved, (m.perform command).2) := by
  cases command with
  | edit change =>
    have same : m.unobserved.memory = m.memory.unobserve := rfl
    rw [perform, perform, same, Memory.unobserve_edit]
    rcases m.memory.edit change with error | later
    · rfl
    · rfl
  | step => rw [perform, perform, unobserved_step]
  | run budget => rw [perform, perform, run, run, unobserved_runAfter]

theorem unobserved_performAll (m : Machine) (commands : List Command) :
    m.unobserved.performAll commands =
      ((m.performAll commands).1.unobserved, (m.performAll commands).2) := by
  induction commands generalizing m with
  | nil => rfl
  | cons command rest ih =>
    simp only [performAll]
    rw [unobserved_perform, ih]

/-! ### The observer -/

/-- What it is for commands, given to a machine whose observer has been told some writes before, to
keep the observer informed. -/
structure Mirrored (m : Machine) (told : List MemoryWrite) (commands : List Command)
    (last : Machine) (answers : List Answer) : Prop where
  /-- A copy of the memory into which the writes are repeated as they are told is like the memory in
  the end. -/
  replays : ∃ writes, last.memory.observed = some (writes.reverse ++ told) ∧
    ∀ address, last.memory.read address = Memory.replay m.memory.read writes address
  /-- What fails on the way is not told. -/
  silent : ∀ before command after, commands = before ++ command :: after →
    (m.performAll before).1.FailsSilently command
  /-- Without the observer the answers are the same, and so is everything but the record. -/
  unobserved : m.unobserved.performAll commands = (last.unobserved, answers)

/-- Whatever is done to a machine with an observer, and whether it succeeds or fails, the observer
can follow the memory by what it is told, and makes no difference. -/
theorem observer_mirrors (m : Machine) {told : List MemoryWrite}
    (attached : m.memory.observed = some told) (commands : List Command) :
    m.Mirrored told commands (m.performAll commands).1 (m.performAll commands).2 := by
  obtain ⟨writes, written⟩ := m.traced_performAll commands
  constructor
  case replays =>
    refine ⟨writes, ?_, congrFun written.read_eq⟩
    rw [written.observed_eq, attached]
    rfl
  case silent => exact fun before command _ _ => failsSilently (m.performAll before).1 command
  case unobserved => exact m.unobserved_performAll commands

/-- A machine whose observer has not been told anything yet. -/
def watched : Machine where
  memory := Memory.blank.observe

/-- The program sets the first cell and then stores a word at the last address, which fails. -/
def storesAtTop : List Command :=
  [.edit (.load [0x36, 0x55, 0x22, 0xFF, 0xFF] 0x8000), .edit (.writeWord 0xFFFF 0x1234), .run 5]

theorem observer_mirrors_watched :
    watched.Mirrored [] storesAtTop (watched.performAll storesAtTop).1
        (watched.performAll storesAtTop).2 ∧
      (watched.performAll storesAtTop).1.memory.observed =
        some [⟨0x0000, 0x55⟩, ⟨0x8004, 0xFF⟩, ⟨0x8003, 0xFF⟩, ⟨0x8002, 0x22⟩, ⟨0x8001, 0x55⟩,
          ⟨0x8000, 0x36⟩] :=
  ⟨observer_mirrors watched rfl storesAtTop, by decide +kernel⟩

end Machine

end I8085
