/-
Module: I8085.Machine.Action
Layer: Machine
Purpose: What the machine does one thing after another. An action changes the machine and comes to
  an answer, or a fault cuts it short; in either case the machine is delivered as it then is, so a
  change made before a fault stays made. The actions here fetch from the program counter, reach a
  word of memory, and work the stack. Pushing stores a word below the stack pointer, popping takes
  the word at the stack pointer.
Imports: I8085.Machine
Main exports: Fault, Fault.message, Action, Action.on, Action.loadWord, Action.storeWord,
  Action.fetchByte, Action.fetchWord, Action.push, Action.pop
-/
import I8085.Machine

namespace I8085

inductive Fault where
  /-- The byte at `address` stands for no instruction. -/
  | unknownOpcode (opcode : Byte) (address : Word)
  /-- The instruction needed a memory access that was refused. -/
  | memory (error : MemoryError)
deriving Repr, DecidableEq

def Fault.message : Fault → String
  | .unknownOpcode opcode address =>
      s!"Unknown opcode: 0x{Text.hex 2 opcode.toNat} at PC: 0x{Text.hex 4 address.toNat}"
  | .memory error => s!"Memory fault: {error.message}"

/-- Work on a machine that comes to an answer or is cut short by a fault. -/
abbrev Action (α : Type) := ExceptT Fault (StateM Machine) α

namespace Action

/-- The machine that an action leaves, and its answer. -/
def on {α : Type} (action : Action α) (m : Machine) : Machine × Except Fault α :=
  (action.run.run m).swap

variable {α β : Type}

@[simp] theorem on_pure (value : α) (m : Machine) : on (pure value) m = (m, .ok value) := rfl

@[simp] theorem on_throw (fault : Fault) (m : Machine) :
    on (throw fault : Action α) m = (m, .error fault) := rfl

@[simp] theorem on_get (m : Machine) : on get m = (m, .ok m) := rfl

@[simp] theorem on_modify (change : Machine → Machine) (m : Machine) :
    on (modify change) m = (change m, .ok ()) := rfl

/-- One action after another: the second starts on the machine that the first leaves. -/
@[simp] theorem on_bind (action : Action α) (next : α → Action β) (m : Machine) :
    on (action >>= next) m =
      match on action m with
      | (later, .ok value) => on (next value) later
      | (later, .error fault) => (later, .error fault) := by
  simp only [on, ExceptT.run_bind, StateT.run_bind]
  rcases StateT.run (ExceptT.run action) m with ⟨_ | value, later⟩ <;> rfl

@[simp] theorem on_map (change : α → β) (action : Action α) (m : Machine) :
    on (change <$> action) m =
      match on action m with
      | (later, .ok value) => (later, .ok (change value))
      | (later, .error fault) => (later, .error fault) := by
  rw [map_eq_pure_bind, on_bind]
  rfl

/-! ### Words of memory -/

def loadWord (address : Word) : Action Word := do
  match (← get).memory.readWord address with
  | .ok value => return value
  | .error e => throw (.memory e)

def storeWord (address value : Word) : Action Unit := do
  match (← get).memory.writeWord address value with
  | .ok memory => modify ({ · with memory })
  | .error e => throw (.memory e)

/-! ### Fetching -/

/-- The byte at the program counter, which moves past it. At the top of memory it wraps. -/
def fetchByte : Action Byte := do
  let m ← get
  modify (·.withPc (m.cpu.pc + 1))
  return m.memory.read m.cpu.pc

/-- The word at the program counter, which moves past it. -/
def fetchWord : Action Word := do
  let address := (← get).cpu.pc
  let value ← loadWord address
  modify (·.withPc (address + 2))
  return value

/-! ### The stack -/

/-- Store a word below the stack pointer and lower the stack pointer to it. -/
def push (value : Word) : Action Unit := do
  let top := (← get).cpu.sp - 2
  storeWord top value
  modify ({ · with cpu.sp := top })

/-- Take the word at the stack pointer and raise the stack pointer past it. -/
def pop : Action Word := do
  let top := (← get).cpu.sp
  let value ← loadWord top
  modify ({ · with cpu.sp := top + 2 })
  return value

end Action

end I8085
