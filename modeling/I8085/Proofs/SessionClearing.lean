/-
Module: I8085.Proofs.SessionClearing
Layer: Proofs
Purpose: Nothing of what a session has been used for outlasts its clearing. To clear the memory,
  clear the breakpoints and reset the processor, in any order, makes a new session of it, except
  that its memory is observed as before. Since nothing but the record depends on the observer, the
  cleared session cannot be told from a new one (`Session.clearing_renews`).
Imports: I8085.Proofs.SessionHistory, I8085.Proofs.WriteObservation, I8085.Session.Question
Main exports: Session.unobserved, Session.Alike, Session.unobserved_serve, Session.Alike.serve,
  Session.Alike.replies_eq, Session.Alike.ask_eq, Session.after_clearing, Session.Renewed,
  Session.clearing_renews
-/
import I8085.Proofs.SessionHistory
import I8085.Proofs.WriteObservation
import I8085.Session.Question

namespace I8085.Session

variable {session other : Session}

/-! ### Sessions that differ in their observers -/

/-- The same session with nothing that observes its memory. -/
def unobserved (session : Session) : Session :=
  { session with machine := session.machine.unobserved }

theorem unobserved_unobserved (session : Session) :
    session.unobserved.unobserved = session.unobserved := rfl

/-- Whether two sessions differ in nothing but what observes their memory. -/
def Alike (session other : Session) : Prop := session.unobserved = other.unobserved

theorem unobserved_assemble (session : Session) (source : String) :
    session.unobserved.assemble source =
      ((session.assemble source).1.unobserved, (session.assemble source).2) := by
  rw [assemble, assemble]
  rcases I8085.assemble source origin .strict with diagnostics | program
  · rfl
  · have loading : session.unobserved.machine.memory.load program.bytes program.start =
        (session.machine.memory.load program.bytes program.start).map Memory.unobserve :=
      Memory.unobserve_edit session.machine.memory (.load program.bytes program.start)
    simp only [loading]
    rcases session.machine.memory.load program.bytes program.start with error | memory <;> rfl

theorem unobserved_write (session : Session) (address value : Nat) :
    session.unobserved.write address value = (session.write address value).map unobserved := by
  have writing : session.unobserved.machine.memory.writeAt address value =
      (session.machine.memory.writeAt address value).map Memory.unobserve :=
    Memory.unobserve_edit session.machine.memory (.writeAt address value)
  rw [write, write, writing]
  rcases session.machine.memory.writeAt address value with error | memory <;> rfl

/-- A request has the same reply without an observer, and does the same to everything else. -/
theorem unobserved_serve (session : Session) (request : Request) :
    (session.unobserved.serve request).1.unobserved = (session.serve request).1.unobserved ∧
      (session.unobserved.serve request).2 = (session.serve request).2 := by
  cases request with
  | assemble source =>
    simp only [serve, unobserved_assemble, unobserved_unobserved, and_self]
  | step =>
    have stepping : session.unobserved.step = (session.step.1.unobserved, session.step.2) := by
      rw [step, step, unobserved, Machine.unobserved_step]
      rfl
    simp only [serve, stepping, unobserved_unobserved, and_self]
  | run budget =>
    have running : session.unobserved.run budget =
        ((session.run budget).1.unobserved, (session.run budget).2) := by
      rw [run, run, unobserved, Machine.run, Machine.run, Machine.unobserved_runAfter]
      rfl
    simp only [serve, running, unobserved_unobserved, and_self]
  | write address value =>
    rw [serve, serve, unobserved_write]
    rcases session.write address value with error | next <;> exact ⟨rfl, rfl⟩
  | reset | clearMemory | edit | addBreakpoint | removeBreakpoint | clearBreakpoints | observe
    | unobserve => exact ⟨rfl, rfl⟩

/-- No answer shows the observer. -/
theorem ask_unobserved (session : Session) (question : Question) :
    session.unobserved.ask question = session.ask question := by
  cases question with
  | register register =>
    rw [ask, ask, unobserved, Machine.get_unobserved]
  | programCounter | stackPointer | status | flags | halted | interruptEnabled | cell | cells
    | currentLine | start | stop => rfl

namespace Alike

theorem serve (alike : session.Alike other) (request : Request) :
    (session.serve request).1.Alike (other.serve request).1 ∧
      (session.serve request).2 = (other.serve request).2 := by
  obtain ⟨left, leftReply⟩ := session.unobserved_serve request
  obtain ⟨right, rightReply⟩ := other.unobserved_serve request
  rw [alike] at left leftReply
  exact ⟨left.symm.trans right, leftReply.symm.trans rightReply⟩

theorem after (alike : session.Alike other) (requests : List Request) :
    (session.after requests).Alike (other.after requests) := by
  induction requests generalizing session other with
  | nil => exact alike
  | cons request later ih => exact ih (alike.serve request).1

theorem replies_eq (alike : session.Alike other) (requests : List Request) :
    session.replies requests = other.replies requests := by
  induction requests generalizing session other with
  | nil => rfl
  | cons request later ih =>
    obtain ⟨next, reply⟩ := alike.serve request
    rw [replies, replies, reply, ih next]

theorem ask_eq (alike : session.Alike other) (question : Question) :
    session.ask question = other.ask question := by
  rw [← ask_unobserved session, alike, ask_unobserved]

/-- An observer that is attached now makes sessions the same that differed in theirs. -/
theorem observe_eq (alike : session.Alike other) :
    (session.serve .observe).1 = (other.serve .observe).1 := by
  -- To attach an observer is the same whether or not the earlier one is taken away before.
  have attached (session : Session) :
      (session.serve .observe).1 = (session.unobserved.serve .observe).1 := rfl
  rw [attached session, attached other, alike]

end Alike

/-! ### Clearing -/

/-- The requests that clear a session. -/
def clearing : List Request := [.clearMemory, .clearBreakpoints, .reset]

/-- The order of two of these requests does not matter. -/
theorem serve_comm_of_clearing (session : Session) {first second : Request}
    (one : first ∈ clearing) (two : second ∈ clearing) :
    ((session.serve first).1.serve second).1 = ((session.serve second).1.serve first).1 := by
  simp only [clearing, List.mem_cons, List.not_mem_nil, or_false] at one two
  rcases one with rfl | rfl | rfl <;> rcases two with rfl | rfl | rfl <;> rfl

theorem after_of_perm (session : Session) {requests : List Request}
    (order : requests.Perm clearing) : session.after requests = session.after clearing := by
  refine List.Perm.foldl_eq' order ?_ session
  intro first one second two later
  exact serve_comm_of_clearing later (order.subset one) (order.subset two)

/-- Clearing leaves nothing but the observer and the address at which the program began. -/
theorem after_clearing (start_eq : session.start = origin) :
    session.after clearing =
      { initial with machine.memory.observed := session.machine.memory.observed } := by
  obtain ⟨machine, listing, start, stop⟩ := session
  obtain rfl : start = origin := start_eq
  rfl

/-- What it is for a session to be as good as new. -/
structure Renewed (session : Session) : Prop where
  /-- What observes its memory is all in which it may differ from a new session. -/
  state_eq : session =
    { initial with machine.memory.observed := session.machine.memory.observed }
  replies_eq : ∀ later, session.replies later = initial.replies later
  answers_eq : ∀ later question, (session.after later).ask question =
    (initial.after later).ask question
  /-- Once an observer is attached to both, it is told the same writes. -/
  told_eq : ∀ before later, session.after (before ++ .observe :: later) =
    initial.after (before ++ .observe :: later)

theorem Renewed.ask_eq (renewed : session.Renewed) (question : Question) :
    session.ask question = initial.ask question := renewed.answers_eq [] question

theorem renewed_of_eq (state_eq : session =
    { initial with machine.memory.observed := session.machine.memory.observed }) :
    session.Renewed := by
  have alike : session.Alike initial := by
    rw [Alike, state_eq]
    rfl
  constructor
  case state_eq => exact state_eq
  case replies_eq => exact alike.replies_eq
  case answers_eq => exact fun later => (alike.after later).ask_eq
  case told_eq =>
    intro before later
    have attached := (alike.after before).observe_eq
    rw [after, List.foldl_append, List.foldl_cons, after, List.foldl_append, List.foldl_cons]
    exact congrArg (List.foldl _ · later) attached

/-- Whatever has been asked of a session, clearing it in any order makes it as good as new. -/
theorem clearing_renews (history : List Request) {requests : List Request}
    (order : requests.Perm clearing) : ((initial.after history).after requests).Renewed := by
  -- Clearing memory moves the end of the program to its start, so this has to be where it was.
  have start_eq : (initial.after history).start = origin := (remembers_after history).start_eq
  have cleared := after_clearing start_eq
  rw [after_of_perm _ order]
  apply renewed_of_eq
  rw [cleared]

/-- A program has run up to a breakpoint under an observer, and a cell has been written by hand. -/
def worn : List Request :=
  [.observe, .addBreakpoint 0x8002, .assemble movesThenHalts, .run 9, .write 0x9000 7]

def resetFirst : List Request := [.reset, .clearMemory, .clearBreakpoints]

/-- The cell and the program counter are forgotten, and a breakpoint that was there is gone. -/
theorem clearing_renews_worn :
    resetFirst.Perm clearing ∧
      (initial.after worn).ask .programCounter = .word 0x8002 ∧
      (initial.after worn).ask (.cell 0x9000) = .byte 7 ∧
      ((initial.after worn).after resetFirst).Renewed ∧
      ((initial.after worn).after resetFirst).ask .programCounter = .word 0x8000 ∧
      ((initial.after worn).after resetFirst).ask (.cell 0x9000) = .byte 0 ∧
      ((initial.after worn).after resetFirst).replies [.removeBreakpoint 0x8002] =
        [.removed false] := by
  have order : resetFirst.Perm clearing := by decide
  have renewed := clearing_renews worn order
  refine ⟨order, by decide +kernel, by decide +kernel, renewed, ?_, ?_, ?_⟩
  · rw [renewed.ask_eq]
    rfl
  · rw [renewed.ask_eq]
    decide +kernel
  · rw [renewed.replies_eq]
    rfl

end I8085.Session
