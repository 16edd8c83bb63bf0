/-
Module: I8085.Session.Question
Layer: Session
Purpose: What a front-end can look at in a session without changing it: the processor, cells of the
  memory, and the program that was given last. What is requested and what is asked may alternate, so
  the replies to all requests are here as well.
Imports: I8085.Session.Request
Main exports: Session.Question, Session.Answer, Session.ask, Session.replies
-/
import I8085.Session.Request

namespace I8085

namespace Session

inductive Question where
  | register (register : Register)
  | programCounter
  | stackPointer
  /-- The accumulator and the flags as one word. -/
  | status
  | flags
  | halted
  | interruptEnabled
  | cell (address : Word)
  /-- A run of cells, fewer when the top of memory comes first. -/
  | cells (start : Word) (length : Nat)
  | currentLine
  /-- The first address of the program. -/
  | start
  | stop
deriving Repr, DecidableEq

inductive Answer where
  | byte (value : Byte)
  | bytes (values : List Byte)
  | word (value : Word)
  | flags (value : Flags)
  | truth (value : Bool)
  | line? (value : Option Nat)
deriving Repr, DecidableEq

def ask (session : Session) : Question → Answer
  | .register register => .byte (session.machine.get register)
  | .programCounter => .word session.machine.cpu.pc
  | .stackPointer => .word session.machine.cpu.sp
  | .status => .word (session.machine.cpu.pair .psw)
  | .flags => .flags session.machine.cpu.flags
  | .halted => .truth session.machine.cpu.halted
  | .interruptEnabled => .truth session.machine.cpu.interruptEnable
  | .cell address => .byte (session.machine.memory.read address)
  | .cells start length => .bytes (session.machine.memory.slice start length)
  | .currentLine => .line? session.currentLine?
  | .start => .word session.start
  | .stop => .word session.stop

/-- The replies to requests, one after another. -/
def replies (session : Session) : List Request → List Reply
  | [] => []
  | request :: later => (session.serve request).2 :: (session.serve request).1.replies later

end Session

end I8085
