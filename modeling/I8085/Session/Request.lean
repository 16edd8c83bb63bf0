/-
Module: I8085.Session.Request
Layer: Session
Purpose: What a front-end can ask of a session, as far as it can change the session. Each request
  has a reply, and a session is worked by one request after another.
Imports: I8085.Session
Main exports: Session.Request, Session.Reply, Session.serve, Session.after
-/
import I8085.Session

namespace I8085

namespace Session

inductive Request where
  | assemble (source : String)
  | step
  | run (budget : Nat)
  | reset
  | clearMemory
  | edit (change : Cpu.Edit)
  | write (address value : Nat)
  | addBreakpoint (address : Word)
  | removeBreakpoint (address : Word)
  | clearBreakpoints
  /-- Have the writes to memory told from now on. -/
  | observe
  | unobserve
deriving Repr, DecidableEq

inductive Reply where
  | assembled (report : Report)
  /-- Whether an instruction was executed. -/
  | stepped (result : Except Fault Bool)
  | ran (result : Except Fault Stop)
  | written (result : Except MemoryError Unit)
  /-- Whether there was a breakpoint. -/
  | removed (present : Bool)
  | done

/-- The session after a request, and the reply. -/
def serve (session : Session) : Request → Session × Reply
  | .assemble source => ((session.assemble source).1, .assembled (session.assemble source).2)
  | .step => (session.step.1, .stepped session.step.2)
  | .run budget => ((session.run budget).1, .ran (session.run budget).2)
  | .reset => (session.reset, .done)
  | .clearMemory => (session.clearMemory, .done)
  | .edit change => (session.edit change, .done)
  | .write address value =>
      match session.write address value with
      | .ok next => (next, .written (.ok ()))
      | .error e => (session, .written (.error e))
  | .addBreakpoint address => (session.addBreakpoint address, .done)
  | .removeBreakpoint address =>
      ((session.removeBreakpoint address).2, .removed (session.removeBreakpoint address).1)
  | .clearBreakpoints => (session.clearBreakpoints, .done)
  | .observe => ({ session with machine.memory := session.machine.memory.observe }, .done)
  | .unobserve => ({ session with machine.memory := session.machine.memory.unobserve }, .done)

/-- The session after requests, one after another. -/
def after (session : Session) (requests : List Request) : Session :=
  requests.foldl (fun session request => (session.serve request).1) session

end Session

end I8085
