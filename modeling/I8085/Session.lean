/-
Module: I8085.Session
Layer: Session
Purpose: What a front-end works with: a machine, the listing of the program it was given last, and
  the addresses between which that program lies. Assembling loads the program at the origin and
  resets the processor; if anything is wrong with the source, nothing changes. Clearing memory
  forgets the program.
Imports: I8085.Assembly.Program, I8085.Machine.Run
Main exports: Session, Session.initial, Session.Report, Session.assemble, Session.step,
  Session.reported, Session.run, Session.reset, Session.clearMemory, Session.currentLine?
-/
import I8085.Assembly.Program
import I8085.Machine.Run

namespace I8085

structure Session where
  machine : Machine := {}
  listing : Listing := .empty
  /-- The first address of the program. -/
  start : Word := origin
  stop : Word := origin

/-- The answer to a request to assemble. -/
inductive Session.Report where
  /-- Something is wrong with the source. -/
  | rejected (diagnostics : List Diagnostic)
  /-- The program could not be put into memory. -/
  | notLoaded (error : MemoryError)
  | loaded (program : Program)

namespace Session.Report

/-- Whether the program is in memory. -/
def success : Report → Bool
  | rejected _ => false
  | notLoaded _ => false
  | loaded _ => true

def bytes : Report → List Byte
  | rejected _ => []
  | notLoaded _ => []
  | loaded program => program.bytes

/-- The first address of the program. Without a program it is where one would have been. -/
def start : Report → Word
  | rejected _ => origin
  | notLoaded _ => origin
  | loaded program => program.start

def stop : Report → Word
  | rejected _ => origin
  | notLoaded _ => origin
  | loaded program => program.stop

def errorMessage? : Report → Option String
  | rejected diagnostics => diagnostics.head?.map Diagnostic.display
  | notLoaded error => some error.message
  | loaded _ => none

/-- The line of the first complaint, if it is about a line. -/
def errorLine? : Report → Option Nat
  | rejected diagnostics => diagnostics.head?.map Diagnostic.line
  | notLoaded _ => none
  | loaded _ => none

def errorCount : Report → Nat
  | rejected diagnostics => diagnostics.length
  | notLoaded _ => 1
  | loaded _ => 0

/-- The warnings, each with its line. -/
def warnings : Report → List String
  | rejected _ => []
  | notLoaded _ => []
  | loaded program => program.warnings.map Warning.display

end Session.Report

namespace Session

def initial : Session := {}

instance : Inhabited Session := ⟨initial⟩

/-- Assemble a source text, load the program and reset the processor. -/
def assemble (session : Session) (source : String) : Session × Report :=
  match I8085.assemble source origin .strict with
  | .error diagnostics => (session, .rejected diagnostics)
  | .ok program =>
      match session.machine.memory.load program.bytes program.start with
      | .error e => (session, .notLoaded e)
      | .ok memory =>
          let machine := { session.machine with memory }.reset
          ({ machine, listing := program.listing, start := program.start, stop := program.stop },
            .loaded program)

def step (session : Session) : Session × Except Fault Bool :=
  let (machine, answer) := session.machine.step
  ({ session with machine }, answer)

/-- The outcome of a run as a front-end is told it. The steps are counted in 32 bits. -/
def reported : Stop → Stop
  | .halted steps => .halted (UInt32.ofNat steps).toNat
  | .breakpoint address steps => .breakpoint address (UInt32.ofNat steps).toNat
  | .stepLimit steps => .stepLimit (UInt32.ofNat steps).toNat

def run (session : Session) (budget : Nat) : Session × Except Fault Stop :=
  let (machine, answer) := session.machine.run budget
  ({ session with machine }, answer.map reported)

def reset (session : Session) : Session := { session with machine := session.machine.reset }

/-- Zero the memory and forget the program. -/
def clearMemory (session : Session) : Session :=
  { session with
    machine.memory := session.machine.memory.clear
    listing := .empty
    stop := session.start }

def edit (session : Session) (change : Cpu.Edit) : Session :=
  { session with machine := session.machine.edit change }

/-- Write a value of any size at an address of any size. -/
def write (session : Session) (address value : Nat) : Except MemoryError Session :=
  (session.machine.memory.writeAt address value).map fun memory =>
    { session with machine.memory := memory }

def addBreakpoint (session : Session) (address : Word) : Session :=
  { session with machine := session.machine.addBreakpoint address }

/-- Remove a breakpoint. The answer is whether there was one. -/
def removeBreakpoint (session : Session) (address : Word) : Bool × Session :=
  let (present, machine) := session.machine.removeBreakpoint address
  (present, { session with machine })

def clearBreakpoints (session : Session) : Session :=
  { session with machine := session.machine.clearBreakpoints }

/-- The line of source from which the instruction at the program counter came. -/
def currentLine? (session : Session) : Option Nat :=
  (session.listing.place? session.machine.cpu.pc).map Listing.Place.line

end Session

end I8085
