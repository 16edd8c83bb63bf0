/-
Module: I8085.Proofs.SessionAssembly
Layer: Proofs
Purpose: A request to assemble either gives a session its program or changes nothing. A source with
  something wrong is rejected with at least one complaint, and the session is as it was. Every
  other source is loaded: memory holds its bytes from the origin on and is unchanged elsewhere, and
  the processor is reset. There is no third case, since an assembled program ends below the top of
  memory, whatever its first address, and so can be loaded into any memory
  (`Session.assemble_outcome`).
Imports: I8085.Proofs.ProgramSteps, I8085.Session
Main exports: Memory.exists_load_iff, Memory.read_of_load, Assembly.diagnostics_ne_nil,
  Session.Given, Session.exists_given_of_ok, Session.Outcome, Session.assemble_outcome
-/
import I8085.Proofs.ProgramSteps
import I8085.Session

namespace I8085

namespace Memory

variable {memory loaded : Memory} {bytes : List Byte} {start : Word}

/-- A program can be loaded exactly if it ends below the top of memory. -/
theorem exists_load_iff :
    (∃ loaded, memory.load bytes start = .ok loaded) ↔ start.toNat + bytes.length ≤ size := by
  unfold load
  constructor
  · rintro ⟨loaded, answer⟩
    split at answer
    next => cases answer
    next fits => exact Nat.le_of_not_lt fits
  · intro fits
    exact ⟨_, if_neg (Nat.not_lt_of_le fits)⟩

/-- Loading a program changes no cell before its first byte or after its last. -/
theorem read_of_load (answer : memory.load bytes start = .ok loaded) {address : Word}
    (outside : address < start ∨ start.toNat + bytes.length ≤ address.toNat) :
    loaded.read address = memory.read address := by
  have fits := exists_load_iff.1 ⟨loaded, answer⟩
  unfold load at answer
  rw [if_neg (Nat.not_lt_of_le fits)] at answer
  obtain rfl := Except.ok.inj answer
  apply read_writeAll_of_ne
  rintro index below rfl
  rw [UInt16.lt_iff_toNat_lt, toNat_add_ofNat (by omega)] at outside
  omega

end Memory

namespace Assembly

/-- A source that is not assembled is complained about. -/
theorem diagnostics_ne_nil {lines : List (List Char)} {start : Word} {mode : Mode}
    {diagnostics : List Diagnostic} (refused : ofLines lines start mode = .error diagnostics) :
    diagnostics ≠ [] := by
  unfold ofLines at refused
  simp only at refused
  split at refused
  next => cases refused
  next found =>
    obtain rfl := Except.error.inj refused
    intro none
    have sorted := List.mergeSort_perm (Passes.ofLines lines start mode).diagnostics
      Diagnostic.precedes
    rw [none] at sorted
    exact found (List.isEmpty_iff.2 sorted.nil_eq.symm)

/-- An assembled program can be loaded into any memory. -/
theorem exists_load {lines : List (List Char)} {start : Word} {mode : Mode} {program : Program}
    (assembled : ofLines lines start mode = .ok program) (memory : Memory) :
    ∃ loaded, memory.load program.bytes start = .ok loaded :=
  Memory.exists_load_iff.2 (length_bytes_le assembled)

end Assembly

namespace Session

/-- What it is for a session to have been given a program. -/
structure Given (before after : Session) (bytes : List Byte) : Prop where
  held : after.machine.memory.Holds origin bytes
  /-- Every cell that holds no byte of the program is as before. -/
  elsewhere : ∀ address,
    address < origin ∨ origin.toNat + bytes.length ≤ address.toNat →
      after.machine.memory.read address = before.machine.memory.read address
  cpu_eq : after.machine.cpu = .powerOn
  breakpoints_eq : after.machine.breakpoints = before.machine.breakpoints
  start_eq : after.start = origin
  stop_eq : after.stop.toNat = (0x8000 + bytes.length) % 65536

variable {session : Session} {source : String}

theorem assemble_of_error {diagnostics : List Diagnostic}
    (refused : I8085.assemble source origin .strict = .error diagnostics) :
    session.assemble source = (session, .rejected diagnostics) := by
  simp only [assemble, refused]

/-- A source that can be assembled is loaded. -/
theorem exists_given_of_ok (session : Session) {program : Program}
    (assembled : I8085.assemble source origin .strict = .ok program) :
    ∃ next, session.assemble source = (next, .loaded program) ∧
      next.listing = program.listing ∧ session.Given next program.bytes := by
  have start : program.start = origin := by
    obtain ⟨_, rfl⟩ := Assembly.passes_of_ok assembled
    rfl
  obtain ⟨memory, answer⟩ := Assembly.exists_load assembled session.machine.memory
  have loaded := answer
  rw [← start] at answer
  let next : Session :=
    { machine := { session.machine with memory }.reset
      listing := program.listing
      start := program.start
      stop := program.stop }
  have outcome : session.assemble source = (next, .loaded program) := by
    simp only [assemble, assembled, answer]
    rfl
  refine ⟨next, outcome, rfl, ?_⟩
  constructor
  case held => exact Memory.holds_of_load loaded
  case elsewhere => exact fun address outside => Memory.read_of_load loaded outside
  case cpu_eq => rfl
  case breakpoints_eq => rfl
  case start_eq => exact start
  case stop_eq =>
    change program.stop.toNat = _
    rw [Program.stop, start, UInt16.toNat_add, UInt16.toNat_ofNat', Nat.add_mod_mod]
    rfl

/-- What it is for a request to assemble a source to leave a session with a report. -/
structure Outcome (session : Session) (source : String) (next : Session) (report : Report) :
    Prop where
  /-- Without success, an error is counted and the session is as it was. -/
  unchanged : report.success = false → 1 ≤ report.errorCount ∧ next = session
  /-- With success, the session has been given the bytes of the report. -/
  given : report.success = true → session.Given next report.bytes
  /-- There is success exactly if the source can be assembled. -/
  success_iff : report.success = true ↔
    ∃ program, I8085.assemble source origin .strict = .ok program ∧
      report = .loaded program ∧ next.listing = program.listing
  /-- The memory never refuses the program. -/
  never_refused : ∀ error, report ≠ .notLoaded error

/-- A request to assemble changes nothing, or it succeeds and gives the session a program. That the
memory refuses a program does not happen: a program that was assembled for any address in either
mode ends below the top of memory and can be loaded there into any memory. -/
theorem assemble_outcome (session : Session) (source : String) :
    session.Outcome source (session.assemble source).1 (session.assemble source).2 ∧
      ∀ (text : String) (start : Word) (mode : Mode) (program : Program),
        I8085.assemble text start mode = .ok program →
          start.toNat + program.bytes.length ≤ 65536 ∧
          ∀ memory : Memory, ∃ loaded, memory.load program.bytes start = .ok loaded := by
  constructor
  · rcases assembled : I8085.assemble source origin .strict with diagnostics | program
    · have some := Assembly.diagnostics_ne_nil assembled
      rw [assemble_of_error assembled]
      constructor
      case unchanged => exact fun _ => ⟨List.length_pos_iff.2 some, rfl⟩
      case given => exact fun success => nomatch success
      case success_iff =>
        constructor
        · exact fun success => nomatch success
        · rintro ⟨program, also, _⟩
          rw [assembled] at also
          cases also
      case never_refused => exact fun error same => nomatch same
    · obtain ⟨next, outcome, listing, given⟩ := exists_given_of_ok session assembled
      rw [outcome]
      constructor
      case unchanged => exact fun failure => nomatch failure
      case given => exact fun _ => given
      case success_iff => exact ⟨fun _ => ⟨program, assembled, rfl, listing⟩, fun _ => rfl⟩
      case never_refused => exact fun error same => nomatch same
  · intro text start mode program assembled
    exact ⟨Assembly.length_bytes_le assembled, Assembly.exists_load assembled⟩

/-- A session that stands at a breakpoint, with a byte in its memory. -/
def standing : Session where
  machine :=
    { cpu := { a := 0x12, pc := 0x9000 }
      memory := Memory.blank.write 0x8003 0x34
      breakpoints := Breakpoints.empty.insert 0x9000 }

/-- A jump to a label that is not defined changes nothing. A jump to itself is loaded, and the byte
after it stays. -/
theorem assemble_outcome_standing :
    (standing.assemble "JMP X").1 = standing ∧
      standing.Given (standing.assemble "X: JMP X").1 [0xC3, 0x00, 0x80] ∧
      (standing.assemble "X: JMP X").1.machine.memory.read 0x8003 = 0x34 := by
  obtain ⟨rejected, _⟩ := assemble_outcome standing "JMP X"
  obtain ⟨loaded, _⟩ := assemble_outcome standing "X: JMP X"
  have bytes : (standing.assemble "X: JMP X").2.bytes = [0xC3, 0x00, 0x80] := by
    decide +kernel
  have given := loaded.given (by decide +kernel)
  rw [bytes] at given
  refine ⟨(rejected.unchanged (by decide +kernel)).2, given, ?_⟩
  rw [given.elsewhere 0x8003 (.inr (by decide))]
  exact Memory.read_write _ _ _ _

end Session

end I8085
