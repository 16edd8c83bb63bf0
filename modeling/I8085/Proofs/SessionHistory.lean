/-
Module: I8085.Proofs.SessionHistory
Layer: Proofs
Purpose: What a session says of its program follows from what has been asked of it. The program of a
  history is the one assembled last, unless memory has been cleared since (`Session.Current`);
  sources that are rejected and every other request leave it as it is. The line that a session
  tells is the one of this program from which the instruction at the program counter came, and the
  addresses between which it tells the program to lie are those of this program
  (`Session.follows_history`).
Imports: I8085.Proofs.ProgramListing, I8085.Proofs.SessionAssembly, I8085.Session.Request,
  Mathlib.Data.List.Basic, Mathlib.Data.List.Induction
Main exports: Assembly.StartsAt, Assembly.startsAt_of_mem, Assembly.place?_eq_some_iff_startsAt,
  Session.Forgets, Session.Current, Session.current_concat, Session.Remembers,
  Session.remembers_after, Session.Follows, Session.follows_history
-/
import I8085.Proofs.ProgramListing
import I8085.Proofs.SessionAssembly
import I8085.Session.Request
import Mathlib.Data.List.Basic
import Mathlib.Data.List.Induction

namespace I8085

/-! ### The lines of a program and their addresses -/

/-- A statement that is met at an address has it from the statements before. -/
theorem Layout.exists_split_of_addressed {start : Word} {mode : Mode} {statements : List Statement}
    {offset : Nat} {statement : Statement} {address : Word}
    (met : (statement, address) ∈ addressed start mode offset statements) :
    ∃ before after, statements = before ++ statement :: after ∧
      address = start + UInt16.ofNat (offset + widths mode before) := by
  induction statements generalizing offset with
  | nil => cases met
  | cons first rest ih =>
    rcases List.mem_cons.1 met with here | later
    · obtain ⟨rfl, rfl⟩ := Prod.mk.inj here
      exact ⟨[], rest, rfl, rfl⟩
    · obtain ⟨before, after, rfl, rfl⟩ := ih later
      refine ⟨first :: before, after, rfl, ?_⟩
      rw [widths, widths, List.map_cons, List.sum_cons, Nat.add_assoc]

namespace Assembly

/-- Whether a line of a source has an instruction whose first byte is at an address. -/
def StartsAt (lines : List (List Char)) (start : Word) (labels : LabelTable) (line : Nat)
    (address : Word) : Prop :=
  ∃ (index : Nat) (opcode : Byte) (data : List Byte), line = index + 1 ∧
    Emits lines labels line (opcode :: data) ∧ lineAddress start labels lines index = address

variable {lines : List (List Char)} {start : Word} {mode : Mode} {program : Program}

/-- An instruction of a program stands at the address of its line. -/
theorem address_of_mem (assembled : ofLines lines start mode = .ok program) {encoded : Encoded}
    (member : encoded ∈ instructions lines start mode) :
    ∃ index, encoded.line = index + 1 ∧
      encoded.address = lineAddress start program.labels lines index := by
  rw [instructions_eq, List.mem_filterMap] at member
  obtain ⟨⟨statement, address⟩, met, made⟩ := member
  obtain ⟨rfl, rfl, _⟩ := Statement.encoded?_eq_some_iff.1 made
  obtain ⟨before, after, split, place⟩ := Layout.exists_split_of_addressed met
  obtain ⟨first, rest, parsed, rfl, rfl⟩ := exists_split_of_successes split
  have here : (parseLines lines)[first.length]? = some (.ok encoded.placement.statement) := by
    simp [parsed]
  refine ⟨first.length, line_of_parsed here, ?_⟩
  rw [place, lineAddress, length_emitted_before assembled parsed, Nat.zero_add]

theorem startsAt_of_mem (assembled : ofLines lines start mode = .ok program) {encoded : Encoded}
    (member : encoded ∈ instructions lines start mode) :
    StartsAt lines start program.labels encoded.line encoded.address := by
  have consists := consists_of_ok assembled
  obtain ⟨index, line, place⟩ := address_of_mem assembled member
  obtain ⟨opcode, data, bytes⟩ := List.exists_cons_of_ne_nil (consists.bytes_ne_nil member)
  have emits := (consists.emits_iff encoded.line encoded.bytes).2 ⟨encoded, member, rfl, rfl⟩
  rw [bytes] at emits
  exact ⟨index, opcode, data, line, emits, place.symm⟩

/-- The listing of a program finds a line at the address of its first byte and nowhere else. -/
theorem place?_eq_some_iff_startsAt (assembled : ofLines lines start mode = .ok program)
    (address : Word) (line : Nat) :
    (program.listing.place? address).map Listing.Place.line = some line ↔
      StartsAt lines start program.labels line address := by
  have consists := consists_of_ok assembled
  rw [Option.map_eq_some_iff]
  constructor
  · rintro ⟨place, found, rfl⟩
    obtain ⟨encoded, member, rfl, rfl⟩ := (consists.place?_eq_some_iff address place).1 found
    exact startsAt_of_mem assembled member
  · rintro ⟨index, opcode, data, rfl, emits, rfl⟩
    obtain ⟨encoded, member, line, _⟩ := (consists.emits_iff _ _).1 emits
    obtain ⟨again, number, place⟩ := address_of_mem assembled member
    obtain rfl : index = again := Nat.succ.inj (line.symm.trans number)
    exact ⟨encoded.place, (consists.place?_eq_some_iff _ _).2 ⟨encoded, member, place, rfl⟩, line⟩

end Assembly

/-! ### The program of a history -/

namespace Session

/-- Whether a request makes a session give up the program that it has, for another one or for none.
-/
def Forgets (session : Session) : Request → Prop
  | .assemble source => (session.assemble source).2.success = true
  | .clearMemory => True
  | _ => False

/-- Whether a source is the last one that was assembled with success in a history of requests to a
new session, and its program has not been given up since. -/
def Current (history : List Request) (source : String) (program : Program) : Prop :=
  ∃ before rest, history = before ++ .assemble source :: rest ∧
    ((initial.after before).assemble source).2 = .loaded program ∧
    ∀ earlier request later, rest = earlier ++ request :: later →
      ¬Forgets (initial.after (before ++ .assemble source :: earlier)) request

variable {session : Session} {history : List Request} {request : Request} {source : String}
  {program : Program}

theorem after_concat (session : Session) (history : List Request) (request : Request) :
    session.after (history ++ [request]) = ((session.after history).serve request).1 := by
  rw [after, List.foldl_append]
  rfl

/-- One more request either gives a new program, or keeps the one that there was. -/
theorem current_concat :
    Current (history ++ [request]) source program ↔
      (request = .assemble source ∧
          ((initial.after history).assemble source).2 = .loaded program) ∨
        (¬Forgets (initial.after history) request ∧ Current history source program) := by
  -- The last request is the one that assembled the source, or it comes after that one.
  constructor
  · rintro ⟨before, rest, split, loaded, kept⟩
    rcases List.eq_nil_or_concat' rest with rfl | ⟨middle, last, rfl⟩
    · obtain ⟨rfl, same⟩ := List.append_inj' split rfl
      exact .inl ⟨List.singleton_inj.1 same, loaded⟩
    · have regrouped : history ++ [request] = (before ++ .assemble source :: middle) ++ [last] := by
        rw [split, List.append_assoc, List.cons_append]
      obtain ⟨rfl, same⟩ := List.append_inj' regrouped rfl
      obtain rfl := List.singleton_inj.1 same
      refine .inr ⟨kept middle request [] rfl, before, middle, rfl, loaded, ?_⟩
      rintro earlier other later rfl
      apply kept earlier other (later ++ [request])
      rw [List.append_assoc, List.cons_append]
  · rintro (⟨rfl, loaded⟩ | ⟨keeps, before, rest, rfl, loaded, kept⟩)
    · refine ⟨history, [], rfl, loaded, ?_⟩
      intro earlier request later split
      simp at split
    · refine ⟨before, rest ++ [request], ?_, loaded, ?_⟩
      · rw [List.append_assoc, List.cons_append]
      · intro earlier other later split
        rcases List.eq_nil_or_concat' later with rfl | ⟨middle, last, rfl⟩
        · obtain ⟨rfl, same⟩ := List.append_inj' split rfl
          obtain rfl := List.singleton_inj.1 same
          exact keeps
        · have regrouped : rest ++ [request] = (earlier ++ other :: middle) ++ [last] := by
            rw [split, List.append_assoc, List.cons_append]
          obtain ⟨rfl, _⟩ := List.append_inj' regrouped rfl
          exact kept earlier other middle rfl

/-! ### What a session keeps of its program -/

/-- A request that does not make the session give up its program leaves what the session knows of
it. -/
theorem kept_of_not_forgets (keeps : ¬session.Forgets request) :
    (session.serve request).1.listing = session.listing ∧
      (session.serve request).1.start = session.start ∧
      (session.serve request).1.stop = session.stop := by
  cases request with
  | assemble source =>
    have outcome := (assemble_outcome session source).1
    have same := (outcome.unchanged (Bool.eq_false_iff.2 keeps)).2
    rw [serve, same]
    exact ⟨rfl, rfl, rfl⟩
  | clearMemory => exact absurd trivial keeps
  | write address value =>
    rw [serve, write]
    rcases session.machine.memory.writeAt address value with error | memory
    · exact ⟨rfl, rfl, rfl⟩
    · exact ⟨rfl, rfl, rfl⟩
  | step | run | reset | edit | addBreakpoint | removeBreakpoint | clearBreakpoints | observe
    | unobserve => exact ⟨rfl, rfl, rfl⟩

/-- What a session knows of the program of its history. -/
structure Remembers (session : Session) (history : List Request) : Prop where
  start_eq : session.start = origin
  known : ∀ source program, Current history source program →
    I8085.assemble source origin .strict = .ok program ∧ session.listing = program.listing ∧
      session.stop.toNat = (0x8000 + program.bytes.length) % 65536
  unknown : (∀ source program, ¬Current history source program) →
    session.listing = .empty ∧ session.stop = origin

theorem remembers_initial : Remembers initial [] where
  start_eq := rfl
  known := by
    rintro source program ⟨before, rest, split, _⟩
    simp at split
  unknown _ := ⟨rfl, rfl⟩

/-- A request to assemble that succeeds is one by which the session gives up its program. -/
theorem forgets_of_loaded (loaded : (session.assemble source).2 = .loaded program) :
    session.Forgets (.assemble source) := by
  rw [Forgets, loaded]
  rfl

/-- A session that keeps its program remembers it. -/
theorem Remembers.concat_of_not_forgets (remembers : (initial.after history).Remembers history)
    (keeps : ¬Forgets (initial.after history) request) :
    (initial.after (history ++ [request])).Remembers (history ++ [request]) := by
  have current (source : String) (program : Program) :
      Current (history ++ [request]) source program ↔ Current history source program := by
    rw [current_concat]
    constructor
    · rintro (⟨rfl, loaded⟩ | ⟨_, same⟩)
      · exact absurd (forgets_of_loaded loaded) keeps
      · exact same
    · exact fun same => .inr ⟨keeps, same⟩
  obtain ⟨listing, start, stop⟩ := kept_of_not_forgets keeps
  rw [after_concat]
  constructor
  case start_eq => rw [start, remembers.start_eq]
  case known =>
    intro source program now
    rw [listing, stop]
    exact remembers.known source program ((current source program).1 now)
  case unknown =>
    intro none
    rw [listing, stop]
    exact remembers.unknown fun source program now =>
      none source program ((current source program).2 now)

/-- A session that is given a program remembers that one. -/
theorem remembers_of_success
    (success : ((initial.after history).assemble source).2.success = true) :
    (initial.after (history ++ [.assemble source])).Remembers (history ++ [.assemble source]) := by
  have outcome := (assemble_outcome (initial.after history) source).1
  obtain ⟨program, assembled, loaded, listing⟩ := outcome.success_iff.1 success
  have given := outcome.given success
  rw [loaded] at given
  have next : ((initial.after history).serve (.assemble source)).1 =
    ((initial.after history).assemble source).1 := by simp only [serve]
  rw [after_concat, next]
  constructor
  case start_eq => exact given.start_eq
  case known =>
    intro other another now
    rcases current_concat.1 now with ⟨same, again⟩ | ⟨keeps, _⟩
    · obtain rfl := Request.assemble.inj same
      obtain rfl := Report.loaded.inj (loaded.symm.trans again)
      exact ⟨assembled, listing, given.stop_eq⟩
    · exact absurd success keeps
  case unknown =>
    intro none
    exact absurd (current_concat.2 (.inl ⟨rfl, loaded⟩)) (none source program)

/-- A session whose memory is cleared remembers no program. -/
theorem Remembers.concat_clearMemory (remembers : (initial.after history).Remembers history) :
    (initial.after (history ++ [.clearMemory])).Remembers (history ++ [.clearMemory]) := by
  rw [after_concat, serve]
  constructor
  case start_eq => exact remembers.start_eq
  case known =>
    intro source program now
    rcases current_concat.1 now with ⟨same, _⟩ | ⟨keeps, _⟩
    · cases same
    · exact absurd trivial keeps
  case unknown => exact fun _ => ⟨rfl, remembers.start_eq⟩

/-- Every session that has come from a new one by requests remembers the program of its history. -/
theorem remembers_after (history : List Request) :
    (initial.after history).Remembers history := by
  induction history using List.reverseRecOn with
  | nil => exact remembers_initial
  | append_singleton history request ih =>
    by_cases forgets : Forgets (initial.after history) request
    · cases request with
      | assemble source => exact remembers_of_success forgets
      | clearMemory => exact ih.concat_clearMemory
      | step | run | reset | edit | write | addBreakpoint | removeBreakpoint | clearBreakpoints
        | observe | unobserve => exact forgets.elim
    · exact ih.concat_of_not_forgets forgets

/-! ### What a session says of its program -/

/-- What it is for a session to speak of the program of its history. -/
structure Follows (session : Session) (history : List Request) : Prop where
  /-- The line at the program counter is the one of the program whose instruction starts there. -/
  line_iff : ∀ line, session.currentLine? = some line ↔
    ∃ source program, Current history source program ∧
      Assembly.StartsAt (Text.lines source.toList) origin program.labels line
        session.machine.cpu.pc
  start_eq : session.start = 0x8000
  /-- The program ends after its last byte. -/
  stop_eq : ∀ source program, Current history source program →
    session.stop.toNat = (0x8000 + program.bytes.length) % 65536
  /-- Without a program its end is its start. -/
  stop_of_none : (∀ source program, ¬Current history source program) → session.stop = 0x8000

theorem place?_empty (address : Word) : Listing.empty.place? address = none := by
  unfold Listing.place? Directory.find? Directory.search
  rfl

/-- Whatever has been asked of a session, with success or without, it speaks of the program of its
history. -/
theorem follows_history (history : List Request) : (initial.after history).Follows history := by
  -- What is remembered is a listing; where it finds a line is a matter of the assembler.
  have remembers := remembers_after history
  constructor
  case line_iff =>
    intro line
    constructor
    · intro told
      by_cases none : ∀ source program, ¬Current history source program
      · rw [currentLine?, (remembers.unknown none).1, place?_empty] at told
        cases told
      · obtain ⟨source, program, current⟩ : ∃ source program, Current history source program := by
          simpa using none
        obtain ⟨assembled, listing, _⟩ := remembers.known source program current
        rw [currentLine?, listing] at told
        exact ⟨source, program, current,
          (Assembly.place?_eq_some_iff_startsAt assembled _ _).1 told⟩
    · rintro ⟨source, program, current, starts⟩
      obtain ⟨assembled, listing, _⟩ := remembers.known source program current
      rw [currentLine?, listing]
      exact (Assembly.place?_eq_some_iff_startsAt assembled _ _).2 starts
  case start_eq => exact remembers.start_eq
  case stop_eq =>
    intro source program current
    exact (remembers.known source program current).2.2
  case stop_of_none => exact fun none => (remembers.unknown none).2

/-- Two instructions with an empty line between them. -/
def movesThenHalts : String := "MVI A, #1\n\nHLT"

/-- The first instruction has been executed, and then a source was rejected. -/
def rejectedLater : List Request := [.assemble movesThenHalts, .step, .assemble "JMP X"]

/-- The line told is that of the second instruction. -/
theorem follows_history_rejected :
    (initial.after rejectedLater).currentLine? = some 3 ∧
      (initial.after rejectedLater).stop.toNat = 0x8003 := by
  have follows := follows_history rejectedLater
  have outcome : (I8085.assemble movesThenHalts origin .strict).toOption.map
      (fun program => program.bytes.length) = some 3 := by
    decide +kernel
  have listed : (Assembly.instructions (Text.lines movesThenHalts.toList) origin .strict).map
      (fun encoded => (encoded.line, encoded.address)) = [(1, 0x8000), (3, 0x8002)] := by
    decide +kernel
  have arrived : (initial.after rejectedLater).machine.cpu.pc = 0x8002 := by
    decide +kernel
  have rejected : ((initial.after ([] ++ [.assemble movesThenHalts] ++ [.step])).assemble
      "JMP X").2.success = false := by
    decide +kernel
  rcases assembled : I8085.assemble movesThenHalts origin .strict with diagnostics | program
  · simp [assembled, Except.toOption] at outcome
  · have bytes : program.bytes.length = 3 := by
      simpa [assembled, Except.toOption] using outcome
    obtain ⟨next, given, _⟩ := exists_given_of_ok (initial.after []) assembled
    have first : Current ([] ++ [.assemble movesThenHalts]) movesThenHalts program :=
      current_concat.2 (.inl ⟨rfl, by rw [given]⟩)
    have second : Current ([] ++ [.assemble movesThenHalts] ++ [.step]) movesThenHalts program :=
      current_concat.2 (.inr ⟨id, first⟩)
    have third : Current ([] ++ [.assemble movesThenHalts] ++ [.step] ++ [.assemble "JMP X"])
        movesThenHalts program :=
      current_concat.2 (.inr ⟨Bool.eq_false_iff.1 rejected, second⟩)
    have current : Current rejectedLater movesThenHalts program := third
    obtain ⟨encoded, member, place⟩ : ∃ encoded ∈
        Assembly.instructions (Text.lines movesThenHalts.toList) origin .strict,
          (encoded.line, encoded.address) = (3, 0x8002) := by
      rw [← List.mem_map, listed]
      exact .tail _ (.head _)
    obtain ⟨line, address⟩ := Prod.mk.inj place
    have starts := Assembly.startsAt_of_mem assembled member
    rw [line, address, ← arrived] at starts
    refine ⟨(follows.line_iff 3).2 ⟨movesThenHalts, program, current, starts⟩, ?_⟩
    rw [follows.stop_eq movesThenHalts program current, bytes]

end Session

end I8085
