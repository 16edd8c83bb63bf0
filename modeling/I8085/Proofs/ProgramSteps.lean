/-
Module: I8085.Proofs.ProgramSteps
Layer: Proofs
Purpose: The assembler, the listing and the machine agree about instructions. If the memory of a
  machine holds an assembled program and the program counter stands at an address that the listing
  maps to a line, then a step fetches the opcode that was chosen for this line and the operand that
  was encoded for it, and unless control is transferred it ends at the next address of the listing,
  or at the end of the program after its last instruction (`Machine.step_executes_line`).
Imports: I8085.Proofs.NextAddress, I8085.Proofs.OpcodeSelection, I8085.Proofs.ProgramListing
Main exports: Memory.Holds, Memory.holds_writeAll, Assembly.IsLast, Listing.IsNext,
  Machine.ExecutesLine, Machine.step_executes_line
-/
import I8085.Proofs.NextAddress
import I8085.Proofs.OpcodeSelection
import I8085.Proofs.ProgramListing

namespace I8085

/-! ### A memory that holds a program -/

namespace Memory

/-- Whether the cells from an address on hold some bytes. Addresses wrap. -/
def Holds (memory : Memory) : Word → List Byte → Prop
  | _, [] => True
  | address, byte :: rest => memory.read address = byte ∧ memory.Holds (address + 1) rest

variable {memory : Memory} {start : Word}

theorem holds_append {before after : List Byte} :
    memory.Holds start (before ++ after) ↔
      memory.Holds start before ∧ memory.Holds (start + UInt16.ofNat before.length) after := by
  induction before generalizing start with
  | nil => simp [Holds]
  | cons byte rest ih =>
    rw [List.cons_append, Holds, Holds, ih, List.length_cons, Nat.add_comm rest.length 1,
      UInt16.ofNat_add, UInt16.add_assoc, and_assoc]
    rfl

/-- Up to two bytes that a memory holds are the beginning of the word there. -/
theorem Holds.eq_take {data : List Byte} (holds : memory.Holds start data)
    (short : data.length ≤ 2) :
    data = (Word.littleEndian (memory.wordAt start)).take data.length := by
  match data with
  | [] => rfl
  | [low] =>
    obtain ⟨first, _⟩ := holds
    simp [Word.littleEndian, wordAt, first]
  | [low, high] =>
    obtain ⟨first, second, _⟩ := holds
    simp [Word.littleEndian, wordAt, first, second]
  | _ :: _ :: _ :: _ =>
    simp only [List.length_cons] at short
    omega

/-- The address of a cell that lies above another one but not above the top. -/
theorem toNat_add_ofNat {index : Nat} (within : start.toNat + index < size) :
    (start + UInt16.ofNat index).toNat = start.toNat + index := by
  unfold size at within
  rw [UInt16.toNat_add, UInt16.toNat_ofNat']
  omega

/-- Writing bytes to cells leaves every other cell alone. -/
theorem read_writeAll_of_ne {bytes : List Byte} {address : Word} (memory : Memory)
    (outside : ∀ index, index < bytes.length → start + UInt16.ofNat index ≠ address) :
    (memory.writeAll start bytes).read address = memory.read address := by
  induction bytes generalizing memory start with
  | nil => rfl
  | cons byte rest ih =>
    have here : start ≠ address := by
      simpa using outside 0 (Nat.succ_pos _)
    have later : ∀ index, index < rest.length → start + 1 + UInt16.ofNat index ≠ address := by
      intro index below
      have there := outside (index + 1) (Nat.succ_lt_succ below)
      rwa [Nat.add_comm index 1, UInt16.ofNat_add, ← UInt16.add_assoc] at there
    rw [writeAll, ih (memory.write start byte) later, read_write, if_neg here]

theorem holds_writeAll (memory : Memory) (start : Word) {bytes : List Byte}
    (fits : bytes.length ≤ size) : (memory.writeAll start bytes).Holds start bytes := by
  induction bytes generalizing memory start with
  | nil => trivial
  | cons byte rest ih =>
    rw [List.length_cons, size] at fits
    have outside : ∀ index, index < rest.length → start + 1 + UInt16.ofNat index ≠ start := by
      intro index below same
      rw [UInt16.add_assoc, ← UInt16.toNat_inj] at same
      simp only [UInt16.toNat_add, UInt16.toNat_ofNat', UInt16.toNat_one] at same
      have bound := start.toNat_lt
      omega
    constructor
    · rw [writeAll, read_writeAll_of_ne _ outside, read_write, if_pos rfl]
    · apply ih
      rw [size]
      omega

/-- A program that has been loaded is held where it was loaded. -/
theorem holds_of_load {loaded : Memory} {bytes : List Byte}
    (answer : memory.load bytes start = .ok loaded) : loaded.Holds start bytes := by
  unfold load at answer
  split at answer
  next => cases answer
  next fits =>
    obtain rfl := Except.ok.inj answer
    apply holds_writeAll
    omega

end Memory

/-! ### Selected opcodes -/

/-- The opcode that is chosen for a statement is in the chart. -/
theorem Statement.cell_of_selection? {statement : Statement} {selection : Selection}
    (chosen : statement.selection? = some selection) :
    ∃ entry, Opcode.cell? selection.opcode = some entry := by
  obtain ⟨mnemonic, _, answer⟩ := selection?_eq_some_iff.1 chosen
  obtain ⟨_, _, opcode, named, _, rfl⟩ := Selection.exists_ofNames?_of_ofOperands answer
  obtain ⟨entry, cell, _⟩ := Opcode.cell_of_ofNames? named
  exact ⟨entry, cell⟩

/-! ### The next instruction of a program -/

/-- Whether an address is the first after another at which a listing has an instruction. -/
structure Listing.IsNext (listing : Listing) (address next : Word) : Prop where
  mapped : (listing.place? next).isSome
  above : address < next
  least : ∀ other, (listing.place? other).isSome → address < other → next ≤ other

namespace Assembly

/-- Whether no later line has an instruction that is encoded. -/
def IsLast (lines : List (List Char)) (labels : LabelTable) (line : Nat) : Prop :=
  ∀ later bytes, Emits lines labels later bytes → later ≤ line

namespace Consists

variable {lines : List (List Char)} {start : Word} {program : Program}
  {before after : List Encoded} {encoded : Encoded}

/-- An instruction of a program is held at its address. -/
theorem holds_instruction
    (consists : Consists lines start program (before ++ encoded :: after)) {memory : Memory}
    (holds : memory.Holds start program.bytes) : memory.Holds encoded.address encoded.bytes := by
  obtain ⟨_, address, _⟩ := adjacent_append.1 consists.adjacent
  rw [consists.bytes_eq, List.flatMap_append, List.flatMap_cons, Memory.holds_append,
    Memory.holds_append] at holds
  obtain ⟨_, here, _⟩ := holds
  rw [address]
  exact here

/-- The line of an instruction is the last exactly if no instruction comes after it. -/
theorem isLast_iff (consists : Consists lines start program (before ++ encoded :: after)) :
    IsLast lines program.labels encoded.line ↔ after = [] := by
  obtain ⟨_, later, across⟩ := List.pairwise_append.1 consists.lines_ascend
  constructor
  · intro last
    rcases after with _ | ⟨following, rest⟩
    · rfl
    · have member : following ∈ before ++ encoded :: following :: rest := by simp
      have emits := (consists.emits_iff following.line following.bytes).2
        ⟨following, member, rfl, rfl⟩
      have less := List.rel_of_pairwise_cons later List.mem_cons_self
      exact absurd (last _ _ emits) (Nat.not_le_of_lt less)
  · intro none line bytes emits
    obtain ⟨other, member, rfl, _⟩ := (consists.emits_iff line bytes).1 emits
    subst none
    rcases List.mem_append.1 member with earlier | same
    · exact Nat.le_of_lt (across other earlier encoded List.mem_cons_self)
    · rw [List.mem_singleton.1 same]

/-- The last instruction ends where the program ends. -/
theorem stop_of_last (consists : Consists lines start program (before ++ [encoded])) :
    encoded.range.stop = start + UInt16.ofNat program.bytes.length := by
  obtain ⟨_, address, _⟩ := adjacent_append.1 consists.adjacent
  rw [Encoded.range, address, consists.bytes_eq, List.flatMap_append, List.length_append,
    UInt16.ofNat_add, UInt16.add_assoc, List.flatMap_singleton]

/-- The listing has a place exactly for the addresses of instructions. -/
theorem isSome_place?_iff {instructions : List Encoded}
    (consists : Consists lines start program instructions) (address : Word) :
    (program.listing.place? address).isSome ↔
      ∃ encoded ∈ instructions, encoded.address = address := by
  rw [Option.isSome_iff_exists]
  constructor
  · intro found
    obtain ⟨place, there⟩ := found
    obtain ⟨encoded, member, same, _⟩ := (consists.place?_eq_some_iff address place).1 there
    exact ⟨encoded, member, same⟩
  · intro stands
    obtain ⟨encoded, member, same⟩ := stands
    exact ⟨encoded.place, (consists.place?_eq_some_iff _ _).2 ⟨encoded, member, same, rfl⟩⟩

/-- Every other instruction ends at the next address of the listing. -/
theorem isNext_stop {following : Encoded} {rest : List Encoded}
    (consists : Consists lines start program (before ++ encoded :: following :: rest)) :
    program.listing.IsNext encoded.address encoded.range.stop := by
  obtain ⟨_, here, adjacent, _⟩ := adjacent_append.1 consists.adjacent
  obtain ⟨_, ascending, across⟩ := List.pairwise_append.1 consists.pairwise_address
  obtain ⟨above, further⟩ := List.pairwise_cons.1 ascending
  have stop : encoded.range.stop = following.address := by
    rw [Encoded.range, here, adjacent]
  rw [stop]
  constructor
  · rw [consists.isSome_place?_iff]
    exact ⟨following, by simp, rfl⟩
  · exact above following List.mem_cons_self
  · intro other mapped beyond
    obtain ⟨instruction, member, rfl⟩ := (consists.isSome_place?_iff other).1 mapped
    -- Addresses ascend, so an instruction beyond this one is the following one or comes after it.
    rcases List.mem_append.1 member with earlier | later
    · have below := across instruction earlier encoded List.mem_cons_self
      exact absurd (UInt16.lt_trans below beyond) (UInt16.lt_irrefl _)
    · rcases List.mem_cons.1 later with rfl | later
      · exact absurd beyond (UInt16.lt_irrefl _)
      · rcases List.mem_cons.1 later with rfl | later
        · exact UInt16.le_refl _
        · exact UInt16.le_of_lt (List.rel_of_pairwise_cons further later)

/-- An instruction that is not the last ends at the next address of the listing, and the last one
ends where the program ends. -/
theorem stop_spec (consists : Consists lines start program (before ++ encoded :: after)) :
    (¬IsLast lines program.labels encoded.line →
        program.listing.IsNext encoded.address encoded.range.stop) ∧
      (IsLast lines program.labels encoded.line →
        encoded.range.stop = start + UInt16.ofNat program.bytes.length) := by
  rw [consists.isLast_iff]
  rcases after with _ | ⟨following, rest⟩
  · exact ⟨fun notLast => absurd rfl notLast, fun _ => consists.stop_of_last⟩
  · exact ⟨fun _ => consists.isNext_stop, fun last => nomatch last⟩

/-- A machine whose memory holds the program finds at the address of an instruction its opcode,
which is in the chart, and then its operand, which does not straddle the top of memory. -/
theorem fetched_instruction
    (consists : Consists lines start program (before ++ encoded :: after)) {m : Machine}
    (holds : m.memory.Holds start program.bytes) (there : encoded.address = m.cpu.pc) :
    ∃ entry,
      Opcode.cell? m.nextOpcode = some entry ∧
      m.nextOpcode = encoded.placement.selection.opcode ∧
      m.fetchStraddles entry = false ∧
      encoded.bytes =
        m.nextOpcode :: (Word.littleEndian m.operandWord).take entry.operand.size := by
  obtain ⟨_, _, made⟩ := consists.of_line encoded (by simp)
  obtain ⟨_, _, chosen, answer⟩ := Statement.encoded?_eq_some_iff.1 made
  obtain ⟨entry, cell⟩ := Statement.cell_of_selection? chosen
  obtain ⟨data, bytes⟩ := Selection.exists_data answer
  have length := Selection.length_encode (Statement.fits_of_selection? chosen) answer
  have size : data.length = entry.operand.size := by
    rw [bytes, Selection.size, Opcode.size, Opcode.operand, cell, List.length_cons,
      Nat.add_comm] at length
    exact Nat.add_left_cancel length
  have held := consists.holds_instruction holds
  rw [bytes, there] at held
  obtain ⟨opcode, operand⟩ := held
  have short : data.length ≤ 2 := by
    rw [size]
    cases entry.operand <;> decide
  refine ⟨entry, ?_, opcode, ?_, ?_⟩
  · rw [← cell]
    exact congrArg Opcode.cell? opcode
  -- A word operand at the last address would end above the top of memory.
  · obtain ⟨_, inside⟩ := consists.toNat_address rfl
    rw [there, bytes, List.length_cons, size] at inside
    apply decide_eq_false
    rintro ⟨word, atTop⟩
    rw [word, atTop] at inside
    exact absurd inside (by decide)
  · have begins := operand.eq_take short
    rw [size] at begins
    rw [bytes, ← opcode, begins]
    rfl

end Consists

end Assembly

/-! ### Steps -/

namespace Machine

open Assembly (Consists Encoded IsLast parseLines consists_of_ok line_of_parsed)

/-- A step that succeeds and transfers no control arrives after the instruction. -/
theorem pc_of_step_onward {m next : Machine} {entry : Opcode.Entry} {proceeded : Bool}
    (running : m.cpu.halted = false) (cell : Opcode.cell? m.nextOpcode = some entry)
    (stepped : m.step = (next, .ok proceeded))
    (onward : m.goesAhead entry = true → entry.mnemonic.transfer = .onward) :
    next.cpu.pc = m.following := by
  obtain ⟨instruction, rfl, data, executed⟩ := executed_of_step running cell stepped
  obtain rfl := Action.eq_completed executed
  rw [Instruction.transfer_entry] at onward
  by_cases stays : instruction.transfer = .onward
  · rw [pc_completed _ stays]
    rfl
  · have untaken : ¬m.goesAhead instruction.entry = true := fun ahead => stays (onward ahead)
    rw [completed_transfer data stays, transferred, destination, if_neg untaken]

/-- What it is for the next step of a machine to execute a line of an assembled source. -/
structure ExecutesLine (m : Machine) (lines : List (List Char)) (start : Word)
    (program : Program) (line : Nat) (selection : Selection) (instruction : Instruction) :
    Prop where
  /-- The line is encoded to the opcode that was chosen for it and the operand. -/
  line_encoded : ∃ (index : Nat) (statement : Statement), line = index + 1 ∧
    (parseLines lines)[index]? = some (.ok statement) ∧
    statement.selection? = some selection ∧
    selection.encode statement.operandTexts program.labels =
      .ok (selection.opcode :: instruction.data)
  opcode_fetched : m.nextOpcode = selection.opcode
  charted : Opcode.cell? m.nextOpcode = some instruction.entry
  /-- The operand is fetched without a fault. -/
  operand_fetched : ∃ pattern, Instruction.decode m.nextOpcode = some pattern ∧
    (Action.fetchOperand pattern).on (m.withPc (m.cpu.pc + 1)) =
      (m.pastInstruction, .ok instruction)
  /-- The step executes what was fetched. -/
  step_eq : m.step = Action.on ((fun _ => true) <$> Action.execute instruction) m.pastInstruction
  /-- No fault is possible but that of reaching for a word of data or of the stack. -/
  answer_eq : m.step.2 =
    if m.accessStraddles instruction.entry then .error .straddle else .ok true
  /-- A step without a fault that transfers no control goes to the next instruction. -/
  arrives : m.step.2 = .ok true →
    (m.goesAhead instruction.entry = true → instruction.entry.mnemonic.transfer = .onward) →
    (¬IsLast lines program.labels line → program.listing.IsNext m.cpu.pc m.step.1.cpu.pc) ∧
    (IsLast lines program.labels line →
      m.step.1.cpu.pc = start + UInt16.ofNat program.bytes.length)

/-- The next step of a machine that stands at an instruction of a program, which its memory holds,
executes the line of the instruction. -/
theorem executesLine_of_consists {lines : List (List Char)} {start : Word} {program : Program}
    {before after : List Encoded} {encoded : Encoded} {m : Machine}
    (consists : Consists lines start program (before ++ encoded :: after))
    (running : m.cpu.halted = false) (holds : m.memory.Holds start program.bytes)
    (there : encoded.address = m.cpu.pc) :
    ∃ instruction,
      m.ExecutesLine lines start program encoded.line encoded.placement.selection
        instruction := by
  obtain ⟨index, parsed, made⟩ := consists.of_line encoded (by simp)
  obtain ⟨_, _, chosen, answer⟩ := Statement.encoded?_eq_some_iff.1 made
  obtain ⟨entry, cell, opcode, fetched, bytes⟩ := consists.fetched_instruction holds there
  obtain ⟨pattern, instruction, decoded, rfl, data, completes⟩ := fetchOperand_of_cell cell fetched
  have stop : encoded.range.stop = m.following := by
    have length := Selection.length_encode (Statement.fits_of_selection? chosen) answer
    rw [Encoded.range, length, Selection.size, ← opcode, there, following]
  refine ⟨instruction, ?_, opcode, cell, ⟨pattern, decoded, completes⟩,
    step_of_operand running cell decoded completes, ?_, ?_⟩
  · rw [← data, opcode] at bytes
    rw [bytes] at answer
    exact ⟨index, _, line_of_parsed parsed, parsed, chosen, answer⟩
  · rcases reachable : m.accessStraddles instruction.entry with _ | _
    · exact answer_step_of_reachable running cell fetched reachable
    · rw [step_of_access_straddles running cell fetched reachable]
      rfl
  · intro proceeded onward
    rw [pc_of_step_onward running cell (Prod.ext rfl proceeded) onward, ← stop, ← there]
    exact consists.stop_spec

/-- A machine that stands at an address that the listing of an assembled program maps to a line, and
whose memory holds the program, executes this line in its next step. -/
theorem step_executes_line {source : String} {start : Word} {mode : Mode} {program : Program}
    {m : Machine} {line : Nat} (assembled : assemble source start mode = .ok program)
    (running : m.cpu.halted = false) (holds : m.memory.Holds start program.bytes)
    (here : (program.listing.place? m.cpu.pc).map Listing.Place.line = some line) :
    ∃ selection instruction,
      m.ExecutesLine (Text.lines source.toList) start program line selection instruction := by
  have consists := consists_of_ok assembled
  obtain ⟨place, found, rfl⟩ := Option.map_eq_some_iff.1 here
  obtain ⟨encoded, member, there, rfl⟩ := (consists.place?_eq_some_iff _ _).1 found
  obtain ⟨before, after, split⟩ := List.append_of_mem member
  rw [split] at consists
  exact ⟨_, executesLine_of_consists consists running holds there⟩

/-- A line that is skipped, and two instructions that end at the last address. -/
def jumpAtTop : String := "FOO\nX: MVI A,#5\n JNZ X"

/-- A machine that stands at the jump, with the program in its memory. -/
def atJump : Machine where
  cpu := { pc := 0xFFFD, flags := { zero := true } }
  memory := Memory.blank.writeAll 0xFFFB [0x3E, 0x05, 0xC2, 0xFB, 0xFF]

/-- The condition of the jump does not hold, and the machine arrives at address zero. -/
theorem step_executes_line_at_top :
    ∃ program selection instruction,
      assemble jumpAtTop 0xFFFB .lenient = .ok program ∧
      atJump.ExecutesLine (Text.lines jumpAtTop.toList) 0xFFFB program 3 selection instruction ∧
      atJump.step.1.cpu.pc = 0x0000 := by
  have outcome : (assemble jumpAtTop 0xFFFB .lenient).toOption.map Program.bytes =
      some [0x3E, 0x05, 0xC2, 0xFB, 0xFF] := by
    decide +kernel
  have stands : ∃ encoded ∈ Assembly.instructions (Text.lines jumpAtTop.toList) 0xFFFB .lenient,
      encoded.address = atJump.cpu.pc ∧ encoded.place.line = 3 := by
    decide +kernel
  rcases assembled : assemble jumpAtTop 0xFFFB .lenient with diagnostics | program
  · simp [assembled, Except.toOption] at outcome
  · have bytes : program.bytes = [0x3E, 0x05, 0xC2, 0xFB, 0xFF] := by
      simpa [assembled, Except.toOption] using outcome
    have holds : atJump.memory.Holds 0xFFFB program.bytes := by
      have loaded : Memory.blank.load program.bytes 0xFFFB = .ok atJump.memory := by
        rw [bytes]
        exact if_neg (by decide)
      exact Memory.holds_of_load loaded
    obtain ⟨encoded, member, there, third⟩ := stands
    have here : (program.listing.place? atJump.cpu.pc).map Listing.Place.line = some 3 := by
      have found := ((consists_of_ok assembled).place?_eq_some_iff _ _).2
        ⟨encoded, member, there, rfl⟩
      rw [found, Option.map_some, third]
    obtain ⟨selection, instruction, executes⟩ := step_executes_line assembled rfl holds here
    exact ⟨program, selection, instruction, rfl, executes, rfl⟩

end Machine

end I8085
