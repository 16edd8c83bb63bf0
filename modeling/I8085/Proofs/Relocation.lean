/-
Module: I8085.Proofs.Relocation
Layer: Proofs
Purpose: The same source assembled for two addresses. The first address enters the passes only by
  being added to: whatever the first pass has built for one address, it has built for another with
  every address in it moved by the distance between the two (`Layout.ofStatements_moved`), and the
  second pass carries this over to the operands that name labels and to nothing else
  (`Assembly.Passes.ofLines_moved`). So both programs have the same lines, lengths and warnings, and
  whether the second one is assembled depends on the room above its address alone
  (`assemble_moved`).
Imports: I8085.Proofs.ProgramListing
Main exports: Layout.moved, Layout.ofStatements_moved, Selection.namesLabel, Selection.raise,
  Selection.encode_moved, Assembly.Passes.moved, Assembly.Passes.ofLines_moved,
  Assembly.NamesLabel, Assembly.Relocated, assemble_moved
-/
import I8085.Proofs.ProgramListing

namespace I8085

/-! ### Labels -/

theorem Word.add_right_comm (address distance length : Word) :
    address + distance + length = address + length + distance := by
  rw [UInt16.add_assoc, UInt16.add_comm distance, ← UInt16.add_assoc]

/-- The entry of a label, moved. -/
def Symbol.moved (distance : Word) (symbol : Symbol) : Symbol :=
  { symbol with address := symbol.address + distance }

namespace LabelTable

/-- The table with every address moved. -/
def moved (distance : Word) (table : LabelTable) : LabelTable where
  toList := table.toList.map (Symbol.moved distance)
  names_nodup := by
    rw [List.map_map]
    exact table.names_nodup

variable {distance : Word} {table : LabelTable} {symbol : Symbol}

/-- Moving the addresses does not change which labels have an entry. -/
theorem find?_moved (distance : Word) (table : LabelTable) (name : String) :
    (table.moved distance).find? name = (table.find? name).map (Symbol.moved distance) := by
  rw [find?, moved, List.find?_map]
  rfl

theorem append_moved {other : Symbol} (same : other = symbol.moved distance)
    (fresh : table.find? symbol.name = none)
    (stillFresh : (table.moved distance).find? other.name = none) :
    (table.moved distance).append other stillFresh =
      (table.append symbol fresh).moved distance := by
  subst same
  simp [append, moved]

theorem replace_moved (distance : Word) (table : LabelTable) (symbol : Symbol) :
    (table.moved distance).replace (symbol.moved distance) =
      (table.replace symbol).moved distance := by
  simp only [replace, moved, List.map_map, mk.injEq]
  apply List.map_congr_left
  intro other _
  exact (apply_ite (Symbol.moved distance) (other.name = symbol.name) symbol other).symm

end LabelTable

/-! ### The first pass -/

/-- The placement of an instruction, moved. -/
def Placement.moved (distance : Word) (placement : Placement) : Placement :=
  { placement with address := placement.address + distance }

namespace Layout

/-- The layout with every address moved. -/
def moved (distance : Word) (layout : Layout) : Layout :=
  { layout with
    labels := layout.labels.moved distance
    placements := layout.placements.map (Placement.moved distance) }

variable (distance start : Word) (mode : Mode)

theorem address_moved (layout : Layout) :
    (layout.moved distance).address (start + distance) = layout.address start + distance :=
  Word.add_right_comm start distance (UInt16.ofNat layout.length)

theorem nextSymbol_moved (layout : Layout) (line : Nat) (label : Piece) :
    (layout.moved distance).nextSymbol (start + distance) line label =
      (layout.nextSymbol start line label).moved distance := by
  rw [nextSymbol, address_moved]
  rfl

theorem bindLabel_moved (layout : Layout) (line : Nat) (label : Piece) :
    (layout.moved distance).bindLabel (start + distance) mode line label =
      (layout.bindLabel start mode line label).moved distance := by
  have found : (layout.moved distance).labels.find? label.text =
      (layout.labels.find? label.text).map (Symbol.moved distance) :=
    LabelTable.find?_moved distance layout.labels label.text
  rcases bound : layout.labels.find? label.text with _ | existing
  · rw [bound] at found
    rw [bindLabel_of_fresh bound, bindLabel_of_fresh found]
    have next := nextSymbol_moved distance start layout line label
    exact congrArg (fun labels => { layout.moved distance with labels })
      (LabelTable.append_moved next bound found)
  · rw [bound] at found
    cases mode with
    | strict =>
      rw [bindLabel_strict_of_bound bound, bindLabel_strict_of_bound found]
      rfl
    | lenient =>
      rw [bindLabel_lenient_of_bound bound, bindLabel_lenient_of_bound found, nextSymbol_moved]
      simp only [moved, LabelTable.replace_moved]
      rfl

theorem placeInstruction_moved (layout : Layout) (statement : Statement) (mnemonic : Piece) :
    (layout.moved distance).placeInstruction (start + distance) mode statement mnemonic =
      (layout.placeInstruction start mode statement mnemonic).moved distance := by
  unfold placeInstruction
  rw [address_moved]
  rcases Selection.ofOperands mnemonic.text statement.operandTexts with problem | selection
  · cases mode <;> rfl
  · simp [moved, Placement.moved]

/-- One statement is laid out at a moved address as it is laid out at the address. -/
theorem addStatement_moved (layout : Layout) (statement : Statement) :
    addStatement (start + distance) mode (layout.moved distance) statement =
      (addStatement start mode layout statement).moved distance := by
  have labelled_moved : labelled (start + distance) mode (layout.moved distance) statement =
      (labelled start mode layout statement).moved distance := by
    unfold labelled
    rcases statement.label with _ | label
    · rfl
    · exact bindLabel_moved distance start mode layout statement.line label
  rw [addStatement_eq, addStatement_eq, labelled_moved]
  rcases statement.mnemonic with _ | mnemonic
  · rfl
  · exact placeInstruction_moved distance start mode _ statement mnemonic

/-- The first pass makes the same of a source at a moved address, moved. -/
theorem ofStatements_moved (statements : List Statement) :
    ofStatements (start + distance) mode statements =
      (ofStatements start mode statements).moved distance := by
  induction statements using List.reverseRecOn with
  | nil => simp [ofStatements, moved, LabelTable.moved, LabelTable.empty]
  | append_singleton before last ih =>
    rw [ofStatements_concat, ofStatements_concat, ih, addStatement_moved]

end Layout

/-! ### One instruction -/

namespace Selection

/-- Whether the data of an instruction is a word that is given by a label name. -/
def namesLabel (selection : Selection) (operands : List String) : Bool :=
  selection.operand = .word &&
    (selection.dataText? operands).any fun text => (Label.defect? text.toList).isNone

/-- The bytes of an instruction with the word after the opcode raised. -/
def raise (distance : Word) : List Byte → List Byte
  | [opcode, low, high] => opcode :: Word.littleEndian (Word.ofBytes high low + distance)
  | bytes => bytes

/-- The bytes of an instruction after the labels have been moved. -/
def moved (selection : Selection) (operands : List String) (distance : Word)
    (bytes : List Byte) : List Byte :=
  if selection.namesLabel operands then raise distance bytes else bytes

theorem raise_word (distance : Word) (opcode : Byte) (word : Word) :
    raise distance (opcode :: Word.littleEndian word) =
      opcode :: Word.littleEndian (word + distance) := by
  simp only [Word.littleEndian, raise, Word.ofBytes_halves]

theorem length_moved (selection : Selection) (operands : List String) (distance : Word)
    (bytes : List Byte) : (selection.moved operands distance bytes).length = bytes.length := by
  unfold moved
  split
  · unfold raise
    split <;> rfl
  · rfl

theorem namesLabel_eq_true_iff {selection : Selection} {operands : List String} :
    selection.namesLabel operands = true ↔
      selection.operand = .word ∧
        ∃ text, selection.dataText? operands = some text ∧ Label.defect? text.toList = none := by
  simp [namesLabel, Option.any_eq_true]

/-- A word that a label name gives is raised by as much as the labels are, and no other word is. -/
theorem wordOperand_moved (text : String) (distance : Word) (labels : LabelTable) :
    wordOperand text (labels.moved distance) =
      (wordOperand text labels).map fun word =>
        if (Label.defect? text.toList).isNone then word + distance else word := by
  unfold wordOperand
  by_cases label : (Label.defect? text.toList).isNone
  · rw [if_pos label, if_pos label, LabelTable.find?_moved]
    rcases labels.find? text with _ | symbol
    · rfl
    · simp only [Option.map_some, Except.map, label, if_true, Symbol.moved]
  · rw [if_neg label, if_neg label]
    rcases Numeral.parse text with problem | value
    · rfl
    · by_cases small : value < 65536 <;> simp [small, label, Except.map]

/-- Moving the labels raises the words that label names give and changes nothing else, also not
whether an instruction can be encoded. -/
theorem encode_moved (selection : Selection) (operands : List String) (distance : Word)
    (labels : LabelTable) :
    selection.encode operands (labels.moved distance) =
      (selection.encode operands labels).map (selection.moved operands distance) := by
  unfold encode moved namesLabel dataText?
  rcases selection.dataIndex.bind (operands[·]?) with _ | text
  · simp [Except.map]
  · rcases kind : selection.operand
    case none => simp [operandBytes, Except.map]
    case byte =>
      rcases value : byteOperand text with problem | value <;>
        simp [operandBytes, value, Except.map]
    case word =>
      rcases value : wordOperand text labels with problem | value
      · simp [operandBytes, wordOperand_moved, value, Except.map]
      · by_cases label : Label.defect? text.toList = none <;>
          simp [operandBytes, wordOperand_moved, value, label, Except.map, raise_word]

end Selection

/-- The bytes of a statement after the labels have been moved. -/
theorem Statement.bytes_moved {statement : Statement} {selection : Selection}
    (chosen : statement.selection? = some selection) (distance : Word) (labels : LabelTable) :
    statement.bytes (labels.moved distance) =
      selection.moved statement.operandTexts distance (statement.bytes labels) := by
  have nothing : selection.moved statement.operandTexts distance [] = [] :=
    List.length_eq_zero_iff.1 (Selection.length_moved selection _ distance [])
  simp only [bytes, chosen, Selection.encode_moved]
  rcases selection.encode statement.operandTexts labels with problem | data
  · exact nothing.symm
  · rfl

/-! ### The second pass -/

namespace Assembly

/-- An encoded instruction, moved with the labels. -/
def Encoded.moved (distance : Word) (encoded : Encoded) : Encoded where
  placement := encoded.placement.moved distance
  bytes := encoded.placement.selection.moved encoded.placement.statement.operandTexts distance
    encoded.bytes

theorem encodePlacement_moved (distance : Word) (labels : LabelTable) (placement : Placement) :
    encodePlacement (labels.moved distance) (placement.moved distance) =
      (encodePlacement labels placement).map (Encoded.moved distance) := by
  simp only [encodePlacement, Placement.moved, Selection.encode_moved]
  rcases placement.selection.encode placement.statement.operandTexts labels <;> rfl

section Answers

variable {ε α β : Type}

theorem successes_map (f : α → β) (answers : List (Except ε α)) :
    successes (answers.map (Except.map f)) = (successes answers).map f := by
  induction answers with
  | nil => rfl
  | cons answer rest ih => cases answer <;> simp [Except.map, ih]

theorem failures_map (f : α → β) (answers : List (Except ε α)) :
    failures (answers.map (Except.map f)) = failures answers := by
  rw [failures, failures, List.filterMap_map]
  congr 1
  funext answer
  cases answer <;> rfl

end Answers

/-- What the two passes make of a source, moved. -/
def Passes.moved (distance : Word) (passes : Passes) : Passes :=
  { passes with
    start := passes.start + distance
    layout := passes.layout.moved distance
    encoded := passes.encoded.map (Except.map (Encoded.moved distance)) }

/-- Both passes make the same of a source at a moved address, moved. -/
theorem Passes.ofLines_moved (lines : List (List Char)) (start distance : Word) (mode : Mode) :
    Passes.ofLines lines (start + distance) mode =
      (Passes.ofLines lines start mode).moved distance := by
  simp only [Passes.ofLines, Passes.moved, Layout.ofStatements_moved, Layout.moved,
    Array.toList_map, List.map_map]
  congr 1
  apply List.map_congr_left
  intro placement _
  exact encodePlacement_moved distance _ placement

variable {lines : List (List Char)} {start : Word} {mode : Mode} {program : Program}

theorem instructions_moved (lines : List (List Char)) (start distance : Word) (mode : Mode) :
    instructions lines (start + distance) mode =
      (instructions lines start mode).map (Encoded.moved distance) := by
  rw [instructions, Passes.ofLines_moved]
  exact successes_map (Encoded.moved distance) _

/-- If a source is assembled for one address, it is assembled for every other at which there is room
for the bytes. -/
theorem exists_moved_iff (assembled : ofLines lines start mode = .ok program) (distance : Word) :
    (∃ moved, ofLines lines (start + distance) mode = .ok moved) ↔
      (start + distance).toNat + program.bytes.length ≤ Memory.size := by
  have length := length_bytes assembled
  obtain ⟨quiet, _⟩ := passes_of_ok assembled
  obtain ⟨refused, first, _, second⟩ := Passes.diagnostics_eq_nil quiet
  have same : (Passes.ofLines lines start mode).layout.length = program.bytes.length := by
    rw [length]
    exact Layout.length_ofStatements _
  simp only [ofLines_eq_ok_iff, Passes.diagnostics_eq_nil_iff, Passes.ofLines_moved]
  constructor
  · rintro ⟨_, ⟨_, _, fits, _⟩, _⟩
    rw [← same]
    exact fits
  · intro fits
    rw [← same] at fits
    exact ⟨_, ⟨refused, first, fits, (failures_map _ _).trans second⟩, rfl⟩

/-! ### Both programs -/

/-- Whether the instruction on the line at an index has a word operand that is a label name. -/
def NamesLabel (lines : List (List Char)) (index : Nat) : Prop :=
  ∃ statement selection, (parseLines lines)[index]? = some (.ok statement) ∧
    statement.selection? = some selection ∧ selection.namesLabel statement.operandTexts = true

end Assembly

/-- The addresses of an instruction, moved. -/
def Listing.AddressRange.moved (distance : Word) (range : AddressRange) : AddressRange where
  start := range.start + distance
  stop := range.stop + distance

namespace Assembly

/-- What it is for a program to be another one of the same source, moved. -/
structure Relocated (lines : List (List Char)) (distance : Word) (program moved : Program) :
    Prop where
  start_eq : moved.start = program.start + distance
  length_eq : moved.bytes.length = program.bytes.length
  /-- The bytes of both programs are those of the lines. -/
  bytes_eq : program.bytes = (emitted program.labels lines).flatten
  moved_bytes_eq : moved.bytes = (emitted moved.labels lines).flatten
  /-- A line without a label name for a word operand has the same bytes in both programs. -/
  kept : ∀ index, ¬ NamesLabel lines index →
    (emitted moved.labels lines)[index]? = (emitted program.labels lines)[index]?
  /-- A line with one has the same opcode, and a word that is raised. -/
  raised : ∀ index, NamesLabel lines index → ∃ opcode word,
    (emitted program.labels lines)[index]? = some (opcode :: Word.littleEndian word) ∧
      (emitted moved.labels lines)[index]? =
        some (opcode :: Word.littleEndian (word + distance))
  labels_eq : moved.labels.toList = program.labels.toList.map (Symbol.moved distance)
  place?_eq : ∀ address,
    moved.listing.place? (address + distance) = program.listing.place? address
  range?_eq : ∀ line, moved.listing.range? line =
    (program.listing.range? line).map (Listing.AddressRange.moved distance)
  size_eq : moved.listing.size = program.listing.size
  warnings_eq : moved.warnings = program.warnings

variable {distance : Word} {moved : Program}

/-- The program that the passes make at a moved address. -/
theorem program_moved (assembled : ofLines lines start mode = .ok program)
    (again : ofLines lines (start + distance) mode = .ok moved) :
    moved.start = program.start + distance ∧ moved.labels = program.labels.moved distance ∧
      moved.warnings = program.warnings := by
  obtain ⟨_, rfl⟩ := passes_of_ok assembled
  obtain ⟨_, rfl⟩ := passes_of_ok again
  rw [Passes.ofLines_moved]
  exact ⟨rfl, rfl, rfl⟩

/-- A line without a label name for a word operand stands for the same bytes. -/
theorem emitted_moved_of_not_namesLabel {index : Nat} (labels : LabelTable)
    (without : ¬ NamesLabel lines index) :
    (emitted (labels.moved distance) lines)[index]? = (emitted labels lines)[index]? := by
  rw [emitted, emitted, List.getElem?_map, List.getElem?_map]
  rcases place : (parseLines lines)[index]? with _ | refusal | statement
  · rfl
  · rfl
  · simp only [Option.map_some, lineBytes]
    rcases chosen : statement.selection? with _ | selection
    · rw [Statement.bytes, Statement.bytes, chosen]
    · have unnamed : ¬ selection.namesLabel statement.operandTexts = true :=
        fun named => without ⟨statement, selection, place, chosen, named⟩
      rw [Statement.bytes_moved chosen, Selection.moved, if_neg unnamed]

/-- A line with a label name for a word operand stands for an opcode and a word, and after the
labels have been moved for the same opcode and the raised word. -/
theorem emitted_moved_of_namesLabel (assembled : ofLines lines start mode = .ok program)
    (distance : Word) {index : Nat} (named : NamesLabel lines index) :
    ∃ opcode word,
      (emitted program.labels lines)[index]? = some (opcode :: Word.littleEndian word) ∧
        (emitted (program.labels.moved distance) lines)[index]? =
          some (opcode :: Word.littleEndian (word + distance)) := by
  obtain ⟨statement, selection, place, chosen, names⟩ := named
  have member := mem_successes.2 (List.mem_of_getElem? place)
  obtain ⟨bytes, encoded⟩ := exists_encode assembled member chosen
  obtain ⟨word, text, data, label⟩ := Selection.namesLabel_eq_true_iff.1 names
  obtain ⟨symbol, _, bytes_eq⟩ := Selection.encode_of_label word data label encoded
  have here : statement.bytes program.labels =
      selection.opcode :: Word.littleEndian symbol.address := by
    simp [Statement.bytes, chosen, encoded, bytes_eq, Except.toOption]
  have there : statement.bytes (program.labels.moved distance) =
      selection.opcode :: Word.littleEndian (symbol.address + distance) := by
    rw [Statement.bytes_moved chosen, here, Selection.moved, if_pos names, Selection.raise_word]
  refine ⟨selection.opcode, symbol.address, ?_, ?_⟩
  · rw [getElem?_emitted place, here]
  · rw [getElem?_emitted place, there]

/-! ### Both listings -/

theorem Encoded.range_moved (distance : Word) (encoded : Encoded) :
    (encoded.moved distance).range = encoded.range.moved distance := by
  have length : (encoded.moved distance).bytes.length = encoded.bytes.length :=
    Selection.length_moved _ _ _ _
  rw [Encoded.range, length]
  exact congrArg (Listing.AddressRange.mk (encoded.address + distance))
    (Word.add_right_comm encoded.address distance _)

theorem place?_moved (assembled : ofLines lines start mode = .ok program)
    (again : ofLines lines (start + distance) mode = .ok moved) (address : Word) :
    moved.listing.place? (address + distance) = program.listing.place? address := by
  apply Option.ext
  intro place
  rw [(consists_of_ok again).place?_eq_some_iff, (consists_of_ok assembled).place?_eq_some_iff,
    instructions_moved]
  simp only [List.mem_map, exists_exists_and_eq_and]
  apply exists_congr
  intro encoded
  have address_iff : (encoded.moved distance).address = address + distance ↔
      encoded.address = address := UInt16.add_left_inj distance
  rw [address_iff]
  rfl

theorem range?_moved (assembled : ofLines lines start mode = .ok program)
    (again : ofLines lines (start + distance) mode = .ok moved) (line : Nat) :
    moved.listing.range? line =
      (program.listing.range? line).map (Listing.AddressRange.moved distance) := by
  apply Option.ext
  intro range
  rw [(consists_of_ok again).range?_eq_some_iff, instructions_moved, Option.map_eq_some_iff]
  simp only [(consists_of_ok assembled).range?_eq_some_iff, List.mem_map, exists_exists_and_eq_and,
    Encoded.range_moved]
  constructor
  · rintro ⟨encoded, member, rfl, rfl⟩
    exact ⟨encoded.range, ⟨encoded, member, rfl, rfl⟩, rfl⟩
  · rintro ⟨_, ⟨encoded, member, rfl, rfl⟩, rfl⟩
    exact ⟨encoded, member, rfl, rfl⟩

theorem relocated (assembled : ofLines lines start mode = .ok program)
    (again : ofLines lines (start + distance) mode = .ok moved) :
    Relocated lines distance program moved := by
  obtain ⟨start_eq, labels, warnings⟩ := program_moved assembled again
  constructor
  case start_eq => exact start_eq
  case length_eq => rw [length_bytes again, length_bytes assembled]
  case bytes_eq => exact bytes_eq_emitted assembled
  case moved_bytes_eq => exact bytes_eq_emitted again
  case kept =>
    intro index without
    rw [labels]
    exact emitted_moved_of_not_namesLabel program.labels without
  case raised =>
    intro index named
    rw [labels]
    exact emitted_moved_of_namesLabel assembled distance named
  case labels_eq => rw [labels, LabelTable.moved]
  case place?_eq => exact place?_moved assembled again
  case range?_eq => exact range?_moved assembled again
  case size_eq =>
    rw [(consists_of_ok again).listing_eq, (consists_of_ok assembled).listing_eq, size_listingOf,
      size_listingOf, instructions_moved, List.length_map]
  case warnings_eq => exact warnings

end Assembly

open Assembly in
/-- If a source is assembled for one address, it is assembled for every other at which there is room
for as many bytes below the top of memory, and to the same program but for its addresses: the words
that label names give, the addresses of the labels and the addresses of the lines are all raised by
the distance between the two. -/
theorem assemble_moved {source : String} {start : Word} {mode : Mode} {program : Program}
    (assembled : assemble source start mode = .ok program) (other : Word) :
    ((∃ moved, assemble source other mode = .ok moved) ↔
        other.toNat + program.bytes.length ≤ Memory.size) ∧
      ∀ moved, assemble source other mode = .ok moved →
        Relocated (Text.lines source.toList) (other - start) program moved := by
  obtain ⟨distance, rfl⟩ : ∃ distance, other = start + distance :=
    ⟨other - start, by rw [UInt16.add_comm, UInt16.sub_add_cancel]⟩
  have away : start + distance - start = distance := by
    rw [UInt16.add_comm, UInt16.add_sub_cancel]
  rw [away]
  exact ⟨exists_moved_iff assembled distance, fun _ again => relocated assembled again⟩

/-- A jump to a label behind the last byte, an instruction with a number for a word, and a line that
is skipped. -/
def jumpToEnd : String := "JMP END
FOO
TOP: LXI H,#1234
END:"

/-- Where the program ends at the last address, the label is at zero, and so is the jump. -/
theorem assemble_moved_to_top :
    ∃ program moved,
      assemble jumpToEnd 0x8000 .lenient = .ok program ∧
      assemble jumpToEnd 0xFFFA .lenient = .ok moved ∧
      Assembly.Relocated (Text.lines jumpToEnd.toList) 0x7FFA program moved ∧
      program.bytes = [0xC3, 0x06, 0x80, 0x21, 0x34, 0x12] ∧
      moved.bytes = [0xC3, 0x00, 0x00, 0x21, 0x34, 0x12] := by
  have outcome : (assemble jumpToEnd 0x8000 .lenient).toOption.map Program.bytes =
      some [0xC3, 0x06, 0x80, 0x21, 0x34, 0x12] := by
    decide +kernel
  have outcome_top : (assemble jumpToEnd 0xFFFA .lenient).toOption.map Program.bytes =
      some [0xC3, 0x00, 0x00, 0x21, 0x34, 0x12] := by
    decide +kernel
  rcases assembled : assemble jumpToEnd 0x8000 .lenient with diagnostics | program
  · simp [assembled, Except.toOption] at outcome
  · have bytes : program.bytes = [0xC3, 0x06, 0x80, 0x21, 0x34, 0x12] := by
      simpa [assembled, Except.toOption] using outcome
    obtain ⟨accepted_iff, agree⟩ := assemble_moved assembled 0xFFFA
    obtain ⟨moved, again⟩ := accepted_iff.2 (by rw [bytes]; decide)
    have moved_bytes : moved.bytes = [0xC3, 0x00, 0x00, 0x21, 0x34, 0x12] := by
      simpa [again, Except.toOption] using outcome_top
    exact ⟨program, moved, rfl, again, agree moved again, bytes, moved_bytes⟩

end I8085
