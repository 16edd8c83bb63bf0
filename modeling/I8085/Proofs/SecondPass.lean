/-
Module: I8085.Proofs.SecondPass
Layer: Proofs
Purpose: What an assembly that succeeds has done. Nothing was reported by either pass, so every
  line has been encoded or was left out on purpose, and the bytes of the program are the bytes of
  its lines one after another (`Assembly.bytes_eq_emitted`). An encoded instruction has the size
  that the first pass counted for it (`Assembly.length_bytes_eq_width`).
Imports: I8085.Assembly.Program, I8085.Proofs.FirstPass, I8085.Proofs.OpcodeSelection,
  I8085.Proofs.StatementParsing
Main exports: Selection.dataText?, Selection.Fits, Selection.length_encode, Statement.bytes,
  Statement.encoded?, Assembly.emitted, Assembly.successes_encoded, Assembly.ofLines_eq_ok_iff,
  Assembly.Passes.diagnostics_eq_nil_iff, Assembly.bytes_eq_emitted, Assembly.exists_encode,
  Assembly.length_bytes_eq_width
-/
import I8085.Assembly.Program
import I8085.Proofs.FirstPass
import I8085.Proofs.OpcodeSelection
import I8085.Proofs.StatementParsing

namespace I8085

/-! ### Encoding one instruction -/

namespace Selection

/-- The operand that is the data of the instruction. -/
def dataText? (selection : Selection) (operands : List String) : Option String :=
  selection.dataIndex.bind (operands[·]?)

/-- A selection agrees with the chart about its opcode, and the operands have the data that it
takes. -/
structure Fits (selection : Selection) (operands : List String) : Prop where
  operand_eq : selection.operand = Opcode.operand selection.opcode
  data_iff : (selection.dataText? operands).isSome ↔ selection.operand ≠ .none

/-- An opcode is chosen for the operands of a line as one with some of them as its fields, so that
what is left of them is its data. -/
theorem exists_ofNames?_of_ofOperands {word : String} {operands : List String}
    {selection : Selection} (chosen : ofOperands word operands = .ok selection) :
    ∃ (mnemonic : Mnemonic) (fields : List String) (opcode : Byte),
      Opcode.ofNames? mnemonic fields = some opcode ∧
      operands.length = fields.length + dataCount (Opcode.operand opcode) ∧
      selection =
        { opcode
          operand := Opcode.operand opcode
          dataIndex := if Opcode.operand opcode = .none then none else some fields.length } := by
  obtain ⟨opcode, entry, cell, takes, rfl⟩ := exists_takes_of_ofOperands chosen
  have kind := Opcode.operand_of_cell cell
  have length : entry.fieldNames.length = entry.fields.length := List.length_map _
  refine ⟨entry.mnemonic, entry.fieldNames, opcode, Opcode.ofNames?_of_cell cell, ?_, ?_⟩
  · rw [takes.count, kind, length, dataCount_eq]
  · rw [ofEntry, kind, length]

/-- The chosen opcode fits the operands that it was chosen for. -/
theorem fits_of_ofOperands {word : String} {operands : List String} {selection : Selection}
    (chosen : ofOperands word operands = .ok selection) : selection.Fits operands := by
  obtain ⟨_, fields, opcode, _, count, rfl⟩ := exists_ofNames?_of_ofOperands chosen
  constructor
  · rfl
  · rcases kind : Opcode.operand opcode <;> simp [dataText?, kind, dataCount] at count ⊢ <;>
      omega

theorem length_operandBytes {kind : OperandKind} {text : String} {labels : LabelTable}
    {data : List Byte} (encoded : operandBytes kind text labels = .ok data) :
    data.length = kind.size := by
  cases kind with
  | none =>
    cases encoded
    rfl
  | byte =>
    rcases value : byteOperand text with problem | value <;>
      simp [operandBytes, value, Except.map] at encoded
    simp [← encoded, OperandKind.size]
  | word =>
    rcases value : wordOperand text labels with problem | value <;>
      simp [operandBytes, value, Except.map] at encoded
    simp [← encoded, OperandKind.size, Word.littleEndian]

/-- An encoded instruction is as long as the chart says. -/
theorem length_encode {selection : Selection} {operands : List String} {labels : LabelTable}
    {bytes : List Byte} (fits : selection.Fits operands)
    (encoded : selection.encode operands labels = .ok bytes) : bytes.length = selection.size := by
  have kind := fits.operand_eq
  have data := fits.data_iff
  unfold encode at encoded
  unfold dataText? at data
  rcases found : selection.dataIndex.bind (operands[·]?) with _ | text
  · simp only [found] at encoded data
    have none : selection.operand = .none := by simpa using data
    cases encoded
    simp [size, Opcode.size, ← kind, none, OperandKind.size]
  · simp only [found] at encoded
    rcases value : operandBytes selection.operand text labels with problem | value
    · simp [value, Except.map] at encoded
    · have length := length_operandBytes value
      simp only [value, Except.map, Except.ok.injEq] at encoded
      simp [← encoded, size, Opcode.size, ← kind, length, Nat.add_comm]

/-- What is encoded begins with the opcode. -/
theorem exists_data {selection : Selection} {operands : List String}
    {labels : LabelTable} {bytes : List Byte}
    (encoded : selection.encode operands labels = .ok bytes) :
    ∃ data, bytes = selection.opcode :: data := by
  unfold encode at encoded
  split at encoded
  next => exact ⟨[], (Except.ok.inj encoded).symm⟩
  next text _ =>
    rcases value : operandBytes selection.operand text labels with problem | data
    · simp [value, Except.map] at encoded
    · rw [value] at encoded
      exact ⟨data, (Except.ok.inj encoded).symm⟩

/-- A word operand that is a label name is the address of the label. -/
theorem encode_of_label {selection : Selection} {operands : List String} {labels : LabelTable}
    {bytes : List Byte} {text : String} (word : selection.operand = .word)
    (data : selection.dataText? operands = some text) (label : Label.defect? text.toList = none)
    (encoded : selection.encode operands labels = .ok bytes) :
    ∃ symbol, labels.find? text = some symbol ∧
      bytes = selection.opcode :: Word.littleEndian symbol.address := by
  unfold dataText? at data
  simp only [encode, data, word, operandBytes, wordOperand, label, Option.isNone_none,
    if_true] at encoded
  rcases bound : labels.find? text with _ | symbol
  · simp [bound, Except.map] at encoded
  · refine ⟨symbol, rfl, ?_⟩
    simpa [bound, Except.map, eq_comm] using encoded

end Selection

/-- The bytes of a statement, given the labels. A statement without an instruction has none. -/
def Statement.bytes (labels : LabelTable) (statement : Statement) : List Byte :=
  match statement.selection? with
  | none => []
  | some selection => (selection.encode statement.operandTexts labels).toOption.getD []

/-- The opcode of a statement is chosen for its operands. -/
theorem Statement.fits_of_selection? {statement : Statement} {selection : Selection}
    (chosen : statement.selection? = some selection) :
    selection.Fits statement.operandTexts := by
  obtain ⟨mnemonic, _, answer⟩ := Statement.selection?_eq_some_iff.1 chosen
  exact Selection.fits_of_ofOperands answer

/-! ### Encoded instructions -/

open Assembly (Encoded)

/-- The address of the first byte of an instruction. -/
def Assembly.Encoded.address (encoded : Encoded) : Word := encoded.placement.address

/-- The instruction of a statement at an address, if it has one and it can be encoded. -/
def Statement.encoded? (labels : LabelTable) (statement : Statement) (address : Word) :
    Option Encoded :=
  statement.selection?.bind fun selection =>
    match selection.encode statement.operandTexts labels with
    | .ok bytes => some { placement := { statement, selection, address }, bytes }
    | .error _ => none

theorem Statement.encoded?_eq_some_iff {labels : LabelTable} {statement : Statement}
    {address : Word} {encoded : Encoded} :
    statement.encoded? labels address = some encoded ↔
      encoded.placement.statement = statement ∧ encoded.address = address ∧
        statement.selection? = some encoded.placement.selection ∧
        encoded.placement.selection.encode statement.operandTexts labels = .ok encoded.bytes := by
  rw [encoded?, Option.bind_eq_some_iff]
  constructor
  · rintro ⟨selection, chosen, made⟩
    rcases answer : selection.encode statement.operandTexts labels with problem | bytes
    · simp [answer] at made
    · simp only [answer, Option.some.injEq] at made
      subst made
      exact ⟨rfl, rfl, chosen, answer⟩
  · obtain ⟨⟨_, selection, _⟩, bytes⟩ := encoded
    rintro ⟨rfl, rfl, chosen, answer⟩
    refine ⟨selection, chosen, ?_⟩
    simp only at answer
    rw [answer]
    rfl

/-- The instruction of a statement has its bytes; a statement that has none takes no room. -/
theorem Statement.bytes_encoded? (labels : LabelTable) (statement : Statement) (address : Word) :
    ((statement.encoded? labels address).map Encoded.bytes).getD [] = statement.bytes labels := by
  unfold encoded? bytes
  rcases statement.selection? with _ | selection
  · rfl
  · rcases answer : selection.encode statement.operandTexts labels with problem | bytes <;>
      simp [answer, Except.toOption]

namespace Assembly

/-! ### Answers -/

section Answers

variable {ε α : Type}

@[simp] theorem successes_nil : successes ([] : List (Except ε α)) = [] := rfl

@[simp] theorem successes_cons_ok (value : α) (rest : List (Except ε α)) :
    successes (.ok value :: rest) = value :: successes rest := rfl

@[simp] theorem successes_cons_error (e : ε) (rest : List (Except ε α)) :
    successes (.error e :: rest) = successes rest := rfl

@[simp] theorem successes_map_ok (values : List α) :
    successes (values.map (Except.ok : α → Except ε α)) = values := by
  induction values with
  | nil => rfl
  | cons value rest ih => rw [List.map_cons, successes_cons_ok, ih]

@[simp] theorem failures_map_ok (values : List α) :
    failures (values.map (Except.ok : α → Except ε α)) = [] := by
  induction values with
  | nil => rfl
  | cons value rest ih => exact ih

theorem successes_append (first second : List (Except ε α)) :
    successes (first ++ second) = successes first ++ successes second :=
  List.filterMap_append

theorem mem_successes {value : α} {answers : List (Except ε α)} :
    value ∈ successes answers ↔ .ok value ∈ answers := by
  induction answers with
  | nil => simp
  | cons answer rest ih => cases answer <;> simp [ih]

/-- If nothing failed, every answer is a success. -/
theorem exists_ok_of_failures_nil {answers : List (Except ε α)} (none : failures answers = [])
    {answer : Except ε α} (member : answer ∈ answers) : ∃ value, answer = .ok value := by
  rcases answer with e | value
  · have listed : e ∈ failures answers := List.mem_filterMap.2 ⟨.error e, member, rfl⟩
    simp [none] at listed
  · exact ⟨value, rfl⟩

theorem eq_map_ok_of_failures_nil {answers : List (Except ε α)} (none : failures answers = []) :
    answers = (successes answers).map Except.ok := by
  induction answers with
  | nil => rfl
  | cons answer rest ih =>
    cases answer with
    | error e => cases none
    | ok value => exact congrArg (.ok value :: ·) (ih none)

/-- A success has its place among the answers. -/
theorem exists_split_of_successes {answers : List (Except ε α)} {value : α}
    {before after : List α} (split : successes answers = before ++ value :: after) :
    ∃ first rest, answers = first ++ .ok value :: rest ∧
      successes first = before ∧ successes rest = after := by
  induction answers generalizing before with
  | nil => simp at split
  | cons answer rest ih =>
    cases answer with
    | error e =>
      obtain ⟨first, later, rfl, earlier, further⟩ := ih split
      exact ⟨.error e :: first, later, rfl, earlier, further⟩
    | ok other =>
      cases before with
      | nil =>
        obtain ⟨rfl, rfl⟩ := List.cons.inj split
        exact ⟨[], rest, rfl, rfl, rfl⟩
      | cons head tail =>
        obtain ⟨rfl, rest_eq⟩ := List.cons.inj split
        obtain ⟨first, later, rfl, earlier, further⟩ := ih rest_eq
        exact ⟨.ok other :: first, later, rfl, by simp [earlier], further⟩

end Answers

/-! ### Lines -/

/-- The bytes that a line stands for. A line that is refused stands for none. -/
def lineBytes (labels : LabelTable) : Except Diagnostic Statement → List Byte
  | .ok statement => statement.bytes labels
  | .error _ => []

/-- The bytes that the lines of a source stand for, line by line. -/
def emitted (labels : LabelTable) (lines : List (List Char)) : List (List Byte) :=
  (parseLines lines).map (lineBytes labels)

/-- A line that is taken apart stands for the bytes of its statement. -/
theorem getElem?_emitted {lines : List (List Char)} {index : Nat} {statement : Statement}
    (place : (parseLines lines)[index]? = some (.ok statement)) (labels : LabelTable) :
    (emitted labels lines)[index]? = some (statement.bytes labels) := by
  rw [emitted, List.getElem?_map, place, Option.map_some, lineBytes]

/-- A statement knows the number of its line. -/
theorem line_of_parse {number : Nat} {text : List Char} {statement : Statement}
    (parsed : Statement.parse number text = .ok statement) : statement.line = number := by
  have separated := Statement.separated_parse number text
  rw [parsed] at separated
  cases separated
  rfl

/-- A refusal knows the number of its line. -/
theorem line_of_refused {number : Nat} {text : List Char} {refusal : Diagnostic}
    (refused : Statement.parse number text = .error refusal) : refusal.line = number := by
  have separated := Statement.separated_parse number text
  rw [refused] at separated
  cases separated <;> rfl

theorem line_of_parsed {lines : List (List Char)} {index : Nat} {statement : Statement}
    (parsed : (parseLines lines)[index]? = some (.ok statement)) :
    statement.line = index + 1 := by
  rw [parseLines, List.getElem?_mapIdx] at parsed
  obtain ⟨text, _, parsed⟩ := Option.map_eq_some_iff.1 parsed
  exact line_of_parse parsed

theorem flatten_map_lineBytes (labels : LabelTable) (parsed : List (Except Diagnostic Statement)) :
    (parsed.map (lineBytes labels)).flatten =
      (successes parsed).flatMap (Statement.bytes labels) := by
  induction parsed with
  | nil => rfl
  | cons answer rest ih => cases answer <;> simp [lineBytes, ih]

/-! ### A whole source -/

/-- What the second pass encodes are the instructions of the statements. -/
theorem successes_encoded (labels : LabelTable) (addressed : List (Statement × Word)) :
    successes ((addressed.filterMap fun (statement, address) =>
        statement.placement? address).map (encodePlacement labels)) =
      addressed.filterMap fun (statement, address) => statement.encoded? labels address := by
  induction addressed with
  | nil => rfl
  | cons first rest ih =>
    obtain ⟨statement, address⟩ := first
    rcases chosen : statement.selection? with _ | selection
    · simpa [Statement.placement?, Statement.encoded?, chosen] using ih
    · rcases answer : selection.encode statement.operandTexts labels with problem | bytes
      · simpa [Statement.placement?, Statement.encoded?, chosen, encodePlacement, answer] using ih
      · simpa [Statement.placement?, Statement.encoded?, chosen, encodePlacement, answer] using ih

/-- The instructions of statements have the bytes of the statements. -/
theorem flatMap_bytes_encoded (labels : LabelTable) (addressed : List (Statement × Word)) :
    (addressed.filterMap fun (statement, address) =>
        statement.encoded? labels address).flatMap Encoded.bytes =
      (addressed.map Prod.fst).flatMap (Statement.bytes labels) := by
  induction addressed with
  | nil => rfl
  | cons first rest ih =>
    obtain ⟨statement, address⟩ := first
    rw [List.filterMap_cons, List.map_cons, List.flatMap_cons, ← ih,
      ← statement.bytes_encoded? labels address]
    rcases made : statement.encoded? labels address <;> simp [made]

variable {lines : List (List Char)} {start : Word} {mode : Mode} {program : Program}

/-- The passes that end in a program have nothing to report. -/
theorem passes_of_ok (assembled : ofLines lines start mode = .ok program) :
    (Passes.ofLines lines start mode).diagnostics = [] ∧
      (Passes.ofLines lines start mode).program = program := by
  unfold ofLines at assembled
  simp only at assembled
  split at assembled
  next empty => exact ⟨List.isEmpty_iff.1 empty, Except.ok.inj assembled⟩
  next => cases assembled

/-- A source is assembled exactly if its passes have nothing to report. -/
theorem ofLines_eq_ok_iff :
    ofLines lines start mode = .ok program ↔
      (Passes.ofLines lines start mode).diagnostics = [] ∧
        (Passes.ofLines lines start mode).program = program := by
  constructor
  · exact passes_of_ok
  · intro passes
    obtain ⟨quiet, rfl⟩ := passes
    simp [ofLines, quiet]

/-- If there is nothing to report, strict mode has refused no line, the first pass was quiet, the
program ends below the top of memory, and every instruction was encoded. -/
theorem Passes.diagnostics_eq_nil {passes : Passes} (quiet : passes.diagnostics = []) :
    (passes.mode = .strict → passes.refusals = []) ∧
      passes.layout.diagnostics = #[] ∧
      passes.start.toNat + passes.layout.length ≤ Memory.size ∧
      failures passes.encoded = [] := by
  simp only [Passes.diagnostics, List.append_eq_nil_iff] at quiet
  obtain ⟨⟨⟨refused, first⟩, fits⟩, second⟩ := quiet
  refine ⟨?_, by simpa using first, ?_, second⟩
  · intro strict
    simpa [strict] using refused
  · by_contra beyond
    rw [overflow, if_pos (by simpa using beyond)] at fits
    simp at fits

/-- There is nothing to report exactly if strict mode has refused no line, the first pass was quiet,
the program ends below the top of memory, and every instruction was encoded. -/
theorem Passes.diagnostics_eq_nil_iff {passes : Passes} :
    passes.diagnostics = [] ↔
      (passes.mode = .strict → passes.refusals = []) ∧
        passes.layout.diagnostics = #[] ∧
        passes.start.toNat + passes.layout.length ≤ Memory.size ∧
        failures passes.encoded = [] := by
  constructor
  · exact Passes.diagnostics_eq_nil
  · intro quiet
    obtain ⟨refused, first, fits, second⟩ := quiet
    have short : overflow passes.start passes.layout.length passes.statements = [] := by
      rw [overflow, if_neg (Nat.not_lt_of_le fits)]
    rw [diagnostics, first, short, second]
    split
    · rw [refused ‹_›]
      rfl
    · rfl

/-- The bytes of a program are the bytes of its lines. -/
theorem bytes_eq_emitted (assembled : ofLines lines start mode = .ok program) :
    program.bytes = (emitted program.labels lines).flatten := by
  obtain ⟨_, rfl⟩ := passes_of_ok assembled
  simp only [Passes.program, Passes.ofLines]
  rw [Layout.placements_ofStatements, successes_encoded, flatMap_bytes_encoded,
    Layout.map_fst_addressed, emitted, flatten_map_lineBytes]

/-- Every instruction of a program has been encoded. -/
theorem exists_encode (assembled : ofLines lines start mode = .ok program)
    {statement : Statement} (member : statement ∈ successes (parseLines lines))
    {selection : Selection} (chosen : statement.selection? = some selection) :
    ∃ bytes, selection.encode statement.operandTexts program.labels = .ok bytes := by
  obtain ⟨quiet, rfl⟩ := passes_of_ok assembled
  obtain ⟨_, _, _, encoded⟩ := Passes.diagnostics_eq_nil quiet
  have listed := member
  rw [← Layout.map_fst_addressed start mode 0 (successes (parseLines lines))] at listed
  obtain ⟨⟨first, address⟩, placed, same⟩ := List.mem_map.1 listed
  obtain rfl : first = statement := same
  have placement : (⟨first, selection, address⟩ : Placement) ∈
      (Passes.ofLines lines start mode).layout.placements.toList := by
    rw [Passes.ofLines, Layout.placements_ofStatements]
    exact List.mem_filterMap.2 ⟨_, placed, by simp [Statement.placement?, chosen]⟩
  obtain ⟨value, succeeded⟩ := exists_ok_of_failures_nil encoded (List.mem_map_of_mem placement)
  rw [encodePlacement] at succeeded
  simp only at succeeded
  split at succeeded
  next bytes answer => exact ⟨bytes, answer⟩
  next => cases succeeded

/-- Each statement of a program has as many bytes as the first pass counted. -/
theorem length_bytes_eq_width (assembled : ofLines lines start mode = .ok program)
    {statement : Statement} (member : statement ∈ successes (parseLines lines)) :
    (statement.bytes program.labels).length = statement.width mode := by
  have counted : statement.width mode = (statement.selection?.map Selection.size).getD 0 := by
    obtain ⟨quiet, _⟩ := passes_of_ok assembled
    obtain ⟨_, first, _⟩ := Passes.diagnostics_eq_nil quiet
    exact Layout.width_of_quiet first statement member
  rw [counted, Statement.bytes]
  rcases chosen : statement.selection? with _ | selection
  · rfl
  · obtain ⟨bytes, encoded⟩ := exists_encode assembled member chosen
    simp [encoded, Except.toOption,
      Selection.length_encode (Statement.fits_of_selection? chosen) encoded]

end Assembly

end I8085
