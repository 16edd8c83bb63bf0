/-
Module: I8085.Proofs.WrittenProgram
Layer: Proofs
Purpose: Assembling what has been written. A code is an opcode of the chart with a number that fits
  its operand. It is written as the chart spells its opcode, and the number in any of the numeral
  forms. A program that is written line by line is assembled in strict mode, whatever its length and
  its forms, to the bytes of its codes one after another; and cutting these bytes where the chart
  says that an instruction ends gives back the codes (`Code.assemble_written`).
Imports: I8085.Proofs.NumeralSpelling, I8085.Proofs.WrittenLine
Main exports: Code, Code.bytes, Code.ofBytes?, Code.ofBytes?_flatMap_bytes, Code.Written,
  Code.exists_writtenIn, Code.Written.exists_statement, Code.assemble_written
-/
import I8085.Proofs.NumeralSpelling
import I8085.Proofs.WrittenLine

namespace I8085

/-! ### Codes and their bytes -/

/-- The bytes of a number, the least significant one first. -/
def littleEndian : Nat → Nat → List Byte
  | 0, _ => []
  | size + 1, value => UInt8.ofNat value :: littleEndian size (value / 256)

@[simp] theorem length_littleEndian (size value : Nat) :
    (littleEndian size value).length = size := by
  induction size generalizing value with
  | zero => rfl
  | succ size ih => rw [littleEndian, List.length_cons, ih]

/-- A number is the value of its bytes. -/
theorem ofDigits_littleEndian {size value : Nat} (fits : value < 256 ^ size) :
    Nat.ofDigits 256 ((littleEndian size value).map UInt8.toNat) = value := by
  induction size generalizing value with
  | zero =>
    rw [Nat.pow_zero, Nat.lt_one_iff] at fits
    exact fits.symm
  | succ size ih =>
    have rest : value / 256 < 256 ^ size := by
      rw [Nat.div_lt_iff_lt_mul (by decide), ← Nat.pow_succ]
      exact fits
    rw [littleEndian, List.map_cons, Nat.ofDigits_cons, ih rest, UInt8.toNat_ofNat']
    exact Nat.mod_add_div value 256

/-- As many bytes as an operand takes are a number that fits it. -/
theorem ofDigits_take_lt {size : Nat} {bytes : List Byte} (enough : size ≤ bytes.length) :
    Nat.ofDigits 256 ((bytes.take size).map UInt8.toNat) < 256 ^ size := by
  have below : ∀ digit ∈ (bytes.take size).map UInt8.toNat, digit < 256 := by
    intro digit member
    obtain ⟨byte, _, rfl⟩ := List.mem_map.1 member
    exact byte.toNat_lt
  have bound := Nat.ofDigits_lt_base_pow_length (by decide) below
  rwa [List.length_map, List.length_take_of_le enough] at bound

/-- An opcode of the chart and a number that fits its operand. An opcode without an operand has the
number zero. -/
@[ext]
structure Code where
  opcode : Byte
  charted : (Opcode.cell? opcode).isSome = true
  value : Nat
  value_lt : value < 256 ^ (Opcode.operand opcode).size

namespace Code

def size (code : Code) : Nat := Opcode.size code.opcode

/-- The opcode and then the number, low byte first. -/
def bytes (code : Code) : List Byte :=
  code.opcode :: littleEndian (Opcode.operand code.opcode).size code.value

/-- Cut bytes where the chart says that an instruction ends. It fails if an opcode is not in the
chart or its operand is cut off. -/
def ofBytes? : List Byte → Option (List Code)
  | [] => some []
  | opcode :: rest =>
      let size := (Opcode.operand opcode).size
      if whole : (Opcode.cell? opcode).isSome = true ∧ size ≤ rest.length then
        (ofBytes? (rest.drop size)).map fun codes =>
          { opcode
            charted := whole.1
            value := Nat.ofDigits 256 ((rest.take size).map UInt8.toNat)
            value_lt := ofDigits_take_lt whole.2 } :: codes
      else none
termination_by bytes => bytes.length
decreasing_by
  rw [List.length_drop, List.length_cons]
  exact Nat.lt_succ_of_le (Nat.sub_le _ _)

theorem ofBytes?_append (code : Code) (rest : List Byte) :
    ofBytes? (code.bytes ++ rest) = (ofBytes? rest).map (code :: ·) := by
  have length := length_littleEndian (Opcode.operand code.opcode).size code.value
  have whole : (Opcode.cell? code.opcode).isSome = true ∧
      (Opcode.operand code.opcode).size ≤
        (littleEndian (Opcode.operand code.opcode).size code.value ++ rest).length := by
    refine ⟨code.charted, ?_⟩
    rw [List.length_append, length]
    exact Nat.le_add_right _ _
  rw [bytes, List.cons_append, ofBytes?, dif_pos whole]
  simp only [List.take_left' length, List.drop_left' length, ofDigits_littleEndian code.value_lt]

/-- The bytes of codes, one after another, are cut into these codes. -/
theorem ofBytes?_flatMap_bytes (codes : List Code) :
    ofBytes? (codes.flatMap bytes) = some codes := by
  induction codes with
  | nil => rw [List.flatMap_nil, ofBytes?]
  | cons code rest ih => rw [List.flatMap_cons, ofBytes?_append, ih, Option.map_some]

/-! ### Writing a code -/

/-- What stands before the number: a comma if the opcode has fields, and a space otherwise. -/
def separator (code : Code) : String :=
  if (Opcode.cell? code.opcode).any (·.fields.isEmpty) then " " else ","

/-- The lines that write a code with its number in a given form: the text of the opcode and, if it
has an operand, the number. -/
inductive WrittenIn (form : Numeral.Form) (code : Code) : String → Prop
  | bare (none : Opcode.operand code.opcode = .none) : WrittenIn form code (Opcode.text code.opcode)
  | withData {chars : List Char} (some : Opcode.operand code.opcode ≠ .none)
      (spelled : form.Spells code.value chars) :
      WrittenIn form code (Opcode.text code.opcode ++ code.separator ++ String.ofList chars)

/-- The lines that write a code. -/
def Written (code : Code) (line : String) : Prop := ∃ form, WrittenIn form code line

/-- Every code can be written with its number in every form. -/
theorem exists_writtenIn (form : Numeral.Form) (code : Code) :
    ∃ line, WrittenIn form code line := by
  by_cases none : Opcode.operand code.opcode = .none
  · exact ⟨_, .bare none⟩
  · obtain ⟨chars, spelled⟩ := form.exists_spelling code.value
    exact ⟨_, .withData none spelled⟩

/-! ### Reading a line -/

open Text (IsToken instructionText)

theorem isToken_mnemonic (mnemonic : Mnemonic) : IsToken mnemonic.name.toList := by
  have each : ∀ mnemonic ∈ Mnemonic.all, IsToken mnemonic.name.toList := by decide +kernel
  exact each mnemonic mnemonic.mem_all

theorem isToken_field (field : Opcode.Field) : IsToken field.name.toList := by
  cases field with
  | register register => cases register <;> decide
  | pair pair => cases pair <;> decide
  | vector number =>
    have each : ∀ number : Fin 8, IsToken (Opcode.Field.vector number).name.toList := by decide
    exact each number

/-- The names of mnemonics are in upper case. -/
theorem upper_mnemonic (mnemonic : Mnemonic) : Text.upper mnemonic.name = mnemonic.name := by
  have each : ∀ mnemonic ∈ Mnemonic.all, Text.upper mnemonic.name = mnemonic.name := by
    decide +kernel
  exact each mnemonic mnemonic.mem_all

/-- The text of a chart entry is its word with its fields as operands. -/
theorem toList_entryText (entry : Opcode.Entry) :
    entry.text.toList =
      instructionText entry.mnemonic.name.toList (entry.fieldNames.map String.toList) := by
  unfold Opcode.Entry.text instructionText Text.operandText
  split
  next empty => simp [empty]
  next some =>
    rw [if_neg (by simpa using some)]
    simp [String.toList_intercalate]

/-- A written line is the word of its opcode with the fields of the opcode and the data as
operands. -/
theorem WrittenIn.toList_eq {form : Numeral.Form} {code : Code} {line : String}
    {entry : Opcode.Entry} (written : WrittenIn form code line)
    (cell : Opcode.cell? code.opcode = some entry) :
    ∃ data, data.length = Selection.dataCount entry.operand ∧
      (∀ chars ∈ data, form.Spells code.value chars) ∧
      line.toList = instructionText entry.mnemonic.name.toList
        (entry.fieldNames.map String.toList ++ data) := by
  have text : Opcode.text code.opcode = entry.text := by
    rw [Opcode.text, cell]
    rfl
  have kind := Opcode.operand_of_cell cell
  cases written with
  | bare none =>
    refine ⟨[], ?_, by simp, ?_⟩
    · rw [← kind, none]
      rfl
    · rw [text, toList_entryText, List.append_nil]
  | @withData chars some spelled =>
    refine ⟨[chars], ?_, by simpa using spelled, ?_⟩
    · rw [kind] at some
      rw [Selection.dataCount_of_ne_none some]
      rfl
    · rw [String.toList_append, String.toList_append, String.toList_ofList, text, toList_entryText,
        Text.instructionText_concat, separator, cell, Option.any_some, Opcode.Entry.fieldNames]
      cases entry.fields <;> simp

/-! ### Encoding -/

theorem littleEndian_word {value : Nat} (fits : value < 65536) :
    Word.littleEndian (UInt16.ofNat value) = littleEndian OperandKind.word.size value := by
  have same : (UInt16.ofNat value).toNat = value := UInt16.toNat_ofNat_of_lt fits
  rw [Word.littleEndian, Word.low, Word.high, same]
  rfl

/-- An operand that writes a number is encoded as the bytes of the number if it fits. -/
theorem operandBytes_of_reads {value : Nat} {text : String} {kind : OperandKind}
    (reads : Numeral.Reads value (Text.trim text.toList)) (fits : value < 256 ^ kind.size)
    (labels : LabelTable) :
    Selection.operandBytes kind text labels = .ok (littleEndian kind.size value) := by
  have small : value < Numeral.limit := by
    refine Nat.lt_of_lt_of_le fits ?_
    cases kind <;> decide
  have parsed := Numeral.parse_of_reads reads small
  cases kind with
  | none => rfl
  | byte =>
    have bound : value < 256 := fits
    simp only [Selection.operandBytes, Selection.byteOperand, parsed, if_pos bound, Except.map]
    rfl
  | word =>
    have bound : value < 65536 := fits
    have number : ¬(Label.defect? text.toList).isNone = true := by
      rw [Option.isNone_iff_eq_none]
      exact Numeral.defect?_of_reads reads
    simp only [Selection.operandBytes, Selection.wordOperand, if_neg number, parsed, if_pos bound,
      Except.map]
    rw [littleEndian_word bound]

/-- The selection for a chart entry encodes the spelled number as the bytes of the code, whatever
labels there are. -/
theorem encode_of_spells {form : Numeral.Form} {code : Code} {entry : Opcode.Entry}
    (cell : Opcode.cell? code.opcode = some entry) {data : List (List Char)}
    (count : data.length = Selection.dataCount entry.operand)
    (spelled : ∀ chars ∈ data, form.Spells code.value chars) (fields : List String)
    (labels : LabelTable) :
    Selection.encode
        { opcode := code.opcode
          operand := entry.operand
          dataIndex := if entry.operand = .none then none else some fields.length }
        (fields ++ data.map String.ofList) labels = .ok code.bytes := by
  have kind := Opcode.operand_of_cell cell
  have fits := code.value_lt
  rw [kind] at fits
  rw [bytes, kind]
  by_cases none : entry.operand = .none
  · rw [none]
    rfl
  · obtain ⟨chars, rfl⟩ : ∃ chars, data = [chars] := by
      apply List.length_eq_one_iff.1
      rw [count, Selection.dataCount_of_ne_none none]
    have reads := Numeral.reads_trim_of_spells (spelled chars (by simp))
    have data := operandBytes_of_reads reads fits labels
    have found :
        (fields ++ [String.ofList chars])[fields.length]? = some (String.ofList chars) := by
      simp
    simp only [Selection.encode, if_neg none, Option.bind_some, List.map_cons, List.map_nil, found,
      data, Except.map]

/-! ### Statements -/

/-- What it is for a code to be the one that a statement stands for, whatever labels there are. -/
structure Matches (code : Code) (statement : Statement) : Prop where
  unlabelled : statement.label = none
  selected : ∃ selection, statement.selection? = some selection ∧
    selection.opcode = code.opcode ∧
    ∀ labels, selection.encode statement.operandTexts labels = .ok code.bytes

/-- The operands of a written line are tokens. -/
theorem isToken_of_mem {form : Numeral.Form} {code : Code} {entry : Opcode.Entry}
    {data : List (List Char)} (spelled : ∀ chars ∈ data, form.Spells code.value chars)
    {operand : List Char} (member : operand ∈ entry.fieldNames.map String.toList ++ data) :
    IsToken operand := by
  rcases List.mem_append.1 member with named | datum
  · rw [Opcode.Entry.fieldNames, List.map_map] at named
    obtain ⟨field, _, rfl⟩ := List.mem_map.1 named
    exact isToken_field field
  · exact Numeral.isToken_of_spells (spelled operand datum)

/-- A line that writes a code is an instruction, made of tokens, in its word and its operands. -/
theorem Written.exists_operands {code : Code} {line : String} (written : code.Written line) :
    ∃ entry form data,
      Opcode.cell? code.opcode = some entry ∧
      data.length = Selection.dataCount entry.operand ∧
      (∀ chars ∈ data, Numeral.Form.Spells form code.value chars) ∧
      (∀ operand ∈ entry.fieldNames.map String.toList ++ data, IsToken operand) ∧
      line.toList = instructionText entry.mnemonic.name.toList
        (entry.fieldNames.map String.toList ++ data) := by
  obtain ⟨form, written⟩ := written
  obtain ⟨entry, cell⟩ := Option.isSome_iff_exists.1 code.charted
  obtain ⟨data, count, spelled, text⟩ := written.toList_eq cell
  refine ⟨entry, form, data, cell, count, spelled, ?_, text⟩
  intro operand member
  exact isToken_of_mem spelled member

/-- A line that writes a code is parsed into a statement that stands for it. -/
theorem Written.exists_statement {code : Code} {line : String} (written : code.Written line)
    (number : Nat) :
    ∃ statement, Statement.parse number line.toList = .ok statement ∧ code.Matches statement := by
  obtain ⟨entry, form, data, cell, count, spelled, tokens, text⟩ := written.exists_operands
  obtain ⟨statement, parsed, unlabelled, mnemonic, operands⟩ :=
    Statement.parse_instructionText number (isToken_mnemonic entry.mnemonic) tokens
  rw [← text] at parsed
  rw [String.ofList_toList, upper_mnemonic] at mnemonic
  obtain ⟨word, present, spelt⟩ := Option.map_eq_some_iff.1 mnemonic
  have texts : statement.operandTexts = entry.fieldNames ++ data.map String.ofList := by
    rw [operands, List.map_append, List.map_map]
    simp [Function.comp_def]
  have named : Text.upper word.text = entry.mnemonic.name := by
    rw [spelt, upper_mnemonic]
  have listed : entry.fieldNames.map Text.upper = entry.fieldNames := by
    rw [Opcode.Entry.fieldNames, List.map_map]
    exact List.map_congr_left fun field _ => Opcode.upper_field field
  have total : (data.map String.ofList).length = Selection.dataCount entry.operand := by
    rw [List.length_map, count]
  have chosen := Selection.ofOperands_of_cell cell named listed total
  rw [← texts] at chosen
  have selected := Statement.selection?_eq_some_iff.2 ⟨word, present, chosen⟩
  refine ⟨statement, parsed, unlabelled, _, selected, rfl, ?_⟩
  intro labels
  rw [texts]
  exact encode_of_spells cell count spelled entry.fieldNames labels

/-- A line that writes a code is cut out of a text whole. -/
theorem Written.isLine {code : Code} {line : String} (written : code.Written line) :
    line.toList ≠ [] ∧ '\n' ∉ line.toList ∧ line.toList.getLast? ≠ some '\r' := by
  obtain ⟨entry, form, data, _, _, _, tokens, text⟩ := written.exists_operands
  have named := isToken_mnemonic entry.mnemonic
  rw [text]
  refine ⟨List.append_ne_nil_of_left_ne_nil named.nonempty _, ?_, ?_⟩
  · exact Text.not_mem_instructionText named tokens (by decide) (by decide) (by decide)
  · intro last
    have plain := Text.isPlain_of_getLast? named tokens last
    revert plain
    decide

/-! ### Programs -/

/-- Lines that write codes are taken apart one by one. -/
theorem exists_statements {codes : List Code} {lines : List String}
    (written : List.Forall₂ Written codes lines)
    (parse : Nat → List Char → Except Diagnostic Statement)
    (parses : ∀ code line index, Written code line →
      ∃ statement, parse index line.toList = .ok statement ∧ code.Matches statement) :
    ∃ statements, (lines.map String.toList).mapIdx parse = statements.map .ok ∧
      List.Forall₂ Matches codes statements := by
  induction written generalizing parse with
  | nil => exact ⟨[], rfl, .nil⟩
  | @cons code line codes lines here _ ih =>
    obtain ⟨statement, parsed, here⟩ := parses code line 0 here
    obtain ⟨statements, later, rest⟩ := ih (fun index => parse (index + 1)) fun code line index =>
      parses code line (index + 1)
    refine ⟨statement :: statements, ?_, .cons here rest⟩
    rw [List.map_cons, List.mapIdx_cons, parsed, later, List.map_cons]

variable {codes : List Code} {statements : List Statement}

theorem exists_related_of_mem {α β : Type} {related : α → β → Prop} {values : List α}
    {others : List β} (pairs : List.Forall₂ related values others) {other : β}
    (member : other ∈ others) : ∃ value, related value other := by
  induction pairs with
  | nil => cases member
  | @cons value first _ _ here _ ih =>
    rcases List.mem_cons.1 member with rfl | later
    · exact ⟨value, here⟩
    · exact ih later

theorem flatMap_bytes_of_matches (matched : List.Forall₂ Matches codes statements)
    (labels : LabelTable) : statements.flatMap (Statement.bytes labels) = codes.flatMap bytes := by
  induction matched with
  | nil => rfl
  | cons here _ ih =>
    obtain ⟨selection, selected, _, encoded⟩ := here.selected
    rw [List.flatMap_cons, List.flatMap_cons, ih, Statement.bytes, selected]
    simp only [encoded labels, Except.toOption, Option.getD_some]

theorem sum_size_of_matches (matched : List.Forall₂ Matches codes statements) :
    ((statements.filterMap Statement.selection?).map Selection.size).sum =
      (codes.map size).sum := by
  induction matched with
  | nil => rfl
  | cons here _ ih =>
    obtain ⟨selection, selected, opcode, _⟩ := here.selected
    rw [List.filterMap_cons_some selected, List.map_cons, List.sum_cons, ih, List.map_cons,
      List.sum_cons, Selection.size, opcode, ← size]

/-- Statements that stand for codes have nothing wrong with them if the codes fit into memory. -/
theorem sound_of_matches {lines : List (List Char)} {start : Word}
    (parsed : Assembly.parseLines lines = statements.map .ok)
    (matched : List.Forall₂ Matches codes statements)
    (fits : start.toNat + (codes.map size).sum ≤ Memory.size) : Assembly.Sound lines start := by
  have answers : Assembly.successes (Assembly.parseLines lines) = statements := by
    rw [parsed, Assembly.successes_map_ok]
  constructor
  · rw [parsed]
    intro answer member
    obtain ⟨statement, _, rfl⟩ := List.mem_map.1 member
    exact ⟨statement, rfl⟩
  · rintro name first second ⟨statement, place, named⟩ _
    have member : statement ∈ statements := by
      rw [← answers]
      exact Assembly.mem_successes.2 (List.mem_of_getElem? place)
    obtain ⟨code, here⟩ := exists_related_of_mem matched member
    rw [Statement.labelName?, here.unlabelled] at named
    cases named
  · rw [answers]
    intro statement member mnemonic present
    obtain ⟨code, here⟩ := exists_related_of_mem matched member
    obtain ⟨selection, selected, _⟩ := here.selected
    obtain ⟨word, found, chosen⟩ := Statement.selection?_eq_some_iff.1 selected
    rw [present] at found
    obtain rfl := Option.some.inj found
    exact ⟨selection, chosen⟩
  · rw [answers]
    intro statement member selection chosen
    obtain ⟨code, here⟩ := exists_related_of_mem matched member
    obtain ⟨selected, same, _, encoded⟩ := here.selected
    rw [chosen] at same
    obtain rfl := Option.some.inj same
    exact ⟨code.bytes, encoded _⟩
  · rw [answers, sum_size_of_matches matched]
    exact fits

/-- A program that is written line by line, with each number in any form, is assembled at any
address from which it fits into memory. Its bytes are those of its codes, and cutting them gives
back the codes. -/
theorem assemble_written {codes : List Code} {lines : List String} {start : Word}
    (written : List.Forall₂ Written codes lines)
    (fits : start.toNat + (codes.map size).sum ≤ Memory.size) :
    ∃ program, assemble ("\n".intercalate lines) start .strict = .ok program ∧
      program.bytes = codes.flatMap bytes ∧ ofBytes? program.bytes = some codes := by
  have cut : Text.lines ("\n".intercalate lines).toList = lines.map String.toList := by
    rw [String.toList_intercalate]
    apply Text.lines_intercalate
    intro chars member
    obtain ⟨line, listed, rfl⟩ := List.mem_map.1 member
    obtain ⟨code, here⟩ := exists_related_of_mem written listed
    exact here.isLine
  obtain ⟨statements, parsed, matched⟩ := exists_statements written
    (fun index line => Statement.parse (index + 1) line)
    fun code line index written => written.exists_statement (index + 1)
  obtain ⟨program, assembled⟩ := Assembly.exists_program (sound_of_matches parsed matched fits)
  have bytes_eq : program.bytes = codes.flatMap bytes := by
    rw [Assembly.bytes_eq_emitted assembled, Assembly.emitted, Assembly.flatten_map_lineBytes,
      ← flatMap_bytes_of_matches matched program.labels, Assembly.parseLines, parsed,
      Assembly.successes_map_ok]
  refine ⟨program, ?_, bytes_eq, ?_⟩
  · rw [assemble, cut]
    exact assembled
  · rw [bytes_eq]
    exact ofBytes?_flatMap_bytes codes

/-- Five codes whose numbers look like something else in one of their forms. -/
def lookalikes : List Code :=
  [⟨0x3E, by decide, 7, by decide⟩, ⟨0xFF, by decide, 0, by decide⟩,
    ⟨0xC6, by decide, 0x0C, by decide⟩, ⟨0x01, by decide, 0xBC, by decide⟩,
    ⟨0xC3, by decide, 0xDAD, by decide⟩]

/-- The number of the first line could be a restart vector, and the digits of the last three are a
register, a pair and a mnemonic. The program ends at the top of memory. -/
theorem assemble_written_lookalikes :
    ∃ program,
      assemble "MVI A,7\nRST 7\nADI #c\nLXI B,0BCH\nJMP 0xDAD" 0xFFF5 .strict = .ok program ∧
      program.bytes = [0x3E, 7, 0xFF, 0xC6, 0x0C, 0x01, 0xBC, 0, 0xC3, 0xAD, 0x0D] ∧
      ofBytes? program.bytes = some lookalikes := by
  have written : List.Forall₂ Written lookalikes
      ["MVI A,7", "RST 7", "ADI #c", "LXI B,0BCH", "JMP 0xDAD"] := by
    refine .cons ⟨.decimal, ?_⟩ (.cons ⟨.decimal, ?_⟩ (.cons ⟨.hash, ?_⟩
      (.cons ⟨.suffixed, ?_⟩ (.cons ⟨.prefixed, ?_⟩ .nil))))
    · exact .withData (by decide) ⟨['7'], by decide, rfl⟩
    · exact .bare (by decide)
    · exact .withData (by decide) ⟨['c'], by decide, rfl⟩
    · exact .withData (by decide) ⟨['B', 'C'], by decide, rfl⟩
    · exact .withData (by decide) ⟨['D', 'A', 'D'], by decide, rfl⟩
  have fits : (0xFFF5 : Word).toNat + (lookalikes.map size).sum ≤ Memory.size := by decide
  obtain ⟨program, assembled, bytes_eq, read⟩ := assemble_written written fits
  have emitted : lookalikes.flatMap bytes =
      [0x3E, 7, 0xFF, 0xC6, 0x0C, 0x01, 0xBC, 0, 0xC3, 0xAD, 0x0D] := by decide
  rw [emitted] at bytes_eq
  exact ⟨program, assembled, bytes_eq, read⟩

end Code

end I8085
