/-
Module: I8085.Proofs.DiagnosticPlaces
Layer: Proofs
Purpose: Where a diagnostic points. The line of each diagnostic is a line of the source, its span
  lies within this line between whole characters, and what it covers is the text that the problem is
  about: the text before the colon, the first blank operand, the word of the instruction, or the
  operand that could not be encoded (`diagnostics_located`). There is one such text in the line
  (`Problem.Concerns.unique`). Only the complaint about a program that is too long covers nothing.
Imports: I8085.Proofs.LenientMode, I8085.Proofs.LineParts, I8085.Proofs.OpcodeSelection
Main exports: Problem.Concerns, Problem.Concerns.unique, Diagnostic.Marks, Diagnostic.Located,
  Assembly.cause_of_mem, diagnostics_located
-/
import I8085.Proofs.LenientMode
import I8085.Proofs.LineParts
import I8085.Proofs.OpcodeSelection

namespace I8085

open Text (IsItem IsFirstBlank LabelText InstructionLine byteLength)

/-! ### Words and data operands -/

namespace Problem

/-- Whether a problem is one with the word of an instruction. -/
def isOfWord : Problem → Bool
  | unknownMnemonic _ | badOperands _ _ => true
  | _ => false

/-- Whether a problem is one with the data of an instruction. -/
def isOfData : Problem → Bool
  | badNumeral _ | undefinedLabel _ | byteRange _ | wordRange _ => true
  | _ => false

end Problem

namespace Selection

variable {selection : Selection} {word : String} {operands : List String} {labels : LabelTable}
  {problem : Problem}

/-- The data of an instruction is its last operand. -/
theorem length_operands (chosen : ofOperands word operands = .ok selection) {index : Nat}
    (data : selection.dataIndex = some index) : operands.length = index + 1 := by
  obtain ⟨_, fields, opcode, _, count, rfl⟩ := exists_ofNames?_of_ofOperands chosen
  simp only [Option.ite_none_left_eq_some, Option.some.injEq] at data
  rw [count, dataCount_of_ne_none data.1, data.2]

/-- Only the data of an instruction can keep it from being encoded. -/
theorem exists_data_of_encode_error (failed : selection.encode operands labels = .error problem) :
    ∃ index text, selection.dataIndex = some index ∧ operands[index]? = some text ∧
      operandBytes selection.operand text labels = .error problem := by
  unfold encode at failed
  split at failed
  next => cases failed
  next text found =>
    obtain ⟨index, data, place⟩ := Option.bind_eq_some_iff.1 found
    exact ⟨index, text, data, place, eq_error_of_map failed⟩

/-- A word is refused for being unknown or for its operands. -/
theorem isOfWord_of_ofOperands_error (refused : ofOperands word operands = .error problem) :
    problem.isOfWord = true := by
  unfold ofOperands at refused
  simp only at refused
  split at refused
  next =>
    obtain rfl := Except.error.inj refused
    rfl
  next =>
    split at refused
    next => cases refused
    next =>
      obtain rfl := Except.error.inj refused
      rfl

theorem isOfData_of_byteOperand_error {text : String}
    (failed : byteOperand text = .error problem) : problem.isOfData = true := by
  unfold byteOperand at failed
  split at failed
  next =>
    obtain rfl := Except.error.inj failed
    rfl
  next =>
    split at failed
    · cases failed
    · obtain rfl := Except.error.inj failed
      rfl

theorem isOfData_of_wordOperand_error {text : String}
    (failed : wordOperand text labels = .error problem) : problem.isOfData = true := by
  unfold wordOperand at failed
  split at failed
  next =>
    split at failed
    · cases failed
    · obtain rfl := Except.error.inj failed
      rfl
  next =>
    split at failed
    next =>
      obtain rfl := Except.error.inj failed
      rfl
    next =>
      split at failed
      · cases failed
      · obtain rfl := Except.error.inj failed
        rfl

theorem isOfData_of_operandBytes_error {kind : OperandKind} {text : String}
    (failed : operandBytes kind text labels = .error problem) : problem.isOfData = true := by
  cases kind with
  | none => cases failed
  | byte => exact isOfData_of_byteOperand_error (eq_error_of_map failed)
  | word => exact isOfData_of_wordOperand_error (eq_error_of_map failed)

/-- The case of the word does not matter. -/
theorem ofOperands_upper (word : String) (operands : List String) :
    ofOperands (Text.upper word) operands = ofOperands word operands := by
  rw [ofOperands, ofOperands, Text.upper_upper]

end Selection

/-! ### What a problem is about -/

namespace Problem

variable {labels : LabelTable} {line before text : List Char} {problem : Problem}

/-- Whether a text that stands in a line, after so much of it, is the trimmed text before the first
colon. -/
def AtLabel (line before text : List Char) : Prop :=
  ∃ name, LabelText line name ∧ before = name.takeWhile Text.isBlank ∧ text = Text.trim name

/-- Whether it is the first item of the operands that is blank. Blank characters at the end of the
code do not belong to the operands, so there such an item is empty. -/
def AtBlankOperand (line before text : List Char) : Prop :=
  ∃ (parts : InstructionLine line) (earlier : List Char),
    IsFirstBlank ',' parts.operands earlier text ∧
    before = parts.label ++ parts.lead ++ parts.word ++ earlier

/-- Whether it is the word of an instruction that is refused. -/
def AtWord (line before text : List Char) (problem : Problem) : Prop :=
  ∃ parts : InstructionLine line, before = parts.label ++ parts.lead ∧ text = parts.word ∧
    Selection.ofOperands (String.ofList text) parts.operandTexts = .error problem

/-- Whether it is the operand of an instruction that is its data, and this cannot be encoded. -/
def AtData (labels : LabelTable) (line before text : List Char) (problem : Problem) : Prop :=
  ∃ (parts : InstructionLine line) (selection : Selection) (earlier item : List Char),
    Selection.ofOperands (String.ofList parts.word) parts.operandTexts = .ok selection ∧
    IsItem ',' parts.operands earlier item ∧
    selection.dataIndex = some (earlier.count ',') ∧
    before = parts.label ++ parts.lead ++ parts.word ++ earlier ++ item.takeWhile Text.isBlank ∧
    text = Text.trim item ∧
    Selection.operandBytes selection.operand (String.ofList text) labels = .error problem

/-- Whether a text that stands in a line, after so much of it, is what a problem is about. Operands
are encoded against a table of labels. -/
def Concerns (labels : LabelTable) (line before text : List Char) (problem : Problem) : Prop :=
  match problem with
  | .badLabel defect => AtLabel line before text ∧ Label.defect? text = some defect
  | .duplicateLabel name _ => AtLabel line before text ∧ text = name.toList
  | .emptyOperand => AtBlankOperand line before text
  | .unknownMnemonic _ | .badOperands _ _ => AtWord line before text problem
  | .badNumeral _ | .undefinedLabel _ | .byteRange _ | .wordRange _ =>
      AtData labels line before text problem
  | .programTooLong _ _ => before = [] ∧ text = []

theorem isPrefix_item (parts : InstructionLine line) {earlier item : List Char}
    (listed : IsItem ',' parts.operands earlier item) :
    parts.label ++ parts.lead ++ parts.word ++ earlier ++ item <+: line := by
  obtain ⟨after, split, _⟩ := listed.split
  refine ⟨after ++ parts.trail ++ parts.comment, Eq.trans ?_ parts.line_eq.symm⟩
  simp [split]

theorem AtLabel.isPrefix (there : AtLabel line before text) : before ++ text <+: line := by
  obtain ⟨name, found, rfl, rfl⟩ := there
  obtain ⟨rest, split⟩ := found.split
  obtain ⟨trail, _, whole⟩ := Text.exists_trail name
  refine ⟨trail ++ ':' :: rest, ?_⟩
  rw [split, ← List.append_assoc, ← whole]

theorem AtWord.isPrefix (there : AtWord line before text problem) : before ++ text <+: line := by
  obtain ⟨parts, rfl, rfl, _⟩ := there
  refine ⟨parts.operands ++ parts.trail ++ parts.comment, Eq.trans ?_ parts.line_eq.symm⟩
  simp

theorem AtData.isPrefix (there : AtData labels line before text problem) :
    before ++ text <+: line := by
  obtain ⟨parts, _, earlier, item, _, listed, _, rfl, rfl, _⟩ := there
  obtain ⟨trail, _, whole⟩ := Text.exists_trail item
  refine List.IsPrefix.trans ⟨trail, ?_⟩ (isPrefix_item parts listed)
  rw [List.append_assoc, List.append_assoc, ← List.append_assoc (item.takeWhile _), ← whole]

/-- What a problem is about stands in the line. -/
theorem Concerns.isPrefix (concerns : problem.Concerns labels line before text) :
    before ++ text <+: line := by
  cases problem with
  | badLabel | duplicateLabel => exact concerns.1.isPrefix
  | emptyOperand =>
    obtain ⟨parts, earlier, first, rfl⟩ := concerns
    exact isPrefix_item parts first.listed
  | unknownMnemonic | badOperands => exact AtWord.isPrefix concerns
  | badNumeral | undefinedLabel | byteRange | wordRange => exact AtData.isPrefix concerns
  | programTooLong =>
    obtain ⟨rfl, rfl⟩ := concerns
    exact List.nil_prefix

/-! ### A problem is about one text -/

section

variable {before' text' : List Char}

theorem AtLabel.unique (one : AtLabel line before text) (two : AtLabel line before' text') :
    before = before' ∧ text = text' := by
  obtain ⟨name, found, rfl, rfl⟩ := one
  obtain ⟨other, again, rfl, rfl⟩ := two
  obtain rfl := found.unique again
  exact ⟨rfl, rfl⟩

theorem AtBlankOperand.unique (one : AtBlankOperand line before text)
    (two : AtBlankOperand line before' text') : before = before' ∧ text = text' := by
  obtain ⟨parts, earlier, first, rfl⟩ := one
  obtain ⟨others, earlier', first', rfl⟩ := two
  obtain rfl := parts.unique others
  obtain ⟨rfl, rfl⟩ := first.unique first'
  exact ⟨rfl, rfl⟩

theorem AtWord.unique (one : AtWord line before text problem)
    (two : AtWord line before' text' problem) : before = before' ∧ text = text' := by
  obtain ⟨parts, rfl, rfl, _⟩ := one
  obtain ⟨others, rfl, rfl, _⟩ := two
  obtain rfl := parts.unique others
  exact ⟨rfl, rfl⟩

theorem AtData.unique (one : AtData labels line before text problem)
    (two : AtData labels line before' text' problem) : before = before' ∧ text = text' := by
  obtain ⟨parts, selection, earlier, item, chosen, listed, data, rfl, rfl, _⟩ := one
  obtain ⟨others, selection', earlier', item', chosen', listed', data', rfl, rfl, _⟩ := two
  obtain rfl := parts.unique others
  obtain rfl := Except.ok.inj (chosen.symm.trans chosen')
  obtain ⟨rfl, rfl⟩ := listed.unique listed' (Option.some.inj (data.symm.trans data'))
  exact ⟨rfl, rfl⟩

/-- There is no other text in the line that a problem is about. -/
theorem Concerns.unique (one : problem.Concerns labels line before text)
    (two : problem.Concerns labels line before' text') : before = before' ∧ text = text' := by
  cases problem with
  | badLabel | duplicateLabel => exact one.1.unique two.1
  | emptyOperand => exact AtBlankOperand.unique one two
  | unknownMnemonic | badOperands => exact AtWord.unique one two
  | badNumeral | undefinedLabel | byteRange | wordRange => exact AtData.unique one two
  | programTooLong =>
    obtain ⟨rfl, rfl⟩ := one
    obtain ⟨rfl, rfl⟩ := two
    exact ⟨rfl, rfl⟩

end

/-! ### Problems with a word and with data -/

theorem concerns_of_atWord (there : AtWord line before text problem) :
    problem.Concerns labels line before text := by
  have ⟨_, _, _, refused⟩ := there
  have kind := Selection.isOfWord_of_ofOperands_error refused
  cases problem <;> first | exact there | cases kind

theorem concerns_of_atData (there : AtData labels line before text problem) :
    problem.Concerns labels line before text := by
  have ⟨_, _, _, _, _, _, _, _, _, failed⟩ := there
  have kind := Selection.isOfData_of_operandBytes_error failed
  cases problem <;> first | exact there | cases kind

end Problem

/-! ### Diagnostics in their lines -/

/-- Whether a number of bytes is what some whole characters take at the beginning of a text. -/
def Text.IsBoundary (chars : List Char) (offset : Nat) : Prop :=
  ∃ before after, chars = before ++ after ∧ offset = byteLength before

/-- Whether a span is that of a text which stands after another one. -/
def Span.Covers (span : Span) (before text : List Char) : Prop :=
  span.start = byteLength before ∧ span.stop = byteLength (before ++ text)

theorem Piece.span_covers {piece : Piece} {before : List Char}
    (start_eq : piece.start = byteLength before) : piece.span.Covers before piece.chars := by
  refine ⟨start_eq, ?_⟩
  rw [Text.byteLength_append, ← start_eq]
  rfl

/-- What it is for the span of a diagnostic to cover the text in a line that is wrong. -/
structure Diagnostic.Marks (labels : LabelTable) (line : List Char) (diagnostic : Diagnostic) :
    Prop where
  column_eq : diagnostic.column = diagnostic.span.start
  ordered : diagnostic.span.start ≤ diagnostic.span.stop
  within : diagnostic.span.stop ≤ byteLength line
  start_boundary : Text.IsBoundary line diagnostic.span.start
  stop_boundary : Text.IsBoundary line diagnostic.span.stop
  text : ∃ before text after, line = before ++ text ++ after ∧
    diagnostic.span.Covers before text ∧ diagnostic.problem.Concerns labels line before text
  /-- The line has no other text that the problem is about. -/
  only : ∀ before text, diagnostic.problem.Concerns labels line before text →
    diagnostic.span.Covers before text

/-- What it is for a diagnostic to point at the text in a source that is wrong. -/
structure Diagnostic.Located (labels : LabelTable) (lines : List (List Char))
    (diagnostic : Diagnostic) : Prop where
  line_pos : 1 ≤ diagnostic.line
  line_le : diagnostic.line ≤ lines.length
  marks : ∃ line, lines[diagnostic.line - 1]? = some line ∧ diagnostic.Marks labels line

namespace Diagnostic

variable {labels : LabelTable} {line before text : List Char} {diagnostic : Diagnostic}

theorem marks_of_concerns (covers : diagnostic.span.Covers before text)
    (concerns : diagnostic.problem.Concerns labels line before text) :
    diagnostic.Marks labels line := by
  obtain ⟨after, split⟩ := concerns.isPrefix
  have ⟨start_eq, stop_eq⟩ := covers
  constructor
  case column_eq => rfl
  case ordered =>
    rw [start_eq, stop_eq, Text.byteLength_append]
    exact Nat.le_add_right _ _
  case within =>
    rw [stop_eq, ← split, Text.byteLength_append (before ++ text)]
    exact Nat.le_add_right _ _
  case start_boundary => exact ⟨before, text ++ after, by rw [← split, List.append_assoc], start_eq⟩
  case stop_boundary => exact ⟨before ++ text, after, split.symm, stop_eq⟩
  case text => exact ⟨before, text, after, split.symm, covers, concerns⟩
  case only =>
    intro before' text' other
    obtain ⟨rfl, rfl⟩ := concerns.unique other
    exact covers

theorem located_of_marks {lines : List (List Char)} {index : Nat}
    (place : lines[index]? = some line) (number : diagnostic.line = index + 1)
    (marks : diagnostic.Marks labels line) : diagnostic.Located labels lines := by
  have below := (List.getElem?_eq_some_iff.1 place).1
  constructor
  case line_pos => omega
  case line_le => omega
  case marks => exact ⟨line, by rwa [number, Nat.add_sub_cancel], marks⟩

end Diagnostic

/-! ### Complaints about a statement -/

namespace Statement

variable {labels : LabelTable} {line : List Char} {statement : Statement} {diagnostic : Diagnostic}

theorem covers_trim (name : List Char) :
    (Piece.whole name).trim.span.Covers (name.takeWhile Text.isBlank) (Text.trim name) := by
  have place : (Piece.whole name).trim = _ := Piece.trim_eq [] name
  rw [place]
  exact Piece.span_covers rfl

/-- A line that is refused is marked at its label or at a blank operand. -/
theorem marks_of_refused (refused : Refused line diagnostic.problem diagnostic.span) :
    diagnostic.Marks labels line := by
  obtain ⟨problem, number, span⟩ := diagnostic
  cases refused with
  | badLabel found defective =>
    exact Diagnostic.marks_of_concerns (covers_trim _) ⟨⟨_, found, rfl, rfl⟩, defective⟩
  | emptyOperand parts found =>
    obtain ⟨earlier, first, start_eq⟩ := Piece.exists_isFirstBlank_of_find? found
    rw [InstructionLine.operandsPiece, ← Text.byteLength_append] at start_eq
    exact Diagnostic.marks_of_concerns (Piece.span_covers start_eq) ⟨parts, earlier, first, rfl⟩

theorem marks_of_duplicate? (parsed : statement.IsOf line) {earlier : List Statement}
    (complaint : statement.duplicate? earlier = some diagnostic) :
    diagnostic.Marks labels line := by
  obtain ⟨label, present, again⟩ := Option.bind_eq_some_iff.1 complaint
  obtain ⟨first, _, rfl⟩ := Option.map_eq_some_iff.1 again
  obtain ⟨name, found, rfl⟩ := parsed.label label present
  refine Diagnostic.marks_of_concerns (covers_trim name) ⟨⟨name, found, rfl, rfl⟩, ?_⟩
  rw [Piece.text, String.toList_ofList]
  rfl

theorem ofOperands_of_parts {mnemonic : Piece} {parts : InstructionLine line}
    (named : mnemonic = parts.wordPiece.upper) (listed : statement.operands = parts.operandPieces) :
    Selection.ofOperands mnemonic.text statement.operandTexts =
      Selection.ofOperands (String.ofList parts.word) parts.operandTexts := by
  have word : mnemonic.text = Text.upper (String.ofList parts.word) := by
    rw [named, Piece.text, Text.upper, String.toList_ofList]
    rfl
  rw [word, Selection.ofOperands_upper, operandTexts, listed, parts.map_text_operandPieces]

theorem marks_of_unknown? (parsed : statement.IsOf line)
    (complaint : statement.unknown? = some diagnostic) : diagnostic.Marks labels line := by
  obtain ⟨mnemonic, present, refused⟩ := Option.bind_eq_some_iff.1 complaint
  obtain ⟨parts, named, listed⟩ := parsed.instruction mnemonic present
  split at refused
  next => cases refused
  next problem answer =>
    obtain rfl := Option.some.inj refused
    rw [ofOperands_of_parts named listed] at answer
    have covers : mnemonic.span.Covers (parts.label ++ parts.lead) parts.word := by
      rw [named, Piece.span_upper]
      exact Piece.span_covers rfl
    exact Diagnostic.marks_of_concerns covers
      (Problem.concerns_of_atWord ⟨parts, rfl, rfl, answer⟩)

theorem marks_of_unencodable? (parsed : statement.IsOf line)
    (complaint : statement.unencodable? labels = some diagnostic) :
    diagnostic.Marks labels line := by
  obtain ⟨selection, chosen, failed⟩ := Option.bind_eq_some_iff.1 complaint
  obtain ⟨mnemonic, present, answer⟩ := selection?_eq_some_iff.1 chosen
  obtain ⟨parts, named, listed⟩ := parsed.instruction mnemonic present
  split at failed
  next => cases failed
  next problem encoded =>
    obtain rfl := Option.some.inj failed
    obtain ⟨index, text, data, place, wrong⟩ := Selection.exists_data_of_encode_error encoded
    have count := Selection.length_operands answer data
    obtain ⟨piece, operand, rfl⟩ : ∃ piece, statement.operands[index]? = some piece ∧
        piece.text = text := by
      rw [operandTexts, List.getElem?_map] at place
      exact Option.map_eq_some_iff.1 place
    have last : statement.operands.getLast? = some piece := by
      rw [operandTexts, List.length_map] at count
      rw [List.getLast?_eq_getElem?, count, Nat.add_sub_cancel, operand]
    rw [listed] at operand
    obtain ⟨earlier, item, item_of, number, rfl⟩ := parts.exists_item_of_operandPieces operand
    rw [ofOperands_of_parts named listed] at answer
    rw [← number] at data
    apply Diagnostic.marks_of_concerns
    case covers =>
      simp only [last, Option.map_some, Option.getD_some]
      exact Piece.span_covers rfl
    case concerns =>
      exact Problem.concerns_of_atData
        ⟨parts, selection, earlier, item, answer, item_of, data, rfl, rfl, wrong⟩

end Statement

namespace Assembly

/-! ### Diagnostics of a source -/

variable {lines : List (List Char)} {start : Word} {mode : Mode} {diagnostic : Diagnostic}

theorem exists_line_of_mem {answer : Except Diagnostic Statement}
    (member : answer ∈ parseLines lines) :
    ∃ index line, lines[index]? = some line ∧ Statement.parse (index + 1) line = answer := by
  obtain ⟨index, place⟩ := List.getElem?_of_mem member
  rw [parseLines, List.getElem?_mapIdx] at place
  obtain ⟨line, there, parsed⟩ := Option.map_eq_some_iff.1 place
  exact ⟨index, line, there, parsed⟩

theorem mem_failures {ε α : Type} {e : ε} {answers : List (Except ε α)} :
    e ∈ failures answers ↔ .error e ∈ answers := by
  induction answers with
  | nil => simp [failures]
  | cons answer rest ih =>
    unfold failures at ih ⊢
    cases answer <;> simp [ih]

/-- What a diagnostic comes from: a line that is refused, a statement that there is a complaint
about, or a program that is too long. -/
inductive Cause (lines : List (List Char)) (start : Word) (mode : Mode) (diagnostic : Diagnostic) :
    Prop where
  | refusal (refused : .error diagnostic ∈ parseLines lines)
  | duplicate {statement : Statement} {earlier : List Statement}
      (member : statement ∈ successes (parseLines lines))
      (complaint : statement.duplicate? earlier = some diagnostic)
  | unknown {statement : Statement} (member : statement ∈ successes (parseLines lines))
      (complaint : statement.unknown? = some diagnostic)
  | unencodable {statement : Statement} (member : statement ∈ successes (parseLines lines))
      (complaint : statement.unencodable? (Passes.ofLines lines start mode).layout.labels =
        some diagnostic)
  | overflow (long : diagnostic ∈ overflow start
      (Layout.widths mode (successes (parseLines lines))) (successes (parseLines lines)))

theorem exists_earlier_of_mem_duplicatesAfter {earlier statements : List Statement}
    (listed : diagnostic ∈ duplicatesAfter earlier statements) :
    ∃ statement ∈ statements, ∃ before, statement.duplicate? before = some diagnostic := by
  induction statements generalizing earlier with
  | nil => cases listed
  | cons statement rest ih =>
    rw [duplicatesAfter, List.mem_append] at listed
    rcases listed with here | later
    · exact ⟨statement, List.mem_cons_self, earlier, Option.mem_toList.1 here⟩
    · obtain ⟨other, member, before, complaint⟩ := ih later
      exact ⟨other, List.mem_cons_of_mem statement member, before, complaint⟩

theorem cause_of_mem (listed : diagnostic ∈ (Passes.ofLines lines start mode).diagnostics) :
    Cause lines start mode diagnostic := by
  unfold Passes.diagnostics at listed
  rw [List.mem_append, List.mem_append, List.mem_append] at listed
  rcases listed with ((refused | first) | long) | second
  · split at refused
    · exact .refusal (mem_failures.1 refused)
    · cases refused
  · cases mode with
    | strict =>
      have reported := (Layout.diagnostics_ofStatements_strict start
        (successes (parseLines lines))).mem_iff.1 first
      rcases List.mem_append.1 reported with again | unknown
      · obtain ⟨statement, member, earlier, complaint⟩ :=
          exists_earlier_of_mem_duplicatesAfter again
        exact .duplicate member complaint
      · obtain ⟨statement, member, complaint⟩ := List.mem_filterMap.1 unknown
        exact .unknown member complaint
    | lenient =>
      have quiet := Layout.diagnostics_ofStatements_lenient start (successes (parseLines lines))
      simp only [Passes.ofLines, quiet] at first
      cases first
  · apply Cause.overflow
    rwa [← @Layout.length_ofStatements start mode]
  · have failed : diagnostic ∈ (successes (parseLines lines)).filterMap
        (Statement.unencodable? (Passes.ofLines lines start mode).layout.labels) := by
      simp only [Passes.ofLines] at second ⊢
      rwa [Layout.placements_ofStatements, failures_encoded, Layout.map_fst_addressed] at second
    obtain ⟨statement, member, complaint⟩ := List.mem_filterMap.1 failed
    exact .unencodable member complaint

/-- A statement has the number of a line, and its parts from this line. -/
theorem exists_line_of_statement {statement : Statement}
    (member : statement ∈ successes (parseLines lines)) :
    ∃ index line, lines[index]? = some line ∧ statement.line = index + 1 ∧
      statement.IsOf line := by
  obtain ⟨index, line, place, parsed⟩ := exists_line_of_mem (mem_successes.1 member)
  exact ⟨index, line, place, line_of_parse parsed, Statement.isOf_of_parse parsed⟩

theorem line_of_duplicate? {statement : Statement} {earlier : List Statement}
    (complaint : statement.duplicate? earlier = some diagnostic) :
    diagnostic.line = statement.line := by
  obtain ⟨label, _, again⟩ := Option.bind_eq_some_iff.1 complaint
  obtain ⟨first, _, rfl⟩ := Option.map_eq_some_iff.1 again
  rfl

theorem line_of_unencodable? {statement : Statement} {labels : LabelTable}
    (complaint : statement.unencodable? labels = some diagnostic) :
    diagnostic.line = statement.line := by
  obtain ⟨selection, _, failed⟩ := Option.bind_eq_some_iff.1 complaint
  split at failed
  · cases failed
  · obtain rfl := Option.some.inj failed
    rfl

/-- A program is too long only if it has a statement, and the last one gives the line. -/
theorem exists_last_of_overflow {statements : List Statement}
    (long : diagnostic ∈ overflow start (Layout.widths mode statements) statements) :
    ∃ last ∈ statements, diagnostic.line = last.line ∧
      diagnostic.span = { start := 0, stop := 0 } ∧
      ∃ length, diagnostic.problem = .programTooLong length start := by
  unfold overflow at long
  split at long
  next above =>
    rw [List.mem_singleton] at long
    rcases List.eq_nil_or_concat' statements with rfl | ⟨before, last, rfl⟩
    · -- Without statements nothing is longer than what fits above any address.
      have bound := start.toNat_lt
      simp [Layout.widths, Memory.size] at above
      omega
    · refine ⟨last, by simp, ?_⟩
      rw [long, List.getLast?_concat]
      exact ⟨rfl, rfl, _, rfl⟩
  next => cases long

theorem located_of_cause (cause : Cause lines start mode diagnostic) :
    diagnostic.Located (Passes.ofLines lines start mode).layout.labels lines := by
  cases cause with
  | refusal refused =>
    obtain ⟨index, line, place, parsed⟩ := exists_line_of_mem refused
    exact Diagnostic.located_of_marks place (line_of_refused parsed)
      (Statement.marks_of_refused (Statement.refused_of_parse parsed))
  | duplicate member complaint =>
    obtain ⟨index, line, place, number, parsed⟩ := exists_line_of_statement member
    exact Diagnostic.located_of_marks place ((line_of_duplicate? complaint).trans number)
      (Statement.marks_of_duplicate? parsed complaint)
  | unknown member complaint =>
    obtain ⟨index, line, place, number, parsed⟩ := exists_line_of_statement member
    exact Diagnostic.located_of_marks place ((line_of_unknown? complaint).trans number)
      (Statement.marks_of_unknown? parsed complaint)
  | unencodable member complaint =>
    obtain ⟨index, line, place, number, parsed⟩ := exists_line_of_statement member
    exact Diagnostic.located_of_marks place ((line_of_unencodable? complaint).trans number)
      (Statement.marks_of_unencodable? parsed complaint)
  | overflow long =>
    obtain ⟨last, member, same, span, length, problem⟩ := exists_last_of_overflow long
    obtain ⟨index, line, place, number, _⟩ := exists_line_of_statement member
    have covers : diagnostic.span.Covers [] [] := by
      rw [span]
      exact ⟨rfl, rfl⟩
    refine Diagnostic.located_of_marks place (same.trans number)
      (Diagnostic.marks_of_concerns covers ?_)
    rw [problem]
    exact ⟨rfl, rfl⟩

end Assembly

open Assembly in
/-- What is reported about a source is what the passes over its lines collect. -/
theorem perm_of_error {source : String} {start : Word} {mode : Mode}
    {diagnostics : List Diagnostic} (failed : assemble source start mode = .error diagnostics) :
    diagnostics.Perm (Passes.ofLines (Text.lines source.toList) start mode).diagnostics := by
  unfold assemble ofLines at failed
  simp only at failed
  split at failed
  next => cases failed
  next =>
    obtain rfl := Except.error.inj failed
    exact List.mergeSort_perm _ _

open Assembly in
/-- If a source cannot be assembled, every diagnostic has the number of a line of the source, and
its span covers the text in this line that is wrong. -/
theorem diagnostics_located {source : String} {start : Word} {mode : Mode}
    {diagnostics : List Diagnostic} (failed : assemble source start mode = .error diagnostics) :
    ∀ diagnostic ∈ diagnostics,
      diagnostic.Located (Passes.ofLines (Text.lines source.toList) start mode).layout.labels
        (Text.lines source.toList) := by
  intro diagnostic listed
  exact located_of_cause (cause_of_mem ((perm_of_error failed).mem_iff.1 listed))

/-- Wrong lines with blank characters and letters that take several bytes. -/
def misplaced : String :=
  "\u3000\u00e9: NOP\nL: NOP\n  L :\u00a0FOO\nMVI A,\u2003, 5 ; no\n LXI H ,\u2003 TOP ; x\nJMP"

/-- The line of a diagnostic and its span. -/
def Diagnostic.place (diagnostic : Diagnostic) : Nat × Nat × Nat :=
  (diagnostic.line, diagnostic.span.start, diagnostic.span.stop)

/-- The places count bytes, and there are two on the third line. -/
theorem diagnostics_located_misplaced :
    ∃ diagnostics, assemble misplaced 0x8000 .strict = .error diagnostics ∧
      (diagnostics.map Diagnostic.place).Perm
        [(1, 3, 5), (3, 2, 3), (3, 7, 10), (4, 6, 9), (5, 12, 15), (6, 0, 3)] ∧
      ∀ diagnostic ∈ diagnostics, diagnostic.Located
        (Assembly.Passes.ofLines (Text.lines misplaced.toList) 0x8000 .strict).layout.labels
        (Text.lines misplaced.toList) := by
  have refused : (assemble misplaced 0x8000 .strict).toOption.isNone = true := by
    decide +kernel
  have collected : ((Assembly.Passes.ofLines (Text.lines misplaced.toList) 0x8000
      .strict).diagnostics.map Diagnostic.place).Perm
      [(1, 3, 5), (3, 2, 3), (3, 7, 10), (4, 6, 9), (5, 12, 15), (6, 0, 3)] := by
    decide +kernel
  rcases assembled : assemble misplaced 0x8000 .strict with diagnostics | program
  · refine ⟨diagnostics, rfl, ?_, diagnostics_located assembled⟩
    exact ((perm_of_error assembled).map Diagnostic.place).trans collected
  · rw [assembled] at refused
    cases refused

end I8085
