/-
Module: I8085.Proofs.LineReading
Layer: Proofs
Purpose: What a line says, read off its characters without any places: the text before the first
  colon, the word after it and the texts between the commas, each without the blank characters
  around it (`Line.label?`, `Line.word?`, `Line.operands`). These texts decide whether the line can
  be taken apart, and they are the texts of the statement that it is taken apart into
  (`Statement.reads_parse`).
Imports: I8085.Proofs.LineParts
Main exports: Piece.trim_append, Line.code, Line.label?, Line.instruction, Line.arguments,
  Line.operands, Line.word?, Statement.Reads, Statement.reads_parse
-/
import I8085.Proofs.LineParts

namespace I8085

/-! ### The texts of a line -/

namespace Line

open Text (isBlank split trim)

/-- What stands before the first semicolon. -/
def code (line : List Char) : List Char := line.takeWhile (· != ';')

/-- The code before the first colon, trimmed, if there is a colon. -/
def label? (line : List Char) : Option (List Char) :=
  if ':' ∈ code line then some (trim ((code line).takeWhile (· != ':'))) else none

/-- The code after the first colon, or all of it if there is no colon. -/
def instruction (line : List Char) : List Char :=
  if ':' ∈ code line then ((code line).dropWhile (· != ':')).tail else code line

/-- The operation word as it is written. It is empty if nothing but blank characters is left of the
code. -/
def word (line : List Char) : List Char := (trim (instruction line)).takeWhile (!isBlank ·)

/-- What stands after the operation word, blank characters at the end apart. -/
def arguments (line : List Char) : List Char := (trim (instruction line)).dropWhile (!isBlank ·)

/-- The texts between the commas, trimmed. -/
def operands (line : List Char) : List (List Char) :=
  if (arguments line).all isBlank then [] else (split ',' (arguments line)).map trim

/-- The operation word in upper case, if there is one. -/
def word? (line : List Char) : Option (List Char) :=
  if (instruction line).all isBlank then none else some ((word line).map Char.toUpper)

end Line

namespace Text

/-- A text whose end is blank is trimmed from behind to what stands before that end. -/
theorem dropWhile_reverse_append {front trail : List Char}
    (visible : ∀ c, front.getLast? = some c → isBlank c = false)
    (blank : ∀ c ∈ trail, isBlank c = true) :
    ((front ++ trail).reverse.dropWhile isBlank).reverse = front := by
  rw [List.reverse_append, List.dropWhile_append_of_pos (by simpa using blank),
    dropWhile_isBlank_eq_self (by simpa using visible), List.reverse_reverse]

/-- Blank characters are trimmed off completely. -/
theorem trim_of_isBlank {chars : List Char} (blank : chars.all isBlank = true) :
    trim chars = [] := by
  rw [List.all_eq_true] at blank
  rw [trim, List.dropWhile_eq_nil_iff.2 blank]
  rfl

theorem trim_eq_nil_iff {chars : List Char} : trim chars = [] ↔ chars.all isBlank = true := by
  constructor
  · intro empty
    by_contra filled
    exact trim_ne_nil (Bool.eq_false_iff.2 filled) empty
  · exact trim_of_isBlank

end Text

/-- What stands between blank characters is left by trimming. -/
theorem Piece.trim_append (start : Nat) {lead text trail : List Char}
    (lead_blank : ∀ c ∈ lead, Text.isBlank c = true) (nonempty : text ≠ [])
    (starts : ∀ c, text.head? = some c → Text.isBlank c = false)
    (ends : ∀ c, text.getLast? = some c → Text.isBlank c = false)
    (trail_blank : ∀ c ∈ trail, Text.isBlank c = true) :
    ({ start, chars := lead ++ text ++ trail } : Piece).trim =
      { start := start + Text.byteLength lead, chars := text } := by
  obtain ⟨first, rest, rfl⟩ := List.exists_cons_of_ne_nil nonempty
  have visible : Text.isBlank first = false := starts first rfl
  have front : (lead ++ (first :: rest) ++ trail).takeWhile Text.isBlank = lead := by
    rw [List.append_assoc, List.takeWhile_append_of_pos lead_blank]
    simp [visible]
  have left : (lead ++ (first :: rest) ++ trail).dropWhile Text.isBlank =
      (first :: rest) ++ trail := by
    rw [List.append_assoc, List.dropWhile_append_of_pos lead_blank]
    simp [visible]
  rw [Piece.trim, Text.trim, front, left, Text.dropWhile_reverse_append ends trail_blank]

namespace Line

open Text (isBlank split trim)

variable {line : List Char}

theorem label_of_split {name rest : List Char} (split : code line = name ++ ':' :: rest)
    (bare : ':' ∉ name) : label? line = some (trim name) ∧ instruction line = rest := by
  have apart : ∀ c ∈ name, (c != ':') = true := by
    intro c member
    exact bne_iff_ne.2 fun same => bare (same ▸ member)
  have present : ':' ∈ code line := by simp [split]
  rw [label?, instruction, if_pos present, if_pos present, split,
    List.takeWhile_append_of_pos apart, List.dropWhile_append_of_pos apart]
  simp

theorem operands_of_blank (blank : (instruction line).all isBlank = true) : operands line = [] := by
  rw [operands, arguments, Text.trim_of_isBlank blank]
  rfl

/-- An operand is blank exactly if a text between two commas is. -/
theorem nil_mem_operands_iff :
    [] ∈ operands line ↔ (arguments line).all isBlank = false ∧
      ∃ item ∈ split ',' (arguments line), item.all isBlank = true := by
  unfold operands
  split
  next blank => simp [blank]
  next filled =>
    rw [List.mem_map]
    simp only [Text.trim_eq_nil_iff, Bool.eq_false_iff.2 filled, true_and]

end Line

/-! ### Taking apart -/

namespace Statement

open Text (isBlank)

variable {number : Nat} {line : List Char}

/-- The label that is separated is the one that the line says, and so is what is left. -/
theorem label_of_separateLabel {label : Option Piece} {rest : Piece}
    (separated : separateLabel (Piece.whole (Line.code line)) = .ok (label, rest)) :
    (∀ name, Line.label? line = some name → Label.defect? name = none) ∧
      label.map Piece.chars = Line.label? line ∧ rest.chars = Line.instruction line := by
  obtain ⟨before, split, _, ⟨rfl, rfl, bare⟩ | ⟨name, rfl, named, rfl, bare⟩⟩ :=
    exists_label separated
  · rw [List.nil_append] at split
    rw [← split] at bare
    rw [Line.label?, Line.instruction, if_neg bare, if_neg bare]
    refine ⟨?_, rfl, split.symm⟩
    rintro _ ⟨⟩
  · rw [List.append_assoc, List.singleton_append] at split
    obtain ⟨label_eq, instruction_eq⟩ := Line.label_of_split split bare
    rw [label_eq, instruction_eq]
    refine ⟨?_, rfl, rfl⟩
    rintro _ ⟨⟩
    exact named

/-- The operands that are separated are the trimmed texts between the commas. -/
theorem separateOperands_eq (text : Piece) :
    (∃ span, (text.chars.all isBlank = false ∧
        ∃ item ∈ Text.split ',' text.chars, item.all isBlank = true) ∧
      separateOperands text = .error (.emptyOperand, span)) ∨
    ∃ pieces, ¬(text.chars.all isBlank = false ∧
        ∃ item ∈ Text.split ',' text.chars, item.all isBlank = true) ∧
      separateOperands text = .ok pieces ∧
      pieces.map Piece.chars =
        if text.chars.all isBlank then [] else (Text.split ',' text.chars).map Text.trim := by
  have chars := text.map_chars_split ','
  unfold separateOperands Piece.isBlank
  split
  next blank => exact .inr ⟨[], by simp [blank], rfl, rfl⟩
  next filled =>
    rw [← chars]
    simp only [List.mem_map, exists_exists_and_eq_and]
    split
    next piece found =>
      have blank := List.find?_some found
      exact .inl ⟨_, ⟨Bool.eq_false_iff.2 filled, piece, List.mem_of_find?_eq_some found, blank⟩,
        rfl⟩
    next none =>
      refine .inr ⟨_, ?_, rfl, ?_⟩
      · rintro ⟨_, piece, member, blank⟩
        exact List.find?_eq_none.1 none piece member blank
      · rw [List.map_map, List.map_map]
        rfl

/-- How an answer reads a line: it refuses the label, or else a blank operand, or else it has the
texts of the line. -/
inductive Reads (number : Nat) (line : List Char) : Except Diagnostic Statement → Prop where
  | badLabel {name : List Char} {defect : Label.Defect} (span : Span)
      (label : Line.label? line = some name) (defective : Label.defect? name = some defect) :
      Reads number line (.error { problem := .badLabel defect, line := number, span })
  | emptyOperand (span : Span)
      (named : ∀ name, Line.label? line = some name → Label.defect? name = none)
      (blank : [] ∈ Line.operands line) :
      Reads number line (.error { problem := .emptyOperand, line := number, span })
  | statement {statement : Statement}
      (named : ∀ name, Line.label? line = some name → Label.defect? name = none)
      (filled : [] ∉ Line.operands line) (line_eq : statement.line = number)
      (label : statement.label.map Piece.chars = Line.label? line)
      (mnemonic : statement.mnemonic.map Piece.chars = Line.word? line)
      (operands : statement.operands.map Piece.chars = Line.operands line) :
      Reads number line (.ok statement)

/-- The instruction that is separated is the one that the line says. -/
theorem separateInstruction_eq {rest : Piece} (chars : rest.chars = Line.instruction line) :
    (∃ span, [] ∈ Line.operands line ∧ separateInstruction rest = .error (.emptyOperand, span)) ∨
    ∃ mnemonic operands, [] ∉ Line.operands line ∧
      separateInstruction rest = .ok (mnemonic, operands) ∧
      mnemonic.map Piece.chars = Line.word? line ∧
      operands.map Piece.chars = Line.operands line := by
  by_cases blank : rest.isBlank = true
  · have nothing : (Line.instruction line).all isBlank = true := chars ▸ blank
    have none := Line.operands_of_blank nothing
    refine .inr ⟨Option.none, [], ?_, by rw [separateInstruction, if_pos blank], ?_, none.symm⟩
    · rw [none]
      exact List.not_mem_nil
    · rw [Line.word?, if_pos nothing, Option.map_none]
  · have something : ¬(Line.instruction line).all isBlank = true := chars ▸ blank
    have word : rest.trim.word.1.chars = Line.word line := by
      rw [Line.word, ← chars]
      rfl
    have arguments : rest.trim.word.2.chars = Line.arguments line := by
      rw [Line.arguments, ← chars]
      rfl
    rw [separateInstruction, if_neg blank]
    rcases separateOperands_eq rest.trim.word.2 with
      ⟨span, empty, refused⟩ | ⟨pieces, filled, found, texts⟩
    · rw [arguments, ← Line.nil_mem_operands_iff] at empty
      exact .inl ⟨span, empty, by simp only [refused, Except.map]⟩
    · rw [arguments, ← Line.nil_mem_operands_iff] at filled
      refine .inr ⟨some rest.trim.word.1.upper, pieces, filled, ?_, ?_, ?_⟩
      · simp only [found, Except.map]
      · rw [Line.word?, if_neg something, ← word]
        rfl
      · rw [texts, arguments, Line.operands]

/-- A line is taken apart into the texts that it says. -/
theorem reads_parse (number : Nat) (line : List Char) : Reads number line (parse number line) := by
  have answer := separated_parse number line
  generalize parse number line = parsed at answer
  cases answer with
  | badLabel labelled =>
    rw [separateComment_whole] at labelled
    obtain ⟨name, rest, defect, split, bare, defective, rfl, rfl⟩ := exists_defect labelled
    rw [List.append_assoc] at split
    exact .badLabel _ (Line.label_of_split split bare).1 defective
  | badInstruction labelled instructed =>
    rw [separateComment_whole] at labelled
    obtain ⟨named, _, chars⟩ := label_of_separateLabel labelled
    rcases separateInstruction_eq chars with ⟨_, empty, refused⟩ | ⟨_, _, _, found, _⟩
    · rw [instructed] at refused
      cases refused
      exact .emptyOperand _ named empty
    · cases instructed.symm.trans found
  | statement labelled instructed =>
    rw [separateComment_whole] at labelled
    obtain ⟨named, label, chars⟩ := label_of_separateLabel labelled
    rcases separateInstruction_eq chars with
      ⟨_, _, refused⟩ | ⟨_, _, filled, found, mnemonic, operands⟩
    · cases instructed.symm.trans refused
    · rw [instructed] at found
      cases found
      exact .statement named filled rfl label mnemonic operands

end Statement

end I8085
