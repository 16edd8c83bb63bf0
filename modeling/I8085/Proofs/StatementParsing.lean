/-
Module: I8085.Proofs.StatementParsing
Layer: Proofs
Purpose: The steps in which a line is taken apart, and the texts that are not divided any further. A
  token is a text without blank characters and without the three characters that divide a line;
  a label name is one (`Label.isToken_of_named`). An instruction is written with a space after its
  word and commas between its operands (`Text.instructionText`). An answer about a line comes about
  in one of three ways: the label is refused, or what comes after it is, or neither
  (`Statement.separated_parse`).
Imports: I8085.Assembly.Statement, I8085.Proofs.TextSplitting, I8085.Text.Case
Main exports: Text.isPlain, Text.IsToken, Label.isToken_of_named, Text.instructionText,
  Statement.parse_of_parts, Statement.separated_parse, Statement.exists_parts_of_parse
-/
import I8085.Assembly.Statement
import I8085.Proofs.TextSplitting
import I8085.Text.Case

namespace I8085

/-! ### Tokens -/

namespace Text

/-- Whether a character is neither blank nor one that divides a line. -/
def isPlain (c : Char) : Bool := !isBlank c && c != ',' && c != ';' && c != ':'

theorem isPlain_iff {c : Char} :
    isPlain c = true ↔ isBlank c = false ∧ c ≠ ',' ∧ c ≠ ';' ∧ c ≠ ':' := by
  simp [isPlain, and_assoc]

theorem isBlank_of_isPlain {c : Char} (plain : isPlain c = true) : isBlank c = false :=
  (isPlain_iff.1 plain).1

/-- A text that a line does not divide any further. -/
structure IsToken (chars : List Char) : Prop where
  nonempty : chars ≠ []
  plain : ∀ c ∈ chars, isPlain c = true

theorem isToken_iff {chars : List Char} :
    (!chars.isEmpty && chars.all isPlain) = true ↔ IsToken chars := by
  rw [Bool.and_eq_true, Bool.not_eq_true', List.isEmpty_eq_false_iff, List.all_eq_true]
  constructor
  · rintro ⟨nonempty, plain⟩
    exact ⟨nonempty, plain⟩
  · rintro ⟨nonempty, plain⟩
    exact ⟨nonempty, plain⟩

instance (chars : List Char) : Decidable (IsToken chars) := decidable_of_iff _ isToken_iff

end Text

/-! ### Label names -/

namespace Label

theorem isPart_of_isStart {c : Char} (starts : isStart c = true) : isPart c = true := by
  rw [isStart, Bool.or_eq_true] at starts
  rw [isPart, Char.isAlphanum]
  rcases starts with letter | underscore
  · simp [letter]
  · simp [underscore]

/-- No blank character is in a name. -/
theorem isPart_of_isBlank {c : Char} (blank : Text.isBlank c = true) : isPart c = false := by
  simp only [Text.isBlank, Text.blankRanges, List.any_cons, List.any_nil, Bool.or_false,
    Bool.or_eq_true, Bool.and_eq_true, decide_eq_true_eq] at blank
  rw [Bool.eq_false_iff]
  intro part
  rw [isPart, Char.isAlphanum, Bool.or_eq_true, Bool.or_eq_true, beq_iff_eq] at part
  rcases part with (letter | digit) | rfl
  · have ranges : ((65 ≤ c.val ∧ c.val ≤ 90) || (97 ≤ c.val && c.val ≤ 122)) = true := letter
    have place : (65 ≤ c.toNat ∧ c.toNat ≤ 90) ∨ 97 ≤ c.toNat ∧ c.toNat ≤ 122 := by
      simpa [UInt32.le_iff_toNat_le] using ranges
    omega
  · have place : 48 ≤ c.toNat ∧ c.toNat ≤ 57 := by
      simpa [Char.isDigit, UInt32.le_iff_toNat_le] using digit
    omega
  · simp at blank

/-- A name consists of letters, digits and underscores. -/
theorem isPart_of_mem {name : List Char} (named : defect? name = none) {c : Char}
    (member : c ∈ name) : isPart c = true := by
  cases name with
  | nil => cases member
  | cons first rest =>
    rw [defect?] at named
    split at named
    next => cases named
    next =>
      split at named
      next => cases named
      next starts =>
        rcases List.mem_cons.1 member with rfl | later
        · exact isPart_of_isStart (by simpa using starts)
        · have parts := List.find?_eq_none.1 (Option.map_eq_none_iff.1 named) c later
          simpa using parts

theorem isToken_of_named {name : List Char} (named : defect? name = none) : Text.IsToken name := by
  constructor
  case nonempty =>
    rintro rfl
    cases named
  case plain =>
    intro c member
    have part := isPart_of_mem named member
    have visible : Text.isBlank c = false := by
      by_contra blank
      rw [isPart_of_isBlank (Bool.of_not_eq_false blank)] at part
      cases part
    have apart (divider : Char) (other : isPart divider = false) : c ≠ divider := by
      rintro rfl
      cases part.symm.trans other
    rw [Text.isPlain_iff]
    exact ⟨visible, apart ',' (by decide), apart ';' (by decide), apart ':' (by decide)⟩

end Label

/-! ### Written instructions -/

namespace Text

/-- A space and operands with commas between them, or nothing if there are no operands. -/
def operandText (operands : List (List Char)) : List Char :=
  if operands = [] then [] else ' ' :: [','].intercalate operands

/-- A word with its operands. -/
def instructionText (word : List Char) (operands : List (List Char)) : List Char :=
  word ++ operandText operands

/-- A last operand stands after a space if it is the only one, and after a comma otherwise. -/
theorem instructionText_concat (word : List Char) (operands : List (List Char))
    (last : List Char) :
    instructionText word (operands ++ [last]) =
      instructionText word operands ++ (if operands = [] then ' ' else ',') :: last := by
  unfold instructionText operandText
  by_cases empty : operands = []
  · simp [empty]
  · simp [empty, intercalate_concat empty]

variable {word chars : List Char} {operands : List (List Char)} {c : Char}

theorem IsToken.not_mem (token : IsToken chars) (divides : isPlain c = false) : c ∉ chars := by
  intro member
  rw [token.plain c member] at divides
  cases divides

theorem IsToken.isBlank_of_head? (token : IsToken chars) (first : chars.head? = some c) :
    isBlank c = false :=
  isBlank_of_isPlain (token.plain c (List.mem_of_mem_head? first))

theorem IsToken.isBlank_of_getLast? (token : IsToken chars) (last : chars.getLast? = some c) :
    isBlank c = false :=
  isBlank_of_isPlain (token.plain c (List.mem_of_getLast? last))

theorem IsToken.trim_eq (token : IsToken chars) : trim chars = chars :=
  trim_eq_self (fun _ => token.isBlank_of_head?) fun _ => token.isBlank_of_getLast?

/-- A character that no token has stands in an instruction only as the space or a comma. -/
theorem not_mem_instructionText (named : IsToken word)
    (listed : ∀ operand ∈ operands, IsToken operand) (divides : isPlain c = false)
    (space : c ≠ ' ') (comma : c ≠ ',') : c ∉ instructionText word operands := by
  have before := named.not_mem divides
  have after := not_mem_intercalate comma fun piece member => (listed piece member).not_mem divides
  unfold instructionText operandText
  split
  · simp [before]
  · simp [before, space, after]

/-- An instruction ends with the last character of a token. -/
theorem isPlain_of_getLast? (named : IsToken word)
    (listed : ∀ operand ∈ operands, IsToken operand)
    (last : (instructionText word operands).getLast? = some c) : isPlain c = true := by
  rcases List.eq_nil_or_concat' operands with rfl | ⟨before, operand, rfl⟩
  · apply named.plain c
    apply List.mem_of_getLast?
    simpa [instructionText, operandText] using last
  · have token := listed operand (by simp)
    have ends := List.getLast?_eq_some_getLast token.nonempty
    apply token.plain c
    apply List.mem_of_getLast?
    rw [← last, instructionText, operandText, if_neg (by simp)]
    rcases List.eq_nil_or_concat' before with rfl | ⟨_, _, rfl⟩
    · simp [List.getLast?_append, List.getLast?_cons, ends]
    · rw [intercalate_concat (by simp)]
      simp [List.getLast?_append, List.getLast?_cons, ends]

end Text

/-! ### Taking apart -/

namespace Statement

/-- A line is parsed if each of its parts can be separated. -/
theorem parse_of_parts {text : List Char} {code rest : Piece} {comment : Option String}
    {label mnemonic : Option Piece} {operands : List Piece} (number : Nat)
    (commented : separateComment (Piece.whole text) = (code, comment))
    (labelled : separateLabel code = .ok (label, rest))
    (separated : separateInstruction rest = .ok (mnemonic, operands)) :
    parse number text =
      .ok { line := number, label, mnemonic, operands, comment, span := code.trim.span } := by
  unfold parse
  simp only [commented, labelled, separated, Except.map, Except.mapError]

/-- How an answer about a line comes about: its label is refused, or what comes after the label is,
or neither. -/
inductive Separated (number : Nat) (line : List Char) : Except Diagnostic Statement → Prop where
  | badLabel {problem : Problem} {span : Span}
      (labelled : separateLabel (separateComment (Piece.whole line)).1 = .error (problem, span)) :
      Separated number line (.error { problem, line := number, span })
  | badInstruction {label : Option Piece} {rest : Piece} {problem : Problem} {span : Span}
      (labelled : separateLabel (separateComment (Piece.whole line)).1 = .ok (label, rest))
      (instructed : separateInstruction rest = .error (problem, span)) :
      Separated number line (.error { problem, line := number, span })
  | statement {label mnemonic : Option Piece} {rest : Piece} {operands : List Piece}
      (labelled : separateLabel (separateComment (Piece.whole line)).1 = .ok (label, rest))
      (instructed : separateInstruction rest = .ok (mnemonic, operands)) :
      Separated number line
        (.ok
          { line := number
            label
            mnemonic
            operands
            comment := (separateComment (Piece.whole line)).2
            span := (separateComment (Piece.whole line)).1.trim.span })

/-- Parsing separates the label first and then the instruction. -/
theorem separated_parse (number : Nat) (line : List Char) :
    Separated number line (parse number line) := by
  unfold parse
  rcases labelled : separateLabel (separateComment (Piece.whole line)).1 with
    ⟨problem, span⟩ | ⟨label, rest⟩
  · simp only [labelled, Except.mapError]
    exact .badLabel labelled
  · rcases instructed : separateInstruction rest with ⟨problem, span⟩ | ⟨mnemonic, operands⟩ <;>
      simp only [labelled, instructed, Except.map, Except.mapError]
    · exact .badInstruction labelled instructed
    · exact .statement labelled instructed

/-- The parts of a line that is parsed have been separated. -/
theorem exists_parts_of_parse {number : Nat} {text : List Char} {statement : Statement}
    (parsed : parse number text = .ok statement) :
    ∃ rest,
      separateLabel (separateComment (Piece.whole text)).1 = .ok (statement.label, rest) ∧
      separateInstruction rest = .ok (statement.mnemonic, statement.operands) := by
  have separated := separated_parse number text
  rw [parsed] at separated
  cases separated with
  | statement labelled instructed => exact ⟨_, labelled, instructed⟩

end Statement

end I8085
