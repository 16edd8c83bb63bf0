/-
Module: I8085.Assembly.Statement
Layer: Assembly
Purpose: One line of source taken apart: an optional label before a colon, an optional mnemonic,
  operands between commas, and an optional comment after a semicolon. Nothing is looked up here, so
  any word may stand for a mnemonic; a line is refused only for a bad label or an operand that is
  blank.
Imports: I8085.Assembly.Diagnostic
Main exports: Statement, Statement.parse, Statement.operandTexts
-/
import I8085.Assembly.Diagnostic

namespace I8085

structure Statement where
  /-- The number of the line, from one. -/
  line : Nat
  label : Option Piece
  /-- The operation word, in upper case. -/
  mnemonic : Option Piece
  operands : List Piece
  comment : Option String
  /-- From the label or mnemonic to the last operand. -/
  span : Span
deriving Repr, DecidableEq

namespace Statement

def operandTexts (statement : Statement) : List String := statement.operands.map Piece.text

/-- The code of a line and the comment after it. -/
def separateComment (line : Piece) : Piece × Option String :=
  match line.cut? ';' with
  | none => (line, none)
  | some (code, comment) => (code, some comment.trim.text)

/-- The label of a line of code and what stands after it. -/
def separateLabel (code : Piece) : Except (Problem × Span) (Option Piece × Piece) :=
  match code.cut? ':' with
  | none => .ok (none, code)
  | some (before, after) =>
      match Label.defect? before.trim.chars with
      | some defect => .error (.badLabel defect, before.trim.span)
      | none => .ok (some before.trim, after)

/-- The operands in the text after a mnemonic. -/
def separateOperands (text : Piece) : Except (Problem × Span) (List Piece) :=
  if text.isBlank then .ok []
  else
    let pieces := text.split ','
    match pieces.find? Piece.isBlank with
    | some blank => .error (.emptyOperand, blank.span)
    | none => .ok (pieces.map Piece.trim)

/-- The mnemonic and the operands in what is left of a line after its label. -/
def separateInstruction (code : Piece) :
    Except (Problem × Span) (Option Piece × List Piece) :=
  if code.isBlank then .ok (none, [])
  else
    let (mnemonic, rest) := code.trim.word
    (separateOperands rest).map fun operands => (some mnemonic.upper, operands)

/-- Take the numbered line apart. -/
def parse (line : Nat) (text : List Char) : Except Diagnostic Statement :=
  let (code, comment) := separateComment (Piece.whole text)
  let parts : Except (Problem × Span) Statement :=
    match separateLabel code with
    | .error e => .error e
    | .ok (label, rest) =>
        (separateInstruction rest).map fun (mnemonic, operands) =>
          { line, label, mnemonic, operands, comment, span := code.trim.span }
  parts.mapError fun (problem, span) => { problem, line, span }

end Statement

end I8085
