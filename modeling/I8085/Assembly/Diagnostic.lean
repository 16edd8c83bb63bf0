/-
Module: I8085.Assembly.Diagnostic
Layer: Assembly
Purpose: What can be wrong with a source text. A problem is a cause, with the names and numbers that
  its wording needs; it belongs to one of seven kinds. A diagnostic is a problem and its place. A
  warning tells of a line that was skipped, or of a label that was bound again.
Imports: I8085.Label, I8085.Numeral, I8085.Text.Hex, I8085.Text.Piece, I8085.Word
Main exports: Problem, Problem.Kind, Problem.kind, Problem.message, Diagnostic, Diagnostic.display,
  Warning, Warning.message, Warning.display
-/
import I8085.Label
import I8085.Numeral
import I8085.Text.Hex
import I8085.Text.Piece
import I8085.Word

namespace I8085

inductive Problem where
  /-- Nothing stands between two commas. -/
  | emptyOperand
  /-- An operand is no number. -/
  | badNumeral (error : NumeralError)
  /-- An operand names a label that is not defined. -/
  | undefinedLabel (name : String)
  /-- A label is defined although an earlier line does so. -/
  | duplicateLabel (name : String) (firstLine : Nat)
  /-- The text before a colon is no label name. -/
  | badLabel (defect : Label.Defect)
  /-- There is no such operation. -/
  | unknownMnemonic (word : String)
  /-- The operation does not take these operands. -/
  | badOperands (word : String) (operands : List String)
  /-- A number is too large for a byte operand. -/
  | byteRange (text : String)
  /-- A number is too large for a word operand. -/
  | wordRange (text : String)
  /-- The program does not fit between its first address and the top of memory. -/
  | programTooLong (length : Nat) (start : Word)
deriving Repr, DecidableEq

inductive Problem.Kind where
  | syntaxError
  | undefinedLabel
  | duplicateLabel
  | invalidLabel
  | invalidMnemonic
  | invalidOperand
  | rangeError
deriving Repr, DecidableEq

def Problem.Kind.name : Problem.Kind → String
  | .syntaxError => "SyntaxError"
  | .undefinedLabel => "UndefinedLabel"
  | .duplicateLabel => "DuplicateLabel"
  | .invalidLabel => "InvalidLabel"
  | .invalidMnemonic => "InvalidMnemonic"
  | .invalidOperand => "InvalidOperand"
  | .rangeError => "RangeError"

namespace Problem

def kind : Problem → Kind
  | emptyOperand => .syntaxError
  | badNumeral _ => .syntaxError
  | undefinedLabel _ => .undefinedLabel
  | duplicateLabel _ _ => .duplicateLabel
  | badLabel _ => .invalidLabel
  | unknownMnemonic _ => .invalidMnemonic
  | badOperands _ _ => .invalidOperand
  | byteRange _ => .rangeError
  | wordRange _ => .rangeError
  | programTooLong _ _ => .rangeError

def message : Problem → String
  | emptyOperand => "empty operand"
  | badNumeral error => error.message
  | undefinedLabel name => s!"undefined label '{name}'"
  | duplicateLabel name firstLine =>
      s!"duplicate label '{name}' (first defined on line {firstLine})"
  | badLabel defect => defect.message
  | unknownMnemonic word => s!"unknown mnemonic '{word}'"
  | badOperands word operands =>
      let listed := ",".intercalate operands
      s!"invalid operands for {word}: '{listed}'"
  | byteRange text => s!"immediate value {text} does not fit in a byte"
  | wordRange text => s!"value {text} does not fit in 16 bits"
  | programTooLong length start =>
      s!"program of {length} bytes at 0x{Text.hex 4 start.toNat} runs past 0xFFFF"

end Problem

/-! ### Diagnostics -/

structure Diagnostic where
  problem : Problem
  line : Nat
  span : Span
deriving Repr, DecidableEq

namespace Diagnostic

def column (diagnostic : Diagnostic) : Nat := diagnostic.span.start

/-- One line of text with the place, the kind and the wording. -/
def display (diagnostic : Diagnostic) : String :=
  let place := s!"line {diagnostic.line}, column {diagnostic.column}"
  s!"{place}: {diagnostic.problem.kind.name}: {diagnostic.problem.message}"

/-- Whether a diagnostic is listed before another, or stands at the same place: by line, then by
column. -/
def precedes (first second : Diagnostic) : Bool :=
  first.line < second.line || (first.line == second.line && first.column ≤ second.column)

end Diagnostic

/-! ### Warnings -/

/-- What was done about something that was wrong. -/
inductive Remedy where
  /-- The line was left out. -/
  | skipped (problem : Problem)
  /-- The label was bound to its new place. -/
  | redefined (name : String) (firstLine : Nat)
deriving Repr, DecidableEq

structure Warning where
  line : Nat
  remedy : Remedy
deriving Repr, DecidableEq

def Warning.message (warning : Warning) : String :=
  match warning.remedy with
  | .skipped problem => s!"{problem.kind.name}: {problem.message} (line skipped)"
  | .redefined name firstLine => s!"label '{name}' redefined (first defined on line {firstLine})"

/-- One line of text with the line and the wording. -/
def Warning.display (warning : Warning) : String := s!"line {warning.line}: {warning.message}"

end I8085
