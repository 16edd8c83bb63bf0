/-
Module: I8085.Assembly.Layout
Layer: Assembly
Purpose: The first pass over the statements: each gets an address, labels are bound, and opcodes are
  chosen, which fixes the sizes. In strict mode everything that is wrong is reported, and a line
  whose instruction is not known counts as one byte so that later labels stay near their places. In
  lenient mode such a line is skipped with a warning and takes no bytes, and a label that is defined
  again is bound to its new place with a warning.
Imports: I8085.Assembly.Encoding, I8085.Assembly.Statement
Main exports: Mode, Placement, Layout, Layout.ofStatements
-/
import I8085.Assembly.Encoding
import I8085.Assembly.Statement

namespace I8085

/-- What to do about lines that are wrong. -/
inductive Mode where
  /-- Report them. -/
  | strict
  /-- Skip them with a warning. -/
  | lenient
deriving Repr, DecidableEq, Inhabited

/-- An instruction line with its opcode and address. -/
structure Placement where
  statement : Statement
  selection : Selection
  address : Word
deriving Repr, DecidableEq

structure Layout where
  labels : LabelTable := .empty
  length : Nat := 0
  placements : Array Placement := #[]
  diagnostics : Array Diagnostic := #[]
  warnings : Array Warning := #[]

namespace Layout

/-- The address of the next byte. -/
def address (layout : Layout) (start : Word) : Word := start + UInt16.ofNat layout.length

/-- Bind the label of a statement to the next address. -/
def bindLabel (layout : Layout) (start : Word) (mode : Mode) (line : Nat) (label : Piece) :
    Layout :=
  let symbol : Symbol := { name := label.text, address := layout.address start, definedAt := line }
  match layout.labels.bind symbol with
  | .ok labels => { layout with labels }
  | .error existing =>
      match mode with
      | .strict =>
          let problem := .duplicateLabel symbol.name existing.definedAt
          { layout with
            diagnostics := layout.diagnostics.push { problem, line, span := label.span } }
      | .lenient =>
          let remedy := .redefined symbol.name existing.definedAt
          { layout with
            labels := layout.labels.rebind symbol
            warnings := layout.warnings.push { line, remedy } }

/-- Lay out the instruction of a statement at the next address. -/
def placeInstruction (layout : Layout) (start : Word) (mode : Mode) (statement : Statement)
    (mnemonic : Piece) : Layout :=
  match Selection.ofOperands mnemonic.text statement.operandTexts with
  | .ok selection =>
      { layout with
        length := layout.length + selection.size
        placements :=
          layout.placements.push { statement, selection, address := layout.address start } }
  | .error problem =>
      let line := statement.line
      match mode with
      | .strict =>
          { layout with
            length := layout.length + 1
            diagnostics := layout.diagnostics.push { problem, line, span := mnemonic.span } }
      | .lenient =>
          { layout with warnings := layout.warnings.push { line, remedy := .skipped problem } }

/-- Lay out one statement: its label first, then its instruction. -/
def addStatement (start : Word) (mode : Mode) (layout : Layout) (statement : Statement) : Layout :=
  let labelled :=
    match statement.label with
    | none => layout
    | some label => layout.bindLabel start mode statement.line label
  match statement.mnemonic with
  | none => labelled
  | some mnemonic => labelled.placeInstruction start mode statement mnemonic

def ofStatements (start : Word) (mode : Mode) (statements : List Statement) : Layout :=
  statements.foldl (addStatement start mode) {}

end Layout

end I8085
