/-
Module: I8085.Assembly.Encoding
Layer: Assembly
Purpose: The bytes of an instruction whose opcode has been chosen: the opcode and then its data, a
  word low byte first. A byte operand is a number. A word operand is a label if it has the form of a
  label name, and otherwise a number, so no number can be hidden by a label.
Imports: I8085.Assembly.LabelTable, I8085.Assembly.Selection
Main exports: Selection.wordOperand, Selection.encode
-/
import I8085.Assembly.LabelTable
import I8085.Assembly.Selection

namespace I8085.Selection

def byteOperand (text : String) : Except Problem Byte :=
  match Numeral.parse text with
  | .error e => .error (.badNumeral e)
  | .ok value => if value < 256 then .ok (UInt8.ofNat value) else .error (.byteRange text)

def wordOperand (text : String) (labels : LabelTable) : Except Problem Word :=
  if (Label.defect? text.toList).isNone then
    match labels.find? text with
    | some symbol => .ok symbol.address
    | none => .error (.undefinedLabel text)
  else
    match Numeral.parse text with
    | .error e => .error (.badNumeral e)
    | .ok value => if value < 65536 then .ok (UInt16.ofNat value) else .error (.wordRange text)

def operandBytes (kind : OperandKind) (text : String) (labels : LabelTable) :
    Except Problem (List Byte) :=
  match kind with
  | .none => .ok []
  | .byte => (byteOperand text).map fun value => [value]
  | .word => (wordOperand text labels).map Word.littleEndian

/-- The bytes of an instruction, given the operands of its line. -/
def encode (selection : Selection) (operands : List String) (labels : LabelTable) :
    Except Problem (List Byte) :=
  match selection.dataIndex.bind (operands[·]?) with
  | none => .ok [selection.opcode]
  | some text => (operandBytes selection.operand text labels).map (selection.opcode :: ·)

end I8085.Selection
