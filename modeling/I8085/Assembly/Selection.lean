/-
Module: I8085.Assembly.Selection
Layer: Assembly
Purpose: Choosing the opcode for a mnemonic and its operands. Operands that name a register, a
  pair or a restart vector may be part of the opcode, and at most one operand more is data. Since
  a register name can also be a label, the longest run of such operands that the opcode chart
  knows is tried first. The size of an instruction is known once its opcode is, so nothing here
  needs the labels.
Imports: I8085.Assembly.Diagnostic, I8085.Opcode.Chart, I8085.Text.Case
Main exports: Selection, Selection.size, Selection.ofOperands
-/
import I8085.Assembly.Diagnostic
import I8085.Opcode.Chart
import I8085.Text.Case

namespace I8085

/-- An opcode, and which operand of the line is its data. -/
structure Selection where
  opcode : Byte
  operand : OperandKind
  dataIndex : Option Nat
deriving Repr, DecidableEq

namespace Selection

def size (selection : Selection) : Nat := Opcode.size selection.opcode

/-- The name of the opcode field that an operand can stand for: a register, a pair, or a restart
vector, which is a single digit. -/
def fieldName? (operand : String) : Option String :=
  ((Register.ofName? operand).map Register.name).or
    (((RegisterPair.ofName? operand).map RegisterPair.name).or
      (match operand.toList with
      | [digit] => if digit.isDigit then some operand else none
      | _ => none))

/-- The field names of the operands, up to the first operand that can be none. -/
def fieldNames : List String → List String
  | [] => []
  | operand :: rest =>
      match fieldName? operand with
      | some name => name :: fieldNames rest
      | none => []

/-- The number of operands of a line that are data of an instruction. -/
def dataCount : OperandKind → Nat
  | .none => 0
  | .byte => 1
  | .word => 1

/-- The opcode whose fields are exactly these, if what is left of the operands is its data. -/
def ofFields? (mnemonic : Mnemonic) (fields : List String) (operandCount : Nat) :
    Option Selection :=
  match Opcode.ofNames? mnemonic fields with
  | none => none
  | some opcode =>
      let operand := Opcode.operand opcode
      if operandCount = fields.length + dataCount operand then
        some
          { opcode
            operand
            dataIndex := if operand = .none then none else some fields.length }
      else none

/-- The opcode for a mnemonic, in either case, and its operands. -/
def ofOperands (word : String) (operands : List String) : Except Problem Selection :=
  let word := Text.upper word
  match Mnemonic.ofName? word with
  | none => .error (.unknownMnemonic word)
  | some mnemonic =>
      let names := fieldNames operands
      let found := (List.range (names.length + 1)).reverse.findSome? fun count =>
        ofFields? mnemonic (names.take count) operands.length
      match found with
      | some selection => .ok selection
      | none => .error (.badOperands word operands)

end Selection

end I8085
