/-
Module: I8085.Opcode.Chart
Layer: Data
Purpose: The opcode chart of the assembly language: for each opcode the mnemonic, the operands
  that the opcode itself names, and the kind of operand that follows it. It is written out cell by
  cell, sixteen rows of sixteen, with the high digit of the opcode choosing the row. Twelve
  opcodes have no entry. The chart is independent of the decoder, which works from bit fields.
Imports: I8085.Mnemonic, I8085.Register, I8085.Opcode
Main exports: Opcode.Field, Opcode.Entry, Opcode.cell?, Opcode.text, Opcode.operand, Opcode.size,
  Opcode.ofText?, Opcode.ofNames?
-/
import I8085.Mnemonic
import I8085.Opcode
import I8085.Register

namespace I8085.Opcode

/-- An operand that is part of the opcode. -/
inductive Field where
  | register (operand : Register)
  | pair (operand : RegisterPair)
  /-- The vector of a restart. -/
  | vector (number : Fin 8)
deriving Repr, DecidableEq

/-- How a field is written in assembly text. -/
def Field.name : Field → String
  | .register operand => operand.name
  | .pair operand => operand.name
  | .vector number => toString number.val

structure Entry where
  mnemonic : Mnemonic
  fields : List Field
  operand : OperandKind
deriving Repr, DecidableEq

def Entry.fieldNames (entry : Entry) : List String := entry.fields.map Field.name

/-- The instruction as written, less the operand that follows the opcode. -/
def Entry.text (entry : Entry) : String :=
  match entry.fieldNames with
  | [] => entry.mnemonic.name
  | names => entry.mnemonic.name ++ " " ++ ",".intercalate names

/-! ### The chart -/

def bare (mnemonic : Mnemonic) (fields : List Field) : Option Entry :=
  some { mnemonic, fields, operand := .none }

def withByte (mnemonic : Mnemonic) (fields : List Field) : Option Entry :=
  some { mnemonic, fields, operand := .byte }

def withWord (mnemonic : Mnemonic) (fields : List Field) : Option Entry :=
  some { mnemonic, fields, operand := .word }

def restart (number : Nat) : Option Entry := bare .rst [.vector (threeBits number)]

def chart : Vector (Vector (Option Entry) 16) 16 :=
  #v[
    -- 00 to 0F
    #v[bare .nop [], withWord .lxi [.pair .bc], bare .stax [.pair .bc], bare .inx [.pair .bc],
      bare .inr [.register .b], bare .dcr [.register .b], withByte .mvi [.register .b],
      bare .rlc [], none, bare .dad [.pair .bc], bare .ldax [.pair .bc], bare .dcx [.pair .bc],
      bare .inr [.register .c], bare .dcr [.register .c], withByte .mvi [.register .c],
      bare .rrc []],
    -- 10 to 1F
    #v[none, withWord .lxi [.pair .de], bare .stax [.pair .de], bare .inx [.pair .de],
      bare .inr [.register .d], bare .dcr [.register .d], withByte .mvi [.register .d],
      bare .ral [], none, bare .dad [.pair .de], bare .ldax [.pair .de], bare .dcx [.pair .de],
      bare .inr [.register .e], bare .dcr [.register .e], withByte .mvi [.register .e],
      bare .rar []],
    -- 20 to 2F
    #v[bare .rim [], withWord .lxi [.pair .hl], withWord .shld [], bare .inx [.pair .hl],
      bare .inr [.register .h], bare .dcr [.register .h], withByte .mvi [.register .h],
      bare .daa [], none, bare .dad [.pair .hl], withWord .lhld [], bare .dcx [.pair .hl],
      bare .inr [.register .l], bare .dcr [.register .l], withByte .mvi [.register .l],
      bare .cma []],
    -- 30 to 3F
    #v[bare .sim [], withWord .lxi [.pair .sp], withWord .sta [], bare .inx [.pair .sp],
      bare .inr [.register .m], bare .dcr [.register .m], withByte .mvi [.register .m],
      bare .stc [], none, bare .dad [.pair .sp], withWord .lda [], bare .dcx [.pair .sp],
      bare .inr [.register .a], bare .dcr [.register .a], withByte .mvi [.register .a],
      bare .cmc []],
    -- 40 to 4F
    #v[bare .mov [.register .b, .register .b], bare .mov [.register .b, .register .c],
      bare .mov [.register .b, .register .d], bare .mov [.register .b, .register .e],
      bare .mov [.register .b, .register .h], bare .mov [.register .b, .register .l],
      bare .mov [.register .b, .register .m], bare .mov [.register .b, .register .a],
      bare .mov [.register .c, .register .b], bare .mov [.register .c, .register .c],
      bare .mov [.register .c, .register .d], bare .mov [.register .c, .register .e],
      bare .mov [.register .c, .register .h], bare .mov [.register .c, .register .l],
      bare .mov [.register .c, .register .m], bare .mov [.register .c, .register .a]],
    -- 50 to 5F
    #v[bare .mov [.register .d, .register .b], bare .mov [.register .d, .register .c],
      bare .mov [.register .d, .register .d], bare .mov [.register .d, .register .e],
      bare .mov [.register .d, .register .h], bare .mov [.register .d, .register .l],
      bare .mov [.register .d, .register .m], bare .mov [.register .d, .register .a],
      bare .mov [.register .e, .register .b], bare .mov [.register .e, .register .c],
      bare .mov [.register .e, .register .d], bare .mov [.register .e, .register .e],
      bare .mov [.register .e, .register .h], bare .mov [.register .e, .register .l],
      bare .mov [.register .e, .register .m], bare .mov [.register .e, .register .a]],
    -- 60 to 6F
    #v[bare .mov [.register .h, .register .b], bare .mov [.register .h, .register .c],
      bare .mov [.register .h, .register .d], bare .mov [.register .h, .register .e],
      bare .mov [.register .h, .register .h], bare .mov [.register .h, .register .l],
      bare .mov [.register .h, .register .m], bare .mov [.register .h, .register .a],
      bare .mov [.register .l, .register .b], bare .mov [.register .l, .register .c],
      bare .mov [.register .l, .register .d], bare .mov [.register .l, .register .e],
      bare .mov [.register .l, .register .h], bare .mov [.register .l, .register .l],
      bare .mov [.register .l, .register .m], bare .mov [.register .l, .register .a]],
    -- 70 to 7F
    #v[bare .mov [.register .m, .register .b], bare .mov [.register .m, .register .c],
      bare .mov [.register .m, .register .d], bare .mov [.register .m, .register .e],
      bare .mov [.register .m, .register .h], bare .mov [.register .m, .register .l],
      bare .hlt [], bare .mov [.register .m, .register .a],
      bare .mov [.register .a, .register .b], bare .mov [.register .a, .register .c],
      bare .mov [.register .a, .register .d], bare .mov [.register .a, .register .e],
      bare .mov [.register .a, .register .h], bare .mov [.register .a, .register .l],
      bare .mov [.register .a, .register .m], bare .mov [.register .a, .register .a]],
    -- 80 to 8F
    #v[bare .add [.register .b], bare .add [.register .c], bare .add [.register .d],
      bare .add [.register .e], bare .add [.register .h], bare .add [.register .l],
      bare .add [.register .m], bare .add [.register .a], bare .adc [.register .b],
      bare .adc [.register .c], bare .adc [.register .d], bare .adc [.register .e],
      bare .adc [.register .h], bare .adc [.register .l], bare .adc [.register .m],
      bare .adc [.register .a]],
    -- 90 to 9F
    #v[bare .sub [.register .b], bare .sub [.register .c], bare .sub [.register .d],
      bare .sub [.register .e], bare .sub [.register .h], bare .sub [.register .l],
      bare .sub [.register .m], bare .sub [.register .a], bare .sbb [.register .b],
      bare .sbb [.register .c], bare .sbb [.register .d], bare .sbb [.register .e],
      bare .sbb [.register .h], bare .sbb [.register .l], bare .sbb [.register .m],
      bare .sbb [.register .a]],
    -- A0 to AF
    #v[bare .ana [.register .b], bare .ana [.register .c], bare .ana [.register .d],
      bare .ana [.register .e], bare .ana [.register .h], bare .ana [.register .l],
      bare .ana [.register .m], bare .ana [.register .a], bare .xra [.register .b],
      bare .xra [.register .c], bare .xra [.register .d], bare .xra [.register .e],
      bare .xra [.register .h], bare .xra [.register .l], bare .xra [.register .m],
      bare .xra [.register .a]],
    -- B0 to BF
    #v[bare .ora [.register .b], bare .ora [.register .c], bare .ora [.register .d],
      bare .ora [.register .e], bare .ora [.register .h], bare .ora [.register .l],
      bare .ora [.register .m], bare .ora [.register .a], bare .cmp [.register .b],
      bare .cmp [.register .c], bare .cmp [.register .d], bare .cmp [.register .e],
      bare .cmp [.register .h], bare .cmp [.register .l], bare .cmp [.register .m],
      bare .cmp [.register .a]],
    -- C0 to CF
    #v[bare .rnz [], bare .pop [.pair .bc], withWord .jnz [], withWord .jmp [], withWord .cnz [],
      bare .push [.pair .bc], withByte .adi [], restart 0, bare .rz [], bare .ret [],
      withWord .jz [], none, withWord .cz [], withWord .call [], withByte .aci [], restart 1],
    -- D0 to DF
    #v[bare .rnc [], bare .pop [.pair .de], withWord .jnc [], none, withWord .cnc [],
      bare .push [.pair .de], withByte .sui [], restart 2, bare .rc [], none,
      withWord .jc [], none, withWord .cc [], none, withByte .sbi [], restart 3],
    -- E0 to EF
    #v[bare .rpo [], bare .pop [.pair .hl], withWord .jpo [], bare .xthl [], withWord .cpo [],
      bare .push [.pair .hl], withByte .ani [], restart 4, bare .rpe [], bare .pchl [],
      withWord .jpe [], bare .xchg [], withWord .cpe [], none, withByte .xri [], restart 5],
    -- F0 to FF
    #v[bare .rp [], bare .pop [.pair .psw], withWord .jp [], bare .di [], withWord .cp [],
      bare .push [.pair .psw], withByte .ori [], restart 6, bare .rm [], bare .sphl [],
      withWord .jm [], bare .ei [], withWord .cm [], none, withByte .cpi [], restart 7]]

/-! ### Reading the chart by opcode -/

/-- The cell of an opcode; `none` for an opcode that stands for no instruction. -/
def cell? (opcode : Byte) : Option Entry :=
  chart[Fin.ofNat 16 (opcode.toNat / 16)][Fin.ofNat 16 opcode.toNat]

/-- The instruction text of an opcode. -/
def text (opcode : Byte) : String := ((cell? opcode).map Entry.text).getD "???"

/-- The operand that follows an opcode. -/
def operand (opcode : Byte) : OperandKind := ((cell? opcode).map Entry.operand).getD .none

/-- The length of the instruction that starts with an opcode. -/
def size (opcode : Byte) : Nat := 1 + (operand opcode).size

/-! ### Searching the chart -/

def all : List Byte := (List.range 256).map UInt8.ofNat

/-- The first opcode whose entry passes a test. -/
def find? (test : Entry → Bool) : Option Byte :=
  all.find? fun opcode => (cell? opcode).any test

/-- The opcode whose instruction text is exactly this. -/
def ofText? (text : String) : Option Byte := find? fun entry => entry.text == text

/-- The opcode with this mnemonic whose fields have these names. -/
def ofNames? (mnemonic : Mnemonic) (names : List String) : Option Byte :=
  find? fun entry => entry.mnemonic == mnemonic && entry.fieldNames == names

end I8085.Opcode
