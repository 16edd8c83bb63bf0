/-
Module: I8085.Proofs.NumeralOperands
Layer: Proofs
Purpose: Numbers as the data of instructions. A number that fits the operand is encoded as its
  bytes, low byte first, whatever it is written like. One that does not fit is complained about, and
  the complaint is about its range if the value was read at all: the parser gives up on values that
  do not fit into 32 bits, and such a number is called malformed instead. Up to there the kind of a
  complaint tells a number that is too large from a text that is no number
  (`Selection.encode_number`).
Imports: I8085.Proofs.WrittenProgram
Main exports: Complains, Selection.Renders, Selection.operandBytes_of_large,
  Selection.operandBytes_syntaxError_iff, Selection.encode_number
-/
import I8085.Proofs.WrittenProgram

namespace I8085

/-! ### Complaints -/

/-- Whether an answer is a complaint of a kind. -/
def Complains {α : Type} (answer : Except Problem α) (kind : Problem.Kind) : Prop :=
  ∃ problem, answer = .error problem ∧ problem.kind = kind

/-- An answer is a complaint of one kind only. -/
theorem Complains.unique {α : Type} {answer : Except Problem α} {first second : Problem.Kind}
    (one : Complains answer first) (other : Complains answer second) : first = second := by
  obtain ⟨problem, refused, rfl⟩ := one
  obtain ⟨again, same, rfl⟩ := other
  rw [refused] at same
  rw [Except.error.inj same]

theorem not_complains_ok {α : Type} (value : α) (kind : Problem.Kind) :
    ¬Complains (.ok value) kind := nofun

@[simp] theorem complains_map {α β : Type} (answer : Except Problem α) (change : α → β)
    (kind : Problem.Kind) : Complains (answer.map change) kind ↔ Complains answer kind := by
  rcases answer with problem | value <;> simp [Complains, Except.map]

namespace Selection

open Numeral (Reads)

/-- Whether encoding an instruction does with its data what a number calls for: the bytes of the
number follow the opcode, low byte first, if they fit the operand, and otherwise there is a
complaint about the range. -/
def Renders (selection : Selection) (operands : List String) (labels : LabelTable)
    (number : Nat) : Prop :=
  if number < 256 ^ selection.operand.size then
    selection.encode operands labels =
      .ok (selection.opcode :: littleEndian selection.operand.size number)
  else Complains (selection.encode operands labels) .rangeError

variable {selection : Selection} {operands : List String} {labels : LabelTable} {text : String}
  {kind : OperandKind} {number : Nat}

/-! ### The data of an instruction -/

/-- No operand holds a number that does not fit into 32 bits. -/
theorem pow_size_le_limit (kind : OperandKind) : 256 ^ kind.size ≤ Numeral.limit := by
  cases kind <;> decide

/-- A text that is no label name is parsed as a number in a word. -/
theorem wordOperand_eq (notLabel : Label.defect? text.toList ≠ none) :
    wordOperand text labels =
      match Numeral.parse text with
      | .error e => .error (.badNumeral e)
      | .ok value =>
          if value < 65536 then .ok (UInt16.ofNat value) else .error (.wordRange text) := by
  have number : ¬(Label.defect? text.toList).isNone = true := by
    rwa [Option.isNone_iff_eq_none]
  unfold wordOperand
  exact if_neg number

/-- A label name is called undefined, if anything. -/
theorem wordOperand_of_label {kind : Problem.Kind} (label : Label.defect? text.toList = none)
    (refused : Complains (wordOperand text labels) kind) : kind = .undefinedLabel := by
  have named : (Label.defect? text.toList).isNone = true := by
    rw [label]
    rfl
  rw [wordOperand, if_pos named] at refused
  rcases found : labels.find? text with _ | symbol
  · rw [found] at refused
    exact refused.unique ⟨_, rfl, rfl⟩
  · rw [found] at refused
    exact absurd refused (not_complains_ok _ _)

/-- Data that cannot be parsed are called malformed, unless they are a label name in a word. -/
theorem operandBytes_of_error {error : NumeralError} (takes : kind ≠ .none)
    (refused : Numeral.parse text = .error error)
    (notLabel : ¬(kind = .word ∧ Label.defect? text.toList = none)) :
    Complains (operandBytes kind text labels) .syntaxError := by
  cases kind with
  | none => exact absurd rfl takes
  | byte =>
    rw [operandBytes, complains_map, byteOperand, refused]
    exact ⟨_, rfl, rfl⟩
  | word =>
    rw [operandBytes, complains_map, wordOperand_eq fun label => notLabel ⟨rfl, label⟩, refused]
    exact ⟨_, rfl, rfl⟩

/-- A number that has been read but does not fit is out of range. -/
theorem operandBytes_of_large (takes : kind ≠ .none) (reads : Reads number (Text.trim text.toList))
    (fits : number < Numeral.limit) (large : 256 ^ kind.size ≤ number) :
    Complains (operandBytes kind text labels) .rangeError := by
  have parsed := Numeral.parse_of_reads reads fits
  cases kind with
  | none => exact absurd rfl takes
  | byte =>
    have above : ¬number < 256 := Nat.not_lt.2 large
    rw [operandBytes, complains_map, byteOperand, parsed]
    exact ⟨_, if_neg above, rfl⟩
  | word =>
    have above : ¬number < 65536 := Nat.not_lt.2 large
    rw [operandBytes, complains_map, wordOperand_eq (Numeral.defect?_of_reads reads), parsed]
    exact ⟨_, if_neg above, rfl⟩

/-- Data are called malformed exactly if they are no label name where one may stand, and write no
number that fits into 32 bits. -/
theorem operandBytes_syntaxError_iff (takes : kind ≠ .none) :
    Complains (operandBytes kind text labels) .syntaxError ↔
      (∀ number, Reads number (Text.trim text.toList) → Numeral.limit ≤ number) ∧
        ¬(kind = .word ∧ Label.defect? text.toList = none) := by
  constructor
  · intro refused
    constructor
    · intro number reads
      -- A number that was read is either encoded or out of range.
      by_contra fits
      rw [Nat.not_le] at fits
      rcases Nat.lt_or_ge number (256 ^ kind.size) with small | large
      · rw [Code.operandBytes_of_reads reads small] at refused
        exact not_complains_ok _ _ refused
      · cases refused.unique (operandBytes_of_large takes reads fits large)
    · rintro ⟨rfl, label⟩
      rw [operandBytes, complains_map] at refused
      cases wordOperand_of_label label refused
  · rintro ⟨beyond, notLabel⟩
    obtain ⟨error, refused⟩ : ∃ error, Numeral.parse text = .error error := by
      rcases Numeral.parse_cases text with ⟨number, reads, answer⟩ | ⟨_, answer | answer⟩
      · rw [if_neg (Nat.not_lt.2 (beyond number reads))] at answer
        exact ⟨_, answer⟩
      · exact ⟨_, answer⟩
      · exact ⟨_, answer⟩
    exact operandBytes_of_error takes refused notLabel

/-! ### Instructions -/

/-- The bytes of an instruction with data are the opcode and the bytes of the data. -/
theorem encode_of_data (data : selection.dataText? operands = some text) :
    selection.encode operands labels =
      (operandBytes selection.operand text labels).map (selection.opcode :: ·) := by
  unfold dataText? at data
  simp only [encode, data]

/-- A number is rendered exactly if it fits into 32 bits. -/
theorem renders_iff (data : selection.dataText? operands = some text)
    (takes : selection.operand ≠ .none) (reads : Reads number (Text.trim text.toList)) :
    selection.Renders operands labels number ↔ number < Numeral.limit := by
  unfold Renders
  rw [encode_of_data data]
  split
  next small =>
    rw [Code.operandBytes_of_reads reads small]
    exact iff_of_true rfl (Nat.lt_of_lt_of_le small (pow_size_le_limit selection.operand))
  next large =>
    rw [complains_map]
    constructor
    · intro refused
      by_contra beyond
      have malformed : Complains (operandBytes selection.operand text labels) .syntaxError := by
        refine (operandBytes_syntaxError_iff takes).2 ⟨?_, ?_⟩
        · intro other again
          rw [← reads.unique again]
          exact Nat.not_lt.1 beyond
        · rintro ⟨_, label⟩
          exact Numeral.defect?_of_reads reads label
      cases refused.unique malformed
    · intro fits
      exact operandBytes_of_large takes reads fits (Nat.not_lt.1 large)

/-- What becomes of the data of an instruction with a byte or a word. If they write a number, it is
rendered as the operand calls for exactly if it is below 2 ^ 32, however it is written. They are
called malformed exactly if they neither write such a number nor, in a word, are a label name. -/
theorem encode_number (data : selection.dataText? operands = some text)
    (takes : selection.operand ≠ .none) :
    (∀ number, Reads number (Text.trim text.toList) →
        (selection.Renders operands labels number ↔ number < 2 ^ 32)) ∧
      (Complains (selection.encode operands labels) .syntaxError ↔
        (∀ number, Reads number (Text.trim text.toList) → 2 ^ 32 ≤ number) ∧
          ¬(selection.operand = .word ∧ Label.defect? text.toList = none)) := by
  constructor
  · intro number reads
    exact renders_iff data takes reads
  · rw [encode_of_data data, complains_map]
    exact operandBytes_syntaxError_iff takes

/-- The largest number that fits into 32 bits is out of range in a word. -/
theorem encode_number_largest :
    ∃ selection : Selection,
      ofOperands "LXI" ["B", "0ffffFFFFh"] = .ok selection ∧
      Reads 4294967295 (Text.trim "0ffffFFFFh".toList) ∧
      Complains (selection.encode ["B", "0ffffFFFFh"] .empty) .rangeError := by
  have chosen : ofOperands "LXI" ["B", "0ffffFFFFh"] = .ok ⟨0x01, .word, some 1⟩ := by
    decide +kernel
  have reads : Reads 4294967295 (Text.trim "0ffffFFFFh".toList) :=
    @Reads.suffixed _ '0' "ffffFFFF".toList 'h' (by decide) (.inr rfl) (by decide +kernel)
  obtain ⟨rendered, _⟩ :=
    @encode_number ⟨0x01, .word, some 1⟩ ["B", "0ffffFFFFh"] .empty "0ffffFFFFh" rfl nofun
  exact ⟨_, chosen, reads, (rendered _ reads).2 (by decide)⟩

/-- The next number is called malformed in a byte, although it is written as a number. -/
theorem next_number_malformed :
    ∃ selection : Selection,
      ofOperands "MVI" ["A", "4294967296"] = .ok selection ∧
      Reads 4294967296 (Text.trim "4294967296".toList) ∧
      ¬selection.Renders ["A", "4294967296"] .empty 4294967296 ∧
      Complains (selection.encode ["A", "4294967296"] .empty) .syntaxError := by
  have chosen : ofOperands "MVI" ["A", "4294967296"] = .ok ⟨0x3E, .byte, some 1⟩ := by
    decide +kernel
  have reads : Reads 4294967296 (Text.trim "4294967296".toList) := .decimal (by decide +kernel)
  have refused : Selection.encode ⟨0x3E, .byte, some 1⟩ ["A", "4294967296"] .empty =
      .error (.badNumeral (.tooLarge "4294967296")) := by
    decide +kernel
  have malformed : Complains (Selection.encode ⟨0x3E, .byte, some 1⟩ ["A", "4294967296"] .empty)
      .syntaxError := ⟨_, refused, rfl⟩
  refine ⟨_, chosen, reads, ?_, malformed⟩
  intro rendered
  have range : Complains _ .rangeError := rendered
  cases range.unique malformed

end Selection

end I8085
