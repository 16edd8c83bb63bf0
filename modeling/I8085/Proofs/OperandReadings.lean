/-
Module: I8085.Proofs.OperandReadings
Layer: Proofs
Purpose: A word operand can be a label or a number, and no text can be taken for both. The label
  names are given by a grammar of their own, which the check of names decides
  (`Label.defect?_eq_none_iff`), and the parser of numbers refuses all of them
  (`Numeral.parse_of_isName`). So the label table matters to an instruction only if its data are a
  label name in a word, and then all that matters is the address of this name; a written number is
  encoded the same whatever labels are defined (`operands_read_once`).
Imports: I8085.Proofs.LabelHistory, I8085.Proofs.NumeralGrammar, I8085.Proofs.NumeralOperands
Main exports: Label.IsName, Label.defect?_eq_none_iff, Numeral.parse_of_isName,
  LabelTable.address?, Selection.wordOperand_eq_iff, Selection.encode_eq_iff, ReadOnce,
  operands_read_once
-/
import I8085.Proofs.LabelHistory
import I8085.Proofs.NumeralGrammar
import I8085.Proofs.NumeralOperands

namespace I8085

/-! ### Label names -/

namespace Label

/-- A letter of ASCII, in either case. -/
def IsLetter (c : Char) : Prop := ('A' ≤ c ∧ c ≤ 'Z') ∨ ('a' ≤ c ∧ c ≤ 'z')

/-- A decimal digit of ASCII. -/
def IsDecimal (c : Char) : Prop := '0' ≤ c ∧ c ≤ '9'

/-- The characters of a label name. -/
inductive IsName : List Char → Prop where
  | intro {first : Char} {rest : List Char} (starts : IsLetter first ∨ first = '_')
      (parts : ∀ c ∈ rest, IsLetter c ∨ IsDecimal c ∨ c = '_') (short : rest.length ≤ 31) :
      IsName (first :: rest)

variable {c first : Char} {chars rest : List Char}

theorem isAlpha_iff : c.isAlpha = true ↔ IsLetter c := by
  change (decide (65 ≤ c.val ∧ c.val ≤ 90) || (97 ≤ c.val && c.val ≤ 122)) = true ↔ _
  rw [Bool.or_eq_true, Bool.and_eq_true, decide_eq_true_eq, decide_eq_true_eq, decide_eq_true_eq]
  exact Iff.rfl

theorem isDigit_iff : c.isDigit = true ↔ IsDecimal c := by
  simp [Char.isDigit, IsDecimal, Char.le_def]

theorem isStart_iff : isStart c = true ↔ IsLetter c ∨ c = '_' := by
  rw [isStart, Bool.or_eq_true, isAlpha_iff, beq_iff_eq]

theorem isPart_iff : isPart c = true ↔ IsLetter c ∨ IsDecimal c ∨ c = '_' := by
  rw [isPart, Char.isAlphanum, Bool.or_eq_true, Bool.or_eq_true, isAlpha_iff, isDigit_iff,
    beq_iff_eq, or_assoc]

/-- The characters of a name take one byte each. -/
theorem utf8Size_of_isPart (part : isPart c = true) : c.utf8Size = 1 := by
  have ascii (last : Char) (below : c ≤ last) (size : last.val ≤ 127) : c.utf8Size = 1 :=
    Char.utf8Size_eq_one_iff.2 (UInt32.le_trans below size)
  rcases isPart_iff.1 part with (⟨_, upper⟩ | ⟨_, lower⟩) | ⟨_, digit⟩ | rfl
  · exact ascii 'Z' upper (by decide)
  · exact ascii 'z' lower (by decide)
  · exact ascii '9' digit (by decide)
  · rfl

theorem byteLength_eq_length (parts : ∀ c ∈ chars, isPart c = true) :
    Text.byteLength chars = chars.length := by
  induction chars with
  | nil => rfl
  | cons first rest ih =>
    obtain ⟨here, later⟩ := List.forall_mem_cons.1 parts
    rw [Text.byteLength_cons, ih later, utf8Size_of_isPart here, List.length_cons, Nat.add_comm]

/-- The rules of the check, all of them kept. -/
theorem defect?_cons_eq_none_iff :
    defect? (first :: rest) = none ↔
      Text.byteLength (first :: rest) ≤ maxLength ∧ isStart first = true ∧
        ∀ c ∈ rest, isPart c = true := by
  rw [defect?]
  split
  next long =>
    exact iff_of_false (Option.some_ne_none _) fun kept => Nat.not_lt.2 kept.1 long
  next short =>
    split
    next other =>
      exact iff_of_false (Option.some_ne_none _) fun kept => by simp [kept.2.1] at other
    next starts =>
      have here : isStart first = true := by simpa using starts
      rw [Option.map_eq_none_iff, List.find?_eq_none, and_iff_right (Nat.not_lt.1 short),
        and_iff_right here]
      simp only [Bool.not_eq_true', Bool.not_eq_false]

/-- The check finds nothing wrong with the label names and with no other text. -/
theorem defect?_eq_none_iff : defect? chars = none ↔ IsName chars := by
  constructor
  · intro named
    cases chars with
    | nil => cases named
    | cons first rest =>
      have length := byteLength_eq_length fun c => isPart_of_mem named
      obtain ⟨short, starts, parts⟩ := defect?_cons_eq_none_iff.1 named
      rw [length] at short
      exact .intro (isStart_iff.1 starts) (fun c member => isPart_iff.1 (parts c member))
        (Nat.le_of_succ_le_succ short)
  · rintro ⟨starts, parts, short⟩
    have here := isStart_iff.2 starts
    have later := fun c member => isPart_iff.2 (parts c member)
    refine defect?_cons_eq_none_iff.2 ⟨?_, here, later⟩
    rw [byteLength_eq_length (List.forall_mem_cons.2 ⟨isPart_of_isStart here, later⟩)]
    exact Nat.succ_le_succ short

end Label

/-- No label name is a number, although its characters may all be digits but for an `H` at the
end. -/
theorem Numeral.parse_of_isName {text : String} (named : Label.IsName text.toList) :
    parse text = .error (.malformed text) := by
  have token := Label.isToken_of_named (Label.defect?_eq_none_iff.2 named)
  have unread (reading : Reading) : ¬reading.Of (Text.trim text.toList) := fun of =>
    defect?_of_reads of.reads (Label.defect?_eq_none_iff.2 named)
  rw [parse_of_no_reading unread, token.trim_eq, if_neg token.nonempty, String.ofList_toList]

/-! ### The data of an instruction -/

/-- The address that a name is bound to. -/
def LabelTable.address? (table : LabelTable) (name : String) : Option Word :=
  (table.find? name).map Symbol.address

namespace Selection

variable {selection : Selection} {operands : List String} {labels others : LabelTable}
  {text : String}

/-- A label name stands for the address that it is bound to. -/
theorem wordOperand_of_isName (named : Label.IsName text.toList) (labels : LabelTable) :
    wordOperand text labels =
      match labels.address? text with
      | some address => .ok address
      | none => .error (.undefinedLabel text) := by
  have label : (Label.defect? text.toList).isNone = true := by
    rw [Label.defect?_eq_none_iff.2 named]
    rfl
  rw [wordOperand, if_pos label, LabelTable.address?]
  rcases labels.find? text with _ | symbol <;> rfl

/-- Two tables agree about a word exactly if it is no label name or they bind it to the same
address. -/
theorem wordOperand_eq_iff :
    wordOperand text labels = wordOperand text others ↔
      (Label.IsName text.toList → labels.address? text = others.address? text) := by
  by_cases named : Label.IsName text.toList
  · rw [wordOperand_of_isName named, wordOperand_of_isName named]
    rcases labels.address? text with _ | address <;>
      rcases others.address? text with _ | other <;> simp [named]
  · have number : Label.defect? text.toList ≠ none := mt Label.defect?_eq_none_iff.1 named
    rw [wordOperand_eq number, wordOperand_eq number]
    exact iff_of_true rfl fun label => absurd label named

theorem map_eq_map_iff {ε α β : Type} {f : α → β} (injective : Function.Injective f)
    {answer other : Except ε α} : answer.map f = other.map f ↔ answer = other := by
  rcases answer with problem | value <;> rcases other with problem' | value' <;>
    simp [Except.map, injective.eq_iff]

/-- Two tables agree about an instruction with a word exactly if they agree about the word. -/
theorem encode_eq_iff (data : selection.dataText? operands = some text)
    (word : selection.operand = .word) :
    selection.encode operands labels = selection.encode operands others ↔
      (Label.IsName text.toList → labels.address? text = others.address? text) := by
  rw [encode_of_data data, encode_of_data data, map_eq_map_iff (List.cons_injective), word,
    operandBytes, operandBytes, map_eq_map_iff (fun _ _ => Word.littleEndian_inj.1),
    wordOperand_eq_iff]

/-- An instruction without a word does not ask for labels. -/
theorem encode_eq_of_ne_word (other : selection.operand ≠ .word) :
    selection.encode operands labels = selection.encode operands others := by
  unfold encode
  rcases selection.dataIndex.bind (operands[·]?) with _ | text
  · rfl
  · rcases kind : selection.operand
    case none => rfl
    case byte => rfl
    case word => exact absurd kind other

end Selection

/-- What it is for a text to have a single reading as the data of an instruction. -/
structure ReadOnce (text : String) : Prop where
  /-- The check of label names accepts it exactly if it is one. -/
  named_iff : Label.defect? text.toList = none ↔ Label.IsName text.toList
  /-- It is refused as a number if it is a label name. -/
  malformed : Label.IsName text.toList → Numeral.parse text = .error (.malformed text)
  /-- As a word it is encoded the same against two tables exactly if it is no label name, or one
  that both bind to the same address. -/
  word_iff : ∀ (selection : Selection) (operands : List String),
    selection.dataText? operands = some text → selection.operand = .word →
    ∀ labels others : LabelTable,
      selection.encode operands labels = selection.encode operands others ↔
        (Label.IsName text.toList → labels.address? text = others.address? text)
  /-- In any other operand it is encoded the same against all tables. -/
  other : ∀ (selection : Selection) (operands : List String),
    selection.dataText? operands = some text → selection.operand ≠ .word →
    ∀ labels others : LabelTable,
      selection.encode operands labels = selection.encode operands others
  /-- If it writes a number, nothing that is asked of a table changes what it is encoded to. -/
  number : ∀ number, Numeral.Reads number (Text.trim text.toList) →
    ∀ (selection : Selection) (operands : List String),
      selection.dataText? operands = some text →
      ∀ (labels : LabelTable) (requests : List LabelTable.Request),
        selection.encode operands (labels.after requests) = selection.encode operands labels

/-- Every text has a single reading: it is a label name or it can be a number, but not both, and
only a label name is looked up. -/
theorem operands_read_once (text : String) : ReadOnce text := by
  constructor
  case named_iff => exact Label.defect?_eq_none_iff
  case malformed => exact Numeral.parse_of_isName
  case word_iff =>
    intro selection operands data word labels others
    exact Selection.encode_eq_iff data word
  case other =>
    intro selection operands _ other labels others
    exact Selection.encode_eq_of_ne_word other
  case number =>
    intro number reads selection operands data labels requests
    by_cases word : selection.operand = .word
    · refine (Selection.encode_eq_iff data word).2 fun named => ?_
      exact absurd (Label.defect?_eq_none_iff.2 named) (Numeral.defect?_of_reads reads)
    · exact Selection.encode_eq_of_ne_word word

/-- A table that binds a label name and a text that is none, both written with hexadecimal digits
and an `H`. -/
def hexNames : LabelTable :=
  LabelTable.empty.after [.bind ⟨"FFH", 0x1234, 1⟩, .bind ⟨"0FFH", 0x5678, 2⟩]

/-- The name is looked up in a jump, and the number is read although there is an entry for it. -/
theorem operands_read_once_hex :
    ∃ jump : Selection, Selection.ofOperands "JMP" ["FFH"] = .ok jump ∧
      Label.IsName "FFH".toList ∧
      Numeral.parse "FFH" = .error (.malformed "FFH") ∧
      jump.encode ["FFH"] hexNames = .ok [0xC3, 0x34, 0x12] ∧
      jump.encode ["FFH"] hexNames ≠ jump.encode ["FFH"] .empty ∧
      Numeral.Reads 255 (Text.trim "0FFH".toList) ∧
      jump.encode ["0FFH"] hexNames = .ok [0xC3, 0xFF, 0x00] := by
  have chosen : Selection.ofOperands "JMP" ["FFH"] = .ok ⟨0xC3, .word, some 0⟩ := by
    decide +kernel
  have accepted : Label.defect? "FFH".toList = none := by decide +kernel
  have named := (operands_read_once "FFH").named_iff.1 accepted
  have apart : hexNames.address? "FFH" ≠ LabelTable.empty.address? "FFH" := by decide +kernel
  have reads : Numeral.Reads 255 (Text.trim "0FFH".toList) :=
    @Numeral.Reads.suffixed _ '0' "FF".toList 'H' (by decide) (.inl rfl) (by decide +kernel)
  refine ⟨⟨0xC3, .word, some 0⟩, chosen, named, ?_, by decide +kernel, ?_, reads, ?_⟩
  · exact (operands_read_once "FFH").malformed named
  · intro same
    exact apart (((operands_read_once "FFH").word_iff _ _ rfl rfl _ _).1 same named)
  · refine ((operands_read_once "0FFH").number 255 reads _ _ rfl .empty _).trans ?_
    decide +kernel

end I8085
