/-
Module: I8085.Proofs.LabelAddresses
Layer: Proofs
Purpose: The two passes of the assembler agree about every label. The first pass binds a label to
  an address by counting sizes, before any line is encoded; the second pass emits the bytes. In an
  assembled program each label has the address of the first byte after the lines that stand before
  its last definition, whatever lines were skipped, refused or without an instruction, and each
  word operand that names a label is this address (`labels_agree`).
Imports: I8085.Proofs.SecondPass
Main exports: Assembly.Defines, Assembly.lineAddress, Assembly.LabelsAgree, labels_agree
-/
import I8085.Proofs.SecondPass

namespace I8085

namespace Assembly

/-- Whether the line at an index defines a label. The line at index zero has number one. -/
def Defines (lines : List (List Char)) (index : Nat) (name : String) : Prop :=
  ∃ statement, (parseLines lines)[index]? = some (.ok statement) ∧
    statement.labelName? = some name

/-- The address of the first byte after the lines before an index. -/
def lineAddress (start : Word) (labels : LabelTable) (lines : List (List Char)) (index : Nat) :
    Word :=
  start + UInt16.ofNat ((emitted labels lines).take index).flatten.length

/-- What it is for a program to agree with its source about labels. -/
structure LabelsAgree (lines : List (List Char)) (start : Word) (mode : Mode)
    (program : Program) : Prop where
  /-- The bytes of the program are those of its lines. -/
  bytes_eq : program.bytes = (emitted program.labels lines).flatten
  /-- The labels with an entry are those that a line defines. -/
  bound_iff : ∀ name, (program.labels.find? name).isSome ↔ ∃ index, Defines lines index name
  /-- A label has the address of the last line that defines it. -/
  address_eq : ∀ symbol ∈ program.labels.toList,
    ∃ index, symbol.definedAt = index + 1 ∧ Defines lines index symbol.name ∧
      (∀ other, Defines lines other symbol.name → other ≤ index) ∧
      symbol.address = lineAddress start program.labels lines index
  /-- In strict mode no label is defined by two lines. -/
  unique : mode = .strict → ∀ name first second,
    Defines lines first name → Defines lines second name → first = second
  /-- A word operand that is a label name is the address of the label. -/
  operand_eq : ∀ (index : Nat) (statement : Statement) (selection : Selection) (text : String),
    (parseLines lines)[index]? = some (.ok statement) → statement.selection? = some selection →
    selection.operand = .word → selection.dataText? statement.operandTexts = some text →
    Label.defect? text.toList = none →
    ∃ symbol ∈ program.labels.toList, symbol.name = text ∧
      (emitted program.labels lines)[index]? =
        some (selection.opcode :: Word.littleEndian symbol.address)

variable {lines : List (List Char)} {start : Word} {mode : Mode} {program : Program}

/-- The lines before a place have emitted as many bytes as the first pass had counted there. -/
theorem length_emitted_before (assembled : ofLines lines start mode = .ok program)
    {first rest : List (Except Diagnostic Statement)} (parsed : parseLines lines = first ++ rest) :
    ((emitted program.labels lines).take first.length).flatten.length =
      Layout.widths mode (successes first) := by
  have before : (emitted program.labels lines).take first.length =
      first.map (lineBytes program.labels) := by
    rw [emitted, parsed, List.map_append]
    exact List.take_left' (by simp)
  rw [before, flatten_map_lineBytes, List.length_flatMap, Layout.widths]
  congr 1
  apply List.map_congr_left
  intro statement member
  apply length_bytes_eq_width assembled
  rw [mem_successes] at member ⊢
  rw [parsed]
  exact List.mem_append_left rest member

/-- A program is as long as the first pass has counted. -/
theorem length_bytes (assembled : ofLines lines start mode = .ok program) :
    program.bytes.length = Layout.widths mode (successes (parseLines lines)) := by
  have emitted_eq := length_emitted_before assembled (List.append_nil (parseLines lines)).symm
  have whole : (emitted program.labels lines).take (parseLines lines).length =
      emitted program.labels lines := by
    rw [emitted, ← List.length_map (lineBytes program.labels), List.take_length]
  rw [whole, ← bytes_eq_emitted assembled] at emitted_eq
  exact emitted_eq

/-- The last of the lines that define a label. -/
theorem exists_last_line (assembled : ofLines lines start mode = .ok program)
    {symbol : Symbol} (entered : symbol ∈ program.labels.toList) :
    ∃ index, symbol.definedAt = index + 1 ∧ Defines lines index symbol.name ∧
      (∀ other, Defines lines other symbol.name → other ≤ index) ∧
      symbol.address = lineAddress start program.labels lines index := by
  obtain ⟨quiet, made⟩ := passes_of_ok assembled
  obtain ⟨_, first, _⟩ := Passes.diagnostics_eq_nil quiet
  have found := LabelTable.find?_of_mem entered
  rw [← made] at found
  rw [Passes.program, Passes.ofLines, Layout.find?_ofStatements first] at found
  obtain ⟨before, statement, after, split, entry, none⟩ := Layout.exists_last_definition found
  obtain ⟨earlier, later, parsed, rfl, rfl⟩ := exists_split_of_successes split
  have place : (parseLines lines)[earlier.length]? = some (.ok statement) := by
    simp [parsed]
  have named : statement.labelName? = some symbol.name := by
    rw [← statement.name_symbol?, entry]
    rfl
  obtain ⟨label, _, rfl⟩ := Option.map_eq_some_iff.1 entry
  refine ⟨earlier.length, line_of_parsed place, ⟨statement, place, named⟩, ?_, ?_⟩
  · rintro other ⟨again, otherPlace, otherNamed⟩
    by_contra past
    have among : .ok again ∈ later := by
      rw [parsed, List.getElem?_append_right (by omega)] at otherPlace
      obtain ⟨next, shift⟩ : ∃ next, other - earlier.length = next + 1 :=
        ⟨other - earlier.length - 1, by omega⟩
      rw [shift, List.getElem?_cons_succ] at otherPlace
      exact List.mem_of_getElem? otherPlace
    exact none again (mem_successes.2 among) otherNamed
  · rw [lineAddress, length_emitted_before assembled parsed]

/-- What a list gives is related if it is related for any two places. -/
theorem pairwise_filterMap_of_place {α β : Type} {values : List α} {f : α → Option β}
    {relation : β → β → Prop}
    (related : ∀ (i j : Nat) (a b : α) (first second : β), i < j → values[i]? = some a →
      values[j]? = some b → f a = some first → f b = some second → relation first second) :
    (values.filterMap f).Pairwise relation := by
  apply List.pairwise_filterMap.2
  rw [List.pairwise_iff_getElem]
  intro i j below within less first one second other
  exact related i j _ _ first second less (List.getElem?_eq_getElem below)
    (List.getElem?_eq_getElem within) one other

/-- A list that gives no value twice has each value in one place. -/
theorem eq_of_nodup_filterMap {α β : Type} {values : List α} {f : α → Option β} {i j : Nat}
    {a b : α} {value : β} (nodup : (values.filterMap f).Nodup) (first : values[i]? = some a)
    (second : values[j]? = some b) (one : f a = some value) (other : f b = some value) : i = j := by
  have apart := List.pairwise_filterMap.1 nodup
  rw [List.pairwise_iff_getElem] at apart
  obtain ⟨below, rfl⟩ := List.getElem?_eq_some_iff.1 first
  obtain ⟨within, rfl⟩ := List.getElem?_eq_some_iff.1 second
  rcases Nat.lt_trichotomy i j with less | same | more
  · exact absurd rfl (apart i j below within less value one value other)
  · exact same
  · exact absurd rfl (apart j i within below more value other value one)

/-- The label that a line defines. -/
def definedLabel? : Except Diagnostic Statement → Option String
  | .ok statement => statement.labelName?
  | .error _ => none

theorem filterMap_labelName?_successes (answers : List (Except Diagnostic Statement)) :
    (successes answers).filterMap Statement.labelName? = answers.filterMap definedLabel? := by
  rw [successes, List.filterMap_filterMap]
  congr 1
  funext answer
  cases answer <;> rfl

/-- Strict mode assembles no source that defines a label twice. -/
theorem eq_of_defines (assembled : ofLines lines start .strict = .ok program) {name : String}
    {first second : Nat} (one : Defines lines first name) (other : Defines lines second name) :
    first = second := by
  obtain ⟨quiet, _⟩ := passes_of_ok assembled
  obtain ⟨_, firstPass, _⟩ := Passes.diagnostics_eq_nil quiet
  have nodup := Layout.names_nodup_of_quiet firstPass
  rw [filterMap_labelName?_successes] at nodup
  obtain ⟨statement, place, named⟩ := one
  obtain ⟨again, otherPlace, otherNamed⟩ := other
  exact eq_of_nodup_filterMap nodup place otherPlace named otherNamed

end Assembly

open Assembly in
/-- The first pass and the second agree about every label of an assembled program. -/
theorem labels_agree {source : String} {start : Word} {mode : Mode} {program : Program}
    (assembled : assemble source start mode = .ok program) :
    LabelsAgree (Text.lines source.toList) start mode program where
  bytes_eq := bytes_eq_emitted assembled
  bound_iff name := by
    obtain ⟨quiet, rfl⟩ := passes_of_ok assembled
    obtain ⟨_, first, _⟩ := Passes.diagnostics_eq_nil quiet
    rw [Passes.program, Passes.ofLines, Layout.isSome_find?_ofStatements first]
    constructor
    · rintro ⟨statement, member, named⟩
      obtain ⟨index, place⟩ := List.getElem?_of_mem (mem_successes.1 member)
      exact ⟨index, statement, place, named⟩
    · rintro ⟨index, statement, place, named⟩
      exact ⟨statement, mem_successes.2 (List.mem_of_getElem? place), named⟩
  address_eq _ entered := exists_last_line assembled entered
  unique strict name first second one other := by
    subst strict
    exact eq_of_defines assembled one other
  operand_eq index statement selection text place chosen word data label := by
    have member := mem_successes.2 (List.mem_of_getElem? place)
    obtain ⟨bytes, encoded⟩ := exists_encode assembled member chosen
    obtain ⟨symbol, found, bytes_eq⟩ := Selection.encode_of_label word data label encoded
    refine ⟨symbol, List.mem_of_find?_eq_some found, by simpa using List.find?_some found, ?_⟩
    rw [emitted, List.getElem?_map, place, Option.map_some, lineBytes, Statement.bytes, chosen]
    simp [encoded, bytes_eq, Except.toOption]

/-- A jump forward over a line that is skipped, to a label that is defined again. -/
def jumpToRedefined : String := "JMP END\nFOO\nEND: HLT\nEND: RET"

/-- The jump goes to the second of the two definitions. -/
theorem labels_agree_redefined :
    ∃ program,
      assemble jumpToRedefined 0x8000 .lenient = .ok program ∧
      program.bytes = [0xC3, 0x04, 0x80, 0x76, 0xC9] ∧
      program.labels.toList = [{ name := "END", address := 0x8004, definedAt := 4 }] ∧
      Assembly.LabelsAgree (Text.lines jumpToRedefined.toList) 0x8000 .lenient program := by
  have outcome : ((assemble jumpToRedefined 0x8000 .lenient).toOption.map fun program =>
      (program.bytes, program.labels.toList)) =
      some ([0xC3, 0x04, 0x80, 0x76, 0xC9],
        [{ name := "END", address := 0x8004, definedAt := 4 }]) := by
    decide +kernel
  rcases assembled : assemble jumpToRedefined 0x8000 .lenient with diagnostics | program
  · simp [assembled, Except.toOption] at outcome
  · obtain ⟨bytes, labels⟩ : _ ∧ _ := by simpa [assembled, Except.toOption] using outcome
    exact ⟨program, rfl, bytes, labels, labels_agree assembled⟩

end I8085
