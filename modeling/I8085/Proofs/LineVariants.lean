/-
Module: I8085.Proofs.LineVariants
Layer: Proofs
Purpose: What about a line does not matter to the assembler. Two lines are variants of each other if
  they say the same but for the case of the word and of the operands that are fields of its opcode
  (`Line.Varies`); blank characters and comments are not part of what a line says. Variants are
  taken apart into statements that ask for the same (`Statement.restated_parse`), both passes make
  the same of those, and so sources with such lines are assembled alike (`assemble_varied`).
Imports: I8085.Proofs.DiagnosticPlaces, I8085.Proofs.ProgramListing, I8085.Proofs.WrittenLine
Main exports: Line.selection?, Line.fieldCount, Line.Varies, Statement.Restates,
  Statement.restated_parse, Layout.Agrees, Layout.agrees_ofStatements, Program.SameImage,
  assemble_varied
-/
import I8085.Proofs.DiagnosticPlaces
import I8085.Proofs.ProgramListing
import I8085.Proofs.WrittenLine

namespace I8085

/-! ### Variants of a line -/

namespace Line

/-- The opcode that is chosen for what a line says, if there is one. -/
def selection? (line : List Char) : Option Selection :=
  (word? line).bind fun word =>
    (Selection.ofOperands (String.ofList word) ((operands line).map String.ofList)).toOption

/-- The number of operands that are fields of the opcode: those before the data, or all if the
opcode takes no data. -/
def fieldCount (line : List Char) : Nat :=
  match selection? line with
  | none => 0
  | some selection => selection.dataIndex.getD (operands line).length

/-- Whether two lines say the same but for the case of the word and of the fields. -/
structure Varies (line other : List Char) : Prop where
  label_eq : label? other = label? line
  word_eq : word? other = word? line
  fields_eq : ((operands other).take (fieldCount line)).map (List.map Char.toUpper) =
    ((operands line).take (fieldCount line)).map (List.map Char.toUpper)
  rest_eq : (operands other).drop (fieldCount line) = (operands line).drop (fieldCount line)

theorem Varies.refl (line : List Char) : Varies line line := ⟨rfl, rfl, rfl, rfl⟩

theorem varies_iff {line other : List Char} :
    Varies line other ↔ label? other = label? line ∧ word? other = word? line ∧
      ((operands other).take (fieldCount line)).map (List.map Char.toUpper) =
        ((operands line).take (fieldCount line)).map (List.map Char.toUpper) ∧
      (operands other).drop (fieldCount line) = (operands line).drop (fieldCount line) := by
  constructor
  · rintro ⟨label_eq, word_eq, fields_eq, rest_eq⟩
    exact ⟨label_eq, word_eq, fields_eq, rest_eq⟩
  · rintro ⟨label_eq, word_eq, fields_eq, rest_eq⟩
    exact ⟨label_eq, word_eq, fields_eq, rest_eq⟩

instance (line other : List Char) : Decidable (Varies line other) := decidable_of_iff' _ varies_iff

/-- Lines that are written from parts which differ in the case of the word and of the fields only
are variants, whatever blank characters and comments they are written with. -/
theorem Written.varies {written other : Written}
    (label : other.label.map WrittenLabel.name = written.label.map WrittenLabel.name)
    (word : other.instruction.map (List.map Char.toUpper ∘ WrittenInstruction.word) =
      written.instruction.map (List.map Char.toUpper ∘ WrittenInstruction.word))
    (fields : (other.operandTexts.take (fieldCount written.chars)).map (List.map Char.toUpper) =
      (written.operandTexts.take (fieldCount written.chars)).map (List.map Char.toUpper))
    (rest : other.operandTexts.drop (fieldCount written.chars) =
      written.operandTexts.drop (fieldCount written.chars)) :
    Varies written.chars other.chars := by
  obtain ⟨label_eq, word_eq, operands_eq⟩ := written.says_chars
  obtain ⟨label_eq', word_eq', operands_eq'⟩ := other.says_chars
  constructor
  case label_eq => rw [label_eq, label_eq', label]
  case word_eq => rw [word_eq, word_eq', word]
  case fields_eq => rw [operands_eq, operands_eq', fields]
  case rest_eq => rw [operands_eq, operands_eq', rest]

end Line

/-! ### The choice of an opcode -/

namespace Selection

variable {word : String} {operands others : List String} {selection : Selection}

/-- The opcode for operands stays the same, and so do its bytes, if only the case of its fields is
changed. -/
theorem ofOperands_of_fields (chosen : ofOperands word operands = .ok selection)
    (fields : (others.take (selection.dataIndex.getD operands.length)).map Text.upper =
      (operands.take (selection.dataIndex.getD operands.length)).map Text.upper)
    (rest : others.drop (selection.dataIndex.getD operands.length) =
      operands.drop (selection.dataIndex.getD operands.length)) :
    ofOperands word others = .ok selection ∧
      ∀ labels, selection.encode others labels = selection.encode operands labels := by
  obtain ⟨opcode, entry, cell, takes, rfl⟩ := exists_takes_of_ofOperands chosen
  have count := takes.count
  have arity : (ofEntry opcode entry).dataIndex.getD operands.length = entry.fields.length := by
    rw [ofEntry]
    split
    next none => rw [count, if_pos none, Nat.add_zero, Option.getD_none]
    next => rfl
  rw [arity] at fields rest
  have length : others.length = operands.length := by
    have front := congrArg List.length fields
    have back := congrArg List.length rest
    simp only [List.length_map, List.length_take, List.length_drop] at front back
    omega
  constructor
  · apply ofOperands_of_takes cell
    exact ⟨takes.word_eq, fields.trans takes.fields_eq, length.trans count⟩
  · intro labels
    have data : (ofEntry opcode entry).dataIndex.bind (others[·]?) =
        (ofEntry opcode entry).dataIndex.bind (operands[·]?) := by
      rw [ofEntry]
      split
      next => rfl
      next =>
        have first := congrArg List.head? rest
        rw [List.head?_drop, List.head?_drop] at first
        exact first
    rw [encode, encode, data]

end Selection

/-! ### Statements that ask for the same -/

namespace Statement

/-- Whether a statement asks for the same as another one. -/
structure Restates (first second : Statement) : Prop where
  line_eq : second.line = first.line
  label_eq : second.labelName? = first.labelName?
  mnemonic_eq : second.mnemonic.isSome = first.mnemonic.isSome
  selection?_eq : second.selection? = first.selection?
  encode_eq : ∀ selection, first.selection? = some selection → ∀ labels,
    selection.encode second.operandTexts labels = selection.encode first.operandTexts labels

/-- Whether lines are both refused or taken apart into statements that ask for the same. -/
inductive Restated : Except Diagnostic Statement → Except Diagnostic Statement → Prop where
  | refused (first second : Diagnostic) : Restated (.error first) (.error second)
  | taken {first second : Statement} (restates : Restates first second) :
      Restated (.ok first) (.ok second)

variable {number : Nat} {line other : List Char} {statement : Statement}

theorem operandTexts_of_chars (operands : statement.operands.map Piece.chars = Line.operands line) :
    statement.operandTexts = (Line.operands line).map String.ofList := by
  rw [← operands, List.map_map]
  rfl

theorem labelName?_of_chars (label : statement.label.map Piece.chars = Line.label? line) :
    statement.labelName? = (Line.label? line).map String.ofList := by
  rw [labelName?, ← label, Option.map_map]
  rfl

/-- The opcode for a statement is the one for what its line says. -/
theorem selection?_of_chars (mnemonic : statement.mnemonic.map Piece.chars = Line.word? line)
    (operands : statement.operands.map Piece.chars = Line.operands line) :
    statement.selection? = Line.selection? line := by
  rw [selection?, Line.selection?, ← mnemonic, ← operandTexts_of_chars operands, Option.bind_map]
  rfl

end Statement

namespace Line.Varies

variable {line other : List Char}

/-- Variants have the same opcode, and the bytes of its data are the same. -/
theorem selection?_eq (varies : Varies line other) :
    selection? other = selection? line ∧
      ∀ selection, selection? line = some selection → ∀ labels,
        selection.encode ((operands other).map String.ofList) labels =
          selection.encode ((operands line).map String.ofList) labels := by
  rcases known : selection? line with _ | selection
  · have same : operands other = operands line := by
      have whole := varies.rest_eq
      rwa [fieldCount, known, List.drop_zero, List.drop_zero] at whole
    constructor
    · rw [← known, selection?, selection?, varies.word_eq, same]
    · rintro selection ⟨⟩
  · have count : fieldCount line =
        selection.dataIndex.getD ((operands line).map String.ofList).length := by
      rw [fieldCount, known, List.length_map]
    obtain ⟨word, present, found⟩ := Option.bind_eq_some_iff.1 known
    rcases chosen : Selection.ofOperands (String.ofList word)
        ((operands line).map String.ofList) with problem | first
    · simp [chosen, Except.toOption] at found
    · obtain rfl : first = selection := by simpa [chosen, Except.toOption] using found
      have raise (texts : List (List Char)) :
          (texts.map (List.map Char.toUpper)).map String.ofList =
            (texts.map String.ofList).map Text.upper := by
        simp [Text.upper, Function.comp_def]
      obtain ⟨again, encoded⟩ :
          Selection.ofOperands (String.ofList word) ((operands other).map String.ofList) =
              .ok first ∧ _ := by
        apply Selection.ofOperands_of_fields chosen <;> rw [← count]
        · rw [← List.map_take, ← List.map_take, ← raise, ← raise, varies.fields_eq]
        · rw [← List.map_drop, ← List.map_drop, varies.rest_eq]
      constructor
      · rw [selection?, varies.word_eq, present, Option.bind_some, again]
        rfl
      · rintro _ ⟨⟩
        exact encoded

/-- A variant has a blank operand if the line has one. -/
theorem nil_mem_operands_iff (varies : Varies line other) :
    [] ∈ operands other ↔ [] ∈ operands line := by
  have cut (texts : List (List Char)) : [] ∈ texts ↔
      [] ∈ (texts.take (fieldCount line)).map (List.map Char.toUpper) ∨
        [] ∈ texts.drop (fieldCount line) := by
    have raised : [] ∈ (texts.take (fieldCount line)).map (List.map Char.toUpper) ↔
        [] ∈ texts.take (fieldCount line) := by
      simp only [List.mem_map, List.map_eq_nil_iff, exists_eq_right]
    rw [raised, ← List.mem_append, List.take_append_drop]
  rw [cut, cut (operands line), varies.fields_eq, varies.rest_eq]

end Line.Varies

namespace Statement

variable {number : Nat} {line other : List Char}

/-- Variants of a line are both refused or ask for the same. -/
theorem restated_parse (number : Nat) (varies : Line.Varies line other) :
    Restated (parse number line) (parse number other) := by
  have blank := varies.nil_mem_operands_iff
  have first := reads_parse number line
  have second := reads_parse number other
  generalize parse number line = answer at first
  generalize parse number other = again at second
  cases first with
  | badLabel _ label defective =>
    cases second with
    | statement named =>
      have fine := named _ (varies.label_eq.trans label)
      rw [defective] at fine
      cases fine
    | badLabel => exact .refused _ _
    | emptyOperand => exact .refused _ _
  | emptyOperand _ _ empty =>
    cases second with
    | statement _ filled => exact absurd (blank.2 empty) filled
    | badLabel => exact .refused _ _
    | emptyOperand => exact .refused _ _
  | statement named filled line_eq label mnemonic operands =>
    cases second with
    | badLabel _ also defective =>
      have fine := named _ (varies.label_eq.symm.trans also)
      rw [defective] at fine
      cases fine
    | emptyOperand _ _ empty => exact absurd (blank.1 empty) filled
    | statement _ _ line_eq' label' mnemonic' operands' =>
      obtain ⟨same, encoded⟩ := varies.selection?_eq
      apply Restated.taken
      constructor
      case line_eq => rw [line_eq', line_eq]
      case label_eq =>
        rw [labelName?_of_chars label', labelName?_of_chars label, varies.label_eq]
      case mnemonic_eq =>
        rw [← Option.isSome_map (f := Piece.chars), mnemonic', varies.word_eq, ← mnemonic,
          Option.isSome_map]
      case selection?_eq =>
        rw [selection?_of_chars mnemonic' operands', selection?_of_chars mnemonic operands, same]
      case encode_eq =>
        intro selection chosen
        rw [selection?_of_chars mnemonic operands] at chosen
        rw [operandTexts_of_chars operands', operandTexts_of_chars operands]
        exact encoded selection chosen

end Statement

/-! ### The first pass -/

namespace Statement.Restates

variable {first second : Statement}

/-- Statements that ask for the same count equally many bytes. -/
theorem width_eq (restates : Restates first second) (mode : Mode) :
    second.width mode = first.width mode := by
  have counted (statement : Statement) : statement.width mode =
      statement.selection?.elim
        (if statement.mnemonic.isSome ∧ mode = .strict then 1 else 0) Selection.size := by
    unfold width selection?
    rcases statement.mnemonic with _ | mnemonic
    · simp
    · rcases chosen : Selection.ofOperands mnemonic.text statement.operandTexts <;>
        simp [chosen, Except.toOption]
  rw [counted, counted, restates.selection?_eq, restates.mnemonic_eq]

end Statement.Restates

namespace Layout

open Statement (Restates)

/-- Whether layouts are the same but for the statements that were placed and the texts of
complaints and warnings. -/
structure Agrees (first second : Layout) : Prop where
  labels_eq : second.labels = first.labels
  length_eq : second.length = first.length
  quiet_iff : second.diagnostics = #[] ↔ first.diagnostics = #[]

variable {start : Word} {mode : Mode} {layout other : Layout} {first second : Statement}

theorem Agrees.bindLabel (agrees : Agrees layout other) (line : Nat) {label piece : Piece}
    (same : piece.text = label.text) :
    Agrees (layout.bindLabel start mode line label) (other.bindLabel start mode line piece) := by
  obtain ⟨labels_eq, length_eq, quiet_iff⟩ := agrees
  unfold Layout.bindLabel address
  simp only [labels_eq, length_eq, same]
  rcases layout.labels.bind
    { name := label.text, address := start + UInt16.ofNat layout.length, definedAt := line } with
    existing | labels
  · cases mode with
    | strict => exact ⟨rfl, rfl, by simp⟩
    | lenient => exact ⟨rfl, rfl, quiet_iff⟩
  · exact ⟨rfl, rfl, quiet_iff⟩

theorem Agrees.labelled (agrees : Agrees layout other) (restates : Restates first second) :
    Agrees (labelled start mode layout first) (labelled start mode other second) := by
  have names := restates.label_eq
  unfold Layout.labelled
  unfold Statement.labelName? at names
  rcases defined : first.label with _ | label <;> rcases again : second.label with _ | piece <;>
    rw [defined, again] at names
  · exact agrees
  · cases names
  · cases names
  · rw [restates.line_eq]
    exact agrees.bindLabel first.line (Option.some.inj names)

theorem Agrees.placeInstruction (agrees : Agrees layout other) (restates : Restates first second)
    {mnemonic word : Piece} (present : first.mnemonic = some mnemonic)
    (again : second.mnemonic = some word) :
    Agrees (layout.placeInstruction start mode first mnemonic)
      (other.placeInstruction start mode second word) := by
  obtain ⟨labels_eq, length_eq, quiet_iff⟩ := agrees
  have known := restates.selection?_eq
  rw [Statement.selection?, Statement.selection?, present, again, Option.bind_some,
    Option.bind_some] at known
  unfold Layout.placeInstruction
  generalize Selection.ofOperands mnemonic.text first.operandTexts = chosen at known ⊢
  generalize Selection.ofOperands word.text second.operandTexts = also at known ⊢
  rcases chosen with problem | selection <;> rcases also with problem' | selection'
  · cases mode with
    | strict => exact ⟨labels_eq, congrArg (· + 1) length_eq, by simp⟩
    | lenient => exact ⟨labels_eq, length_eq, quiet_iff⟩
  · cases known
  · cases known
  · obtain rfl := Option.some.inj known
    exact ⟨labels_eq, congrArg (· + selection'.size) length_eq, quiet_iff⟩

theorem Agrees.addStatement (agrees : Agrees layout other) (restates : Restates first second) :
    Agrees (addStatement start mode layout first) (addStatement start mode other second) := by
  have labelled : Agrees (Layout.labelled start mode layout first)
      (Layout.labelled start mode other second) := agrees.labelled restates
  have instructed := restates.mnemonic_eq
  rw [addStatement_eq, addStatement_eq]
  rcases present : first.mnemonic with _ | mnemonic <;>
    rcases again : second.mnemonic with _ | word <;> rw [present, again] at instructed
  · exact labelled
  · cases instructed
  · cases instructed
  · exact labelled.placeInstruction restates present again

/-- Statements that ask for the same are laid out alike. -/
theorem agrees_ofStatements {statements others : List Statement}
    (same : List.Forall₂ Restates statements others) :
    Agrees (ofStatements start mode statements) (ofStatements start mode others) := by
  refine List.rel_foldl ?_ ⟨rfl, rfl, Iff.rfl⟩ same
  intro layout other agrees first second restates
  exact agrees.addStatement restates

end Layout

/-! ### The second pass -/

namespace Assembly

open Statement (Restates Restated)

variable {lines others : List (List Char)} {start : Word} {mode : Mode}

/-- Lines that are pairwise variants are taken apart into statements that ask for the same. -/
theorem restated_parseLines (varies : List.Forall₂ Line.Varies lines others) :
    List.Forall₂ Restated (parseLines lines) (parseLines others) :=
  forall₂_mapIdx varies fun index _ _ here => Statement.restated_parse (index + 1) here

theorem restates_successes {answers again : List (Except Diagnostic Statement)}
    (restated : List.Forall₂ Restated answers again) :
    List.Forall₂ Restates (successes answers) (successes again) ∧
      (failures again = [] ↔ failures answers = []) := by
  induction restated with
  | nil => exact ⟨.nil, Iff.rfl⟩
  | cons here _ ih =>
    obtain ⟨later, refused⟩ := ih
    cases here with
    | refused first second =>
      refine ⟨later, ?_⟩
      simp [failures]
    | taken restates =>
      rw [successes_cons_ok, successes_cons_ok]
      exact ⟨.cons restates later, by simpa [failures] using refused⟩

/-- Statements that ask for the same are met at the same addresses. -/
theorem forall₂_addressed {statements alike : List Statement}
    (same : List.Forall₂ Restates statements alike) (offset : Nat) :
    List.Forall₂ (fun first second => Restates first.1 second.1 ∧ second.2 = first.2)
      (Layout.addressed start mode offset statements)
      (Layout.addressed start mode offset alike) := by
  induction same generalizing offset with
  | nil => exact .nil
  | cons here _ ih =>
    rw [Layout.addressed, Layout.addressed, here.width_eq]
    exact .cons ⟨here, rfl⟩ (ih _)

/-- What two instructions have in common that differ in the text of their lines only. -/
structure Encoded.Matches (first second : Encoded) : Prop where
  line_eq : second.line = first.line
  address_eq : second.address = first.address
  bytes_eq : second.bytes = first.bytes

theorem matches_encoded? {first second : Statement} (restates : Restates first second)
    (labels : LabelTable) (address : Word) :
    Option.Rel Encoded.Matches (first.encoded? labels address)
      (second.encoded? labels address) := by
  unfold Statement.encoded?
  rw [restates.selection?_eq]
  rcases chosen : first.selection? with _ | selection
  · exact .none
  · rw [Option.bind_some, Option.bind_some, restates.encode_eq selection chosen]
    rcases selection.encode first.operandTexts labels with problem | bytes
    · exact .none
    · exact .some ⟨restates.line_eq, rfl, rfl⟩

theorem unencodable?_of_restates {first second : Statement} (restates : Restates first second)
    (labels : LabelTable) :
    second.unencodable? labels = none ↔ first.unencodable? labels = none := by
  rw [unencodable?_eq_none_iff, unencodable?_eq_none_iff, restates.selection?_eq]
  refine forall_congr' fun selection => forall_congr' fun chosen => ?_
  rw [restates.encode_eq selection chosen]

theorem unencodable_of_restates {statements alike : List Statement}
    (same : List.Forall₂ Restates statements alike) (labels : LabelTable) :
    alike.filterMap (Statement.unencodable? labels) = [] ↔
      statements.filterMap (Statement.unencodable? labels) = [] := by
  rw [List.filterMap_eq_nil_iff, List.filterMap_eq_nil_iff]
  induction same with
  | nil => exact Iff.rfl
  | cons here _ ih =>
    rw [List.forall_mem_cons, List.forall_mem_cons, unencodable?_of_restates here, ih]

section Passes

variable (varies : List.Forall₂ Line.Varies lines others) (start : Word) (mode : Mode)
include varies

theorem agrees_layout :
    (Passes.ofLines lines start mode).layout.Agrees (Passes.ofLines others start mode).layout :=
  Layout.agrees_ofStatements (restates_successes (restated_parseLines varies)).1

/-- Nothing is wrong with a source exactly if nothing is wrong with the other. -/
theorem diagnostics_of_varies :
    (Passes.ofLines others start mode).diagnostics = [] ↔
      (Passes.ofLines lines start mode).diagnostics = [] := by
  obtain ⟨same, refused⟩ := restates_successes (restated_parseLines varies)
  obtain ⟨labels, length, quiet⟩ := agrees_layout varies start mode
  have encoded : failures (Passes.ofLines others start mode).encoded = [] ↔
      failures (Passes.ofLines lines start mode).encoded = [] := by
    simp only [Passes.ofLines] at labels ⊢
    rw [Layout.placements_ofStatements, Layout.placements_ofStatements, failures_encoded,
      failures_encoded, Layout.map_fst_addressed, Layout.map_fst_addressed, labels,
      unencodable_of_restates same]
  rw [Passes.diagnostics_eq_nil_iff, Passes.diagnostics_eq_nil_iff, quiet, length, encoded]
  refine and_congr ?_ Iff.rfl
  exact imp_congr Iff.rfl refused

/-- The instructions of the sources match. -/
theorem matches_instructions :
    List.Forall₂ Encoded.Matches (instructions lines start mode)
      (instructions others start mode) := by
  obtain ⟨same, _⟩ := restates_successes (restated_parseLines varies)
  have labels : (Passes.ofLines others start mode).program.labels =
      (Passes.ofLines lines start mode).program.labels :=
    (agrees_layout varies start mode).labels_eq
  rw [instructions_eq, instructions_eq, labels]
  refine List.rel_filterMap ?_ (forall₂_addressed same 0)
  rintro ⟨first, address⟩ ⟨second, _⟩ ⟨restates, rfl⟩
  exact matches_encoded? restates _ _

end Passes

theorem exists_mem_iff {α β : Type} {related : α → β → Prop} {values : List α} {others : List β}
    (same : List.Forall₂ related values others) {one : α → Prop} {other : β → Prop}
    (agree : ∀ a b, related a b → (other b ↔ one a)) :
    (∃ b ∈ others, other b) ↔ ∃ a ∈ values, one a := by
  induction same with
  | nil => simp
  | cons here _ ih => simp only [List.mem_cons, exists_eq_or_imp, agree _ _ here, ih]

/-- The line of an address is that of the instruction there. -/
theorem Consists.line_eq_some_iff {program : Program} {instructions : List Encoded}
    (consists : Consists lines start program instructions) (address : Word) (line : Nat) :
    (program.listing.place? address).map Listing.Place.line = some line ↔
      ∃ encoded ∈ instructions, encoded.address = address ∧ encoded.line = line := by
  simp only [Option.map_eq_some_iff, consists.place?_eq_some_iff]
  constructor
  · rintro ⟨_, ⟨encoded, member, here, rfl⟩, same⟩
    exact ⟨encoded, member, here, same⟩
  · rintro ⟨encoded, member, here, same⟩
    exact ⟨_, ⟨encoded, member, here, rfl⟩, same⟩

end Assembly

/-! ### Programs -/

/-- Whether programs are the same but for their warnings and for the columns of the instructions in
their lines. -/
structure Program.SameImage (first second : Program) : Prop where
  bytes_eq : second.bytes = first.bytes
  labels_eq : second.labels = first.labels
  lines_eq : ∀ address, (second.listing.place? address).map Listing.Place.line =
    (first.listing.place? address).map Listing.Place.line
  ranges_eq : ∀ line, second.listing.range? line = first.listing.range? line

namespace Assembly

variable {lines others : List (List Char)} {start : Word} {mode : Mode} {first second : Program}

theorem sameImage (varies : List.Forall₂ Line.Varies lines others)
    (assembled : ofLines lines start mode = .ok first)
    (again : ofLines others start mode = .ok second) : first.SameImage second := by
  have same := matches_instructions varies start mode
  have consists := consists_of_ok assembled
  have consists_again := consists_of_ok again
  constructor
  case bytes_eq =>
    rw [consists.bytes_eq, consists_again.bytes_eq]
    generalize instructions lines start mode = these at same
    generalize instructions others start mode = those at same
    induction same with
    | nil => rfl
    | cons here _ ih => rw [List.flatMap_cons, List.flatMap_cons, here.bytes_eq, ih]
  case labels_eq =>
    obtain ⟨_, rfl⟩ := passes_of_ok assembled
    obtain ⟨_, rfl⟩ := passes_of_ok again
    exact (agrees_layout varies start mode).labels_eq
  case lines_eq =>
    intro address
    apply Option.ext
    intro line
    rw [consists.line_eq_some_iff, consists_again.line_eq_some_iff]
    apply exists_mem_iff same
    intro one other here
    rw [here.address_eq, here.line_eq]
  case ranges_eq =>
    intro line
    apply Option.ext
    intro range
    rw [consists.range?_eq_some_iff, consists_again.range?_eq_some_iff]
    apply exists_mem_iff same
    intro one other here
    rw [here.line_eq, Encoded.range, Encoded.range, here.address_eq, here.bytes_eq]

end Assembly

open Assembly in
/-- Sources whose lines are pairwise variants of each other are both assembled or both refused, and
if they are assembled, then to the same bytes, labels, lines of addresses and ranges of lines. -/
theorem assemble_varied {source other : String}
    (varies : List.Forall₂ Line.Varies (Text.lines source.toList) (Text.lines other.toList))
    (start : Word) (mode : Mode) :
    ((∃ program, assemble other start mode = .ok program) ↔
        ∃ program, assemble source start mode = .ok program) ∧
      ∀ first second, assemble source start mode = .ok first →
        assemble other start mode = .ok second → first.SameImage second := by
  refine ⟨?_, fun first second => sameImage varies⟩
  simp only [assemble, ofLines_eq_ok_iff, exists_and_left, exists_eq', and_true]
  exact diagnostics_of_varies varies start mode

/-- Two fields, a label that looks like one of them, and a jump to it. -/
def plainSpelling : String := "ADD B\nA: MVI A,#5 ; five\n JMP A"

/-- The same instructions, with other blank characters, comments and letters. -/
def oddSpelling : String := "\tadd  b;\nA :mvi a , #5\nJmp A ; a"

/-- The label keeps its case, and the field of the same name may change it. -/
theorem assemble_varied_spelling :
    List.Forall₂ Line.Varies (Text.lines plainSpelling.toList) (Text.lines oddSpelling.toList) ∧
      ∃ first second,
        assemble plainSpelling 0x10 .strict = .ok first ∧
        assemble oddSpelling 0x10 .strict = .ok second ∧
        first.SameImage second ∧ first.bytes = [0x80, 0x3E, 0x05, 0xC3, 0x11, 0x00] := by
  have varies : List.Forall₂ Line.Varies (Text.lines plainSpelling.toList)
      (Text.lines oddSpelling.toList) := by
    decide +kernel
  have outcome : (assemble plainSpelling 0x10 .strict).toOption.map Program.bytes =
      some [0x80, 0x3E, 0x05, 0xC3, 0x11, 0x00] := by
    decide +kernel
  refine ⟨varies, ?_⟩
  obtain ⟨accepted_iff, agree⟩ := assemble_varied varies 0x10 .strict
  rcases assembled : assemble plainSpelling 0x10 .strict with diagnostics | first
  · simp [assembled, Except.toOption] at outcome
  · obtain ⟨second, again⟩ := accepted_iff.2 ⟨first, assembled⟩
    refine ⟨first, second, rfl, again, agree first second assembled again, ?_⟩
    simpa [assembled, Except.toOption] using outcome

end I8085
