/-
Module: I8085.Proofs.FirstPass
Layer: Proofs
Purpose: What the first pass over a source leaves behind, in closed form. The pass counts bytes, and
  every statement is met at the address that the count gives (`Layout.addressed`). The length, the
  placements and, if nothing was reported, the labels all follow from these addresses: a label has
  the entry of the last statement that defines it, and in strict mode no other statement does.
Imports: I8085.Assembly.Layout, Mathlib.Algebra.Ring.Nat, Mathlib.Data.List.Induction
Main exports: Statement.selection?, Statement.width, Statement.symbol?, Layout.addressed,
  Layout.length_ofStatements, Layout.placements_ofStatements, Layout.find?_ofStatements,
  Layout.names_nodup_of_quiet, Layout.exists_last_definition
-/
import I8085.Assembly.Layout
import Mathlib.Algebra.Ring.Nat
import Mathlib.Data.List.Induction

namespace I8085

/-! ### What a statement asks for -/

namespace Statement

/-- The opcode chosen for the instruction of a statement, if it has one and it is known. -/
def selection? (statement : Statement) : Option Selection :=
  statement.mnemonic.bind fun mnemonic =>
    (Selection.ofOperands mnemonic.text statement.operandTexts).toOption

theorem selection?_eq_some_iff {statement : Statement} {selection : Selection} :
    statement.selection? = some selection ↔
      ∃ mnemonic, statement.mnemonic = some mnemonic ∧
        Selection.ofOperands mnemonic.text statement.operandTexts = .ok selection := by
  rw [selection?, Option.bind_eq_some_iff]
  constructor
  · rintro ⟨mnemonic, present, known⟩
    rcases answer : Selection.ofOperands mnemonic.text statement.operandTexts with problem | found
    · rw [answer] at known
      cases known
    · rw [answer] at known
      obtain rfl := Option.some.inj known
      exact ⟨mnemonic, present, answer⟩
  · rintro ⟨mnemonic, present, chosen⟩
    exact ⟨mnemonic, present, by rw [chosen, Except.toOption]⟩

/-- The number of bytes that the first pass counts for a statement. -/
def width (mode : Mode) (statement : Statement) : Nat :=
  match statement.mnemonic with
  | none => 0
  | some mnemonic =>
      match Selection.ofOperands mnemonic.text statement.operandTexts with
      | .ok selection => selection.size
      | .error _ => if mode = .strict then 1 else 0

/-- The label that a statement defines. -/
def labelName? (statement : Statement) : Option String := statement.label.map Piece.text

/-- The entry that a statement makes for its label at an address. -/
def symbol? (statement : Statement) (address : Word) : Option Symbol :=
  statement.label.map fun label => { name := label.text, address, definedAt := statement.line }

/-- The placement of the instruction of a statement at an address. -/
def placement? (statement : Statement) (address : Word) : Option Placement :=
  statement.selection?.map fun selection => { statement, selection, address }

/-- The entry is made for the label. -/
theorem name_symbol? (statement : Statement) (address : Word) :
    (statement.symbol? address).map Symbol.name = statement.labelName? := by
  simp [symbol?, labelName?, Function.comp_def]

end Statement

namespace Layout

variable {start : Word} {mode : Mode} {layout : Layout}

/-! ### One statement -/

/-- The entry for a label at the next address. -/
def nextSymbol (layout : Layout) (start : Word) (line : Nat) (label : Piece) : Symbol where
  name := label.text
  address := layout.address start
  definedAt := line

/-- A new label gets an entry. -/
theorem bindLabel_of_fresh {line : Nat} {label : Piece}
    (fresh : layout.labels.find? label.text = none) :
    layout.bindLabel start mode line label =
      { layout with
        labels := layout.labels.append (layout.nextSymbol start line label) fresh } := by
  have bound := LabelTable.bind_of_fresh _ (layout.nextSymbol start line label) fresh
  simp only [nextSymbol] at bound
  simp only [bindLabel, bound]
  rfl

/-- Strict mode reports a label that has an entry. -/
theorem bindLabel_strict_of_bound {line : Nat} {label : Piece} {existing : Symbol}
    (bound : layout.labels.find? label.text = some existing) :
    layout.bindLabel start .strict line label =
      { layout with
        diagnostics := layout.diagnostics.push
          { problem := .duplicateLabel label.text existing.definedAt
            line
            span := label.span } } := by
  have refused := LabelTable.bind_of_bound _ (layout.nextSymbol start line label) bound
  rw [nextSymbol] at refused
  simp only [bindLabel, refused]

/-- Lenient mode gives a label that has an entry a new one. -/
theorem bindLabel_lenient_of_bound {line : Nat} {label : Piece} {existing : Symbol}
    (bound : layout.labels.find? label.text = some existing) :
    layout.bindLabel start .lenient line label =
      { layout with
        labels := layout.labels.replace (layout.nextSymbol start line label)
        warnings := layout.warnings.push
          { line, remedy := .redefined label.text existing.definedAt } } := by
  have refused := LabelTable.bind_of_bound _ (layout.nextSymbol start line label) bound
  have replaced := LabelTable.rebind_of_bound _ (layout.nextSymbol start line label) bound
  rw [nextSymbol] at refused replaced
  simp only [bindLabel, refused, replaced]
  rfl

/-- If nothing is reported, a label has its entry afterwards, and every other label has the entry
that it had. -/
theorem find?_bindLabel {line : Nat} {label : Piece}
    (quiet : (layout.bindLabel start mode line label).diagnostics = #[]) (name : String) :
    (layout.bindLabel start mode line label).labels.find? name =
      if label.text = name then some (layout.nextSymbol start line label)
      else layout.labels.find? name := by
  rcases bound : layout.labels.find? label.text with _ | existing
  · rw [bindLabel_of_fresh bound]
    exact LabelTable.find?_append _ _ bound name
  · cases mode with
    | strict => simp [bindLabel_strict_of_bound bound] at quiet
    | lenient =>
      rw [bindLabel_lenient_of_bound bound]
      refine (LabelTable.find?_replace _ _ name).trans ?_
      by_cases same : label.text = name
      · subst same
        simp [nextSymbol, bound]
      · simp [nextSymbol, same]

/-- Binding a label counts no bytes, places nothing and takes nothing back that was reported. -/
theorem bindLabel_spec (layout : Layout) (start : Word) (mode : Mode) (line : Nat)
    (label : Piece) :
    (layout.bindLabel start mode line label).length = layout.length ∧
      (layout.bindLabel start mode line label).placements = layout.placements ∧
      ((layout.bindLabel start mode line label).diagnostics = #[] → layout.diagnostics = #[]) := by
  rcases bound : layout.labels.find? label.text with _ | existing
  · simp [bindLabel_of_fresh bound]
  · cases mode with
    | strict => simp [bindLabel_strict_of_bound bound]
    | lenient => simp [bindLabel_lenient_of_bound bound]

/-- Placing an instruction binds no label, takes nothing back that was reported and counts the
bytes of the statement. -/
theorem placeInstruction_spec (layout : Layout) (start : Word) (mode : Mode)
    {statement : Statement} {mnemonic : Piece} (present : statement.mnemonic = some mnemonic) :
    (layout.placeInstruction start mode statement mnemonic).labels = layout.labels ∧
      (layout.placeInstruction start mode statement mnemonic).length =
        layout.length + statement.width mode ∧
      (layout.placeInstruction start mode statement mnemonic).placements.toList =
        layout.placements.toList ++ (statement.placement? (layout.address start)).toList ∧
      ((layout.placeInstruction start mode statement mnemonic).diagnostics = #[] →
        layout.diagnostics = #[]) := by
  rcases chosen : Selection.ofOperands mnemonic.text statement.operandTexts with
    problem | selection
  · cases mode <;>
      simp [placeInstruction, chosen, Statement.width, Statement.placement?,
        Statement.selection?, present, Except.toOption]
  · simp [placeInstruction, chosen, Statement.width, Statement.placement?, Statement.selection?,
      present, Except.toOption]

/-- The layout after the label of a statement. -/
def labelled (start : Word) (mode : Mode) (layout : Layout) (statement : Statement) : Layout :=
  match statement.label with
  | none => layout
  | some label => layout.bindLabel start mode statement.line label

theorem addStatement_eq (statement : Statement) :
    addStatement start mode layout statement =
      match statement.mnemonic with
      | none => labelled start mode layout statement
      | some mnemonic =>
          (labelled start mode layout statement).placeInstruction start mode statement mnemonic :=
  rfl

theorem labelled_spec (layout : Layout) (start : Word) (mode : Mode) (statement : Statement) :
    (labelled start mode layout statement).length = layout.length ∧
      (labelled start mode layout statement).placements = layout.placements ∧
      ((labelled start mode layout statement).diagnostics = #[] → layout.diagnostics = #[]) := by
  unfold labelled
  rcases statement.label with _ | label
  · simp
  · exact bindLabel_spec layout start mode statement.line label

/-- One statement: the bytes counted, the instruction placed, and what was reported before. -/
theorem addStatement_spec (layout : Layout) (start : Word) (mode : Mode) (statement : Statement) :
    (addStatement start mode layout statement).labels =
        (labelled start mode layout statement).labels ∧
      (addStatement start mode layout statement).length =
        layout.length + statement.width mode ∧
      (addStatement start mode layout statement).placements.toList =
        layout.placements.toList ++ (statement.placement? (layout.address start)).toList ∧
      ((addStatement start mode layout statement).diagnostics = #[] →
        (labelled start mode layout statement).diagnostics = #[]) := by
  obtain ⟨length, placements, _⟩ := labelled_spec layout start mode statement
  rcases present : statement.mnemonic with _ | mnemonic
  · simp [addStatement_eq, present, length, placements, Statement.width, Statement.placement?,
      Statement.selection?]
  · have placed := placeInstruction_spec (labelled start mode layout statement) start mode present
    simpa [addStatement_eq, present, length, placements, address] using placed

/-- If nothing is reported, the label of a statement has its entry afterwards, and every other label
has the entry it had. -/
theorem find?_addStatement {statement : Statement}
    (quiet : (addStatement start mode layout statement).diagnostics = #[]) (name : String) :
    (addStatement start mode layout statement).labels.find? name =
      ((statement.symbol? (layout.address start)).filter (·.name == name)).or
        (layout.labels.find? name) := by
  obtain ⟨labels, _, _, before⟩ := addStatement_spec layout start mode statement
  have quiet := before quiet
  rw [labels]
  unfold labelled at quiet ⊢
  rcases present : statement.label with _ | label
  · simp [Statement.symbol?, present]
  · simp only [present] at quiet ⊢
    rw [find?_bindLabel quiet]
    by_cases same : label.text = name <;>
      simp [Statement.symbol?, present, nextSymbol, same, Option.filter]

/-- Strict mode reports a statement whose label has an entry. -/
theorem find?_eq_none_of_strict {statement : Statement} {name : String}
    (quiet : (addStatement start .strict layout statement).diagnostics = #[])
    (defines : statement.labelName? = some name) : layout.labels.find? name = none := by
  obtain ⟨_, _, _, before⟩ := addStatement_spec layout start .strict statement
  have quiet := before quiet
  obtain ⟨label, present, rfl⟩ := Option.map_eq_some_iff.1 defines
  rcases bound : layout.labels.find? label.text with _ | existing
  · rfl
  · simp [labelled, present, bindLabel_strict_of_bound bound] at quiet

/-- Strict mode reports a statement whose instruction is not known. -/
theorem width_of_quiet_addStatement {statement : Statement}
    (quiet : (addStatement start mode layout statement).diagnostics = #[]) :
    statement.width mode = (statement.selection?.map Selection.size).getD 0 := by
  rw [addStatement_eq] at quiet
  unfold Statement.width Statement.selection?
  rcases present : statement.mnemonic with _ | mnemonic
  · rfl
  · rcases chosen : Selection.ofOperands mnemonic.text statement.operandTexts with
      problem | selection
    · cases mode with
      | strict => simp [present, placeInstruction, chosen] at quiet
      | lenient => simp [Except.toOption, chosen]
    · simp [Except.toOption, chosen]

/-! ### All statements -/

/-- The statements, each with the address at which the first pass meets it. -/
def addressed (start : Word) (mode : Mode) (offset : Nat) :
    List Statement → List (Statement × Word)
  | [] => []
  | statement :: rest =>
      (statement, start + UInt16.ofNat offset) ::
        addressed start mode (offset + statement.width mode) rest

/-- The number of bytes that the first pass counts for statements. -/
def widths (mode : Mode) (statements : List Statement) : Nat :=
  (statements.map (Statement.width mode)).sum

theorem addressed_append (offset : Nat) (first second : List Statement) :
    addressed start mode offset (first ++ second) =
      addressed start mode offset first ++
        addressed start mode (offset + widths mode first) second := by
  induction first generalizing offset with
  | nil => simp [addressed, widths]
  | cons statement rest ih =>
    simp [addressed, ih, widths, Nat.add_assoc]

theorem map_fst_addressed (start : Word) (mode : Mode) (offset : Nat)
    (statements : List Statement) :
    (addressed start mode offset statements).map Prod.fst = statements := by
  induction statements generalizing offset with
  | nil => rfl
  | cons statement rest ih => simp [addressed, ih]

/-- The first pass, one statement longer. -/
theorem ofStatements_concat (statements : List Statement) (last : Statement) :
    ofStatements start mode (statements ++ [last]) =
      addStatement start mode (ofStatements start mode statements) last := by
  simp [ofStatements]

/-- The first pass counts the bytes of the statements. -/
theorem length_ofStatements (statements : List Statement) :
    (ofStatements start mode statements).length = widths mode statements := by
  induction statements using List.reverseRecOn with
  | nil => rfl
  | append_singleton before last ih =>
    obtain ⟨_, length, _⟩ := addStatement_spec (ofStatements start mode before) start mode last
    rw [ofStatements_concat, length, ih]
    simp [widths]

/-- The first pass places every instruction that is known at its address. -/
theorem placements_ofStatements (statements : List Statement) :
    (ofStatements start mode statements).placements.toList =
      (addressed start mode 0 statements).filterMap fun (statement, address) =>
        statement.placement? address := by
  induction statements using List.reverseRecOn with
  | nil => rfl
  | append_singleton before last ih =>
    obtain ⟨_, _, placements, _⟩ := addStatement_spec (ofStatements start mode before) start mode last
    rw [ofStatements_concat, placements, ih, addressed_append, List.filterMap_append, address,
      length_ofStatements]
    rcases placed : last.placement? (start + UInt16.ofNat (widths mode before)) <;>
      simp [addressed, placed]

/-- What was reported on the way is reported at the end. -/
theorem quiet_of_concat {before : List Statement} {last : Statement}
    (quiet : (ofStatements start mode (before ++ [last])).diagnostics = #[]) :
    (ofStatements start mode before).diagnostics = #[] := by
  rw [ofStatements_concat] at quiet
  obtain ⟨_, _, _, labelled⟩ := addStatement_spec (ofStatements start mode before) start mode last
  obtain ⟨_, _, earlier⟩ := labelled_spec (ofStatements start mode before) start mode last
  exact earlier (labelled quiet)

/-- If nothing is reported, the bytes counted for a statement are those of its instruction. -/
theorem width_of_quiet {statements : List Statement}
    (quiet : (ofStatements start mode statements).diagnostics = #[]) :
    ∀ statement ∈ statements,
      statement.width mode = (statement.selection?.map Selection.size).getD 0 := by
  induction statements using List.reverseRecOn with
  | nil => simp
  | append_singleton before last ih =>
    intro statement member
    rcases List.mem_append.1 member with earlier | isLast
    · exact ih (quiet_of_concat quiet) statement earlier
    · obtain rfl := List.mem_singleton.1 isLast
      rw [ofStatements_concat] at quiet
      exact width_of_quiet_addStatement quiet

/-- The entries that the labels of statements are given, in order. -/
def definitions (start : Word) (mode : Mode) (statements : List Statement) : List Symbol :=
  (addressed start mode 0 statements).filterMap fun (statement, address) =>
    statement.symbol? address

theorem definitions_concat (before : List Statement) (last : Statement) :
    definitions start mode (before ++ [last]) =
      definitions start mode before ++
        (last.symbol? (start + UInt16.ofNat (widths mode before))).toList := by
  rw [definitions, addressed_append, List.filterMap_append, ← definitions, Nat.zero_add]
  rcases defined : last.symbol? (start + UInt16.ofNat (widths mode before)) <;>
    simp [addressed, defined]

/-- If nothing is reported, a label has the last of the entries that it was given. -/
theorem find?_ofStatements {statements : List Statement}
    (quiet : (ofStatements start mode statements).diagnostics = #[]) (name : String) :
    (ofStatements start mode statements).labels.find? name =
      (definitions start mode statements).reverse.find? (·.name == name) := by
  induction statements using List.reverseRecOn with
  | nil => rfl
  | append_singleton before last ih =>
    have earlier := ih (quiet_of_concat quiet)
    rw [ofStatements_concat] at quiet ⊢
    rw [find?_addStatement quiet, earlier, definitions_concat, List.reverse_append,
      List.find?_append, address, length_ofStatements]
    rcases last.symbol? (start + UInt16.ofNat (widths mode before)) with _ | symbol
    · rfl
    · by_cases same : symbol.name = name <;> simp [Option.filter, same]

/-- The last entry that a label was given stands for the last statement that defines it. -/
theorem exists_last_definition {statements : List Statement} {name : String} {symbol : Symbol}
    (found : (definitions start mode statements).reverse.find? (·.name == name) = some symbol) :
    ∃ before statement after,
      statements = before ++ statement :: after ∧
      statement.symbol? (start + UInt16.ofNat (widths mode before)) = some symbol ∧
      ∀ later ∈ after, later.labelName? ≠ some name := by
  induction statements using List.reverseRecOn with
  | nil => simp [definitions, addressed] at found
  | append_singleton before last ih =>
    rw [definitions_concat, List.reverse_append, List.find?_append] at found
    have named := last.name_symbol? (start + UInt16.ofNat (widths mode before))
    rcases defined : last.symbol? (start + UInt16.ofNat (widths mode before)) with _ | latest
    · rw [defined] at found named
      obtain ⟨first, statement, after, rfl, entry, none⟩ := ih (by simpa using found)
      refine ⟨first, statement, after ++ [last], by simp, entry, ?_⟩
      intro later member
      rcases List.mem_append.1 member with earlier | isLast
      · exact none later earlier
      · simp [List.mem_singleton.1 isLast, ← named]
    · rw [defined] at found named
      by_cases same : latest.name = name
      · obtain rfl : latest = symbol := by simpa [same] using found
        exact ⟨before, last, [], rfl, defined, by simp⟩
      · obtain ⟨first, statement, after, rfl, entry, none⟩ := ih (by simpa [same] using found)
        refine ⟨first, statement, after ++ [last], by simp, entry, ?_⟩
        intro later member
        rcases List.mem_append.1 member with earlier | isLast
        · exact none later earlier
        · simpa [List.mem_singleton.1 isLast, ← named] using same

theorem map_name_definitions (start : Word) (mode : Mode) (statements : List Statement) :
    (definitions start mode statements).map Symbol.name =
      statements.filterMap Statement.labelName? := by
  induction statements using List.reverseRecOn with
  | nil => rfl
  | append_singleton before last ih =>
    rw [definitions_concat, List.map_append, ih, List.filterMap_append]
    have named := last.name_symbol? (start + UInt16.ofNat (widths mode before))
    rcases defined : last.symbol? (start + UInt16.ofNat (widths mode before)) with _ | symbol <;>
      rw [defined] at named <;> simp [← named]

/-- If nothing is reported, exactly the labels that statements define have an entry. -/
theorem isSome_find?_ofStatements {statements : List Statement}
    (quiet : (ofStatements start mode statements).diagnostics = #[]) (name : String) :
    ((ofStatements start mode statements).labels.find? name).isSome ↔
      ∃ statement ∈ statements, statement.labelName? = some name := by
  rw [find?_ofStatements quiet, List.find?_isSome, ← List.mem_filterMap,
    ← map_name_definitions start mode]
  simp

/-- If strict mode reports nothing, no label is defined twice. -/
theorem names_nodup_of_quiet {statements : List Statement}
    (quiet : (ofStatements start .strict statements).diagnostics = #[]) :
    (statements.filterMap Statement.labelName?).Nodup := by
  induction statements using List.reverseRecOn with
  | nil => simp
  | append_singleton before last ih =>
    have earlier := quiet_of_concat quiet
    rw [ofStatements_concat] at quiet
    rw [List.filterMap_append, List.nodup_append]
    refine ⟨ih earlier, ?_, ?_⟩
    · rcases named : last.labelName? <;> simp [named]
    · rintro name defined _ again rfl
      have named : last.labelName? = some name := by
        simpa [eq_comm] using again
      have fresh := find?_eq_none_of_strict quiet named
      have bound := (isSome_find?_ofStatements earlier name).2 (List.mem_filterMap.1 defined)
      simp [fresh] at bound

end Layout

end I8085
