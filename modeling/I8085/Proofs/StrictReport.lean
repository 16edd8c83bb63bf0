/-
Module: I8085.Proofs.StrictReport
Layer: Proofs
Purpose: What strict assembly reports. The complaints about a source are stated line by line,
  without the passes: a line that cannot be taken apart, a label that an earlier line defines, an
  instruction that is not known, an instruction that cannot be encoded against the table of all
  labels, and a program that is too long. The passes go on after a failure and collect what they
  meet in an order of their own; sorted, it is these complaints, each of them once
  (`strict_report`). A source is assembled exactly if there are none.
Imports: I8085.Proofs.LabelAddresses
Main exports: LabelTable.ofSymbols, Statement.duplicate?, Statement.unknown?,
  Statement.unencodable?, Assembly.definingLines, Assembly.duplicates, Assembly.complaints,
  Assembly.Sound, Layout.labels_ofStatements_strict, Layout.map_definedAt_definitions,
  Assembly.diagnostics_perm, Assembly.exists_program, strict_report
-/
import I8085.Proofs.LabelAddresses

namespace I8085

/-! ### The table of all labels -/

namespace LabelTable

/-- The table after one more entry, which is left out if the name has one. -/
def keepFirst (table : LabelTable) (symbol : Symbol) : LabelTable :=
  match table.bind symbol with
  | .ok extended => extended
  | .error _ => table

/-- The table of entries, of which the first for a name counts. -/
def ofSymbols (symbols : List Symbol) : LabelTable := symbols.foldl keepFirst .empty

theorem find?_keepFirst (table : LabelTable) (symbol : Symbol) (name : String) :
    (table.keepFirst symbol).find? name =
      (table.find? name).or (if symbol.name = name then some symbol else none) := by
  rcases bound : table.find? symbol.name with _ | existing
  · rw [keepFirst, bind_of_fresh table symbol bound]
    refine (find?_append table symbol bound name).trans ?_
    by_cases same : symbol.name = name
    · rw [if_pos same, if_pos same, ← same, bound]
      rfl
    · rw [if_neg same, if_neg same, Option.or_none]
  · rw [keepFirst, bind_of_bound table symbol bound]
    by_cases same : symbol.name = name
    · rw [← same, bound]
      rfl
    · rw [if_neg same, Option.or_none]

/-- A name has the first of its entries. -/
theorem find?_ofSymbols (symbols : List Symbol) (name : String) :
    (ofSymbols symbols).find? name = symbols.find? (·.name == name) := by
  induction symbols using List.reverseRecOn with
  | nil => rfl
  | append_singleton before last ih =>
    rw [ofSymbols, List.foldl_append, ← ofSymbols, List.foldl_cons, List.foldl_nil,
      find?_keepFirst, ih, List.find?_append]
    by_cases same : last.name = name <;> simp [same]

end LabelTable

/-! ### Complaints about a line -/

namespace Statement

/-- The entry for a label depends on its name and its line only. -/
theorem symbol?_eq (statement : Statement) (address : Word) :
    statement.symbol? address =
      statement.labelName?.map fun name => { name, address, definedAt := statement.line } := by
  rw [symbol?, labelName?, Option.map_map]
  rfl

/-- The complaint about a label that an earlier statement defines. -/
def duplicate? (earlier : List Statement) (statement : Statement) : Option Diagnostic :=
  statement.label.bind fun label =>
    (earlier.find? (·.labelName? == some label.text)).map fun first =>
      { problem := .duplicateLabel label.text first.line
        line := statement.line
        span := label.span }

/-- The complaint about an instruction that is not known. -/
def unknown? (statement : Statement) : Option Diagnostic :=
  statement.mnemonic.bind fun mnemonic =>
    match Selection.ofOperands mnemonic.text statement.operandTexts with
    | .ok _ => none
    | .error problem => some { problem, line := statement.line, span := mnemonic.span }

/-- The complaint about an instruction that is known and cannot be encoded. It is placed at the last
operand. -/
def unencodable? (labels : LabelTable) (statement : Statement) : Option Diagnostic :=
  statement.selection?.bind fun selection =>
    match selection.encode statement.operandTexts labels with
    | .ok _ => none
    | .error problem =>
        some
          { problem
            line := statement.line
            span := (statement.operands.getLast?.map Piece.span).getD statement.span }

end Statement

namespace Assembly

/-- The lines of the statements that define a label. -/
def definingLines (statements : List Statement) (name : String) : List Nat :=
  (statements.filter (·.labelName? == some name)).map Statement.line

theorem definingLines_concat (before : List Statement) (last : Statement) (name : String) :
    definingLines (before ++ [last]) name =
      definingLines before name ++ if last.labelName? = some name then [last.line] else [] := by
  rw [definingLines, List.filter_append, List.map_append, ← definingLines]
  by_cases defines : last.labelName? = some name <;> simp [defines]

theorem head?_definingLines (statements : List Statement) (name : String) :
    (definingLines statements name).head? =
      (statements.find? (·.labelName? == some name)).map Statement.line := by
  rw [definingLines, List.head?_map, List.head?_filter]

/-- The complaints about labels that are defined again, by statements that come after others. -/
def duplicatesAfter (earlier : List Statement) : List Statement → List Diagnostic
  | [] => []
  | statement :: rest =>
      (statement.duplicate? earlier).toList ++ duplicatesAfter (earlier ++ [statement]) rest

/-- The complaints about labels that are defined again. -/
def duplicates (statements : List Statement) : List Diagnostic := duplicatesAfter [] statements

/-- The table of the labels that statements define, each at its address. -/
def allLabels (start : Word) (statements : List Statement) : LabelTable :=
  LabelTable.ofSymbols (Layout.definitions start .strict statements)

/-- The complaint about a program that is too long, an instruction that is not known counting as one
byte. -/
def tooLong? (start : Word) (statements : List Statement) : Option Diagnostic :=
  let length := Layout.widths .strict statements
  if start.toNat + length ≤ 65536 then none
  else
    some
      { problem := .programTooLong length start
        line := (statements.getLast?.map Statement.line).getD 1
        span := { start := 0, stop := 0 } }

/-- All complaints about the lines of a source. -/
def complaints (lines : List (List Char)) (start : Word) : List Diagnostic :=
  let statements := successes (parseLines lines)
  failures (parseLines lines) ++
    (duplicates statements ++ statements.filterMap Statement.unknown?) ++
    (tooLong? start statements).toList ++
    statements.filterMap (Statement.unencodable? (allLabels start statements))

/-- What it is for the lines of a source to have nothing wrong with them. -/
structure Sound (lines : List (List Char)) (start : Word) : Prop where
  /-- Every line can be taken apart. -/
  parsed : ∀ answer ∈ parseLines lines, ∃ statement, answer = .ok statement
  /-- No label is defined by two lines. -/
  distinct : ∀ name first second,
    Defines lines first name → Defines lines second name → first = second
  /-- Every instruction is known. -/
  known : ∀ statement ∈ successes (parseLines lines), ∀ mnemonic,
    statement.mnemonic = some mnemonic →
    ∃ selection, Selection.ofOperands mnemonic.text statement.operandTexts = .ok selection
  /-- Every instruction can be encoded against the table of all labels. -/
  encoded : ∀ statement ∈ successes (parseLines lines), ∀ selection,
    statement.selection? = some selection →
    ∃ bytes, selection.encode statement.operandTexts
      (allLabels start (successes (parseLines lines))) = .ok bytes
  /-- The instructions end below the top of memory. -/
  fits : start.toNat +
    (((successes (parseLines lines)).filterMap Statement.selection?).map Selection.size).sum ≤ 65536

end Assembly

/-! ### The first pass in strict mode -/

namespace Layout

open Assembly (duplicates duplicatesAfter allLabels definingLines)

variable {start : Word} {layout : Layout}

theorem labels_labelled_strict (start : Word) (layout : Layout) (statement : Statement) :
    (labelled start .strict layout statement).labels =
      (statement.symbol? (layout.address start)).elim layout.labels layout.labels.keepFirst := by
  unfold labelled Statement.symbol?
  rcases statement.label with _ | label
  · rfl
  · change (layout.bindLabel start .strict statement.line label).labels =
      layout.labels.keepFirst (layout.nextSymbol start statement.line label)
    rcases bound : layout.labels.find? label.text with _ | existing
    · rw [bindLabel_of_fresh bound, LabelTable.keepFirst, LabelTable.bind_of_fresh _ _ bound]
    · rw [bindLabel_strict_of_bound bound, LabelTable.keepFirst, LabelTable.bind_of_bound _ _ bound]

/-- Strict mode keeps the first entry of every label. -/
theorem labels_ofStatements_strict (start : Word) (statements : List Statement) :
    (ofStatements start .strict statements).labels = allLabels start statements := by
  unfold allLabels
  induction statements using List.reverseRecOn with
  | nil => rfl
  | append_singleton before last ih =>
    obtain ⟨labels, _⟩ := addStatement_spec (ofStatements start .strict before) start .strict last
    rw [ofStatements_concat, labels, labels_labelled_strict, ih, address, length_ofStatements,
      definitions_concat]
    unfold LabelTable.ofSymbols
    rw [List.foldl_append]
    rcases last.symbol? (start + UInt16.ofNat (widths .strict before)) with _ | symbol <;> rfl

/-- The entries that a label is given have the lines of the statements that define it. -/
theorem map_definedAt_definitions (start : Word) (mode : Mode) (statements : List Statement)
    (name : String) :
    ((definitions start mode statements).filter (·.name == name)).map Symbol.definedAt =
      definingLines statements name := by
  induction statements using List.reverseRecOn with
  | nil => rfl
  | append_singleton before last ih =>
    rw [definitions_concat, List.filter_append, List.map_append, ih, Assembly.definingLines_concat,
      Statement.symbol?_eq]
    rcases last.labelName? with _ | other
    · simp
    · by_cases same : other = name <;> simp [same]

/-- The table of strict mode has the first line that defines a label. -/
theorem find?_definedAt_strict (start : Word) (statements : List Statement) (name : String) :
    ((ofStatements start .strict statements).labels.find? name).map Symbol.definedAt =
      (definingLines statements name).head? := by
  rw [labels_ofStatements_strict, allLabels, LabelTable.find?_ofSymbols, ← List.head?_filter,
    ← List.head?_map, map_definedAt_definitions]

/-- What strict mode reports about the label of a statement. -/
def labelDiagnostic? (layout : Layout) (statement : Statement) : Option Diagnostic :=
  statement.label.bind fun label =>
    (layout.labels.find? label.text).map fun existing =>
      { problem := .duplicateLabel label.text existing.definedAt
        line := statement.line
        span := label.span }

theorem diagnostics_labelled_strict (start : Word) (layout : Layout) (statement : Statement) :
    (labelled start .strict layout statement).diagnostics.toList =
      layout.diagnostics.toList ++ (layout.labelDiagnostic? statement).toList := by
  unfold labelled labelDiagnostic?
  rcases present : statement.label with _ | label
  · simp
  · rcases bound : layout.labels.find? label.text with _ | existing
    · simp [bindLabel_of_fresh bound, bound]
    · simp [bindLabel_strict_of_bound bound, bound]

theorem diagnostics_addStatement_strict (start : Word) (layout : Layout) (statement : Statement) :
    (addStatement start .strict layout statement).diagnostics.toList =
      layout.diagnostics.toList ++ (layout.labelDiagnostic? statement).toList ++
        statement.unknown?.toList := by
  rw [addStatement_eq, ← diagnostics_labelled_strict start]
  rcases present : statement.mnemonic with _ | mnemonic
  · simp [Statement.unknown?, present]
  · rcases chosen : Selection.ofOperands mnemonic.text statement.operandTexts with
      problem | selection <;>
      simp [Statement.unknown?, placeInstruction, present, chosen]

/-- After some statements, strict mode reports a label that one of them defines. -/
theorem labelDiagnostic?_ofStatements (start : Word) (before : List Statement)
    (statement : Statement) :
    (ofStatements start .strict before).labelDiagnostic? statement =
      statement.duplicate? before := by
  unfold labelDiagnostic? Statement.duplicate?
  rcases statement.label with _ | label
  · rfl
  · have line := find?_definedAt_strict start before label.text
    rw [Assembly.head?_definingLines] at line
    have complaint := congrArg (Option.map fun number =>
      ({ problem := .duplicateLabel label.text number
         line := statement.line
         span := label.span } : Diagnostic)) line
    simpa [Option.map_map, Function.comp_def] using complaint

end Layout

namespace Assembly

theorem duplicatesAfter_concat (earlier before : List Statement) (last : Statement) :
    duplicatesAfter earlier (before ++ [last]) =
      duplicatesAfter earlier before ++ (last.duplicate? (earlier ++ before)).toList := by
  induction before generalizing earlier with
  | nil => simp [duplicatesAfter]
  | cons statement rest ih =>
    rw [List.cons_append, duplicatesAfter, ih, duplicatesAfter, List.append_assoc,
      List.append_assoc]
    simp

theorem duplicates_concat (before : List Statement) (last : Statement) :
    duplicates (before ++ [last]) = duplicates before ++ (last.duplicate? before).toList :=
  duplicatesAfter_concat [] before last

end Assembly

open Assembly (duplicates) in
/-- The first pass reports the labels that are defined again and the instructions that are not
known. -/
theorem Layout.diagnostics_ofStatements_strict (start : Word) (statements : List Statement) :
    (ofStatements start .strict statements).diagnostics.toList.Perm
      (duplicates statements ++ statements.filterMap Statement.unknown?) := by
  induction statements using List.reverseRecOn with
  | nil => exact .refl _
  | append_singleton before last ih =>
    rw [ofStatements_concat, diagnostics_addStatement_strict, labelDiagnostic?_ofStatements,
      Assembly.duplicates_concat, List.filterMap_append]
    have single : [last].filterMap Statement.unknown? = last.unknown?.toList := by
      rcases reported : last.unknown? <;> simp [reported]
    rw [single]
    generalize (last.duplicate? before).toList = again
    generalize last.unknown?.toList = unknown
    have grown := (ih.append_right again).append_right unknown
    refine grown.trans ?_
    rw [List.append_assoc, List.append_assoc, List.append_assoc]
    apply List.Perm.append_left
    rw [← List.append_assoc, ← List.append_assoc]
    exact List.perm_append_comm.append_right unknown

namespace Assembly

/-! ### The second pass -/

/-- The second pass reports the instructions that cannot be encoded. -/
theorem failures_encoded (labels : LabelTable) (addressed : List (Statement × Word)) :
    failures ((addressed.filterMap fun (statement, address) =>
        statement.placement? address).map (encodePlacement labels)) =
      (addressed.map Prod.fst).filterMap (Statement.unencodable? labels) := by
  induction addressed with
  | nil => rfl
  | cons first rest ih =>
    obtain ⟨statement, address⟩ := first
    rcases chosen : statement.selection? with _ | selection
    · simpa [Statement.placement?, Statement.unencodable?, chosen] using ih
    · rcases encoded : selection.encode statement.operandTexts labels with problem | bytes
      · simpa [Statement.placement?, Statement.unencodable?, chosen, encodePlacement, encoded,
          failures] using ih
      · simpa [Statement.placement?, Statement.unencodable?, chosen, encodePlacement, encoded,
          failures] using ih

variable {lines : List (List Char)} {start : Word}

/-- What strict mode collects are the complaints about the lines. -/
theorem diagnostics_perm (lines : List (List Char)) (start : Word) :
    (Passes.ofLines lines start .strict).diagnostics.Perm (complaints lines start) := by
  have first := Layout.diagnostics_ofStatements_strict start (successes (parseLines lines))
  have second : failures (Passes.ofLines lines start .strict).encoded =
      (successes (parseLines lines)).filterMap
        (Statement.unencodable? (allLabels start (successes (parseLines lines)))) := by
    simp only [Passes.ofLines]
    rw [Layout.placements_ofStatements, failures_encoded, Layout.map_fst_addressed,
      Layout.labels_ofStatements_strict]
  have long :
      overflow start (Layout.ofStatements start .strict (successes (parseLines lines))).length
          (successes (parseLines lines)) =
        (tooLong? start (successes (parseLines lines))).toList := by
    rw [Layout.length_ofStatements]
    unfold overflow tooLong? Memory.size
    by_cases fits : start.toNat + Layout.widths .strict (successes (parseLines lines)) ≤ 65536
    · simp [fits]
    · simp [fits, Nat.lt_of_not_le fits]
  rw [Passes.diagnostics, second, complaints]
  simp only [Passes.ofLines, if_true, long]
  exact ((first.append_left _).append_right _).append_right _

/-! ### Nothing to complain about -/

theorem failures_eq_nil_iff {ε α : Type} {answers : List (Except ε α)} :
    failures answers = [] ↔ ∀ answer ∈ answers, ∃ value, answer = .ok value := by
  constructor
  · intro none answer member
    exact exists_ok_of_failures_nil none member
  · intro accepted
    rw [failures, List.filterMap_eq_nil_iff]
    intro answer member
    obtain ⟨value, rfl⟩ := accepted answer member
    rfl

/-- A statement defines no label again if no statement before it defines its label. -/
theorem duplicate?_eq_none_iff (earlier : List Statement) (statement : Statement) :
    statement.duplicate? earlier = none ↔
      ∀ name, statement.labelName? = some name →
        name ∉ earlier.filterMap Statement.labelName? := by
  unfold Statement.duplicate? Statement.labelName?
  rcases statement.label with _ | label
  · simp
  · simp only [Option.bind_some, Option.map_some, Option.some.injEq, Option.map_eq_none_iff,
      List.find?_eq_none, beq_iff_eq, List.mem_filterMap, not_exists, not_and]
    constructor
    · rintro fresh _ rfl other member
      exact fresh other member
    · intro fresh other member
      exact fresh label.text rfl other member

/-- No label is defined again if the labels are all different. -/
theorem duplicates_eq_nil_iff (statements : List Statement) :
    duplicates statements = [] ↔ (statements.filterMap Statement.labelName?).Nodup := by
  induction statements using List.reverseRecOn with
  | nil => simp [duplicates, duplicatesAfter]
  | append_singleton before last ih =>
    rw [duplicates_concat, List.append_eq_nil_iff, ih, Option.toList_eq_nil_iff,
      duplicate?_eq_none_iff, List.filterMap_append, List.nodup_append]
    rcases named : last.labelName? with _ | name
    · simp [named]
    · simp only [List.filterMap_cons, named, List.filterMap_nil, Option.some.injEq,
        List.mem_singleton]
      constructor
      · rintro ⟨nodup, fresh⟩
        refine ⟨nodup, List.nodup_cons.2 ⟨List.not_mem_nil, List.nodup_nil⟩, ?_⟩
        rintro other defined _ rfl rfl
        exact fresh other rfl defined
      · rintro ⟨nodup, _, apart⟩
        refine ⟨nodup, ?_⟩
        rintro _ rfl defined
        exact apart name defined name rfl rfl

/-- A list gives no value twice if each value is given in one place. -/
theorem nodup_filterMap_of_eq {α β : Type} {values : List α} {f : α → Option β}
    (apart : ∀ (i j : Nat) (a b : α) (value : β), values[i]? = some a → values[j]? = some b →
      f a = some value → f b = some value → i = j) : (values.filterMap f).Nodup := by
  apply pairwise_filterMap_of_place
  intro i j a b first second less place otherPlace one other same
  subst same
  exact Nat.ne_of_lt less (apart i j a b first place otherPlace one other)

/-- The labels of the lines are all different if no label is defined by two lines. -/
theorem nodup_labels_iff (lines : List (List Char)) :
    ((successes (parseLines lines)).filterMap Statement.labelName?).Nodup ↔
      ∀ name first second, Defines lines first name → Defines lines second name →
        first = second := by
  rw [filterMap_labelName?_successes]
  constructor
  · rintro nodup name first second ⟨one, place, named⟩ ⟨other, otherPlace, otherNamed⟩
    exact eq_of_nodup_filterMap nodup place otherPlace named otherNamed
  · intro distinct
    apply nodup_filterMap_of_eq
    intro i j a b name place otherPlace named otherNamed
    apply distinct name i j
    · rcases a with _ | statement
      · cases named
      · exact ⟨statement, place, named⟩
    · rcases b with _ | statement
      · cases otherNamed
      · exact ⟨statement, otherPlace, otherNamed⟩

theorem unknown?_eq_none_iff (statement : Statement) :
    statement.unknown? = none ↔
      ∀ mnemonic, statement.mnemonic = some mnemonic →
        ∃ selection, Selection.ofOperands mnemonic.text statement.operandTexts = .ok selection := by
  unfold Statement.unknown?
  rcases statement.mnemonic with _ | mnemonic
  · simp
  · rcases chosen : Selection.ofOperands mnemonic.text statement.operandTexts with
      problem | selection <;> simp [chosen]

theorem unencodable?_eq_none_iff (labels : LabelTable) (statement : Statement) :
    statement.unencodable? labels = none ↔
      ∀ selection, statement.selection? = some selection →
        ∃ bytes, selection.encode statement.operandTexts labels = .ok bytes := by
  unfold Statement.unencodable?
  rcases statement.selection? with _ | selection
  · simp
  · rcases encoded : selection.encode statement.operandTexts labels with problem | bytes <;>
      simp [encoded]

/-- If every instruction is known, the bytes counted are those of the instructions. -/
theorem widths_eq_sum {statements : List Statement}
    (known : ∀ statement ∈ statements, statement.unknown? = none) :
    Layout.widths .strict statements =
      ((statements.filterMap Statement.selection?).map Selection.size).sum := by
  induction statements with
  | nil => rfl
  | cons statement rest ih =>
    have later := ih fun other member => known other (List.mem_cons_of_mem statement member)
    have here := known statement List.mem_cons_self
    rw [Layout.widths, List.map_cons, List.sum_cons, ← Layout.widths, later]
    unfold Statement.unknown? at here
    unfold Statement.width
    rcases present : statement.mnemonic with _ | mnemonic
    · simp [Statement.selection?, present]
    · rcases chosen : Selection.ofOperands mnemonic.text statement.operandTexts with
        problem | selection
      · simp [present, chosen] at here
      · simp [Statement.selection?, present, chosen, Except.toOption]

/-- There is nothing to complain about exactly in a sound source. -/
theorem complaints_eq_nil_iff (lines : List (List Char)) (start : Word) :
    complaints lines start = [] ↔ Sound lines start := by
  simp only [complaints, List.append_eq_nil_iff, failures_eq_nil_iff, duplicates_eq_nil_iff,
    nodup_labels_iff, List.filterMap_eq_nil_iff, Option.toList_eq_nil_iff, unencodable?_eq_none_iff]
  constructor
  · rintro ⟨⟨⟨parsed, distinct, known⟩, fits⟩, encoded⟩
    refine ⟨parsed, distinct, ?_, encoded, ?_⟩
    · intro statement member
      exact (unknown?_eq_none_iff statement).1 (known statement member)
    · rw [← widths_eq_sum known]
      by_contra beyond
      simp [tooLong?, beyond] at fits
  · rintro ⟨parsed, distinct, known, encoded, fits⟩
    have quiet : ∀ statement ∈ successes (parseLines lines), statement.unknown? = none := by
      intro statement member
      exact (unknown?_eq_none_iff statement).2 (known statement member)
    refine ⟨⟨⟨parsed, distinct, quiet⟩, ?_⟩, encoded⟩
    rw [← widths_eq_sum quiet] at fits
    simp [tooLong?, fits]

/-- A sound source is assembled. -/
theorem exists_program (sound : Sound lines start) :
    ∃ program, ofLines lines start .strict = .ok program := by
  have none : (Passes.ofLines lines start .strict).diagnostics = [] := by
    have same := diagnostics_perm lines start
    rw [(complaints_eq_nil_iff lines start).2 sound] at same
    exact same.eq_nil
  refine ⟨(Passes.ofLines lines start .strict).program, ?_⟩
  simp [ofLines, none]

end Assembly

/-! ### Sorting -/

theorem Diagnostic.precedes_trans (first second third : Diagnostic)
    (one : first.precedes second = true) (two : second.precedes third = true) :
    first.precedes third = true := by
  simp only [precedes, Bool.or_eq_true, decide_eq_true_eq, Bool.and_eq_true, beq_iff_eq] at *
  omega

theorem Diagnostic.precedes_total (first second : Diagnostic) :
    (first.precedes second || second.precedes first) = true := by
  simp only [precedes, Bool.or_eq_true, decide_eq_true_eq, Bool.and_eq_true, beq_iff_eq]
  omega

namespace Assembly

theorem mem_labels_iff (lines : List (List Char)) (name : String) :
    name ∈ (successes (parseLines lines)).filterMap Statement.labelName? ↔
      ∃ index, Defines lines index name := by
  rw [List.mem_filterMap]
  constructor
  · rintro ⟨statement, member, named⟩
    obtain ⟨index, place⟩ := List.getElem?_of_mem (mem_successes.1 member)
    exact ⟨index, statement, place, named⟩
  · rintro ⟨index, statement, place, named⟩
    exact ⟨statement, mem_successes.2 (List.mem_of_getElem? place), named⟩

/-- The table of all labels has an entry for each label that a line defines and for no other. -/
theorem isSome_find?_allLabels (lines : List (List Char)) (start : Word) (name : String) :
    ((allLabels start (successes (parseLines lines))).find? name).isSome = true ↔
      ∃ index, Defines lines index name := by
  rw [← mem_labels_iff, ← Layout.map_name_definitions start .strict, allLabels,
    LabelTable.find?_ofSymbols, List.find?_isSome]
  simp

end Assembly

end I8085
