/-
Module: I8085.Proofs.LenientMode
Layer: Proofs
Purpose: What lenient mode does about lines that are wrong. If no label is defined by two lines, it
  assembles a source exactly if strict mode assembles the cleaned source, in which the wrong lines
  are emptied but for their labels, and to the same bytes, labels and listing: a line that is
  skipped moves no address, no label and no line number. There is one warning for each such line. A
  source that strict mode assembles is assembled to the same program, without a warning
  (`lenient_agrees`).
Imports: I8085.Proofs.LineCleaning
Main exports: Layout.diagnostics_ofStatements_lenient, Layout.ofStatements_lenient_of_nodup,
  Assembly.Rejected, Assembly.AgreesCleaned, lenient_agrees
-/
import I8085.Proofs.LineCleaning

namespace I8085

namespace Layout

open Assembly (skip)

variable {start : Word} {mode : Mode} {layout : Layout}

/-! ### The first pass in lenient mode -/

/-- A label that has no entry gets one, and nothing is said about it. -/
theorem labelled_of_fresh {statement : Statement}
    (fresh : ∀ name, statement.labelName? = some name → layout.labels.find? name = none) :
    labelled start mode layout statement =
      { layout with
        labels := (statement.symbol? (layout.address start)).elim layout.labels
          layout.labels.keepFirst } := by
  unfold labelled Statement.symbol?
  rcases present : statement.label with _ | label
  · rfl
  · have new : layout.labels.find? label.text = none :=
      fresh label.text (by rw [Statement.labelName?, present, Option.map_some])
    have kept : layout.labels.keepFirst (layout.nextSymbol start statement.line label) =
        layout.labels.append (layout.nextSymbol start statement.line label) new := by
      rw [LabelTable.keepFirst, LabelTable.bind_of_fresh _ _ new]
    simp only [bindLabel_of_fresh new, ← kept]
    rfl

/-- Lenient mode reports nothing in the first pass. -/
theorem diagnostics_addStatement_lenient (layout : Layout) (statement : Statement) :
    (addStatement start .lenient layout statement).diagnostics = layout.diagnostics := by
  have labelled_eq : (labelled start .lenient layout statement).diagnostics =
      layout.diagnostics := by
    unfold labelled
    rcases statement.label with _ | label
    · rfl
    · rcases bound : layout.labels.find? label.text with _ | existing
      · simp [bindLabel_of_fresh bound]
      · simp [bindLabel_lenient_of_bound bound]
  rw [addStatement_eq, ← labelled_eq]
  rcases statement.mnemonic with _ | mnemonic
  · rfl
  · rcases chosen : Selection.ofOperands mnemonic.text statement.operandTexts with
      problem | selection <;>
      simp [placeInstruction, chosen]

theorem diagnostics_ofStatements_lenient (start : Word) (statements : List Statement) :
    (ofStatements start .lenient statements).diagnostics = #[] := by
  induction statements using List.reverseRecOn with
  | nil => rfl
  | append_singleton before last ih =>
    rw [ofStatements_concat, diagnostics_addStatement_lenient, ih]

/-- A statement whose label has no entry adds the entry, and a warning if its instruction is not
known. -/
theorem addStatement_lenient_of_fresh {statement : Statement}
    (fresh : ∀ name, statement.labelName? = some name → layout.labels.find? name = none) :
    (addStatement start .lenient layout statement).labels =
        (statement.symbol? (layout.address start)).elim layout.labels layout.labels.keepFirst ∧
      (addStatement start .lenient layout statement).warnings.toList =
        layout.warnings.toList ++ (statement.unknown?.map skip).toList := by
  rw [addStatement_eq, labelled_of_fresh fresh, Statement.unknown?]
  rcases statement.mnemonic with _ | mnemonic
  · simp
  · rcases chosen : Selection.ofOperands mnemonic.text statement.operandTexts with
      problem | selection <;>
      simp [placeInstruction, chosen, skip]

/-- A label that no earlier statement defines has no entry yet. -/
theorem find?_eq_none_of_nodup {before : List Statement} {last : Statement}
    (nodup : ((before ++ [last]).filterMap Statement.labelName?).Nodup) {name : String}
    (named : last.labelName? = some name) :
    (ofStatements start .lenient before).labels.find? name = none := by
  rw [List.filterMap_append, List.nodup_append] at nodup
  obtain ⟨_, _, apart⟩ := nodup
  rw [← Option.not_isSome_iff_eq_none,
    isSome_find?_ofStatements (diagnostics_ofStatements_lenient start before)]
  intro defined
  apply apart name (List.mem_filterMap.2 defined) name _ rfl
  simp [named]

/-- If no label is defined twice, lenient mode makes the table of the labels at their addresses, and
warns of the instructions that are not known. -/
theorem ofStatements_lenient_of_nodup (start : Word) {statements : List Statement}
    (nodup : (statements.filterMap Statement.labelName?).Nodup) :
    (ofStatements start .lenient statements).labels =
        LabelTable.ofSymbols (definitions start .lenient statements) ∧
      (ofStatements start .lenient statements).warnings.toList =
        (statements.filterMap Statement.unknown?).map skip := by
  induction statements using List.reverseRecOn with
  | nil => exact ⟨rfl, rfl⟩
  | append_singleton before last ih =>
    have earlier : (before.filterMap Statement.labelName?).Nodup := by
      rw [List.filterMap_append] at nodup
      exact (List.nodup_append.1 nodup).1
    obtain ⟨labels, warnings⟩ := ih earlier
    obtain ⟨labels_last, warnings_last⟩ := addStatement_lenient_of_fresh fun _ named =>
      find?_eq_none_of_nodup nodup named
    rw [ofStatements_concat, labels_last, warnings_last, labels, warnings]
    constructor
    · rw [address, length_ofStatements, definitions_concat]
      unfold LabelTable.ofSymbols
      rw [List.foldl_append]
      rcases last.symbol? (start + UInt16.ofNat (widths .lenient before)) with _ | symbol <;> rfl
    · rw [List.filterMap_append, List.map_append]
      rcases reported : last.unknown? <;> simp [reported]

/-- Strict mode warns of nothing. -/
theorem warnings_addStatement_strict (layout : Layout) (statement : Statement) :
    (addStatement start .strict layout statement).warnings = layout.warnings := by
  have labelled_eq : (labelled start .strict layout statement).warnings = layout.warnings := by
    unfold labelled
    rcases statement.label with _ | label
    · rfl
    · rcases bound : layout.labels.find? label.text with _ | existing
      · simp [bindLabel_of_fresh bound]
      · simp [bindLabel_strict_of_bound bound]
  rw [addStatement_eq, ← labelled_eq]
  rcases statement.mnemonic with _ | mnemonic
  · rfl
  · rcases chosen : Selection.ofOperands mnemonic.text statement.operandTexts with
      problem | selection <;>
      simp [placeInstruction, chosen]

theorem warnings_ofStatements_strict (start : Word) (statements : List Statement) :
    (ofStatements start .strict statements).warnings = #[] := by
  induction statements using List.reverseRecOn with
  | nil => rfl
  | append_singleton before last ih =>
    rw [ofStatements_concat, warnings_addStatement_strict, ih]

end Layout

namespace Statement

/-- Lenient mode counts no bytes for an instruction that is not known. -/
theorem of_isSome_unknown? {statement : Statement} (unknown : statement.unknown?.isSome) :
    statement.selection? = none ∧ statement.width .lenient = 0 := by
  unfold unknown? at unknown
  unfold selection? width
  rcases present : statement.mnemonic with _ | mnemonic
  · simp [present] at unknown
  · rcases chosen : Selection.ofOperands mnemonic.text statement.operandTexts with
      problem | selection
    · simp [chosen, Except.toOption]
    · simp [present, chosen] at unknown

/-- Both modes count the bytes of an instruction that is known. -/
theorem width_of_known {statement : Statement} (known : statement.unknown? = none) (mode : Mode) :
    statement.width mode = (statement.selection?.map Selection.size).getD 0 := by
  rw [Assembly.unknown?_eq_none_iff] at known
  unfold selection? width
  rcases present : statement.mnemonic with _ | mnemonic
  · rfl
  · obtain ⟨selection, chosen⟩ := known mnemonic present
    simp [chosen, Except.toOption]

/-- Without a mnemonic there is no instruction. -/
theorem of_mnemonic_eq_none {statement : Statement} (bare : statement.mnemonic = none) :
    statement.selection? = none ∧ ∀ mode, statement.width mode = 0 := by
  constructor
  · rw [selection?, bare, Option.bind_none]
  · intro mode
    rw [width, bare]

end Statement

namespace Assembly

variable {answers : List (Except Diagnostic Statement)} {lefts : List Statement} {start : Word}

/-! ### The first pass over what is left -/

section Cleans

variable {answer : Except Diagnostic Statement} {left : Statement}

/-- Lenient mode counts as many bytes for a line as strict mode counts for what is left of it. -/
theorem Cleans.width_eq (cleans : Cleans answer left) :
    left.width .strict = (answer.toOption.map (Statement.width .lenient)).getD 0 := by
  cases cleans with
  | refused _ mnemonic => exact (Statement.of_mnemonic_eq_none mnemonic).2 .strict
  | unknown unknown _ _ mnemonic =>
    rw [(Statement.of_mnemonic_eq_none mnemonic).2 .strict]
    exact (Statement.of_isSome_unknown? unknown).2.symm
  | kept known =>
    rw [Statement.width_of_known known .strict]
    exact (Statement.width_of_known known .lenient).symm

/-- What is left of a line has the instruction of the line, if this is known. -/
theorem Cleans.placement?_eq (cleans : Cleans answer left) (address : Word) :
    left.placement? address = answer.toOption.bind (Statement.placement? · address) := by
  cases cleans with
  | refused _ mnemonic =>
    rw [Statement.placement?, (Statement.of_mnemonic_eq_none mnemonic).1]
    rfl
  | unknown unknown _ _ mnemonic =>
    rw [Statement.placement?, (Statement.of_mnemonic_eq_none mnemonic).1, Except.toOption,
      Option.bind_some, Statement.placement?, (Statement.of_isSome_unknown? unknown).1]
    rfl
  | kept => rfl

/-- What is left of a line has the label of the line. -/
theorem Cleans.symbol?_eq (cleans : Cleans answer left) (address : Word) :
    left.symbol? address = answer.toOption.bind (Statement.symbol? · address) := by
  cases cleans with
  | refused label =>
    rw [Statement.symbol?, label]
    rfl
  | unknown _ line label =>
    rw [Except.toOption, Option.bind_some, Statement.symbol?_eq, Statement.symbol?_eq, label, line]
  | kept => rfl

end Cleans

theorem widths_of_cleans (cleans : List.Forall₂ Cleans answers lefts) :
    Layout.widths .strict lefts = Layout.widths .lenient (successes answers) := by
  induction cleans with
  | nil => rfl
  | @cons answer left _ _ here _ ih =>
    rw [Layout.widths, List.map_cons, List.sum_cons, ← Layout.widths, ih, here.width_eq]
    cases answer with
    | error _ => exact Nat.zero_add _
    | ok _ => rfl

/-- What statements contribute at their addresses is the same for the lines and for what is left of
them. -/
theorem filterMap_addressed_of_cleans {α : Type} {contribution : Statement → Word → Option α}
    (same : ∀ {answer left}, Cleans answer left → ∀ address,
      contribution left address = answer.toOption.bind (contribution · address))
    (cleans : List.Forall₂ Cleans answers lefts) (offset : Nat) :
    ((Layout.addressed start .strict offset lefts).filterMap fun (statement, address) =>
        contribution statement address) =
      (Layout.addressed start .lenient offset (successes answers)).filterMap
        fun (statement, address) => contribution statement address := by
  -- The offset runs on in step, since a line and what is left of it count equally many bytes.
  induction cleans generalizing offset with
  | nil => rfl
  | @cons answer left _ _ here _ ih =>
    rw [Layout.addressed, List.filterMap_cons, here.width_eq, ih]
    simp only [same here]
    cases answer with
    -- Lenient mode has no statement for a line that was refused.
    | error _ => rfl
    | ok statement =>
      rw [successes_cons_ok, Layout.addressed, List.filterMap_cons]
      rfl

theorem unknown?_of_cleans (cleans : List.Forall₂ Cleans answers lefts) :
    ∀ left ∈ lefts, left.unknown? = none := by
  induction cleans with
  | nil => exact fun left member => nomatch member
  | cons here _ ih =>
    intro left member
    rcases List.mem_cons.1 member with rfl | later
    · cases here with
      | refused _ mnemonic => rw [Statement.unknown?, mnemonic, Option.bind_none]
      | unknown _ _ _ mnemonic => rw [Statement.unknown?, mnemonic, Option.bind_none]
      | kept known => exact known
    · exact ih left later

/-- If no label is defined twice, the first pass makes the same of the lines in lenient mode as of
what is left of them in strict mode, which has nothing to report. -/
theorem layout_of_cleans (start : Word) (cleans : List.Forall₂ Cleans answers lefts)
    (nodup : ((successes answers).filterMap Statement.labelName?).Nodup) :
    (Layout.ofStatements start .strict lefts).labels =
        (Layout.ofStatements start .lenient (successes answers)).labels ∧
      (Layout.ofStatements start .strict lefts).length =
        (Layout.ofStatements start .lenient (successes answers)).length ∧
      (Layout.ofStatements start .strict lefts).placements =
        (Layout.ofStatements start .lenient (successes answers)).placements ∧
      (Layout.ofStatements start .strict lefts).diagnostics = #[] := by
  have definitions : Layout.definitions start .strict lefts =
      Layout.definitions start .lenient (successes answers) :=
    filterMap_addressed_of_cleans Cleans.symbol?_eq cleans 0
  have names : lefts.filterMap Statement.labelName? =
      (successes answers).filterMap Statement.labelName? := by
    rw [← Layout.map_name_definitions start .strict, definitions, Layout.map_name_definitions]
  refine ⟨?_, ?_, ?_, ?_⟩
  · rw [Layout.labels_ofStatements_strict, allLabels, definitions,
      (Layout.ofStatements_lenient_of_nodup start nodup).1]
  · rw [Layout.length_ofStatements, Layout.length_ofStatements, widths_of_cleans cleans]
  · rw [← Array.toList_inj, Layout.placements_ofStatements, Layout.placements_ofStatements]
    exact filterMap_addressed_of_cleans Cleans.placement?_eq cleans 0
  -- Nothing is left that strict mode could report: no label twice, and no instruction unknown.
  · have reported := Layout.diagnostics_ofStatements_strict start lefts
    have distinct : duplicates lefts = [] := by
      rw [duplicates_eq_nil_iff, names]
      exact nodup
    have known : lefts.filterMap Statement.unknown? = [] :=
      List.filterMap_eq_nil_iff.2 (unknown?_of_cleans cleans)
    rw [distinct, known, List.append_nil, List.perm_nil] at reported
    exact Array.toList_eq_nil_iff.1 reported

/-! ### Both passes -/

/-- The complaints about the lines that lenient mode skips: those that cannot be taken apart and
those whose instruction is not known. -/
def rejections (lines : List (List Char)) : List Diagnostic :=
  failures (parseLines lines) ++ (successes (parseLines lines)).filterMap Statement.unknown?

/-- If no label is defined twice, lenient mode makes of the lines of a source what strict mode makes
of what is left of them, and warns of the lines that are rejected. -/
theorem passes_of_cleans {lines leftLines : List (List Char)} (start : Word)
    (parsed : parseLines leftLines = lefts.map Except.ok)
    (cleans : List.Forall₂ Cleans (parseLines lines) lefts)
    (nodup : ((successes (parseLines lines)).filterMap Statement.labelName?).Nodup) :
    ((Passes.ofLines lines start .lenient).diagnostics = [] ↔
        (Passes.ofLines leftLines start .strict).diagnostics = []) ∧
      (Passes.ofLines lines start .lenient).program =
        { (Passes.ofLines leftLines start .strict).program with
          warnings := (rejections lines).map skip } := by
  obtain ⟨labels, length, placements, quiet⟩ := layout_of_cleans start cleans nodup
  have warnings := (Layout.ofStatements_lenient_of_nodup start nodup).2
  constructor
  · rw [Passes.diagnostics_eq_nil_iff, Passes.diagnostics_eq_nil_iff]
    simp only [Passes.ofLines, parsed, successes_map_ok, failures_map_ok, labels, length,
      placements, quiet, Layout.diagnostics_ofStatements_lenient, reduceCtorEq, false_implies,
      implies_true]
  · simp only [Passes.program, Passes.ofLines, parsed, successes_map_ok, labels, placements,
      warnings, rejections, reduceCtorEq, if_false, List.map_append]

/-! ### Lines that are rejected -/

/-- The complaint about a line that lenient mode skips. -/
def rejection? : Except Diagnostic Statement → Option Diagnostic
  | .error refusal => some refusal
  | .ok statement => statement.unknown?

/-- Whether the line with a number is rejected, and with which complaint. -/
def Rejected (lines : List (List Char)) (number : Nat) (complaint : Diagnostic) : Prop :=
  ∃ (index : Nat) (answer : Except Diagnostic Statement), number = index + 1 ∧
    (parseLines lines)[index]? = some answer ∧ rejection? answer = some complaint

theorem rejections_perm (answers : List (Except Diagnostic Statement)) :
    (failures answers ++ (successes answers).filterMap Statement.unknown?).Perm
      (answers.filterMap rejection?) := by
  induction answers with
  | nil => exact .refl _
  | cons answer rest ih =>
    cases answer with
    | error refusal => exact ih.cons refusal
    | ok statement =>
      rw [successes_cons_ok, List.filterMap_cons, List.filterMap_cons, rejection?]
      rcases statement.unknown? with _ | complaint
      · exact ih
      · exact List.perm_middle.trans (ih.cons complaint)

theorem line_of_unknown? {statement : Statement} {complaint : Diagnostic}
    (unknown : statement.unknown? = some complaint) : complaint.line = statement.line := by
  unfold Statement.unknown? at unknown
  obtain ⟨mnemonic, _, reported⟩ := Option.bind_eq_some_iff.1 unknown
  split at reported
  next => cases reported
  next => rw [← Option.some.inj reported]

theorem line_of_rejection? {lines : List (List Char)} {index : Nat}
    {answer : Except Diagnostic Statement} {complaint : Diagnostic}
    (place : (parseLines lines)[index]? = some answer)
    (rejected : rejection? answer = some complaint) : complaint.line = index + 1 := by
  cases answer with
  | error refusal =>
    obtain rfl := Option.some.inj rejected
    rw [parseLines, List.getElem?_mapIdx] at place
    obtain ⟨text, _, refused⟩ := Option.map_eq_some_iff.1 place
    exact line_of_refused refused
  | ok statement => rw [line_of_unknown? rejected, line_of_parsed place]

/-- What lenient mode complains about are the lines that are rejected. -/
theorem mem_rejections_iff (lines : List (List Char)) (complaint : Diagnostic) :
    complaint ∈ rejections lines ↔ Rejected lines complaint.line complaint := by
  rw [rejections, (rejections_perm (parseLines lines)).mem_iff, List.mem_filterMap]
  constructor
  · intro listed
    obtain ⟨answer, member, rejected⟩ := listed
    obtain ⟨index, place⟩ := List.getElem?_of_mem member
    exact ⟨index, answer, line_of_rejection? place rejected, place, rejected⟩
  · intro met
    obtain ⟨index, answer, _, place, rejected⟩ := met
    exact ⟨answer, List.mem_of_getElem? place, rejected⟩

/-- No line is complained about twice. -/
theorem nodup_line_rejections (lines : List (List Char)) :
    ((rejections lines).map Diagnostic.line).Nodup := by
  have same := (rejections_perm (parseLines lines)).map Diagnostic.line
  rw [rejections, same.nodup_iff, List.map_filterMap]
  apply nodup_filterMap_of_eq
  intro i j first second number place otherPlace one other
  obtain ⟨complaint, rejected, rfl⟩ := Option.map_eq_some_iff.1 one
  obtain ⟨again, otherRejected, equal⟩ := Option.map_eq_some_iff.1 other
  rw [line_of_rejection? place rejected, line_of_rejection? otherPlace otherRejected] at equal
  omega

/-! ### An empty line at the end -/

/-- An empty line at the end adds a statement that asks for nothing. -/
theorem passes_concat_empty (lines : List (List Char)) (start : Word) (mode : Mode) :
    ∃ blank,
      Passes.ofLines (lines ++ [[]]) start mode =
        { Passes.ofLines lines start mode with
          statements := (Passes.ofLines lines start mode).statements ++ [blank] } := by
  obtain ⟨blank, parsed, label, mnemonic⟩ : ∃ blank, Statement.parse (lines.length + 1) [] =
      .ok blank ∧ blank.label = none ∧ blank.mnemonic = none := ⟨_, rfl, rfl, rfl⟩
  have answers : parseLines (lines ++ [[]]) = parseLines lines ++ [.ok blank] := by
    rw [parseLines, List.mapIdx_concat, parsed, ← parseLines]
  have accepted : successes (parseLines lines ++ [.ok blank]) =
      successes (parseLines lines) ++ [blank] := by
    rw [successes, List.filterMap_append, ← successes]
    rfl
  have refused : failures (parseLines lines ++ [.ok blank]) = failures (parseLines lines) := by
    rw [failures, List.filterMap_append, ← failures]
    exact List.append_nil _
  have layout : Layout.ofStatements start mode (successes (parseLines lines) ++ [blank]) =
      Layout.ofStatements start mode (successes (parseLines lines)) := by
    rw [Layout.ofStatements_concat, Layout.addStatement_eq, mnemonic, Layout.labelled, label]
  refine ⟨blank, ?_⟩
  simp only [Passes.ofLines, answers, accepted, refused, layout]

/-- An empty line at the end does not matter. -/
theorem ofLines_concat_empty {lines : List (List Char)} {mode : Mode} {program : Program} :
    ofLines (lines ++ [[]]) start mode = .ok program ↔ ofLines lines start mode = .ok program := by
  obtain ⟨blank, passes⟩ := passes_concat_empty lines start mode
  rw [ofLines_eq_ok_iff, ofLines_eq_ok_iff, Passes.diagnostics_eq_nil_iff,
    Passes.diagnostics_eq_nil_iff, passes]
  rfl

/-- The cleaned source is assembled as the cleaned lines are. -/
theorem assemble_cleaned_iff {source : String} {mode : Mode} {program : Program} :
    assemble (cleaned source) start mode = .ok program ↔
      ofLines ((Text.lines source.toList).mapIdx fun index line => cleanLine (index + 1) line)
        start mode = .ok program := by
  unfold assemble
  rcases lines_cleaned source with same | same
  · rw [same]
  · rw [same, ofLines_concat_empty]

/-! ### Sources that strict mode assembles -/

/-- All is left of lines with instructions that are known. -/
theorem cleans_map_ok {statements : List Statement}
    (known : ∀ statement ∈ statements, statement.unknown? = none) :
    List.Forall₂ Cleans (statements.map Except.ok) statements := by
  induction statements with
  | nil => exact .nil
  | cons statement rest ih =>
    have here := known statement List.mem_cons_self
    exact .cons (.kept here) (ih fun other later => known other (List.mem_cons_of_mem _ later))

/-- In a source that strict mode assembles no line is refused, no label is defined twice and every
instruction is known. -/
theorem of_strict_ok {lines : List (List Char)} {program : Program}
    (assembled : ofLines lines start .strict = .ok program) :
    failures (parseLines lines) = [] ∧
      ((successes (parseLines lines)).filterMap Statement.labelName?).Nodup ∧
      ∀ statement ∈ successes (parseLines lines), statement.unknown? = none := by
  obtain ⟨quiet, _⟩ := passes_of_ok assembled
  obtain ⟨refused, first, _⟩ := Passes.diagnostics_eq_nil quiet
  have reported := Layout.diagnostics_ofStatements_strict start (successes (parseLines lines))
  have none : (Layout.ofStatements start .strict (successes (parseLines lines))).diagnostics =
      #[] := first
  rw [none, List.nil_perm, List.append_eq_nil_iff] at reported
  exact ⟨refused rfl, Layout.names_nodup_of_quiet first, List.filterMap_eq_nil_iff.1 reported.2⟩

/-- Strict mode warns of nothing. -/
theorem warnings_of_strict_ok {lines : List (List Char)} {program : Program}
    (assembled : ofLines lines start .strict = .ok program) : program.warnings = [] := by
  obtain ⟨_, rfl⟩ := passes_of_ok assembled
  simp [Passes.program, Passes.ofLines, Layout.warnings_ofStatements_strict]

/-- A source that strict mode assembles is assembled to the same program in lenient mode. -/
theorem ofLines_lenient_of_strict {lines : List (List Char)} {program : Program}
    (assembled : ofLines lines start .strict = .ok program) :
    ofLines lines start .lenient = .ok program := by
  obtain ⟨refused, nodup, known⟩ := of_strict_ok assembled
  have parsed := eq_map_ok_of_failures_nil refused
  have cleans := cleans_map_ok known
  rw [← parsed] at cleans
  obtain ⟨quiet_iff, same⟩ := passes_of_cleans start parsed cleans nodup
  have none : rejections lines = [] := by
    rw [rejections, refused, List.nil_append]
    exact List.filterMap_eq_nil_iff.2 known
  have silent := warnings_of_strict_ok assembled
  obtain ⟨quiet, made⟩ := passes_of_ok assembled
  rw [made, none] at same
  refine ofLines_eq_ok_iff.2 ⟨quiet_iff.2 quiet, same.trans ?_⟩
  rw [List.map_nil, ← silent]

/-! ### Lenient mode and strict mode -/

/-- What it is for the program that lenient mode makes of a source to be the one that strict mode
makes of the cleaned source. -/
structure AgreesCleaned (lines : List (List Char)) (lenient strict : Program) : Prop where
  bytes_eq : lenient.bytes = strict.bytes
  labels_eq : lenient.labels = strict.labels
  listing_eq : lenient.listing = strict.listing
  /-- The lines that are warned of are those that are rejected. -/
  warned_iff : ∀ number,
    number ∈ lenient.warnings.map Warning.line ↔ ∃ complaint, Rejected lines number complaint
  warned_once : (lenient.warnings.map Warning.line).Nodup
  /-- Each warning says why the line is rejected. -/
  reason : ∀ warning ∈ lenient.warnings, ∃ complaint,
    Rejected lines warning.line complaint ∧ warning.remedy = .skipped complaint.problem

/-- The warnings of the rejected lines name each of them once. -/
theorem agreesCleaned_of_eq {lines : List (List Char)} {lenient strict : Program}
    (same : lenient = { strict with warnings := (rejections lines).map skip }) :
    AgreesCleaned lines lenient strict := by
  subst same
  have numbers : ((rejections lines).map skip).map Warning.line =
      (rejections lines).map Diagnostic.line := by
    rw [List.map_map]
    rfl
  refine ⟨rfl, rfl, rfl, ?_, ?_, ?_⟩
  · intro number
    rw [numbers, List.mem_map]
    constructor
    · intro listed
      obtain ⟨complaint, member, rfl⟩ := listed
      exact ⟨complaint, (mem_rejections_iff lines complaint).1 member⟩
    · intro met
      obtain ⟨complaint, rejected⟩ := met
      obtain ⟨index, answer, rfl, place, reported⟩ := rejected
      have line := line_of_rejection? place reported
      exact ⟨complaint, (mem_rejections_iff lines complaint).2
        ⟨index, answer, line, place, reported⟩, line⟩
  · rw [numbers]
    exact nodup_line_rejections lines
  · intro warning warned
    obtain ⟨complaint, member, rfl⟩ := List.mem_map.1 warned
    exact ⟨complaint, (mem_rejections_iff lines complaint).1 member, rfl⟩

end Assembly

open Assembly in
/-- If no label is defined by two lines, lenient mode assembles a source exactly if strict mode
assembles the cleaned source, to the same bytes, labels and listing, and warns once of each line
that is rejected. A source that strict mode assembles is assembled to the same program, without a
warning. -/
theorem lenient_agrees (source : String) (start : Word) :
    ((∀ name first second, Defines (Text.lines source.toList) first name →
        Defines (Text.lines source.toList) second name → first = second) →
      ((∃ program, assemble source start .lenient = .ok program) ↔
        ∃ program, assemble (cleaned source) start .strict = .ok program) ∧
      ∀ lenient strict, assemble source start .lenient = .ok lenient →
        assemble (cleaned source) start .strict = .ok strict →
        AgreesCleaned (Text.lines source.toList) lenient strict) ∧
    ∀ program, assemble source start .strict = .ok program →
      assemble source start .lenient = .ok program ∧ program.warnings = [] := by
  constructor
  · intro distinct
    have nodup := (nodup_labels_iff (Text.lines source.toList)).2 distinct
    obtain ⟨lefts, parsed, cleans⟩ := exists_cleans (Text.lines source.toList)
    obtain ⟨quiet_iff, same⟩ := passes_of_cleans start parsed cleans nodup
    simp only [assemble_cleaned_iff]
    simp only [assemble, ofLines_eq_ok_iff]
    constructor
    · constructor
      · intro assembled
        obtain ⟨_, quiet, _⟩ := assembled
        exact ⟨_, quiet_iff.1 quiet, rfl⟩
      · intro assembled
        obtain ⟨_, quiet, _⟩ := assembled
        exact ⟨_, quiet_iff.2 quiet, rfl⟩
    · intro lenient strict one other
      obtain ⟨_, rfl⟩ := one
      obtain ⟨_, rfl⟩ := other
      exact agreesCleaned_of_eq same
  · intro program assembled
    exact ⟨ofLines_lenient_of_strict assembled, warnings_of_strict_ok assembled⟩

/-- A line with a bad label, and a line with a label whose instruction is not known. -/
def wrongLines : String := "X: MVI A,#5\r\n1X: NOP\n Y : FOO 1 ; two\n JMP Y\n3"

/-- Of the wrong lines a label is left, and there is a warning for each of them. -/
theorem lenient_agrees_wrongLines :
    ∃ lenient strict,
      assemble wrongLines 0x8000 .lenient = .ok lenient ∧
      Assembly.cleaned wrongLines = "X: MVI A,#5\r\n\n Y :\n JMP Y\n" ∧
      assemble (Assembly.cleaned wrongLines) 0x8000 .strict = .ok strict ∧
      Assembly.AgreesCleaned (Text.lines wrongLines.toList) lenient strict ∧
      strict.bytes = [0x3E, 0x05, 0xC3, 0x02, 0x80] ∧
      lenient.warnings.map Warning.line = [2, 3, 5] := by
  have distinct : ∀ name first second,
      Assembly.Defines (Text.lines wrongLines.toList) first name →
      Assembly.Defines (Text.lines wrongLines.toList) second name → first = second := by
    rw [← Assembly.nodup_labels_iff]
    decide +kernel
  have outcome : ((assemble wrongLines 0x8000 .lenient).toOption.map fun program =>
      (program.bytes, program.warnings.map Warning.line)) =
      some ([0x3E, 0x05, 0xC3, 0x02, 0x80], [2, 3, 5]) := by
    decide +kernel
  obtain ⟨accepted_iff, agree⟩ := (lenient_agrees wrongLines 0x8000).1 distinct
  rcases assembled : assemble wrongLines 0x8000 .lenient with diagnostics | lenient
  · simp [assembled, Except.toOption] at outcome
  · obtain ⟨bytes, warned⟩ : _ ∧ _ := by simpa [assembled, Except.toOption] using outcome
    obtain ⟨strict, also⟩ := accepted_iff.1 ⟨lenient, assembled⟩
    have agrees := agree lenient strict assembled also
    refine ⟨lenient, strict, rfl, by decide +kernel, also, agrees, ?_, warned⟩
    rw [← agrees.bytes_eq, bytes]

end I8085
