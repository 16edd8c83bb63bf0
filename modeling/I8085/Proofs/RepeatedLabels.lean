/-
Module: I8085.Proofs.RepeatedLabels
Layer: Proofs
Purpose: What is said about labels that are defined again. Both modes say it once of every
  definition after the first one of a label, and name a line of an earlier definition: the line that
  the label table has for the label. The table of strict mode keeps the first definition, so strict
  mode names the first line. Lenient mode puts each definition in the place of the one before, so it
  names the line of the latest definition, although it calls this line the first; the two are the
  same exactly if no label is defined more than twice (`repeated_labels`).
Imports: I8085.Proofs.DiagnosticPlaces, I8085.Proofs.ProgramListing
Main exports: Repetition, Diagnostic.repetition?, Warning.repetition?, Assembly.repetitions,
  Assembly.repetitions_latest_eq_first_iff, Layout.find?_definedAt_lenient,
  Layout.repetitions_of_warnings, Assembly.repetitions_of_complaints,
  Assembly.repetitions_of_program, repeated_labels
-/
import I8085.Proofs.DiagnosticPlaces
import I8085.Proofs.ProgramListing

namespace I8085

/-! ### Definitions after the first -/

/-- What is said of a label that is defined again. -/
structure Repetition where
  /-- The line that defines the label again. -/
  line : Nat
  name : String
  /-- The line on which the label is said to be defined first. -/
  firstLine : Nat
deriving Repr, DecidableEq

/-- What a diagnostic says of a label that is defined again, if it is about one. -/
def Diagnostic.repetition? (diagnostic : Diagnostic) : Option Repetition :=
  match diagnostic.problem with
  | .duplicateLabel name firstLine => some { line := diagnostic.line, name, firstLine }
  | _ => none

/-- What a warning says of a label that is defined again, if it is about one. -/
def Warning.repetition? (warning : Warning) : Option Repetition :=
  match warning.remedy with
  | .redefined name firstLine => some { line := warning.line, name, firstLine }
  | .skipped _ => none

namespace Assembly

/-- What is to be said of a statement whose label is defined by earlier ones, if `told` is the one
of their lines that is named. -/
def repetition? (told : List Nat → Option Nat) (earlier : List Statement) (statement : Statement) :
    Option Repetition :=
  statement.labelName?.bind fun name =>
    (told (definingLines earlier name)).map fun firstLine =>
      { line := statement.line, name, firstLine }

/-- What is to be said of statements that come after others. -/
def repetitionsAfter (told : List Nat → Option Nat) (earlier : List Statement) :
    List Statement → List Repetition
  | [] => []
  | statement :: rest =>
      (repetition? told earlier statement).toList ++
        repetitionsAfter told (earlier ++ [statement]) rest

/-- What is to be said of every definition after the first one of its label, in the order of the
statements. -/
def repetitions (told : List Nat → Option Nat) (statements : List Statement) : List Repetition :=
  repetitionsAfter told [] statements

variable {told : List Nat → Option Nat} {statements before : List Statement} {last : Statement}
  {name : String}

theorem repetitionsAfter_concat (told : List Nat → Option Nat) (earlier before : List Statement)
    (last : Statement) :
    repetitionsAfter told earlier (before ++ [last]) =
      repetitionsAfter told earlier before ++
        (repetition? told (earlier ++ before) last).toList := by
  induction before generalizing earlier with
  | nil => simp [repetitionsAfter]
  | cons statement rest ih =>
    rw [List.cons_append, repetitionsAfter, ih, repetitionsAfter, List.append_assoc,
      List.append_assoc]
    rfl

theorem repetitions_concat (told : List Nat → Option Nat) (before : List Statement)
    (last : Statement) :
    repetitions told (before ++ [last]) =
      repetitions told before ++ (repetition? told before last).toList :=
  repetitionsAfter_concat told [] before last

/-- Lines that ascend in the source ascend among those that define a label. -/
theorem pairwise_definingLines
    (ascending : statements.Pairwise fun first second => first.line < second.line)
    (name : String) : (definingLines statements name).Pairwise (· < ·) :=
  List.pairwise_map.2 (ascending.filter _)

theorem line_of_repetition? {repetition : Repetition}
    (said : repetition? told before last = some repetition) : repetition.line = last.line := by
  obtain ⟨name, _, told⟩ := Option.bind_eq_some_iff.1 said
  obtain ⟨firstLine, _, rfl⟩ := Option.map_eq_some_iff.1 told
  rfl

theorem line_of_mem_repetitions {repetition : Repetition}
    (listed : repetition ∈ repetitions told statements) :
    ∃ statement ∈ statements, repetition.line = statement.line := by
  induction statements using List.reverseRecOn with
  | nil => cases listed
  | append_singleton before last ih =>
    rw [repetitions_concat, List.mem_append] at listed
    rcases listed with earlier | here
    · obtain ⟨statement, member, line⟩ := ih earlier
      exact ⟨statement, List.mem_append_left _ member, line⟩
    · exact ⟨last, List.mem_append_right _ List.mem_cons_self,
        line_of_repetition? (Option.mem_toList.1 here)⟩

/-- There is one repetition to a line, and they are listed in the order of the lines. -/
theorem pairwise_repetitions (told : List Nat → Option Nat)
    (ascending : statements.Pairwise fun first second => first.line < second.line) :
    (repetitions told statements).Pairwise fun first second => first.line < second.line := by
  induction statements using List.reverseRecOn with
  | nil => exact .nil
  | append_singleton before last ih =>
    obtain ⟨earlier, _, apart⟩ := List.pairwise_append.1 ascending
    rw [repetitions_concat, List.pairwise_append]
    refine ⟨ih earlier, ?_, ?_⟩
    · rcases repetition? told before last <;> simp
    · intro first listed second here
      obtain ⟨statement, member, line⟩ := line_of_mem_repetitions listed
      rw [line, line_of_repetition? (Option.mem_toList.1 here)]
      exact apart statement member last List.mem_cons_self

/-- What is said of the same lines is the same list if it is the same up to its order. -/
theorem eq_of_perm_repetitions {other : List Nat → Option Nat}
    (ascending : statements.Pairwise fun first second => first.line < second.line)
    (same : (repetitions told statements).Perm (repetitions other statements)) :
    repetitions told statements = repetitions other statements := by
  apply same.eq_of_pairwise _ (pairwise_repetitions told ascending)
    (pairwise_repetitions other ascending)
  intro first second _ _ less more
  exact absurd (Nat.lt_trans less more) (Nat.lt_irrefl _)

/-! ### The first line and the latest -/

/-- Only a single line is both the first and the last of lines that ascend. -/
theorem getLast?_eq_head?_iff {lines : List Nat} (ascending : lines.Pairwise (· < ·)) :
    lines.getLast? = lines.head? ↔ lines.length ≤ 1 := by
  match lines with
  | [] => simp
  | [line] => simp
  | first :: second :: rest =>
    have behind := List.rel_of_pairwise_cons ascending
      (List.getLast_mem (List.cons_ne_nil second rest))
    rw [List.getLast?_cons_cons, List.getLast?_eq_getLast_of_ne_nil (List.cons_ne_nil second rest),
      List.head?_cons, Option.some.injEq, List.length_cons, List.length_cons]
    constructor
    · intro same
      exact absurd same (Nat.ne_of_gt behind)
    · intro short
      omega

/-- The latest definition of a label is its first one if there is only one before. -/
theorem repetition?_latest_eq_first_iff
    (ascending : before.Pairwise fun first second => first.line < second.line) :
    repetition? List.getLast? before last = repetition? List.head? before last ↔
      ∀ name, last.labelName? = some name → (definingLines before name).length ≤ 1 := by
  unfold repetition?
  rcases last.labelName? with _ | name
  · simp
  · have single := getLast?_eq_head?_iff (pairwise_definingLines ascending name)
    simp only [Option.bind_some, Option.some.injEq, forall_eq', ← single]
    constructor
    · intro same
      have lines := congrArg (Option.map Repetition.firstLine) same
      simpa [Option.map_map, Function.comp_def] using lines
    · intro same
      rw [same]

theorem length_repetition? (before : List Statement) (last : Statement) :
    (repetition? List.getLast? before last).toList.length =
      (repetition? List.head? before last).toList.length := by
  unfold repetition?
  rcases last.labelName? with _ | name
  · rfl
  · rcases lines : definingLines before name with _ | ⟨first, rest⟩ <;>
      simp [lines, List.getLast?_cons]

/-- To name the latest definition is to name the first one exactly if no label is defined more than
twice. -/
theorem repetitions_latest_eq_first_iff
    (ascending : statements.Pairwise fun first second => first.line < second.line) :
    repetitions List.getLast? statements = repetitions List.head? statements ↔
      ∀ name, (definingLines statements name).length ≤ 2 := by
  induction statements using List.reverseRecOn with
  | nil => exact iff_of_true rfl fun _ => Nat.zero_le 2
  | append_singleton before last ih =>
    obtain ⟨earlier, _, _⟩ := List.pairwise_append.1 ascending
    have split : repetitions List.getLast? (before ++ [last]) =
        repetitions List.head? (before ++ [last]) ↔
          repetitions List.getLast? before = repetitions List.head? before ∧
            repetition? List.getLast? before last = repetition? List.head? before last := by
      rw [repetitions_concat, repetitions_concat]
      constructor
      · intro same
        obtain ⟨front, back⟩ := List.append_inj' same (length_repetition? before last)
        exact ⟨front, by simpa using congrArg List.head? back⟩
      · rintro ⟨front, back⟩
        rw [front, back]
    rw [split, ih earlier, repetition?_latest_eq_first_iff earlier]
    constructor
    · rintro ⟨short, single⟩ name
      rw [definingLines_concat, List.length_append]
      split
      next defines =>
        have one := single name defines
        simp only [List.length_cons, List.length_nil]
        omega
      next => exact short name
    · intro short
      have added (name : String) := short name
      simp only [definingLines_concat, List.length_append] at added
      constructor
      · intro name
        exact Nat.le_trans (Nat.le_add_right _ _) (added name)
      · intro name defines
        have two := added name
        rw [if_pos defines, List.length_singleton] at two
        omega

end Assembly

/-! ### What the label table tells -/

theorem filterMap_toList {α β : Type} (value : Option α) (f : α → Option β) :
    value.toList.filterMap f = (value.bind f).toList := by
  rcases value with _ | inner
  · rfl
  · rcases answer : f inner <;> simp [answer]

namespace Layout

open Assembly (definingLines repetition? repetitions)

variable {start : Word} {mode : Mode} {layout : Layout}

/-- The table of lenient mode has the last line that defines a label. -/
theorem find?_definedAt_lenient (start : Word) (statements : List Statement) (name : String) :
    ((ofStatements start .lenient statements).labels.find? name).map Symbol.definedAt =
      (definingLines statements name).getLast? := by
  rw [find?_ofStatements (diagnostics_ofStatements_lenient start statements),
    ← List.head?_filter, List.filter_reverse, List.head?_reverse, ← List.getLast?_map,
    map_definedAt_definitions]

/-- Strict mode names the first definition. -/
theorem repetition?_duplicate? (earlier : List Statement) (statement : Statement) :
    (statement.duplicate? earlier).bind Diagnostic.repetition? =
      repetition? List.head? earlier statement := by
  rcases present : statement.label with _ | label
  · simp [Statement.duplicate?, repetition?, Statement.labelName?, present]
  · have named : statement.labelName? = some label.text := by
      rw [Statement.labelName?, present, Option.map_some]
    rcases found : earlier.find? (·.labelName? == some label.text) with _ | first <;>
      simp [Statement.duplicate?, repetition?, Assembly.head?_definingLines,
        Diagnostic.repetition?, present, named, found]

/-- The warning of lenient mode about the label of a statement. -/
def labelWarning? (layout : Layout) (statement : Statement) : Option Warning :=
  statement.label.bind fun label =>
    (layout.labels.find? label.text).map fun existing =>
      { line := statement.line, remedy := .redefined label.text existing.definedAt }

theorem warnings_labelled_lenient (start : Word) (layout : Layout) (statement : Statement) :
    (labelled start .lenient layout statement).warnings.toList =
      layout.warnings.toList ++ (layout.labelWarning? statement).toList := by
  unfold labelled labelWarning?
  rcases statement.label with _ | label
  · simp
  · rcases bound : layout.labels.find? label.text with _ | existing
    · simp [bindLabel_of_fresh bound, bound]
    · simp [bindLabel_lenient_of_bound bound, bound]

theorem warnings_addStatement_lenient (start : Word) (layout : Layout) (statement : Statement) :
    (addStatement start .lenient layout statement).warnings.toList =
      layout.warnings.toList ++ (layout.labelWarning? statement).toList ++
        (statement.unknown?.map Assembly.skip).toList := by
  rw [addStatement_eq, ← warnings_labelled_lenient start]
  rcases present : statement.mnemonic with _ | mnemonic
  · simp [Statement.unknown?, present]
  · rcases chosen : Selection.ofOperands mnemonic.text statement.operandTexts with
      problem | selection <;>
      simp [Statement.unknown?, placeInstruction, present, chosen, Assembly.skip]

/-- Lenient mode names the latest definition. -/
theorem repetition?_labelWarning? (start : Word) (before : List Statement)
    (statement : Statement) :
    ((ofStatements start .lenient before).labelWarning? statement).bind Warning.repetition? =
      repetition? List.getLast? before statement := by
  unfold labelWarning? repetition? Statement.labelName?
  rcases statement.label with _ | label
  · rfl
  · simp only [Option.bind_some, Option.map_some, ← find?_definedAt_lenient start]
    rcases (ofStatements start .lenient before).labels.find? label.text with _ | existing <;> rfl

/-- What the warnings of the first pass say of labels that are defined again. -/
theorem repetitions_of_warnings (start : Word) (statements : List Statement) :
    (ofStatements start .lenient statements).warnings.toList.filterMap Warning.repetition? =
      repetitions List.getLast? statements := by
  induction statements using List.reverseRecOn with
  | nil => rfl
  | append_singleton before last ih =>
    rw [ofStatements_concat, warnings_addStatement_lenient, Assembly.repetitions_concat,
      List.filterMap_append, List.filterMap_append, ih, ← repetition?_labelWarning? start]
    have quiet : (last.unknown?.map Assembly.skip).toList.filterMap Warning.repetition? = [] := by
      rcases last.unknown? <;> rfl
    rw [quiet, List.append_nil, filterMap_toList]

end Layout

/-! ### What the complaints tell -/

namespace Diagnostic

variable {labels : LabelTable} {statement : Statement} {diagnostic : Diagnostic}

/-- A line is not refused for defining a label again. -/
theorem repetition?_of_parse {number : Nat} {line : List Char}
    (refused : Statement.parse number line = .error diagnostic) : diagnostic.repetition? = none := by
  have reason := Statement.refused_of_parse refused
  unfold repetition?
  generalize diagnostic.problem = problem, diagnostic.span = span at reason ⊢
  cases reason <;> rfl

theorem repetition?_of_unknown? (complaint : statement.unknown? = some diagnostic) :
    diagnostic.repetition? = none := by
  obtain ⟨mnemonic, _, unknown⟩ := Option.bind_eq_some_iff.1 complaint
  split at unknown
  next => cases unknown
  next problem refused =>
    obtain rfl := Option.some.inj unknown
    have kind := Selection.isOfWord_of_ofOperands_error refused
    cases problem <;> first | rfl | cases kind

theorem repetition?_of_unencodable? (complaint : statement.unencodable? labels = some diagnostic) :
    diagnostic.repetition? = none := by
  obtain ⟨selection, _, failed⟩ := Option.bind_eq_some_iff.1 complaint
  split at failed
  next => cases failed
  next problem refused =>
    obtain rfl := Option.some.inj failed
    obtain ⟨_, _, _, _, wrong⟩ := Selection.exists_data_of_encode_error refused
    have kind := Selection.isOfData_of_operandBytes_error wrong
    cases problem <;> first | rfl | cases kind

end Diagnostic

namespace Assembly

variable {lines : List (List Char)} {start : Word}

/-- What the complaints about labels tell. -/
theorem repetitions_of_duplicates (statements : List Statement) :
    (duplicates statements).filterMap Diagnostic.repetition? =
      repetitions List.head? statements := by
  induction statements using List.reverseRecOn with
  | nil => rfl
  | append_singleton before last ih =>
    rw [duplicates_concat, repetitions_concat, List.filterMap_append, ih,
      ← Layout.repetition?_duplicate?, filterMap_toList]

/-- The other complaints tell nothing of labels that are defined again. -/
theorem repetitions_of_complaints (lines : List (List Char)) (start : Word) :
    (complaints lines start).filterMap Diagnostic.repetition? =
      repetitions List.head? (successes (parseLines lines)) := by
  have refused : (failures (parseLines lines)).filterMap Diagnostic.repetition? = [] := by
    rw [List.filterMap_eq_nil_iff]
    intro diagnostic listed
    obtain ⟨_, _, _, parsed⟩ := exists_line_of_mem (mem_failures.1 listed)
    exact Diagnostic.repetition?_of_parse parsed
  have unknown : ((successes (parseLines lines)).filterMap Statement.unknown?).filterMap
      Diagnostic.repetition? = [] := by
    rw [List.filterMap_eq_nil_iff]
    intro diagnostic listed
    obtain ⟨_, _, complaint⟩ := List.mem_filterMap.1 listed
    exact Diagnostic.repetition?_of_unknown? complaint
  have long : (tooLong? start (successes (parseLines lines))).toList.filterMap
      Diagnostic.repetition? = [] := by
    unfold tooLong?
    simp only
    split <;> rfl
  have unencodable : ((successes (parseLines lines)).filterMap (Statement.unencodable?
      (allLabels start (successes (parseLines lines))))).filterMap Diagnostic.repetition? = [] := by
    rw [List.filterMap_eq_nil_iff]
    intro diagnostic listed
    obtain ⟨_, _, complaint⟩ := List.mem_filterMap.1 listed
    exact Diagnostic.repetition?_of_unencodable? complaint
  simp only [complaints, List.filterMap_append, refused, unknown, long, unencodable,
    repetitions_of_duplicates, List.nil_append, List.append_nil]

/-- What the warnings of a program tell. -/
theorem repetitions_of_program {program : Program}
    (assembled : ofLines lines start .lenient = .ok program) :
    program.warnings.filterMap Warning.repetition? =
      repetitions List.getLast? (successes (parseLines lines)) := by
  obtain ⟨_, rfl⟩ := passes_of_ok assembled
  have skipped : ((failures (parseLines lines)).map skip).filterMap Warning.repetition? = [] := by
    rw [List.filterMap_eq_nil_iff]
    intro warning listed
    obtain ⟨refusal, _, rfl⟩ := List.mem_map.1 listed
    rfl
  rw [← Layout.repetitions_of_warnings start]
  simp only [Passes.program, Passes.ofLines, if_neg, reduceCtorEq, List.filterMap_append, skipped,
    not_false_eq_true, List.nil_append]

end Assembly

open Assembly in
/-- Strict mode reports each definition of a label after the first one, and names the line of the
first one. Lenient mode warns of each of them too, but names the line of the latest one before: this
is the line of the first one for all of them exactly if no label is defined on more than two
lines. -/
theorem repeated_labels (source : String) (start : Word) :
    let statements := successes (parseLines (Text.lines source.toList))
    (match assemble source start .strict with
      | .ok _ => repetitions List.head? statements = []
      | .error diagnostics =>
          (diagnostics.filterMap Diagnostic.repetition?).Perm (repetitions List.head? statements)) ∧
      match assemble source start .lenient with
      | .ok program =>
          program.warnings.filterMap Warning.repetition? = repetitions List.getLast? statements ∧
            ((program.warnings.filterMap Warning.repetition?).Perm
                (repetitions List.head? statements) ↔
              ∀ name, (definingLines statements name).length ≤ 2)
      | .error _ => True := by
  intro statements
  have told := repetitions_of_complaints (Text.lines source.toList) start
  have same := diagnostics_perm (Text.lines source.toList) start
  constructor
  · rcases assembled : assemble source start .strict with diagnostics | program
    · have reported := ((perm_of_error assembled).trans same).filterMap Diagnostic.repetition?
      rwa [told] at reported
    · obtain ⟨quiet, _⟩ := passes_of_ok assembled
      rw [quiet] at same
      rwa [same.symm.eq_nil, eq_comm] at told
  · rcases assembled : assemble source start .lenient with diagnostics | program
    · trivial
    · have warned := repetitions_of_program assembled
      have ascending := pairwise_line (Text.lines source.toList)
      refine ⟨warned, ?_⟩
      rw [warned, ← repetitions_latest_eq_first_iff ascending]
      exact ⟨eq_of_perm_repetitions ascending, List.Perm.of_eq⟩

/-- A label that is defined on three lines. -/
def thrice : String := "L: NOP\nL: NOP\nL: NOP"

open Assembly in
/-- The warning about the third definition of a label calls the second one the first. -/
theorem third_definition_misreported :
    ∃ program, assemble thrice 0x8000 .lenient = .ok program ∧
      program.warnings.map (fun warning => (warning.line, warning.message)) =
        [(2, "label 'L' redefined (first defined on line 1)"),
          (3, "label 'L' redefined (first defined on line 2)")] ∧
      definingLines (successes (parseLines (Text.lines thrice.toList))) "L" = [1, 2, 3] ∧
      ¬ (program.warnings.filterMap Warning.repetition?).Perm
        (repetitions List.head? (successes (parseLines (Text.lines thrice.toList)))) := by
  have outcome : (assemble thrice 0x8000 .lenient).toOption.map Program.warnings =
      some [{ line := 2, remedy := .redefined "L" 1 }, { line := 3, remedy := .redefined "L" 2 }] := by
    decide +kernel
  have lines : definingLines (successes (parseLines (Text.lines thrice.toList))) "L" =
      [1, 2, 3] := by
    decide +kernel
  have first : repetitions List.head? (successes (parseLines (Text.lines thrice.toList))) =
      [{ line := 2, name := "L", firstLine := 1 }, { line := 3, name := "L", firstLine := 1 }] := by
    decide +kernel
  rcases assembled : assemble thrice 0x8000 .lenient with diagnostics | program
  · simp [assembled, Except.toOption] at outcome
  · have warned : program.warnings =
        [{ line := 2, remedy := .redefined "L" 1 }, { line := 3, remedy := .redefined "L" 2 }] := by
      simpa [assembled, Except.toOption] using outcome
    refine ⟨program, rfl, ?_, lines, ?_⟩
    · rw [warned]
      decide +kernel
    · rw [warned, first]
      decide +kernel

end I8085
