/-
Module: I8085.Proofs.WarningOrder
Layer: Proofs
Purpose: The order in which lenient mode lists its warnings. Line by line, a source calls for a
  warning of each line that cannot be taken apart, of each definition of a label after the first
  one, and of each instruction that is not known (`Assembly.sourceWarnings`). The program has these
  warnings in two groups, since the lines are all taken apart before the first pass looks at any of
  them. Each group is in the order of the lines. The whole list is exactly if no line that the first
  pass warns of stands before a line that cannot be taken apart; what strict mode reports is sorted
  by line whatever the lines are (`warnings_order`).
Imports: I8085.Proofs.RepeatedLabels
Main exports: Warning.InOrder, Assembly.lineWarnings, Assembly.sourceWarnings,
  Assembly.refusalWarnings, Assembly.passWarnings, Assembly.inOrder_warningsAfter,
  Layout.warnings_ofStatements_lenient, Assembly.warnings_of_program, Assembly.IsRefused,
  Assembly.IsFaulty, Assembly.ListsWarnings, warnings_order
-/
import I8085.Proofs.RepeatedLabels

namespace I8085

/-- Whether warnings are listed in the order of their lines. -/
def Warning.InOrder (warnings : List Warning) : Prop :=
  warnings.Pairwise fun first second => first.line ≤ second.line

/-- The warning about a label that is defined again. -/
def Repetition.warning (repetition : Repetition) : Warning where
  line := repetition.line
  remedy := .redefined repetition.name repetition.firstLine

namespace Assembly

/-! ### The warnings of the lines -/

/-- The warnings about a line, if the statements come before it. There are two if it defines a label
again and its instruction is not known. -/
def lineWarnings (earlier : List Statement) : Except Diagnostic Statement → List Warning
  | .error refusal => [skip refusal]
  | .ok statement =>
      ((repetition? List.getLast? earlier statement).map Repetition.warning).toList ++
        (statement.unknown?.map skip).toList

/-- The warnings about lines, line by line, if the statements come before them. -/
def warningsAfter (earlier : List Statement) : List (Except Diagnostic Statement) → List Warning
  | [] => []
  | answer :: rest =>
      lineWarnings earlier answer ++ warningsAfter (earlier ++ successes [answer]) rest

/-- The warnings about the lines of a source, line by line. -/
def sourceWarnings (lines : List (List Char)) : List Warning :=
  warningsAfter [] (parseLines lines)

/-- The warnings about the lines that cannot be taken apart. -/
def refusalWarnings (lines : List (List Char)) : List Warning :=
  (failures (parseLines lines)).map skip

/-- The warnings about the other lines, which the first pass gives. -/
def passWarnings (lines : List (List Char)) : List Warning :=
  warningsAfter [] ((successes (parseLines lines)).map .ok)

variable {lines : List (List Char)} {start : Word} {earlier : List Statement}
  {answers : List (Except Diagnostic Statement)} {warning : Warning}

theorem warningsAfter_concat (earlier : List Statement)
    (answers : List (Except Diagnostic Statement)) (last : Except Diagnostic Statement) :
    warningsAfter earlier (answers ++ [last]) =
      warningsAfter earlier answers ++ lineWarnings (earlier ++ successes answers) last := by
  induction answers generalizing earlier with
  | nil => simp [warningsAfter]
  | cons answer rest ih =>
    have split : successes (answer :: rest) = successes [answer] ++ successes rest :=
      successes_append [answer] rest
    rw [List.cons_append, warningsAfter, ih, warningsAfter, split, List.append_assoc,
      List.append_assoc]

theorem warningsAfter_map_error (earlier : List Statement) (refusals : List Diagnostic) :
    warningsAfter earlier (refusals.map .error) = refusals.map skip := by
  induction refusals with
  | nil => rfl
  | cons refusal rest ih =>
    rw [List.map_cons, warningsAfter, successes_cons_error, successes_nil, List.append_nil, ih]
    rfl

/-- The warnings are the same, though not in the same order, if those about the lines that cannot be
taken apart are put in front. -/
theorem perm_warningsAfter (earlier : List Statement)
    (answers : List (Except Diagnostic Statement)) :
    ((failures answers).map skip ++ warningsAfter earlier ((successes answers).map .ok)).Perm
      (warningsAfter earlier answers) := by
  induction answers generalizing earlier with
  | nil => exact .refl _
  | cons answer rest ih =>
    cases answer with
    | error refusal =>
      rw [warningsAfter, successes_cons_error, successes_cons_error, successes_nil, List.append_nil]
      exact (ih earlier).cons (skip refusal)
    | ok statement =>
      rw [warningsAfter, successes_cons_ok, List.map_cons, warningsAfter]
      refine .trans ?_ ((ih _).append_left (lineWarnings earlier (.ok statement)))
      exact List.perm_append_comm_assoc _ _ _

/-! ### Warnings in the order of the lines -/

/-- The number of the line that an answer is about. -/
def answerLine : Except Diagnostic Statement → Nat
  | .error refusal => refusal.line
  | .ok statement => statement.line

theorem answerLine_of_parsed {index : Nat} {answer : Except Diagnostic Statement}
    (place : (parseLines lines)[index]? = some answer) : answerLine answer = index + 1 := by
  rw [parseLines, List.getElem?_mapIdx] at place
  obtain ⟨text, _, parsed⟩ := Option.map_eq_some_iff.1 place
  cases answer with
  | error refusal => exact line_of_refused parsed
  | ok statement => exact line_of_parse parsed

/-- The lines of a source are numbered in their order. -/
theorem pairwise_answerLine (lines : List (List Char)) :
    (parseLines lines).Pairwise fun first second => answerLine first < answerLine second := by
  rw [List.pairwise_iff_getElem]
  intro i j first second less
  rw [answerLine_of_parsed (List.getElem?_eq_getElem first),
    answerLine_of_parsed (List.getElem?_eq_getElem second)]
  exact Nat.add_lt_add_right less 1

theorem line_of_mem_lineWarnings {answer : Except Diagnostic Statement}
    (listed : warning ∈ lineWarnings earlier answer) : warning.line = answerLine answer := by
  cases answer with
  | error refusal =>
    obtain rfl := List.mem_singleton.1 listed
    rfl
  | ok statement =>
    rw [lineWarnings, List.mem_append, Option.mem_toList, Option.mem_toList] at listed
    rcases listed with again | skipped
    · obtain ⟨repetition, said, rfl⟩ := Option.map_eq_some_iff.1 again
      exact line_of_repetition? said
    · obtain ⟨complaint, unknown, rfl⟩ := Option.map_eq_some_iff.1 skipped
      exact line_of_unknown? unknown

theorem exists_answer_of_mem (listed : warning ∈ warningsAfter earlier answers) :
    ∃ answer ∈ answers, warning.line = answerLine answer := by
  induction answers generalizing earlier with
  | nil => cases listed
  | cons answer rest ih =>
    rcases List.mem_append.1 listed with here | later
    · exact ⟨answer, List.mem_cons_self, line_of_mem_lineWarnings here⟩
    · obtain ⟨other, member, line⟩ := ih later
      exact ⟨other, List.mem_cons_of_mem answer member, line⟩

/-- A warning has the number of a line. -/
theorem exists_index_of_mem (part : answers.Sublist (parseLines lines))
    (listed : warning ∈ warningsAfter earlier answers) : ∃ index, warning.line = index + 1 := by
  obtain ⟨answer, member, line⟩ := exists_answer_of_mem listed
  obtain ⟨index, place⟩ := List.getElem?_of_mem (part.mem member)
  exact ⟨index, line.trans (answerLine_of_parsed place)⟩

/-- If lines are met in their order, the warnings about them are in this order. -/
theorem inOrder_warningsAfter (earlier : List Statement)
    (ascending : answers.Pairwise fun first second => answerLine first < answerLine second) :
    Warning.InOrder (warningsAfter earlier answers) := by
  induction answers generalizing earlier with
  | nil => exact .nil
  | cons answer rest ih =>
    obtain ⟨behind, later⟩ := List.pairwise_cons.1 ascending
    rw [warningsAfter, Warning.InOrder, List.pairwise_append]
    refine ⟨?_, ih _ later, ?_⟩
    · apply List.pairwise_of_forall_mem_list
      intro first listed second alsoListed
      rw [line_of_mem_lineWarnings listed, line_of_mem_lineWarnings alsoListed]
    · intro first here second there
      obtain ⟨other, member, line⟩ := exists_answer_of_mem there
      rw [line_of_mem_lineWarnings here, line]
      exact Nat.le_of_lt (behind other member)

theorem sublist_failures (answers : List (Except Diagnostic Statement)) :
    ((failures answers).map .error).Sublist answers := by
  induction answers with
  | nil => exact .slnil
  | cons answer rest ih =>
    cases answer with
    | error refusal => exact ih.cons_cons (.error refusal)
    | ok statement => exact ih.cons (.ok statement)

theorem sublist_successes (answers : List (Except Diagnostic Statement)) :
    ((successes answers).map .ok).Sublist answers := by
  induction answers with
  | nil => exact .slnil
  | cons answer rest ih =>
    cases answer with
    | error refusal => exact ih.cons (.error refusal)
    | ok statement => exact ih.cons_cons (.ok statement)

theorem inOrder_refusalWarnings (lines : List (List Char)) :
    Warning.InOrder (refusalWarnings lines) := by
  rw [refusalWarnings, ← warningsAfter_map_error []]
  exact inOrder_warningsAfter [] ((pairwise_answerLine lines).sublist (sublist_failures _))

theorem inOrder_passWarnings (lines : List (List Char)) :
    Warning.InOrder (passWarnings lines) :=
  inOrder_warningsAfter [] ((pairwise_answerLine lines).sublist (sublist_successes _))

theorem exists_index_of_mem_refusalWarnings (listed : warning ∈ refusalWarnings lines) :
    ∃ index, warning.line = index + 1 := by
  rw [refusalWarnings, ← warningsAfter_map_error []] at listed
  exact exists_index_of_mem (sublist_failures _) listed

theorem exists_index_of_mem_passWarnings (listed : warning ∈ passWarnings lines) :
    ∃ index, warning.line = index + 1 :=
  exists_index_of_mem (sublist_successes _) listed

end Assembly

/-! ### The warnings of a program -/

namespace Layout

open Assembly (repetition? lineWarnings warningsAfter)

/-- Lenient mode warns of a label that an earlier statement defines. -/
theorem labelWarning?_ofStatements (start : Word) (before : List Statement)
    (statement : Statement) :
    (ofStatements start .lenient before).labelWarning? statement =
      (repetition? List.getLast? before statement).map Repetition.warning := by
  unfold labelWarning? repetition? Statement.labelName?
  rcases statement.label with _ | label
  · rfl
  · simp only [Option.bind_some, Option.map_some, ← find?_definedAt_lenient start]
    rcases (ofStatements start .lenient before).labels.find? label.text with _ | existing <;> rfl

/-- The first pass warns of the statements one after another. -/
theorem warnings_ofStatements_lenient (start : Word) (statements : List Statement) :
    (ofStatements start .lenient statements).warnings.toList =
      warningsAfter [] (statements.map .ok) := by
  induction statements using List.reverseRecOn with
  | nil => rfl
  | append_singleton before last ih =>
    rw [ofStatements_concat, warnings_addStatement_lenient, labelWarning?_ofStatements, ih,
      List.map_append, List.map_singleton, Assembly.warningsAfter_concat,
      Assembly.successes_map_ok, List.nil_append, List.append_assoc]
    rfl

end Layout

namespace Assembly

variable {lines : List (List Char)} {start : Word} {program : Program}

/-- The warnings of a program are those of the lines that cannot be taken apart and then those of
the first pass. -/
theorem warnings_of_program (assembled : ofLines lines start .lenient = .ok program) :
    program.warnings = refusalWarnings lines ++ passWarnings lines := by
  obtain ⟨_, rfl⟩ := passes_of_ok assembled
  rw [passWarnings, ← Layout.warnings_ofStatements_lenient start]
  rfl

/-! ### Lines that are warned of -/

/-- Whether the line with an index cannot be taken apart. -/
def IsRefused (lines : List (List Char)) (index : Nat) : Prop :=
  ∃ refusal, (parseLines lines)[index]? = some (.error refusal)

/-- Whether the line with an index can be taken apart but has an instruction that is not known, or a
label that an earlier line defines. -/
def IsFaulty (lines : List (List Char)) (index : Nat) : Prop :=
  ∃ statement, (parseLines lines)[index]? = some (.ok statement) ∧
    (statement.unknown?.isSome = true ∨
      ∃ name, statement.labelName? = some name ∧ ∃ earlier < index, Defines lines earlier name)

/-- A line cannot be both. -/
theorem IsRefused.ne {refused faulty : Nat} (one : IsRefused lines refused)
    (other : IsFaulty lines faulty) : refused ≠ faulty := by
  rintro rfl
  obtain ⟨refusal, place⟩ := one
  obtain ⟨statement, samePlace, _⟩ := other
  rw [place] at samePlace
  cases samePlace

/-- The lines that the first group of warnings is about. -/
theorem exists_refusalWarning_iff (lines : List (List Char)) (index : Nat) :
    (∃ warning ∈ refusalWarnings lines, warning.line = index + 1) ↔ IsRefused lines index := by
  constructor
  · rintro ⟨_, listed, line⟩
    obtain ⟨refusal, refused, rfl⟩ := List.mem_map.1 listed
    obtain ⟨place, found⟩ := List.getElem?_of_mem (mem_failures.1 refused)
    have number : refusal.line = place + 1 := answerLine_of_parsed found
    obtain rfl : place = index := Nat.succ.inj (number.symm.trans line)
    exact ⟨refusal, found⟩
  · rintro ⟨refusal, place⟩
    refine ⟨skip refusal, List.mem_map_of_mem ?_, answerLine_of_parsed place⟩
    exact mem_failures.2 (List.mem_of_getElem? place)

/-- The first pass warns of a statement if its instruction is not known or an earlier statement
defines its label. -/
theorem lineWarnings_ok_ne_nil_iff (earlier : List Statement) (statement : Statement) :
    lineWarnings earlier (.ok statement) ≠ [] ↔
      statement.unknown?.isSome = true ∨
        ∃ name, statement.labelName? = some name ∧
          ∃ other ∈ earlier, other.labelName? = some name := by
  have again : (repetition? List.getLast? earlier statement).isSome = true ↔
      ∃ name, statement.labelName? = some name ∧
        ∃ other ∈ earlier, other.labelName? = some name := by
    unfold repetition?
    rcases statement.labelName? with _ | name
    · simp
    · simp [definingLines]
  rw [← again, lineWarnings, Ne, List.append_eq_nil_iff]
  rcases repetition? List.getLast? earlier statement with _ | repetition <;>
    rcases statement.unknown? with _ | complaint <;> simp

/-- What the first pass warns of are the lines that can be taken apart, each after the statements of
the lines before it. -/
theorem mem_warningsAfter_map_ok_iff {earlier : List Statement}
    {answers : List (Except Diagnostic Statement)} {warning : Warning} :
    warning ∈ warningsAfter earlier ((successes answers).map .ok) ↔
      ∃ before statement after, answers = before ++ .ok statement :: after ∧
        warning ∈ lineWarnings (earlier ++ successes before) (.ok statement) := by
  induction answers generalizing earlier with
  | nil => simp [warningsAfter]
  | cons answer rest ih =>
    cases answer with
    | error refusal =>
      rw [successes_cons_error, ih]
      constructor
      · rintro ⟨before, statement, after, rfl, listed⟩
        exact ⟨.error refusal :: before, statement, after, rfl, listed⟩
      · rintro ⟨before, statement, after, split, listed⟩
        cases before with
        | nil => cases split
        | cons first before =>
          obtain ⟨rfl, rfl⟩ := List.cons.inj split
          exact ⟨before, statement, after, rfl, listed⟩
    | ok here =>
      rw [successes_cons_ok, List.map_cons, warningsAfter, List.mem_append, ih]
      constructor
      · rintro (listed | ⟨before, statement, after, rfl, listed⟩)
        · exact ⟨[], here, rest, rfl, by rwa [successes_nil, List.append_nil]⟩
        · refine ⟨.ok here :: before, statement, after, rfl, ?_⟩
          rwa [List.append_assoc] at listed
      · rintro ⟨before, statement, after, split, listed⟩
        cases before with
        | nil =>
          cases split
          rw [successes_nil, List.append_nil] at listed
          exact .inl listed
        | cons first before =>
          obtain ⟨rfl, rfl⟩ := List.cons.inj split
          refine .inr ⟨before, statement, after, rfl, ?_⟩
          rwa [List.append_assoc]

/-- Among the statements of the first lines is one that defines a label exactly if one of these
lines defines it. -/
theorem exists_defines_iff {before after : List (Except Diagnostic Statement)}
    (split : parseLines lines = before ++ after) (name : String) :
    (∃ earlier < before.length, Defines lines earlier name) ↔
      ∃ other ∈ successes before, other.labelName? = some name := by
  constructor
  · rintro ⟨earlier, less, other, place, named⟩
    rw [split, List.getElem?_append_left less] at place
    exact ⟨other, mem_successes.2 (List.mem_of_getElem? place), named⟩
  · rintro ⟨other, member, named⟩
    obtain ⟨earlier, place⟩ := List.getElem?_of_mem (mem_successes.1 member)
    obtain ⟨less, _⟩ := List.getElem?_eq_some_iff.1 place
    refine ⟨earlier, less, other, ?_, named⟩
    rw [split, List.getElem?_append_left less, place]

/-- A line is faulty exactly if the first pass warns of it after the statements of the lines before
it. -/
theorem isFaulty_iff {before after : List (Except Diagnostic Statement)} {statement : Statement}
    (split : parseLines lines = before ++ .ok statement :: after) :
    IsFaulty lines before.length ↔ lineWarnings (successes before) (.ok statement) ≠ [] := by
  have place : (parseLines lines)[before.length]? = some (.ok statement) := by
    rw [split]
    simp
  simp only [IsFaulty, place, lineWarnings_ok_ne_nil_iff, exists_defines_iff split,
    Option.some.injEq, Except.ok.injEq, exists_eq_left']

/-- The lines that the second group of warnings is about. -/
theorem exists_passWarning_iff (lines : List (List Char)) (index : Nat) :
    (∃ warning ∈ passWarnings lines, warning.line = index + 1) ↔ IsFaulty lines index := by
  constructor
  · rintro ⟨warning, listed, line⟩
    obtain ⟨before, statement, after, split, here⟩ := mem_warningsAfter_map_ok_iff.1 listed
    rw [List.nil_append] at here
    have place : (parseLines lines)[before.length]? = some (.ok statement) := by
      rw [split]
      simp
    have number := (line_of_mem_lineWarnings here).trans (answerLine_of_parsed place)
    obtain rfl : before.length = index := Nat.succ.inj (number.symm.trans line)
    exact (isFaulty_iff split).2 (List.ne_nil_of_mem here)
  · intro faulty
    obtain ⟨statement, place, _⟩ := id faulty
    obtain ⟨less, found⟩ := List.getElem?_eq_some_iff.1 place
    have split : parseLines lines = (parseLines lines).take index ++
        .ok statement :: (parseLines lines).drop (index + 1) := by
      rw [← found, List.getElem_cons_drop, List.take_append_drop]
    have length : ((parseLines lines).take index).length = index :=
      List.length_take_of_le (Nat.le_of_lt less)
    rw [← length, isFaulty_iff split] at faulty
    obtain ⟨warning, here⟩ := List.exists_mem_of_ne_nil _ faulty
    refine ⟨warning, mem_warningsAfter_map_ok_iff.2 ⟨_, statement, _, split, here⟩, ?_⟩
    exact (line_of_mem_lineWarnings here).trans (answerLine_of_parsed place)

/-- The warnings of a program are in the order of the lines exactly if no faulty line stands before
one that cannot be taken apart. -/
theorem inOrder_append_iff (lines : List (List Char)) :
    Warning.InOrder (refusalWarnings lines ++ passWarnings lines) ↔
      ∀ refused faulty, IsRefused lines refused → IsFaulty lines faulty → refused < faulty := by
  rw [Warning.InOrder, List.pairwise_append]
  constructor
  · rintro ⟨_, _, across⟩ refused faulty one other
    obtain ⟨first, here, line⟩ := (exists_refusalWarning_iff lines refused).2 one
    obtain ⟨second, there, otherLine⟩ := (exists_passWarning_iff lines faulty).2 other
    have less := across first here second there
    have apart := one.ne other
    omega
  · intro before
    refine ⟨inOrder_refusalWarnings lines, inOrder_passWarnings lines, ?_⟩
    intro first here second there
    obtain ⟨refused, line⟩ := exists_index_of_mem_refusalWarnings here
    obtain ⟨faulty, otherLine⟩ := exists_index_of_mem_passWarnings there
    have less := before refused faulty ((exists_refusalWarning_iff lines refused).1 ⟨first, here, line⟩)
      ((exists_passWarning_iff lines faulty).1 ⟨second, there, otherLine⟩)
    omega

/-! ### The list of a program -/

/-- What it is for warnings to be listed as lenient mode lists those of the lines of a source. -/
structure ListsWarnings (lines : List (List Char)) (warnings : List Warning) : Prop where
  /-- Those of the lines that cannot be taken apart come first. -/
  groups : warnings = refusalWarnings lines ++ passWarnings lines
  refusals_inOrder : Warning.InOrder (refusalWarnings lines)
  pass_inOrder : Warning.InOrder (passWarnings lines)
  /-- The warnings of the lines, one after another, are the same ones, and are in order. -/
  perm : warnings.Perm (sourceWarnings lines)
  source_inOrder : Warning.InOrder (sourceWarnings lines)
  /-- The list is in order exactly if no faulty line stands before one that cannot be taken
  apart. -/
  inOrder_iff : Warning.InOrder warnings ↔
    ∀ refused faulty, IsRefused lines refused → IsFaulty lines faulty → refused < faulty

theorem listsWarnings_of_ok (assembled : ofLines lines start .lenient = .ok program) :
    ListsWarnings lines program.warnings := by
  have groups := warnings_of_program assembled
  constructor
  case groups => exact groups
  case refusals_inOrder => exact inOrder_refusalWarnings lines
  case pass_inOrder => exact inOrder_passWarnings lines
  case perm =>
    rw [groups]
    exact perm_warningsAfter [] (parseLines lines)
  case source_inOrder => exact inOrder_warningsAfter [] (pairwise_answerLine lines)
  case inOrder_iff =>
    rw [groups]
    exact inOrder_append_iff lines

end Assembly

open Assembly in
/-- What is reported about a source is sorted by line and then by column. -/
theorem pairwise_precedes_of_error {source : String} {start : Word} {mode : Mode}
    {diagnostics : List Diagnostic} (failed : assemble source start mode = .error diagnostics) :
    diagnostics.Pairwise fun first second => first.precedes second = true := by
  unfold assemble ofLines at failed
  simp only at failed
  split at failed
  next => cases failed
  next =>
    obtain rfl := Except.error.inj failed
    exact List.pairwise_mergeSort Diagnostic.precedes_trans Diagnostic.precedes_total _

theorem Diagnostic.line_le_of_precedes {first second : Diagnostic}
    (before : first.precedes second = true) : first.line ≤ second.line := by
  simp only [precedes, Bool.or_eq_true, decide_eq_true_eq, Bool.and_eq_true, beq_iff_eq] at before
  omega

open Assembly in
/-- What strict mode reports is in the order of the lines. The warnings of lenient mode are so if
and only if every line that cannot be taken apart stands before every other line that it warns
of. -/
theorem warnings_order (source : String) (start : Word) :
    (match assemble source start .strict with
      | .ok _ => True
      | .error diagnostics => diagnostics.Pairwise fun first second => first.line ≤ second.line) ∧
      match assemble source start .lenient with
      | .ok program => ListsWarnings (Text.lines source.toList) program.warnings
      | .error _ => True := by
  constructor
  · rcases reported : assemble source start .strict with diagnostics | program
    · exact (pairwise_precedes_of_error reported).imp Diagnostic.line_le_of_precedes
    · trivial
  · rcases assembled : assemble source start .lenient with diagnostics | program
    · trivial
    · exact listsWarnings_of_ok assembled

/-- An instruction that is not known, before a line that cannot be taken apart. -/
def faultyThenRefused : String := "FOO\n9L: NOP"

/-- The warning about the second line is listed before the one about the first. -/
theorem later_refusal_listed_first :
    ∃ program, assemble faultyThenRefused 0x8000 .lenient = .ok program ∧
      program.warnings.map (fun warning => (warning.line, warning.message)) =
        [(2, "InvalidLabel: label must start with a letter, not '9' (line skipped)"),
          (1, "InvalidMnemonic: unknown mnemonic 'FOO' (line skipped)")] ∧
      ¬Warning.InOrder program.warnings := by
  have outcome : (assemble faultyThenRefused 0x8000 .lenient).toOption.map Program.warnings =
      some [{ line := 2, remedy := .skipped (.badLabel (.badStart '9')) },
        { line := 1, remedy := .skipped (.unknownMnemonic "FOO") }] := by
    decide +kernel
  rcases assembled : assemble faultyThenRefused 0x8000 .lenient with diagnostics | program
  · simp [assembled, Except.toOption] at outcome
  · have warned : program.warnings =
        [{ line := 2, remedy := .skipped (.badLabel (.badStart '9')) },
          { line := 1, remedy := .skipped (.unknownMnemonic "FOO") }] := by
      simpa [assembled, Except.toOption] using outcome
    refine ⟨program, rfl, ?_, ?_⟩
    · rw [warned]
      decide +kernel
    · rw [warned, Warning.InOrder]
      decide

end I8085
