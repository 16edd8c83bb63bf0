/-
Module: I8085.Proofs.LineCleaning
Layer: Proofs
Purpose: A source without the lines that are wrong. A line that cannot be taken apart is emptied,
  and of a line whose instruction is not known only the label is left, with its colon
  (`Assembly.cleanLine`). What is left of a line is taken apart into a statement that defines the
  same label and asks for the same instruction, if the line has one that is known
  (`Assembly.parse_cleanLine`). The lines of the cleaned text are the cleaned lines, but for an
  empty line at the end (`Assembly.lines_cleaned`).
Imports: I8085.Proofs.StatementParsing, I8085.Proofs.StrictReport, Mathlib.Data.List.Forall2
Main exports: Text.mapLines, Text.lines_mapLines, Assembly.cleanLine, Assembly.cleaned,
  Assembly.lines_cleaned, Assembly.Cleans, Assembly.parse_cleanLine, Assembly.exists_cleans
-/
import I8085.Proofs.StatementParsing
import I8085.Proofs.StrictReport
import Mathlib.Data.List.Forall2

namespace I8085

/-! ### Changing the lines of a text -/

namespace Text

/-- The carriage return that ends a line, if one does. -/
def lineReturn (line : List Char) : List Char :=
  if line.getLast? = some '\r' then ['\r'] else []

/-- The text with each of its lines changed, given the number of the line. Line ends are kept. -/
def mapLines (change : Nat → List Char → List Char) (text : List Char) : List Char :=
  let pieces := split '\n' text
  let rest := pieces.getLast?.getD []
  ['\n'].intercalate
    ((pieces.dropLast.mapIdx fun index line =>
        change (index + 1) (dropReturn line) ++ lineReturn line) ++
      [if rest.isEmpty then [] else change pieces.length rest])

theorem split_ne_nil (separator : Char) (text : List Char) : split separator text ≠ [] := by
  cases text with
  | nil => exact List.cons_ne_nil _ _
  | cons c rest =>
    rw [split_cons]
    split
    · exact List.cons_ne_nil _ _
    · rcases split separator rest <;> exact List.cons_ne_nil _ _

/-- No piece has the separator. -/
theorem not_mem_of_mem_split {separator : Char} {text piece : List Char}
    (member : piece ∈ split separator text) : separator ∉ piece := by
  induction text generalizing piece with
  | nil =>
    rw [split_nil, List.mem_singleton] at member
    rw [member]
    exact List.not_mem_nil
  | cons c rest ih =>
    rw [split_cons] at member
    split at member
    next =>
      rcases List.mem_cons.1 member with same | later
      · rw [same]
        exact List.not_mem_nil
      · exact ih later
    next apart =>
      obtain ⟨first, others, cut⟩ := List.exists_cons_of_ne_nil (split_ne_nil separator rest)
      rw [cut, consFirst] at member
      rcases List.mem_cons.1 member with same | later
      · have here : separator ∉ first := ih (by rw [cut]; exact List.mem_cons_self)
        rw [same, List.mem_cons, not_or]
        exact ⟨fun equal => apart equal.symm, here⟩
      · exact ih (by rw [cut]; exact List.mem_cons_of_mem first later)

/-- A changed line gets its carriage return back. -/
theorem dropReturn_append_lineReturn {line changed : List Char}
    (ends : changed.getLast? = some '\r' → (dropReturn line).getLast? = some '\r') :
    dropReturn (changed ++ lineReturn line) = changed := by
  unfold lineReturn
  split
  next => simp [dropReturn]
  next open_ =>
    rw [List.append_nil]
    apply dropReturn_of_ne
    intro last
    rw [dropReturn_of_ne open_] at ends
    exact open_ (ends last)

theorem lines_of_split {text last : List Char} {before : List (List Char)}
    (cut : split '\n' text = before ++ [last]) :
    lines text = before.map dropReturn ++ if last.isEmpty then [] else [last] := by
  rw [lines, cut, List.dropLast_concat, List.getLast?_concat, Option.getD_some]

section MapLines

variable {change : Nat → List Char → List Char}

/-- The pieces of a text whose lines were changed are the changed lines with their returns. -/
theorem split_mapLines (whole : ∀ number line, '\n' ∉ line → '\n' ∉ change number line)
    {text last : List Char} {before : List (List Char)}
    (cut : split '\n' text = before ++ [last]) :
    split '\n' (mapLines change text) =
      (before.mapIdx fun index line =>
          change (index + 1) (dropReturn line) ++ lineReturn line) ++
        [if last.isEmpty then [] else change (before.length + 1) last] := by
  have absent : ∀ piece ∈ before ++ [last], '\n' ∉ piece := by
    intro piece member
    rw [← cut] at member
    exact not_mem_of_mem_split member
  rw [mapLines, cut, List.dropLast_concat, List.getLast?_concat, Option.getD_some,
    List.length_append, List.length_singleton]
  apply split_intercalate (List.append_ne_nil_of_right_ne_nil _ (List.cons_ne_nil _ _))
  intro piece member
  rcases List.mem_append.1 member with earlier | same
  · obtain ⟨index, below, rfl⟩ := List.mem_mapIdx.1 earlier
    have line := absent before[index] (List.mem_append_left _ (List.getElem_mem below))
    rw [List.mem_append, not_or]
    constructor
    · apply whole
      unfold dropReturn
      split
      · exact fun inside => line (List.dropLast_subset _ inside)
      · exact line
    · unfold lineReturn
      split
      · decide
      · exact List.not_mem_nil
  · rw [List.mem_singleton.1 same]
    split
    · exact List.not_mem_nil
    · apply whole
      exact absent last (by simp)

/-- The lines of a text whose lines were changed are the changed lines, but for an empty line at the
end. -/
theorem lines_mapLines (whole : ∀ number line, '\n' ∉ line → '\n' ∉ change number line)
    (ends : ∀ number line, (change number line).getLast? = some '\r' →
      line.getLast? = some '\r') (text : List Char) :
    (lines text).mapIdx (fun index line => change (index + 1) line) =
        lines (mapLines change text) ∨
      (lines text).mapIdx (fun index line => change (index + 1) line) =
        lines (mapLines change text) ++ [[]] := by
  obtain empty | ⟨before, last, cut⟩ := List.eq_nil_or_concat' (split '\n' text)
  · exact absurd empty (split_ne_nil '\n' text)
  · have changed : (before.mapIdx fun index line =>
        change (index + 1) (dropReturn line) ++ lineReturn line).map dropReturn =
          (before.map dropReturn).mapIdx fun index line => change (index + 1) line := by
      apply List.ext_getElem?
      intro index
      simp only [List.getElem?_map, List.getElem?_mapIdx, Option.map_map]
      congr 1
      funext line
      exact dropReturn_append_lineReturn (ends _ _)
    rw [lines_of_split cut, lines_of_split (split_mapLines whole cut), changed]
    -- Text after the last line feed is a line only if there is any, before and after the change.
    by_cases blank : last.isEmpty
    · left
      simp [blank]
    · by_cases emptied : (change (before.length + 1) last).isEmpty
      · right
        simp [blank, List.mapIdx_append, List.isEmpty_iff.1 emptied]
      · left
        simp [blank, emptied, List.mapIdx_append]

end MapLines

end Text

/-! ### Cleaning a line -/

namespace Assembly

open Text (lines)

/-- The part of a line up to the colon after its label, or nothing if it has none. -/
def labelPrefix (line : List Char) : List Char :=
  let code := line.takeWhile (· != ';')
  if ':' ∈ code then code.takeWhile (· != ':') ++ [':'] else []

/-- What is left of a numbered line: nothing if it cannot be taken apart, its label if its
instruction is not known, and otherwise all of it. -/
def cleanLine (number : Nat) (line : List Char) : List Char :=
  match Statement.parse number line with
  | .error _ => []
  | .ok statement => if statement.unknown?.isSome then labelPrefix line else line

/-- The source with each of its lines cleaned. -/
def cleaned (source : String) : String := String.ofList (Text.mapLines cleanLine source.toList)

theorem mem_labelPrefix {line : List Char} {c : Char} (member : c ∈ labelPrefix line) :
    c ∈ line := by
  unfold labelPrefix at member
  simp only at member
  split at member
  next colon =>
    have inside : ∀ c ∈ line.takeWhile (· != ';'), c ∈ line := fun c =>
      (List.takeWhile_sublist _).mem
    rcases List.mem_append.1 member with earlier | same
    · exact inside c ((List.takeWhile_sublist _).mem earlier)
    · rw [List.mem_singleton.1 same]
      exact inside ':' colon
  next => cases member

theorem getLast?_labelPrefix (line : List Char) : (labelPrefix line).getLast? ≠ some '\r' := by
  unfold labelPrefix
  simp only
  split
  · rw [List.getLast?_concat]
    decide
  · exact fun last => nomatch last

theorem not_mem_cleanLine (number : Nat) (line : List Char) (whole : '\n' ∉ line) :
    '\n' ∉ cleanLine number line := by
  unfold cleanLine
  split
  · exact List.not_mem_nil
  · split
    · exact fun member => whole (mem_labelPrefix member)
    · exact whole

theorem getLast?_cleanLine (number : Nat) (line : List Char)
    (last : (cleanLine number line).getLast? = some '\r') : line.getLast? = some '\r' := by
  unfold cleanLine at last
  split at last
  · cases last
  · split at last
    · exact absurd last (getLast?_labelPrefix line)
    · exact last

/-- The lines of the cleaned source are the cleaned lines, but for an empty line at the end. -/
theorem lines_cleaned (source : String) :
    (lines source.toList).mapIdx (fun index line => cleanLine (index + 1) line) =
        lines (cleaned source).toList ∨
      (lines source.toList).mapIdx (fun index line => cleanLine (index + 1) line) =
        lines (cleaned source).toList ++ [[]] := by
  rw [cleaned, String.toList_ofList]
  exact Text.lines_mapLines not_mem_cleanLine getLast?_cleanLine source.toList

/-! ### Taking apart what is left -/

/-- Whether a statement is what is left of a line that was taken apart or refused. -/
inductive Cleans : Except Diagnostic Statement → Statement → Prop where
  | refused {refusal : Diagnostic} {left : Statement} (label : left.label = none)
      (mnemonic : left.mnemonic = none) : Cleans (.error refusal) left
  | unknown {statement left : Statement} (unknown : statement.unknown?.isSome)
      (line : left.line = statement.line) (label : left.labelName? = statement.labelName?)
      (mnemonic : left.mnemonic = none) : Cleans (.ok statement) left
  | kept {statement : Statement} (known : statement.unknown? = none) :
      Cleans (.ok statement) statement

end Assembly

namespace Text

theorem not_mem_takeWhile_bne (c : Char) (chars : List Char) :
    c ∉ chars.takeWhile (· != c) := by
  intro member
  have apart := List.mem_takeWhile_imp member
  simp at apart

theorem takeWhile_bne_of_not_mem {c : Char} {chars : List Char} (absent : c ∉ chars) :
    chars.takeWhile (· != c) = chars := by
  rw [List.takeWhile_eq_self_iff]
  intro other member
  rw [bne_iff_ne]
  intro same
  exact absent (same ▸ member)

/-- A text that has a character is cut in two by the first one. -/
theorem exists_takeWhile_append {c : Char} {chars : List Char} (present : c ∈ chars) :
    ∃ after, chars = chars.takeWhile (· != c) ++ c :: after := by
  rcases rest : chars.dropWhile (· != c) with _ | ⟨found, after⟩
  · rw [List.dropWhile_eq_nil_iff] at rest
    have apart := rest c present
    simp at apart
  · have same : found = c := by
      have first := List.head?_dropWhile_not (· != c) chars
      simpa [rest] using first
    refine ⟨after, ?_⟩
    rw [← same, ← rest, same, List.takeWhile_append_dropWhile]

end Text

namespace Piece

/-- A piece is cut at the first separator. -/
theorem cut?_append {separator : Char} {before : List Char} (absent : separator ∉ before)
    (start : Nat) (after : List Char) :
    ({ start, chars := before ++ separator :: after } : Piece).cut? separator =
      some ({ start, chars := before },
        { start := start + Text.byteLength before + separator.utf8Size, chars := after }) := by
  have apart : ∀ c ∈ before, (c != separator) = true := by
    intro c member
    rw [bne_iff_ne]
    intro same
    exact absent (same ▸ member)
  simp [cut?, List.takeWhile_append_of_pos apart, List.dropWhile_append_of_pos apart, stop]

end Piece

namespace Statement

/-- The code of a line ends before the first semicolon. -/
theorem separateComment_whole (text : List Char) :
    (separateComment (Piece.whole text)).1 = Piece.whole (text.takeWhile (· != ';')) := by
  by_cases present : ';' ∈ text
  · obtain ⟨after, split⟩ := Text.exists_takeWhile_append present
    have cut := Piece.cut?_append (Text.not_mem_takeWhile_bne ';' text) 0 after
    rw [← split] at cut
    rw [separateComment, Piece.whole, cut]
    rfl
  · rw [separateComment, Piece.cut?_of_not_mem present, Text.takeWhile_bne_of_not_mem present]

/-- The text before the first colon is the label, if it has the form of one. -/
theorem separateLabel_append {name : List Char} (bare : ':' ∉ name) (after : List Char) :
    separateLabel (Piece.whole (name ++ ':' :: after)) =
      match Label.defect? (Piece.whole name).trim.chars with
      | some defect => .error (.badLabel defect, (Piece.whole name).trim.span)
      | none =>
          .ok (some (Piece.whole name).trim,
            { start := 0 + Text.byteLength name + ':'.utf8Size, chars := after }) := by
  rw [separateLabel, Piece.whole, Piece.cut?_append bare]
  rfl

/-- The part of a line up to its label is parsed into the label and nothing else. -/
theorem parse_labelPrefix {number : Nat} {text : List Char} {statement : Statement}
    (parsed : parse number text = .ok statement) :
    ∃ left, parse number (Assembly.labelPrefix text) = .ok left ∧
      left.line = number ∧ left.label = statement.label ∧ left.mnemonic = none := by
  obtain ⟨rest, label, _⟩ := exists_parts_of_parse parsed
  rw [separateComment_whole] at label
  have comment : ';' ∉ text.takeWhile (· != ';') := Text.not_mem_takeWhile_bne ';' text
  unfold Assembly.labelPrefix
  simp only
  generalize text.takeWhile (· != ';') = code at label comment
  -- Up to the colon, the line and its prefix are cut alike, at the same places.
  split
  next colon =>
    obtain ⟨after, split⟩ := Text.exists_takeWhile_append colon
    have bare := Text.not_mem_takeWhile_bne ':' code
    generalize code.takeWhile (· != ':') = name at split bare
    subst split
    rw [separateLabel_append bare] at label
    have alone : separateComment (Piece.whole (name ++ [':'])) =
        (Piece.whole (name ++ [':']), none) := by
      have absent : ';' ∉ name ++ [':'] := by
        simp only [List.mem_append, List.mem_cons, not_or] at comment ⊢
        exact ⟨comment.1, by decide, List.not_mem_nil⟩
      rw [separateComment, Piece.cut?_of_not_mem absent]
    rcases defect : Label.defect? (Piece.whole name).trim.chars with _ | defect
    · simp only [defect, Except.ok.injEq, Prod.mk.injEq] at label
      have again := separateLabel_append bare []
      simp only [defect] at again
      exact ⟨_, parse_of_parts number alone again rfl, rfl, label.1, rfl⟩
    · simp [defect] at label
  next bare =>
    rw [separateLabel, Piece.cut?_of_not_mem bare] at label
    obtain ⟨none, _⟩ := Prod.mk.inj (Except.ok.inj label)
    exact ⟨_, rfl, rfl, none, rfl⟩

end Statement

namespace Assembly

/-- What is left of a line is parsed. -/
theorem parse_cleanLine (number : Nat) (line : List Char) :
    ∃ left, Statement.parse number (cleanLine number line) = .ok left ∧
      Cleans (Statement.parse number line) left := by
  rcases parsed : Statement.parse number line with refusal | statement
  · rw [cleanLine, parsed]
    exact ⟨_, rfl, .refused rfl rfl⟩
  · rcases unknown : statement.unknown? with _ | diagnostic
    · have all : cleanLine number line = line := by
        simp [cleanLine, parsed, unknown]
      rw [all]
      exact ⟨statement, parsed, .kept unknown⟩
    · have label : cleanLine number line = labelPrefix line := by
        simp [cleanLine, parsed, unknown]
      rw [label]
      obtain ⟨left, again, same, label, mnemonic⟩ := Statement.parse_labelPrefix parsed
      refine ⟨left, again, .unknown ?_ ?_ ?_ mnemonic⟩
      · rw [unknown]
        rfl
      · rw [same, line_of_parse parsed]
      · rw [Statement.labelName?, label, Statement.labelName?]

/-- Lists whose elements are related are changed, place by place, to lists whose elements are. -/
theorem forall₂_mapIdx {α α' β β' : Type} {given : α → α' → Prop} {made : β → β' → Prop}
    {f : Nat → α → β} {g : Nat → α' → β'} {values : List α} {others : List α'}
    (same : List.Forall₂ given values others)
    (step : ∀ index value other, given value other → made (f index value) (g index other)) :
    List.Forall₂ made (values.mapIdx f) (others.mapIdx g) := by
  induction same generalizing f g with
  | nil => exact .nil
  | cons here _ ih =>
    rw [List.mapIdx_cons, List.mapIdx_cons]
    exact .cons (step 0 _ _ here) (ih fun index => step (index + 1))

/-- What is left of the lines of a source is parsed, line by line. -/
theorem exists_cleans (lines : List (List Char)) :
    ∃ lefts,
      parseLines (lines.mapIdx fun index line => cleanLine (index + 1) line) =
        lefts.map Except.ok ∧
      List.Forall₂ Cleans (parseLines lines) lefts := by
  choose left parsed cleans using parse_cleanLine
  refine ⟨lines.mapIdx fun index line => left (index + 1) line, ?_, ?_⟩
  · rw [parseLines, List.mapIdx_mapIdx]
    apply List.ext_getElem?
    intro index
    simp only [List.getElem?_map, List.getElem?_mapIdx, Option.map_map, Function.comp_def, parsed]
  · have same : List.Forall₂ Eq lines lines := List.forall₂_refl lines
    apply forall₂_mapIdx same
    rintro index line _ rfl
    exact cleans (index + 1) line

end Assembly

end I8085
