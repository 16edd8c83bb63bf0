/-
Module: I8085.Proofs.LineEnds
Layer: Proofs
Purpose: What does not matter about a line. Two texts with a line feed between them have the lines of
  the first and then those of the second, the last line of the first being ended by the line feed
  (`Text.lines_append`). If that line ends in a carriage return, it loses it, which the parser does
  not see since it is blank; and the lines of the second text have larger numbers, which only the
  numbers in the statements show (`Statement.exists_alike_of_parse`).
Imports: I8085.Proofs.LineCleaning
Main exports: Text.split_append_separator, Text.lines_append, Text.SameLine, Piece.push,
  Statement.separateInstruction_push, Statement.Alike, Statement.exists_alike_of_parse,
  Assembly.exists_alike
-/
import I8085.Proofs.LineCleaning

namespace I8085

/-! ### Joining texts -/

namespace Text

variable {separator : Char}

/-- The pieces of two texts with a separator between them are those of the one and of the other. -/
theorem split_append_separator (first second : List Char) :
    split separator (first ++ separator :: second) =
      split separator first ++ split separator second := by
  induction first with
  | nil => rw [List.nil_append, split_cons, if_pos rfl, split_nil, List.singleton_append]
  | cons c rest ih =>
    rw [List.cons_append, split_cons, split_cons, ih]
    split
    · rfl
    · obtain ⟨piece, others, cut⟩ := List.exists_cons_of_ne_nil (split_ne_nil separator rest)
      rw [cut]
      rfl

/-- There is one piece more than there are separators. -/
theorem length_split (separator : Char) (text : List Char) :
    (split separator text).length = text.count separator + 1 := by
  induction text with
  | nil => rfl
  | cons c rest ih =>
    obtain ⟨piece, others, cut⟩ := List.exists_cons_of_ne_nil (split_ne_nil separator rest)
    rw [cut] at ih
    by_cases same : c = separator
    · rw [split_cons, if_pos same, cut, List.length_cons, ih, same, List.count_cons_self]
    · rw [split_cons, if_neg same, cut, List.count_cons_of_ne same, ← ih]
      rfl

/-- Two texts with a line feed between them have the pieces of the first for lines, without a
carriage return at the end, and then the lines of the second. -/
theorem lines_append (first second : List Char) :
    lines (first ++ '\n' :: second) = (split '\n' first).map dropReturn ++ lines second := by
  obtain empty | ⟨before, last, cut⟩ := List.eq_nil_or_concat' (split '\n' second)
  · exact absurd empty (split_ne_nil '\n' second)
  · have joined : split '\n' (first ++ '\n' :: second) =
        (split '\n' first ++ before) ++ [last] := by
      rw [split_append_separator, cut, List.append_assoc]
    rw [lines_of_split joined, lines_of_split cut, List.map_append, List.append_assoc]

/-- Whether a line is another one, or the other without the carriage return that ends it. -/
def SameLine (line other : List Char) : Prop := other = line ∨ line = other ++ ['\r']

theorem sameLine_dropReturn (line : List Char) : SameLine line (dropReturn line) := by
  unfold SameLine dropReturn
  split
  next ends => exact .inr (List.dropLast_append_getLast? '\r' ends).symm
  next => exact .inl rfl

theorem sameLines_refl (lines : List (List Char)) : List.Forall₂ SameLine lines lines := by
  induction lines with
  | nil => exact .nil
  | cons line rest ih => exact .cons (.inl rfl) ih

/-- A blank character at the end is trimmed off. -/
theorem trim_append_of_isBlank {c : Char} (blank : isBlank c = true) (chars : List Char) :
    trim (chars ++ [c]) = trim chars := by
  unfold trim
  rw [List.dropWhile_append]
  split
  next none => simp [blank, List.isEmpty_iff.1 none]
  next => rw [List.reverse_append, List.reverse_singleton, List.singleton_append,
    List.dropWhile_cons_of_pos blank]

end Text

/-! ### A blank character at the end -/

namespace Piece

/-- The piece with one more character at its end. -/
def push (piece : Piece) (c : Char) : Piece := { piece with chars := piece.chars ++ [c] }

variable {c : Char}

theorem isBlank_push (blank : Text.isBlank c = true) (piece : Piece) :
    (piece.push c).isBlank = piece.isBlank := by
  simp [isBlank, push, blank]

theorem trim_push (blank : Text.isBlank c = true) {piece : Piece}
    (filled : ¬piece.isBlank = true) : (piece.push c).trim = piece.trim := by
  have before : (piece.chars ++ [c]).takeWhile Text.isBlank =
      piece.chars.takeWhile Text.isBlank := by
    rw [List.takeWhile_append, if_neg]
    intro all
    apply filled
    rw [isBlank, List.all_eq_true]
    have same := (List.takeWhile_prefix Text.isBlank (l := piece.chars)).eq_of_length all
    exact List.takeWhile_eq_self_iff.1 same
  rw [trim, push, before, Text.trim_append_of_isBlank blank, trim]

/-- A character that is not the separator stays in the part after it. -/
theorem cut?_push {separator : Char} (apart : c ≠ separator) (piece : Piece) :
    (piece.push c).cut? separator =
      (piece.cut? separator).map fun (before, after) => (before, after.push c) := by
  obtain ⟨start, chars⟩ := piece
  by_cases present : separator ∈ chars
  · obtain ⟨after, split⟩ := Text.exists_takeWhile_append present
    have bare := Text.not_mem_takeWhile_bne separator chars
    generalize chars.takeWhile (· != separator) = name at split bare
    subst split
    rw [push, cut?_append bare, List.append_assoc, List.cons_append, cut?_append bare]
    rfl
  · have absent : separator ∉ chars ++ [c] := by
      simp [present, Ne.symm apart]
    have whole : ({ start, chars } : Piece).cut? separator = none := cut?_of_not_mem present
    rw [whole, push, cut?_of_not_mem absent, Option.map_none]

end Piece

namespace Statement

variable {c : Char}

theorem separateInstruction_push (blank : Text.isBlank c = true) (code : Piece) :
    separateInstruction (code.push c) = separateInstruction code := by
  unfold separateInstruction
  rw [Piece.isBlank_push blank]
  split
  next => rfl
  next filled => rw [Piece.trim_push blank filled]

theorem separateLabel_push (apart : c ≠ ':') (code : Piece) :
    separateLabel (code.push c) =
      (separateLabel code).map fun (label, rest) => (label, rest.push c) := by
  unfold separateLabel
  rw [Piece.cut?_push apart]
  rcases code.cut? ':' with _ | ⟨before, after⟩
  · rfl
  · simp only [Option.map_some]
    rcases Label.defect? before.trim.chars <;> rfl

/-! ### Statements that ask for the same -/

/-- Whether a statement asks for the same as another, so many lines further down. -/
structure Alike (lines : Nat) (first second : Statement) : Prop where
  line_eq : second.line = first.line + lines
  label_eq : second.labelName? = first.labelName?
  mnemonic_eq : second.mnemonic.map Piece.text = first.mnemonic.map Piece.text
  operands_eq : second.operandTexts = first.operandTexts

/-- Parts that are separated from a line with a blank character at its end are separated from the
line without it. -/
theorem exists_parts_of_push (blank : Text.isBlank c = true) {text : List Char}
    {label mnemonic : Option Piece} {operands : List Piece} {rest : Piece}
    (labelled : separateLabel (separateComment (Piece.whole (text ++ [c]))).1 = .ok (label, rest))
    (separated : separateInstruction rest = .ok (mnemonic, operands)) :
    ∃ before,
      separateLabel (separateComment (Piece.whole text)).1 = .ok (label, before) ∧
      separateInstruction before = .ok (mnemonic, operands) := by
  have semicolon : c ≠ ';' := by
    rintro rfl
    revert blank
    decide
  have colon : c ≠ ':' := by
    rintro rfl
    revert blank
    decide
  rw [separateComment_whole] at labelled ⊢
  by_cases commented : ';' ∈ text
  -- The character belongs to the comment.
  · obtain ⟨after, split⟩ := Text.exists_takeWhile_append commented
    have same : (text ++ [c]).takeWhile (· != ';') = text.takeWhile (· != ';') := by
      rw [List.takeWhile_append, if_neg]
      intro all
      have whole := (List.takeWhile_prefix (· != ';') (l := text)).eq_of_length all
      rw [whole] at split
      simpa using congrArg List.length split
    rw [same] at labelled
    exact ⟨rest, labelled, separated⟩
  -- It belongs to the instruction.
  · have absent : ';' ∉ text ++ [c] := by
      simp [commented, Ne.symm semicolon]
    rw [Text.takeWhile_bne_of_not_mem absent] at labelled
    rw [Text.takeWhile_bne_of_not_mem commented]
    have pushed := separateLabel_push colon (Piece.whole text)
    change separateLabel (Piece.whole (text ++ [c])) = _ at pushed
    rw [labelled] at pushed
    rcases outcome : separateLabel (Piece.whole text) with problem | ⟨name, before⟩
    · rw [outcome] at pushed
      cases pushed
    · rw [outcome] at pushed
      obtain ⟨rfl, rfl⟩ := Prod.mk.inj (Except.ok.inj pushed)
      rw [separateInstruction_push blank] at separated
      exact ⟨before, rfl, separated⟩

/-- A line is taken apart alike so many lines further down, with a carriage return at its end or
without it. -/
theorem exists_alike_of_parse {number : Nat} {line other : List Char} {statement : Statement}
    (lines : Nat) (same : Text.SameLine line other)
    (parsed : parse number line = .ok statement) :
    ∃ also, parse (number + lines) other = .ok also ∧ Alike lines statement also := by
  have numbered := Assembly.line_of_parse parsed
  obtain ⟨rest, labelled, separated⟩ := exists_parts_of_parse parsed
  obtain ⟨before, labelled, separated⟩ : ∃ before,
      separateLabel (separateComment (Piece.whole other)).1 = .ok (statement.label, before) ∧
      separateInstruction before = .ok (statement.mnemonic, statement.operands) := by
    rcases same with rfl | rfl
    · exact ⟨rest, labelled, separated⟩
    · exact exists_parts_of_push (by decide) labelled separated
  refine ⟨_, parse_of_parts (number + lines) rfl labelled separated, ?_, rfl, rfl, rfl⟩
  rw [numbered]

end Statement

namespace Assembly

open Statement (Alike)

/-- Lines are taken apart alike so many lines further down, with carriage returns at their ends or
without them. -/
theorem exists_alike (down : Nat) {lines others : List (List Char)}
    (same : List.Forall₂ Text.SameLine lines others)
    {number : Nat} {statements : List Statement}
    (parsed : (lines.mapIdx fun index line => Statement.parse (index + number) line) =
      statements.map Except.ok) :
    ∃ alike,
      (others.mapIdx fun index line => Statement.parse (index + (number + down)) line) =
        alike.map Except.ok ∧
      List.Forall₂ (Alike down) statements alike := by
  induction same generalizing number statements with
  | nil =>
    obtain rfl := List.map_eq_nil_iff.1 parsed.symm
    exact ⟨[], rfl, .nil⟩
  | @cons line other _ _ here _ ih =>
    rw [List.mapIdx_cons, Nat.zero_add] at parsed
    obtain ⟨statement, rest, rfl, first, later⟩ := List.map_eq_cons_iff.1 parsed.symm
    obtain ⟨also, parsed_also, alike⟩ := Statement.exists_alike_of_parse down here first.symm
    simp only [Nat.add_assoc, Nat.add_comm 1] at later
    obtain ⟨further, parsed_further, alike_further⟩ := ih later.symm
    refine ⟨also :: further, ?_, .cons alike alike_further⟩
    rw [List.mapIdx_cons, List.map_cons, ← parsed_further, Nat.zero_add, parsed_also]
    simp only [Nat.add_assoc, Nat.add_comm 1]

end Assembly

end I8085
