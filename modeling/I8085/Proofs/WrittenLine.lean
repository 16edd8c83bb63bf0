/-
Module: I8085.Proofs.WrittenLine
Layer: Proofs
Purpose: How lines can be written, and that parsing undoes it. A line is written from a label, a
  word, operands and a comment, with blank characters at its start, around its colon and commas and
  at the end of its code (`Line.Written`). It is parsed into these parts, the word in upper case and
  the comment without the blank characters around it, each at the offset at which it was written
  (`Line.Written.parse_chars`). An instruction whose word and operands are tokens is a case of it
  (`Statement.parse_instructionText`).
Imports: I8085.Proofs.LineReading
Main exports: Line.Blanks, Line.WrittenLabel, Line.WrittenOperand, Line.WrittenInstruction,
  Line.Written, Line.Written.chars, Line.Written.statement, Line.Written.parse_parts,
  Line.Written.parse_chars, Statement.parse_instructionText
-/
import I8085.Proofs.LineReading

namespace I8085

namespace Line

open Text (IsToken isBlank byteLength)

/-! ### Parts of a line -/

/-- Blank characters, or nothing. -/
structure Blanks where
  chars : List Char
  blank : ∀ c ∈ chars, isBlank c = true

/-- A label name and the blank characters around the colon after it. -/
structure WrittenLabel where
  name : List Char
  named : Label.defect? name = none
  before : Blanks
  after : Blanks

/-- An operand and the blank characters around it. -/
structure WrittenOperand where
  before : Blanks
  text : List Char
  after : Blanks
  text_ne_nil : text ≠ []
  starts : ∀ c, text.head? = some c → isBlank c = false
  ends : ∀ c, text.getLast? = some c → isBlank c = false
  plain : ∀ c ∈ text, c ≠ ',' ∧ c ≠ ';' ∧ c ≠ ':'

/-- A word and the operands after it, which are set off from the word. -/
structure WrittenInstruction where
  word : List Char
  word_ne_nil : word ≠ []
  solid : ∀ c ∈ word, isBlank c = false ∧ c ≠ ';' ∧ c ≠ ':'
  operands : List WrittenOperand
  apart : ∀ first, operands.head? = some first → first.before.chars ≠ []

/-- The parts of a line. The comment does not have to be trimmed. -/
structure Written where
  lead : Blanks
  label : Option WrittenLabel
  instruction : Option WrittenInstruction
  trail : Blanks
  comment : Option (List Char)

def WrittenLabel.chars (label : WrittenLabel) : List Char :=
  label.name ++ label.before.chars ++ ':' :: label.after.chars

def WrittenOperand.chars (operand : WrittenOperand) : List Char :=
  operand.before.chars ++ operand.text ++ operand.after.chars

/-- Operands with commas between them. -/
def operandChars (operands : List WrittenOperand) : List Char :=
  [','].intercalate (operands.map WrittenOperand.chars)

def WrittenInstruction.chars (instruction : WrittenInstruction) : List Char :=
  instruction.word ++ operandChars instruction.operands

/-- The operands that are written after a text, with commas between them, and their places. -/
def placed (before : List Char) : List WrittenOperand → List Piece
  | [] => []
  | operand :: rest =>
      { start := byteLength (before ++ operand.before.chars), chars := operand.text } ::
        placed (before ++ operand.chars ++ [',']) rest

namespace Written

/-- What is written before the instruction. -/
def front (written : Written) : List Char :=
  written.lead.chars ++ (written.label.map WrittenLabel.chars).getD []

/-- What is written before the comment. -/
def code (written : Written) : List Char :=
  written.front ++ (written.instruction.map WrittenInstruction.chars).getD [] ++
    written.trail.chars

/-- The line. -/
def chars (written : Written) : List Char :=
  written.code ++ (written.comment.map (';' :: ·)).getD []

def labelPiece (written : Written) : Option Piece :=
  written.label.map fun label =>
    { start := byteLength written.lead.chars, chars := label.name }

/-- The word, in upper case. -/
def wordPiece (written : Written) : Option Piece :=
  written.instruction.map fun instruction =>
    { start := byteLength written.front, chars := instruction.word.map Char.toUpper }

def operandPieces (written : Written) : List Piece :=
  match written.instruction with
  | none => []
  | some instruction => placed (written.front ++ instruction.word) instruction.operands

/-- The offsets at which the parts end, from left to right: the label with its colon, the word and
the operands. -/
def stops (written : Written) : List Nat :=
  (written.label.map fun label =>
      byteLength (written.lead.chars ++ label.name ++ label.before.chars ++ [':'])).toList ++
    written.wordPiece.toList.map Piece.stop ++ written.operandPieces.map Piece.stop

/-- From the first part to the last one. A line without parts has an empty span at the end of its
code. -/
def span (written : Written) : Span :=
  match written.stops.getLast? with
  | none => { start := byteLength written.code, stop := byteLength written.code }
  | some stop => { start := byteLength written.lead.chars, stop }

/-- The parts of the line and their places. -/
def statement (number : Nat) (written : Written) : Statement where
  line := number
  label := written.labelPiece
  mnemonic := written.wordPiece
  operands := written.operandPieces
  comment := written.comment.map fun text => String.ofList (Text.trim text)
  span := written.span

end Written

/-! ### Characters that divide a line -/

theorem Blanks.not_mem (blanks : Blanks) {c : Char} (visible : isBlank c = false) :
    c ∉ blanks.chars := by
  intro member
  rw [blanks.blank c member] at visible
  cases visible

theorem WrittenOperand.not_mem_chars (operand : WrittenOperand) {c : Char}
    (divider : c = ',' ∨ c = ';' ∨ c = ':') : c ∉ operand.chars := by
  have visible : isBlank c = false := by
    rcases divider with rfl | rfl | rfl <;> rfl
  have text : c ∉ operand.text := by
    intro member
    obtain ⟨comma, semicolon, colon⟩ := operand.plain c member
    rcases divider with rfl | rfl | rfl <;> contradiction
  simp [chars, operand.before.not_mem visible, text, operand.after.not_mem visible]

theorem WrittenInstruction.not_mem_chars (instruction : WrittenInstruction) {c : Char}
    (divider : c = ';' ∨ c = ':') : c ∉ instruction.chars := by
  have apart : c ≠ ',' := by
    rcases divider with rfl | rfl <;> decide
  have word : c ∉ instruction.word := by
    intro member
    obtain ⟨_, semicolon, colon⟩ := instruction.solid c member
    rcases divider with rfl | rfl <;> contradiction
  have operands : c ∉ operandChars instruction.operands := by
    apply Text.not_mem_intercalate apart
    intro text member
    obtain ⟨operand, _, rfl⟩ := List.mem_map.1 member
    exact operand.not_mem_chars (.inr divider)
  simp [chars, word, operands]

theorem WrittenLabel.isBlank_of_head? (label : WrittenLabel) (after : List Char) {c : Char}
    (first : (label.name ++ after).head? = some c) : isBlank c = false := by
  have token := Label.isToken_of_named label.named
  rw [List.head?_append_of_ne_nil _ token.nonempty] at first
  exact token.isBlank_of_head? first

/-! ### Operands -/

theorem WrittenOperand.trim_eq (operand : WrittenOperand) (before : List Char)
    {trail : List Char} (blank : ∀ c ∈ trail, isBlank c = true) :
    ({ start := byteLength before, chars := operand.before.chars ++ operand.text ++ trail } :
        Piece).trim =
      { start := byteLength (before ++ operand.before.chars), chars := operand.text } := by
  rw [Piece.trim_append _ operand.before.blank operand.text_ne_nil operand.starts operand.ends
    blank, Text.byteLength_append]

/-- What it is for operands to be written as a body, which ends with the last of them, and blank
characters behind it. -/
structure IsBody (operands : List WrittenOperand) (written body ends : List Char) : Prop where
  split : written = body ++ ends
  ends_blank : ∀ c ∈ ends, isBlank c = true
  nonempty : body ≠ []
  last_visible : ∀ c, body.getLast? = some c → isBlank c = false
  pieces : ∀ before, (({ start := byteLength before, chars := body } : Piece).split ',').map
    Piece.trim = placed before operands
  stop : ∀ before, (placed before operands).getLast?.map Piece.stop =
    some (byteLength (before ++ body))

theorem exists_isBody (first : WrittenOperand) (rest : List WrittenOperand) (trail : Blanks) :
    ∃ body ends,
      IsBody (first :: rest) (operandChars (first :: rest) ++ trail.chars) body ends := by
  induction rest generalizing first with
  | nil =>
    refine ⟨first.before.chars ++ first.text, first.after.chars ++ trail.chars, ?_⟩
    constructor
    case split => simp [operandChars, WrittenOperand.chars]
    case ends_blank =>
      intro c member
      rcases List.mem_append.1 member with after | last
      · exact first.after.blank c after
      · exact trail.blank c last
    case nonempty => simp [first.text_ne_nil]
    case last_visible =>
      intro c last
      rw [List.getLast?_append_of_ne_nil _ first.text_ne_nil] at last
      exact first.ends c last
    case pieces =>
      intro before
      have absent : ',' ∉ first.before.chars ++ first.text := by
        intro member
        exact first.not_mem_chars (.inl rfl) (List.mem_append_left _ member)
      have nothing : ∀ c ∈ ([] : List Char), isBlank c = true := by simp
      have trimmed := first.trim_eq before nothing
      rw [List.append_nil] at trimmed
      rw [Piece.split, Text.split_of_not_mem absent, placed, placed, ← trimmed]
      rfl
    case stop =>
      intro before
      simp [placed, Piece.stop, Nat.add_assoc]
  | cons second rest ih =>
    obtain ⟨body, ends, later⟩ := ih second
    have absent : ',' ∉ first.chars := first.not_mem_chars (.inl rfl)
    refine ⟨first.chars ++ [','] ++ body, ends, ?_⟩
    constructor
    case split =>
      have split := later.split
      simp only [operandChars, List.map_cons, List.intercalate_cons_cons] at split ⊢
      simp [split]
    case ends_blank => exact later.ends_blank
    case nonempty => simp
    case last_visible =>
      intro c last
      rw [List.getLast?_append_of_ne_nil _ later.nonempty] at last
      exact later.last_visible c last
    case pieces =>
      intro before
      have place : byteLength before + byteLength first.chars + ','.utf8Size =
          byteLength (before ++ first.chars ++ [',']) := by
        simp [Nat.add_assoc]
      have pieces := later.pieces (before ++ first.chars ++ [','])
      rw [Piece.split] at pieces ⊢
      rw [List.append_assoc, List.singleton_append, Text.split_append absent, Piece.place,
        List.map_cons, place, pieces]
      exact congrArg (· :: _) (first.trim_eq before first.after.blank)
    case stop =>
      intro before
      obtain ⟨piece, last, stop⟩ :=
        Option.map_eq_some_iff.1 (later.stop (before ++ first.chars ++ [',']))
      rw [placed, List.getLast?_cons, last]
      simpa using stop

theorem exists_operandChars_cons (first : WrittenOperand) (rest : List WrittenOperand) :
    ∃ more, operandChars (first :: rest) = first.before.chars ++ more := by
  rcases rest with _ | ⟨second, rest⟩ <;>
    simp [operandChars, WrittenOperand.chars, List.intercalate_cons_cons]

theorem map_chars_placed (before : List Char) (operands : List WrittenOperand) :
    (placed before operands).map Piece.chars = operands.map WrittenOperand.text := by
  induction operands generalizing before with
  | nil => rfl
  | cons operand rest ih => rw [placed, List.map_cons, List.map_cons, ih]

theorem ne_nil_of_mem_placed {before : List Char} {operands : List WrittenOperand} {piece : Piece}
    (member : piece ∈ placed before operands) : piece.chars ≠ [] := by
  induction operands generalizing before with
  | nil => cases member
  | cons operand rest ih =>
    rcases List.mem_cons.1 member with rfl | later
    · exact operand.text_ne_nil
    · exact ih later

theorem IsBody.separateOperands_eq {operands : List WrittenOperand} {written body ends : List Char}
    (parts : IsBody operands written body ends) (before : List Char) :
    Statement.separateOperands { start := byteLength before, chars := body } =
      .ok (placed before operands) := by
  obtain ⟨init, c, rfl⟩ := List.eq_nil_or_concat' body |>.resolve_left parts.nonempty
  have visible : isBlank c = false := parts.last_visible c List.getLast?_concat
  have filled : ¬Piece.isBlank { start := byteLength before, chars := init ++ [c] } = true := by
    simp [Piece.isBlank, visible]
  have pieces := parts.pieces before
  have none : ((({ start := byteLength before, chars := init ++ [c] } : Piece).split ',').find?
      Piece.isBlank) = none := by
    rw [List.find?_eq_none]
    intro piece member blank
    have listed : piece.trim ∈ placed before operands := by
      rw [← pieces]
      exact List.mem_map_of_mem member
    exact ne_nil_of_mem_placed listed (Text.trim_of_isBlank blank)
  rw [Statement.separateOperands, if_neg filled]
  simp only [none, pieces]

/-! ### Instructions -/

namespace WrittenInstruction

/-- What it is for an instruction to be written as its word, a body with its operands, which may be
empty, and blank characters behind that. -/
structure IsWritten (instruction : WrittenInstruction) (written body ends : List Char) : Prop where
  split : written = instruction.word ++ body ++ ends
  ends_blank : ∀ c ∈ ends, isBlank c = true
  last_visible : ∀ c, (instruction.word ++ body).getLast? = some c → isBlank c = false
  apart : ∀ c, body.head? = some c → isBlank c = true
  operands : ∀ before, Statement.separateOperands { start := byteLength before, chars := body } =
    .ok (placed before instruction.operands)
  stop : ∀ before,
    (byteLength before :: (placed before instruction.operands).map Piece.stop).getLast? =
      some (byteLength (before ++ body))

theorem isBlank_of_head? (instruction : WrittenInstruction) (after : List Char) {c : Char}
    (first : (instruction.word ++ after).head? = some c) : isBlank c = false := by
  rw [List.head?_append_of_ne_nil _ instruction.word_ne_nil] at first
  exact (instruction.solid c (List.mem_of_mem_head? first)).1

theorem exists_isWritten (instruction : WrittenInstruction) (trail : Blanks) :
    ∃ body ends, instruction.IsWritten (instruction.chars ++ trail.chars) body ends := by
  rcases listed : instruction.operands with _ | ⟨first, rest⟩
  · refine ⟨[], trail.chars, ?_⟩
    constructor
    case split => simp [chars, operandChars, listed]
    case ends_blank => exact trail.blank
    case last_visible =>
      intro c last
      rw [List.append_nil] at last
      exact (instruction.solid c (List.mem_of_getLast? last)).1
    case apart => simp
    case operands =>
      rw [listed]
      exact fun before => rfl
    case stop =>
      rw [listed]
      simp [placed]
  · obtain ⟨body, ends, parts⟩ := exists_isBody first rest trail
    refine ⟨body, ends, ?_⟩
    constructor
    case split => rw [chars, listed, List.append_assoc, parts.split, List.append_assoc]
    case ends_blank => exact parts.ends_blank
    case last_visible =>
      intro c last
      rw [List.getLast?_append_of_ne_nil _ parts.nonempty] at last
      exact parts.last_visible c last
    case apart =>
      intro c begins
      have spaced := instruction.apart first (by rw [listed]; rfl)
      obtain ⟨more, operands⟩ := exists_operandChars_cons first rest
      have head := congrArg List.head? parts.split
      rw [operands, List.append_assoc, List.head?_append_of_ne_nil _ spaced,
        List.head?_append_of_ne_nil _ parts.nonempty, begins] at head
      exact first.before.blank c (List.mem_of_mem_head? head)
    case operands =>
      rw [listed]
      exact parts.separateOperands_eq
    case stop =>
      intro before
      rw [listed, List.getLast?_cons, List.getLast?_map, parts.stop]
      rfl

/-- An instruction is taken apart into its word, in upper case, and its operands. -/
theorem IsWritten.separateInstruction_eq {instruction : WrittenInstruction}
    {written body ends : List Char} (parts : instruction.IsWritten written body ends)
    (before : List Char) (gap : Blanks) :
    Statement.separateInstruction { start := byteLength before, chars := gap.chars ++ written } =
      .ok (some
          { start := byteLength (before ++ gap.chars)
            chars := instruction.word.map Char.toUpper },
        placed (before ++ gap.chars ++ instruction.word) instruction.operands) := by
  have visible : ∀ c ∈ instruction.word, (!isBlank c) = true := by
    intro c member
    rw [(instruction.solid c member).1]
    rfl
  have cut : ({ start := byteLength (before ++ gap.chars), chars := instruction.word ++ body } :
      Piece).word =
        ({ start := byteLength (before ++ gap.chars), chars := instruction.word },
          { start := byteLength (before ++ gap.chars ++ instruction.word), chars := body }) := by
    have ends : body.takeWhile (!isBlank ·) = [] ∧ body.dropWhile (!isBlank ·) = body := by
      cases body with
      | nil => simp
      | cons c rest => simp [parts.apart c rfl]
    rw [Piece.word, List.takeWhile_append_of_pos visible, List.dropWhile_append_of_pos visible,
      ends.1, ends.2, List.append_nil, Piece.stop, ← Text.byteLength_append]
  have nonempty : instruction.word ++ body ≠ [] := by simp [instruction.word_ne_nil]
  have trimmed := Piece.trim_append (byteLength before) gap.blank nonempty
    (fun c => instruction.isBlank_of_head? body) parts.last_visible parts.ends_blank
  rw [List.append_assoc gap.chars, ← parts.split, ← Text.byteLength_append] at trimmed
  have filled :
      ¬Piece.isBlank { start := byteLength before, chars := gap.chars ++ written } = true := by
    intro blank
    exact nonempty ((congrArg Piece.chars trimmed).symm.trans (Text.trim_of_isBlank blank))
  rw [Statement.separateInstruction, if_neg filled, trimmed]
  simp only [cut, parts.operands]
  rfl

end WrittenInstruction

/-! ### Lines -/

namespace Written

variable (written : Written)

/-- The blank characters in front of the instruction, and what is written before them. -/
def gap : List Char × Blanks :=
  match written.label with
  | none => ([], written.lead)
  | some label =>
      (written.lead.chars ++ label.name ++ label.before.chars ++ [':'], label.after)

theorem gap_eq : written.gap.1 ++ written.gap.2.chars = written.front := by
  unfold gap front
  cases written.label <;> simp [WrittenLabel.chars]

/-- No semicolon is in the code. -/
theorem not_mem_code : ';' ∉ written.code := by
  have visible : isBlank ';' = false := rfl
  have label : ';' ∉ (written.label.map WrittenLabel.chars).getD [] := by
    rcases written.label with _ | label
    · simp
    · have name := (Label.isToken_of_named label.named).not_mem (c := ';') rfl
      simp [WrittenLabel.chars, name, label.before.not_mem visible, label.after.not_mem visible]
  have instruction : ';' ∉ (written.instruction.map WrittenInstruction.chars).getD [] := by
    rcases written.instruction with _ | instruction
    · simp
    · exact instruction.not_mem_chars (.inl rfl)
  simp [code, front, written.lead.not_mem visible, written.trail.not_mem visible, label,
    instruction]

theorem separateComment_eq :
    Statement.separateComment (Piece.whole written.chars) =
      (Piece.whole written.code,
        written.comment.map fun text => String.ofList (Text.trim text)) := by
  rcases commented : written.comment with _ | text
  · have chars_eq : written.chars = written.code := by simp [chars, commented]
    have uncut : (Piece.whole written.code).cut? ';' = none :=
      Piece.cut?_of_not_mem written.not_mem_code
    rw [chars_eq, Statement.separateComment, uncut]
    rfl
  · have chars_eq : written.chars = written.code ++ ';' :: text := by simp [chars, commented]
    rw [chars_eq, Statement.separateComment, Piece.whole, Piece.cut?_append written.not_mem_code]
    rfl

theorem separateLabel_eq :
    Statement.separateLabel (Piece.whole written.code) =
      .ok (written.labelPiece,
        { start := byteLength written.gap.1
          chars := written.gap.2.chars ++
            ((written.instruction.map WrittenInstruction.chars).getD [] ++
              written.trail.chars) }) := by
  have visible : isBlank ':' = false := rfl
  rcases labelled : written.label with _ | label
  · have code_eq : written.code = written.lead.chars ++
        ((written.instruction.map WrittenInstruction.chars).getD [] ++ written.trail.chars) := by
      simp [code, front, labelled]
    have bare : ':' ∉ written.code := by
      have instruction : ':' ∉ (written.instruction.map WrittenInstruction.chars).getD [] := by
        rcases written.instruction with _ | instruction
        · simp
        · exact instruction.not_mem_chars (.inr rfl)
      simp [code_eq, written.lead.not_mem visible, written.trail.not_mem visible, instruction]
    have uncut : (Piece.whole written.code).cut? ':' = none := Piece.cut?_of_not_mem bare
    rw [Statement.separateLabel, uncut]
    simp [labelPiece, gap, labelled, code_eq, Piece.whole]
  · have code_eq : written.code =
        written.lead.chars ++ label.name ++ label.before.chars ++ ':' :: (label.after.chars ++
          ((written.instruction.map WrittenInstruction.chars).getD [] ++ written.trail.chars)) := by
      simp [code, front, labelled, WrittenLabel.chars]
    have token := Label.isToken_of_named label.named
    have bare : ':' ∉ written.lead.chars ++ label.name ++ label.before.chars := by
      simp [written.lead.not_mem visible, token.not_mem (c := ':') rfl,
        label.before.not_mem visible]
    have name : (Piece.whole (written.lead.chars ++ label.name ++ label.before.chars)).trim =
        { start := byteLength written.lead.chars, chars := label.name } := by
      rw [Piece.whole, Piece.trim_append _ written.lead.blank token.nonempty
        (fun _ => token.isBlank_of_head?) (fun _ => token.isBlank_of_getLast?) label.before.blank,
        Nat.zero_add]
    rw [code_eq, Statement.separateLabel_append bare, name, label.named]
    simp [labelPiece, gap, labelled, Nat.add_assoc]

theorem separateInstruction_eq :
    Statement.separateInstruction
        { start := byteLength written.gap.1
          chars := written.gap.2.chars ++
            ((written.instruction.map WrittenInstruction.chars).getD [] ++ written.trail.chars) } =
      .ok (written.wordPiece, written.operandPieces) := by
  rcases instructed : written.instruction with _ | instruction
  · have blank : Piece.isBlank
        { start := byteLength written.gap.1
          chars := written.gap.2.chars ++ ([] ++ written.trail.chars) } = true := by
      simpa [Piece.isBlank] using ⟨written.gap.2.blank, written.trail.blank⟩
    rw [Option.map_none, Option.getD_none, Statement.separateInstruction, if_pos blank]
    simp [wordPiece, operandPieces, instructed]
  · obtain ⟨body, ends, parts⟩ := instruction.exists_isWritten written.trail
    rw [Option.map_some, Option.getD_some, parts.separateInstruction_eq, gap_eq]
    simp [wordPiece, operandPieces, instructed]

variable {written} in
/-- The span of a line goes from its first character that is not blank to its last one. -/
theorem trim_code_of_core (core ends : List Char)
    (split : written.code = written.lead.chars ++ core ++ ends) (nonempty : core ≠ [])
    (first : ∀ c, core.head? = some c → isBlank c = false)
    (last : ∀ c, core.getLast? = some c → isBlank c = false)
    (blank : ∀ c ∈ ends, isBlank c = true)
    (stop : written.stops.getLast? = some (byteLength (written.lead.chars ++ core))) :
    (Piece.whole written.code).trim.span = written.span := by
  rw [split, Piece.whole, Piece.trim_append _ written.lead.blank nonempty first last blank, span,
    stop]
  simp [Piece.span, Piece.stop]

variable {written} in
theorem trim_code_of_none (instructed : written.instruction = none) :
    (Piece.whole written.code).trim.span = written.span := by
  rcases labelled : written.label with _ | label
  · have blank : ∀ c ∈ written.code, isBlank c = true := by
      intro c member
      simp only [code, front, labelled, instructed, Option.map_none, Option.getD_none,
        List.append_nil, List.mem_append] at member
      rcases member with lead | trail
      · exact written.lead.blank c lead
      · exact written.trail.blank c trail
    have none : written.stops = [] := by
      simp [stops, wordPiece, operandPieces, labelled, instructed]
    have all : written.code.takeWhile isBlank = written.code := List.takeWhile_eq_self_iff.2 blank
    rw [span, none, Piece.trim, Piece.whole, all, Text.trim_of_isBlank (List.all_eq_true.2 blank)]
    simp [Piece.span, Piece.stop]
  · refine trim_code_of_core (label.name ++ label.before.chars ++ [':'])
      (label.after.chars ++ written.trail.chars) ?_ (by simp) ?_ ?_ ?_ ?_
    · simp [code, front, labelled, instructed, WrittenLabel.chars]
    · intro c first
      rw [List.append_assoc] at first
      exact label.isBlank_of_head? _ first
    · intro c last
      rw [List.getLast?_concat] at last
      obtain rfl := Option.some.inj last
      rfl
    · intro c member
      rcases List.mem_append.1 member with after | trail
      · exact label.after.blank c after
      · exact written.trail.blank c trail
    · simp [stops, wordPiece, operandPieces, labelled, instructed]

variable {written} in
theorem trim_code_of_some {instruction : WrittenInstruction}
    (instructed : written.instruction = some instruction) :
    (Piece.whole written.code).trim.span = written.span := by
  obtain ⟨body, ends, parts⟩ := instruction.exists_isWritten written.trail
  have nonempty : instruction.word ++ body ≠ [] := by simp [instruction.word_ne_nil]
  refine trim_code_of_core
    ((written.label.map WrittenLabel.chars).getD [] ++ (instruction.word ++ body)) ends
    ?_ (by simp [instruction.word_ne_nil]) ?_ ?_ parts.ends_blank ?_
  · have split := parts.split
    simp [code, front, instructed, split]
  · intro c first
    rcases labelled : written.label with _ | label
    · rw [labelled] at first
      exact instruction.isBlank_of_head? body first
    · rw [labelled, Option.map_some, Option.getD_some, WrittenLabel.chars, List.append_assoc,
        List.append_assoc] at first
      exact label.isBlank_of_head? _ first
  · intro c last
    rw [List.getLast?_append_of_ne_nil _ nonempty] at last
    exact parts.last_visible c last
  · have word : byteLength written.front + byteLength (instruction.word.map Char.toUpper) =
        byteLength (written.front ++ instruction.word) := by
      rw [Text.byteLength_map_toUpper, Text.byteLength_append]
    simp only [stops, wordPiece, operandPieces, instructed, Option.map_some, Option.toList_some,
      List.map_cons, List.map_nil, Piece.stop, word, List.append_assoc, List.singleton_append]
    rw [List.getLast?_append_of_ne_nil _ (List.cons_ne_nil _ _)]
    have stop := parts.stop (written.front ++ instruction.word)
    simpa [front] using stop

theorem trim_code : (Piece.whole written.code).trim.span = written.span := by
  rcases instructed : written.instruction with _ | instruction
  · exact trim_code_of_none instructed
  · exact trim_code_of_some instructed

/-- Parsing a written line separates its parts. -/
theorem parse_parts (number : Nat) :
    Statement.parse number written.chars =
      .ok
        { line := number
          label := written.labelPiece
          mnemonic := written.wordPiece
          operands := written.operandPieces
          comment := written.comment.map fun text => String.ofList (Text.trim text)
          span := (Piece.whole written.code).trim.span } :=
  Statement.parse_of_parts number written.separateComment_eq written.separateLabel_eq
    written.separateInstruction_eq

/-- The operands, without their places. -/
def operandTexts : List (List Char) :=
  match written.instruction with
  | none => []
  | some instruction => instruction.operands.map WrittenOperand.text

theorem map_chars_operandPieces : written.operandPieces.map Piece.chars = written.operandTexts := by
  rw [operandPieces, operandTexts]
  split
  · rfl
  · exact map_chars_placed _ _

/-- A written line says its parts. -/
theorem says_chars :
    label? written.chars = written.label.map WrittenLabel.name ∧
      word? written.chars =
        written.instruction.map (List.map Char.toUpper ∘ WrittenInstruction.word) ∧
      operands written.chars = written.operandTexts := by
  have reads := Statement.reads_parse 1 written.chars
  rw [written.parse_parts] at reads
  cases reads with
  | statement _ _ _ label mnemonic operands =>
    rw [← label, ← mnemonic, ← operands, labelPiece, wordPiece, map_chars_operandPieces,
      Option.map_map, Option.map_map]
    exact ⟨rfl, rfl, rfl⟩

/-- A written line is parsed into its parts, with their places. -/
theorem parse_chars (number : Nat) :
    Statement.parse number written.chars = .ok (written.statement number) := by
  rw [written.parse_parts, trim_code]
  rfl

end Written

/-! ### Instructions made of tokens -/

def Blanks.none : Blanks := ⟨[], by simp⟩

def Blanks.space : Blanks := ⟨[' '], by simp [isBlank, Text.blankRanges]⟩

/-- A token as an operand with nothing behind it. -/
def WrittenOperand.ofToken (before : Blanks) (chars : List Char) (token : IsToken chars) :
    WrittenOperand where
  before := before
  text := chars
  after := .none
  text_ne_nil := token.nonempty
  starts _ := token.isBlank_of_head?
  ends _ := token.isBlank_of_getLast?
  plain c member := (Text.isPlain_iff.1 (token.plain c member)).2

/-- Tokens can be written as operands after a word, with nothing but a space in front of them. -/
theorem exists_operands_of_tokens {texts : List (List Char)}
    (listed : ∀ text ∈ texts, IsToken text) :
    ∃ operands : List WrittenOperand,
      operandChars operands = Text.operandText texts ∧
      operands.map WrittenOperand.text = texts ∧
      ∀ first, operands.head? = some first → first.before.chars ≠ [] := by
  rcases texts with _ | ⟨first, rest⟩
  · exact ⟨[], rfl, rfl, by simp⟩
  · obtain ⟨token, tokens⟩ := List.forall_mem_cons.1 listed
    refine ⟨.ofToken .space first token :: rest.pmap (.ofToken .none) tokens, ?_, ?_, ?_⟩
    · -- The space in front belongs to the first operand.
      have items : (rest.pmap (WrittenOperand.ofToken .none) tokens).map WrittenOperand.chars =
          rest := by
        rw [List.map_pmap]
        simp [WrittenOperand.chars, WrittenOperand.ofToken, Blanks.none]
      rw [operandChars, List.map_cons, items, Text.operandText, if_neg (List.cons_ne_nil _ _)]
      cases rest <;> simp [WrittenOperand.chars, WrittenOperand.ofToken, Blanks.none, Blanks.space]
    · rw [List.map_cons, List.map_pmap]
      simp [WrittenOperand.ofToken]
    · rintro _ ⟨⟩
      exact List.cons_ne_nil _ _

end Line

/-- A word with operands that are all tokens is taken apart into the word, in upper case, and the
operands. -/
theorem Statement.parse_instructionText {word : List Char} {operands : List (List Char)}
    (number : Nat) (named : Text.IsToken word)
    (listed : ∀ operand ∈ operands, Text.IsToken operand) :
    ∃ statement, parse number (Text.instructionText word operands) = .ok statement ∧
      statement.label = none ∧
      statement.mnemonic.map Piece.text = some (Text.upper (String.ofList word)) ∧
      statement.operandTexts = operands.map String.ofList := by
  obtain ⟨items, chars, texts, apart⟩ := Line.exists_operands_of_tokens listed
  have solid : ∀ c ∈ word, Text.isBlank c = false ∧ c ≠ ';' ∧ c ≠ ':' := by
    intro c member
    obtain ⟨visible, _, apart⟩ := Text.isPlain_iff.1 (named.plain c member)
    exact ⟨visible, apart⟩
  let written : Line.Written :=
    { lead := .none
      label := none
      instruction := some { word, word_ne_nil := named.nonempty, solid, operands := items, apart }
      trail := .none
      comment := none }
  have chars_eq : written.chars = Text.instructionText word operands := by
    simp [written, Line.Written.chars, Line.Written.code, Line.Written.front,
      Line.WrittenInstruction.chars, Line.Blanks.none, Text.instructionText, chars]
  rw [← chars_eq, written.parse_parts]
  refine ⟨_, rfl, rfl, ?_, ?_⟩
  · rw [Text.upper, String.toList_ofList]
    rfl
  · have pieces : written.operandPieces.map Piece.chars = operands :=
      written.map_chars_operandPieces.trans texts
    rw [operandTexts, ← pieces, List.map_map]
    rfl

end I8085
