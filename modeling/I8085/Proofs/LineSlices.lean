/-
Module: I8085.Proofs.LineSlices
Layer: Proofs
Purpose: Taking a line apart by byte offsets. A slice of a text is what stands between two offsets;
  there is none if an offset lies beyond the end or inside a character (`Text.slice?`). A line can
  be taken apart by slices alone, with the offsets computed from the lengths of other slices: every
  slice that this needs exists, and the answer is that of parsing (`Statement.ByOffsets.parse?_eq`).
  The parts of a statement are slices of the line, in the order in which they are written, and a
  line is refused exactly for what stands before its colon or for a blank operand
  (`Statement.parse_sliced`).
Imports: I8085.Proofs.LineReading
Main exports: Text.slice?, Text.slice?_eq_some_iff, Piece.Within, Piece.Within.slice?_eq,
  Statement.ByOffsets.parse?, Statement.ByOffsets.parse?_eq, Statement.StandsIn,
  Statement.standsIn_of_parse, Line.Mislabelled, Line.LacksOperand, Statement.parse_sliced
-/
import I8085.Proofs.LineReading

namespace I8085

/-! ### Slices -/

namespace Text

/-- The text in front of a byte offset and the text behind it, unless the offset lies beyond the end
or inside a character. -/
def cutAt? : Nat → List Char → Option (List Char × List Char)
  | 0, chars => some ([], chars)
  | _ + 1, [] => none
  | offset + 1, c :: rest =>
      if offset + 1 < c.utf8Size then none
      else (cutAt? (offset + 1 - c.utf8Size) rest).map fun (before, after) => (c :: before, after)

/-- The text between two byte offsets, if there is one. -/
def slice? (chars : List Char) (span : Span) : Option (List Char) :=
  (cutAt? span.stop chars).bind fun ends => (cutAt? span.start ends.1).map Prod.snd

variable {chars before text after : List Char} {span : Span} {offset : Nat}

theorem cutAt?_append (before after : List Char) :
    cutAt? (byteLength before) (before ++ after) = some (before, after) := by
  induction before with
  | nil => simp [cutAt?]
  | cons c before ih =>
    have size := c.utf8Size_pos
    obtain ⟨more, length⟩ : ∃ more, c.utf8Size + byteLength before = more + 1 :=
      ⟨c.utf8Size + byteLength before - 1, by omega⟩
    have left : more + 1 - c.utf8Size = byteLength before := by omega
    rw [byteLength_cons, List.cons_append, length, cutAt?, if_neg (by omega), left, ih]
    rfl

theorem cutAt?_eq_some_iff :
    cutAt? offset chars = some (before, after) ↔
      chars = before ++ after ∧ byteLength before = offset := by
  constructor
  · intro cut
    induction chars generalizing offset before with
    | nil =>
      cases offset with
      | zero =>
        rw [cutAt?, Option.some.injEq, Prod.mk.injEq] at cut
        obtain ⟨rfl, rfl⟩ := cut
        exact ⟨rfl, rfl⟩
      | succ offset => cases cut
    | cons c rest ih =>
      cases offset with
      | zero =>
        rw [cutAt?, Option.some.injEq, Prod.mk.injEq] at cut
        obtain ⟨rfl, rfl⟩ := cut
        exact ⟨rfl, rfl⟩
      | succ offset =>
        rw [cutAt?] at cut
        split at cut
        next => cases cut
        next reached =>
          obtain ⟨⟨front, behind⟩, later, same⟩ := Option.map_eq_some_iff.1 cut
          obtain ⟨rfl, rfl⟩ := Prod.mk.inj same
          obtain ⟨rfl, length⟩ := ih later
          refine ⟨rfl, ?_⟩
          rw [byteLength_cons, length]
          omega
  · rintro ⟨rfl, rfl⟩
    exact cutAt?_append before after

/-- A slice is a part of the text, and its ends are the lengths of what stands before them. -/
theorem slice?_eq_some_iff :
    slice? chars span = some text ↔
      ∃ before after, chars = before ++ text ++ after ∧ byteLength before = span.start ∧
        byteLength (before ++ text) = span.stop := by
  constructor
  · intro sliced
    obtain ⟨⟨front, after⟩, behind, rest⟩ := Option.bind_eq_some_iff.1 sliced
    obtain ⟨⟨before, _⟩, ahead, rfl⟩ := Option.map_eq_some_iff.1 rest
    obtain ⟨rfl, stop_eq⟩ := cutAt?_eq_some_iff.1 behind
    obtain ⟨rfl, start_eq⟩ := cutAt?_eq_some_iff.1 ahead
    exact ⟨before, after, rfl, start_eq, stop_eq⟩
  · rintro ⟨before, after, rfl, start_eq, stop_eq⟩
    rw [slice?, ← start_eq, ← stop_eq, cutAt?_append, Option.bind_some, cutAt?_append]
    rfl

theorem slice?_front (text after : List Char) :
    slice? (text ++ after) { start := 0, stop := byteLength text } = some text :=
  slice?_eq_some_iff.2 ⟨[], after, rfl, rfl, rfl⟩

theorem slice?_back (before text : List Char) :
    slice? (before ++ text) { start := byteLength before, stop := byteLength (before ++ text) } =
      some text :=
  slice?_eq_some_iff.2 ⟨before, [], (List.append_nil _).symm, rfl, rfl⟩

/-- The byte offset of the first character that passes a test. -/
def offset? (test : Char → Bool) : List Char → Option Nat
  | [] => none
  | c :: rest => if test c then some 0 else (offset? test rest).map (c.utf8Size + ·)

theorem offset?_append {c : Char} (absent : c ∉ before) (after : List Char) :
    offset? (· == c) (before ++ c :: after) = some (byteLength before) := by
  induction before with
  | nil => simp [offset?]
  | cons d before ih =>
    rw [List.mem_cons, not_or] at absent
    have apart : (d == c) = false := beq_eq_false_iff_ne.2 (Ne.symm absent.1)
    rw [List.cons_append, offset?, apart, ih absent.2]
    rfl

theorem offset?_of_not_mem {c : Char} (absent : c ∉ chars) : offset? (· == c) chars = none := by
  induction chars with
  | nil => rfl
  | cons d rest ih =>
    rw [List.mem_cons, not_or] at absent
    have apart : (d == c) = false := beq_eq_false_iff_ne.2 (Ne.symm absent.1)
    rw [offset?, apart, ih absent.2]
    rfl

/-- The offset of the first character that passes a test, or of the end, is the length of what
stands before it. -/
theorem getD_offset? (test : Char → Bool) (chars : List Char) :
    (offset? test chars).getD (byteLength chars) = byteLength (chars.takeWhile (!test ·)) := by
  induction chars with
  | nil => rfl
  | cons c rest ih =>
    rw [offset?, List.takeWhile_cons]
    by_cases passes : test c = true
    · simp [passes]
    · rw [if_neg passes, if_pos (by simpa using passes), byteLength_cons, byteLength_cons, ← ih]
      cases offset? test rest <;> rfl

/-- Where a text stands that begins at an offset, once it is trimmed. The end is found from behind,
and it is the start if the text is blank. -/
def trimmedSpan (offset : Nat) (chars : List Char) : Span :=
  let start := byteLength chars - byteLength (chars.dropWhile isBlank)
  let stop := byteLength (chars.reverse.dropWhile isBlank).reverse
  { start := offset + start, stop := offset + max stop start }

end Text

/-! ### Pieces within pieces -/

namespace Piece

open Text (byteLength)

/-- Whether a piece is a part of another one and stands where that part stands. -/
def Within (outer inner : Piece) : Prop :=
  ∃ before after, outer.chars = before ++ inner.chars ++ after ∧
    inner.start = outer.start + byteLength before

variable {outer middle inner piece before after : Piece} {separator : Char}

theorem Within.refl (piece : Piece) : piece.Within piece := ⟨[], [], by simp, rfl⟩

theorem Within.trans (first : outer.Within middle) (second : middle.Within inner) :
    outer.Within inner := by
  obtain ⟨before, after, split, start_eq⟩ := first
  obtain ⟨before', after', split', start_eq'⟩ := second
  refine ⟨before ++ before', after' ++ after, by simp [split, split'], ?_⟩
  rw [start_eq', start_eq, Text.byteLength_append, Nat.add_assoc]

theorem Within.start_le (within : outer.Within inner) : outer.start ≤ inner.start := by
  obtain ⟨before, after, _, start_eq⟩ := within
  omega

theorem Within.stop_le (within : outer.Within inner) : inner.stop ≤ outer.stop := by
  obtain ⟨before, after, split, start_eq⟩ := within
  rw [stop, stop, start_eq, split, Text.byteLength_append, Text.byteLength_append]
  omega

/-- What a piece says stands in the text at the place of the piece. -/
theorem Within.slice?_eq {chars : List Char} (within : (whole chars).Within piece) :
    Text.slice? chars piece.span = some piece.chars := by
  obtain ⟨before, after, split, start_eq⟩ := within
  rw [whole, Nat.zero_add] at start_eq
  refine Text.slice?_eq_some_iff.2 ⟨before, after, split, start_eq.symm, ?_⟩
  rw [Text.byteLength_append, ← start_eq]
  rfl

theorem within_trim (piece : Piece) : piece.Within piece.trim := by
  obtain ⟨trail, _, split⟩ := Text.exists_trail piece.chars
  exact ⟨_, trail, split, rfl⟩

/-- A piece is cut into a part in front of the separator and one behind it. -/
theorem within_of_cut? (cut : piece.cut? separator = some (before, after)) :
    piece.Within before ∧ piece.Within after ∧ before.stop ≤ after.start := by
  have whole := List.takeWhile_append_dropWhile (p := (· != separator)) (l := piece.chars)
  rw [cut?] at cut
  simp only at cut
  split at cut
  next => cases cut
  next found rest tail =>
    obtain ⟨rfl, rfl⟩ := Prod.mk.inj (Option.some.inj cut)
    rw [tail] at whole
    refine ⟨⟨[], found :: rest, whole.symm, rfl⟩,
      ⟨piece.chars.takeWhile (· != separator) ++ [found], [], ?_, ?_⟩, Nat.le_add_right _ _⟩
    · rw [List.append_nil, List.append_assoc]
      exact whole.symm
    · simp [stop, Nat.add_assoc]

theorem within_word_fst (piece : Piece) : piece.Within piece.word.1 :=
  ⟨[], _, List.takeWhile_append_dropWhile.symm, rfl⟩

theorem within_word_snd (piece : Piece) : piece.Within piece.word.2 :=
  ⟨_, [], by rw [List.append_nil]; exact List.takeWhile_append_dropWhile.symm, rfl⟩

theorem within_of_mem_split (member : inner ∈ piece.split separator) : piece.Within inner := by
  obtain ⟨index, placed⟩ := List.mem_iff_getElem?.1 member
  obtain ⟨earlier, ⟨⟨after, split, _⟩, _, _⟩, start_eq, _⟩ := exists_item_of_split placed
  exact ⟨earlier, after, split, start_eq⟩

/-- Runs that are placed one after another do not overlap. -/
theorem pairwise_place (separator : Char) (start : Nat) (runs : List (List Char)) :
    (∀ piece ∈ place separator start runs, start ≤ piece.start) ∧
      (place separator start runs).Pairwise fun first second => first.stop ≤ second.start := by
  induction runs generalizing start with
  | nil => exact ⟨by simp [place], List.Pairwise.nil⟩
  | cons run rest ih =>
    obtain ⟨later, ordered⟩ := ih (start + byteLength run + separator.utf8Size)
    rw [place]
    constructor
    · intro piece member
      rcases List.mem_cons.1 member with rfl | member
      · exact Nat.le_refl start
      · exact (by omega : start ≤ start + byteLength run + separator.utf8Size).trans
          (later piece member)
    · refine List.pairwise_cons.2 ⟨?_, ordered⟩
      intro piece member
      exact (Nat.le_add_right _ _).trans (later piece member)

theorem pairwise_split (piece : Piece) (separator : Char) :
    (piece.split separator).Pairwise fun first second => first.stop ≤ second.start :=
  (pairwise_place separator piece.start _).2

end Piece

/-! ### Taking apart by offsets -/

namespace Text

variable {chars : List Char}

theorem byteLength_eq_zero_iff : byteLength chars = 0 ↔ chars = [] := by
  cases chars with
  | nil => simp
  | cons c rest =>
    have size := c.utf8Size_pos
    simp only [byteLength_cons, reduceCtorEq, iff_false]
    omega

/-- The lengths of what is left by trimming give the place of the trimmed text. -/
theorem trimmedSpan_eq (offset : Nat) (chars : List Char) :
    trimmedSpan offset chars = ({ start := offset, chars } : Piece).trim.span := by
  obtain ⟨trail, blank, split⟩ := exists_trail chars
  have lead : byteLength chars - byteLength (chars.dropWhile isBlank) =
      byteLength (chars.takeWhile isBlank) := by
    have whole := congrArg byteLength (List.takeWhile_append_dropWhile (p := isBlank) (l := chars))
    rw [byteLength_append] at whole
    omega
  have stop : max (byteLength (chars.reverse.dropWhile isBlank).reverse)
      (byteLength (chars.takeWhile isBlank)) =
        byteLength (chars.takeWhile isBlank) + byteLength (trim chars) := by
    rcases filled : chars.all isBlank
    · -- From behind, only the blank characters at the end are dropped.
      have kept : (chars.reverse.dropWhile isBlank).reverse =
          chars.takeWhile isBlank ++ trim chars := by
        conv_lhs => rw [split]
        apply dropWhile_reverse_append ?_ blank
        intro c last
        rw [List.getLast?_append_of_ne_nil _ (trim_ne_nil filled)] at last
        exact isBlank_of_getLast?_trim last
      rw [kept, byteLength_append]
      omega
    · have none : chars.reverse.dropWhile isBlank = [] := by
        rw [List.dropWhile_eq_nil_iff]
        simpa using filled
      rw [none, trim_of_isBlank filled]
      simp
  rw [trimmedSpan, lead, stop, Piece.span, Piece.stop, Piece.trim, Nat.add_assoc]

end Text

/-- A piece is trimmed to no text at all exactly if it is blank. -/
theorem Piece.start_eq_stop_trim_iff {piece : Piece} :
    piece.trim.span.start = piece.trim.span.stop ↔ piece.isBlank = true := by
  rw [isBlank, ← Text.trim_eq_nil_iff, ← Text.byteLength_eq_zero_iff]
  exact Nat.left_eq_add

namespace Statement

/-! The steps of `parse`, on texts and offsets alone. Each of them answers `none` if a slice that it
needs does not exist. -/

namespace ByOffsets

open Text (byteLength isBlank offset? slice? split trim trimmedSpan)

/-- The code of a line and its comment. -/
def comment? (line : List Char) : Option (List Char × Option String) :=
  match offset? (· == ';') line with
  | none => some (line, none)
  | some place => do
      let code ← slice? line { start := 0, stop := place }
      let comment ← slice? line { start := place + 1, stop := byteLength line }
      return (code, some (String.ofList (trim comment)))

/-- The label of a code and the offset from which the instruction is looked for. -/
def label? (code : List Char) : Option (Except (Problem × Span) (Option Piece × Nat)) :=
  match offset? (· == ':') code with
  | none => some (.ok (none, 0))
  | some place => do
      let before ← slice? code { start := 0, stop := place }
      let span := trimmedSpan 0 before
      let name ← slice? code span
      match Label.defect? name with
      | some defect => return .error (.badLabel defect, span)
      | none => return .ok (some { start := span.start, chars := name }, place + 1)

/-- The operands in the items between commas, the first of which begins at an offset. -/
def operands? (code : List Char) (offset : Nat) :
    List (List Char) → Option (Except (Problem × Span) (List Piece))
  | [] => some (.ok [])
  | item :: rest =>
      let span := trimmedSpan offset item
      if span.start = span.stop then
        some (.error (.emptyOperand, { start := offset, stop := offset + byteLength item }))
      else do
        let text ← slice? code span
        let later ← operands? code (offset + byteLength item + 1) rest
        return later.map ({ start := span.start, chars := text } :: ·)

/-- The mnemonic and the operands in the code from an offset on. -/
def instruction? (code : List Char) (offset : Nat) :
    Option (Except (Problem × Span) (Option Piece × List Piece)) := do
  let rest ← slice? code { start := offset, stop := byteLength code }
  let span := trimmedSpan offset rest
  if span.start = span.stop then return .ok (none, [])
  let body ← slice? code span
  let length := (offset? isBlank body).getD (byteLength body)
  let word ← slice? body { start := 0, stop := length }
  let mnemonic : Piece := { start := span.start, chars := word.map Char.toUpper }
  let text ← slice? body { start := length, stop := byteLength body }
  if (trim text).isEmpty then return .ok (some mnemonic, [])
  let operands ← operands? code (span.start + length) (split ',' text)
  return operands.map fun operands => (some mnemonic, operands)

/-- The numbered line taken apart. -/
def parse? (number : Nat) (line : List Char) : Option (Except Diagnostic Statement) := do
  let (code, comment) ← comment? line
  match ← label? code with
  | .error (problem, span) => return .error { problem, line := number, span }
  | .ok (label, offset) =>
      match ← instruction? code offset with
      | .error (problem, span) => return .error { problem, line := number, span }
      | .ok (mnemonic, operands) =>
          return .ok
            { line := number, label, mnemonic, operands, comment, span := trimmedSpan 0 code }

theorem comment?_eq (line : List Char) :
    comment? line = some (Line.code line, (separateComment (Piece.whole line)).2) := by
  unfold Line.code
  by_cases present : ';' ∈ line
  · obtain ⟨after, split⟩ := Text.exists_takeWhile_append present
    have bare := Text.not_mem_takeWhile_bne ';' line
    generalize line.takeWhile (· != ';') = code at split bare
    subst split
    have one : ';'.utf8Size = 1 := rfl
    have behind : slice? (code ++ ';' :: after)
        { start := byteLength code + 1, stop := byteLength (code ++ ';' :: after) } =
          some after := by
      simpa [one] using Text.slice?_back (code ++ [';']) after
    rw [comment?, Text.offset?_append bare, separateComment, Piece.whole, Piece.cut?_append bare]
    simp only [Text.slice?_front code (';' :: after), behind]
    rfl
  · have uncut : (Piece.whole line).cut? ';' = none := Piece.cut?_of_not_mem present
    rw [comment?, Text.offset?_of_not_mem present, separateComment, uncut,
      Text.takeWhile_bne_of_not_mem present]

theorem label?_eq (code : List Char) :
    label? code = some ((separateLabel (Piece.whole code)).map fun (label, rest) =>
      (label, rest.start)) := by
  by_cases present : ':' ∈ code
  · obtain ⟨after, split⟩ := Text.exists_takeWhile_append present
    have bare := Text.not_mem_takeWhile_bne ':' code
    generalize code.takeWhile (· != ':') = before at split bare
    subst split
    have within : (Piece.whole (before ++ ':' :: after)).Within (Piece.whole before) :=
      ⟨[], ':' :: after, rfl, rfl⟩
    have name := (within.trans (Piece.whole before).within_trim).slice?_eq
    have span : trimmedSpan 0 before = (Piece.whole before).trim.span :=
      Text.trimmedSpan_eq 0 before
    have one : ':'.utf8Size = 1 := rfl
    rw [label?, Text.offset?_append bare, separateLabel_append bare, one, Nat.zero_add]
    simp only [Text.slice?_front before (':' :: after), span, name, Option.bind_eq_bind,
      Option.bind_some]
    cases Label.defect? (Piece.whole before).trim.chars <;> rfl
  · have uncut : (Piece.whole code).cut? ':' = none := Piece.cut?_of_not_mem present
    rw [label?, Text.offset?_of_not_mem present, separateLabel, uncut]
    rfl

/-- The operands are those of the items, if these stand where they are looked for. -/
theorem operands?_eq {code : List Char} {offset : Nat} {items : List (List Char)}
    (within : ∀ piece ∈ Piece.place ',' offset items, (Piece.whole code).Within piece) :
    operands? code offset items = some
      (match (Piece.place ',' offset items).find? Piece.isBlank with
      | some blank => .error (.emptyOperand, blank.span)
      | none => .ok ((Piece.place ',' offset items).map Piece.trim)) := by
  induction items generalizing offset with
  | nil => rfl
  | cons item rest ih =>
    have one : ','.utf8Size = 1 := rfl
    rw [Piece.place, List.forall_mem_cons, one] at within
    obtain ⟨here, later⟩ := within
    have name := (here.trans (Piece.within_trim _)).slice?_eq
    rw [operands?, Text.trimmedSpan_eq, Piece.place, one, List.find?_cons, List.map_cons, ih later,
      name]
    rcases blank : Piece.isBlank { start := offset, chars := item }
    · rw [if_neg (by simpa [Piece.start_eq_stop_trim_iff] using blank)]
      simp only [Option.bind_eq_bind, Option.bind_some]
      split <;> rfl
    · rw [if_pos (Piece.start_eq_stop_trim_iff.2 blank)]
      rfl

theorem instruction?_eq {code before chars : List Char} (split : code = before ++ chars) :
    instruction? code (byteLength before) =
      some (separateInstruction { start := byteLength before, chars }) := by
  obtain ⟨rest, rest_eq⟩ : ∃ rest : Piece, rest = { start := byteLength before, chars } := ⟨_, rfl⟩
  have within : (Piece.whole code).Within rest := by
    refine ⟨before, [], ?_, ?_⟩
    · rw [rest_eq, List.append_nil]
      exact split
    · rw [rest_eq]
      exact (Nat.zero_add _).symm
  have behind : slice? code { start := byteLength before, stop := byteLength code } =
      some rest.chars := by
    rw [rest_eq, split]
    exact Text.slice?_back before chars
  have span : trimmedSpan (byteLength before) rest.chars = rest.trim.span := by
    rw [rest_eq]
    exact Text.trimmedSpan_eq (byteLength before) chars
  rw [instruction?, behind, ← rest_eq, separateInstruction]
  simp only [Option.bind_eq_bind, Option.bind_some, span]
  rcases blank : rest.isBlank
  · rw [if_neg (by simpa [Piece.start_eq_stop_trim_iff] using blank)]
    have body := (within.trans rest.within_trim).slice?_eq
    have whole : rest.trim.word.1.chars ++ rest.trim.word.2.chars = rest.trim.chars :=
      List.takeWhile_append_dropWhile
    have length : (offset? isBlank rest.trim.chars).getD (byteLength rest.trim.chars) =
        byteLength rest.trim.word.1.chars := Text.getD_offset? isBlank rest.trim.chars
    have word := Text.slice?_front rest.trim.word.1.chars rest.trim.word.2.chars
    have text := Text.slice?_back rest.trim.word.1.chars rest.trim.word.2.chars
    rw [whole] at word text
    simp only [body, Option.bind_some, length, word, text]
    unfold separateOperands
    rcases none : rest.trim.word.2.isBlank
    · have text_within := (within.trans rest.within_trim).trans rest.trim.within_word_snd
      have items_within : ∀ piece ∈ rest.trim.word.2.split ',', (Piece.whole code).Within piece :=
        fun piece member => text_within.trans (Piece.within_of_mem_split member)
      have items := operands?_eq items_within
      have filled : trim rest.trim.word.2.chars ≠ [] := Text.trim_ne_nil none
      have offset : rest.trim.span.start + byteLength rest.trim.word.1.chars =
        rest.trim.word.2.start := rfl
      rw [if_neg (by simpa using filled), offset, items]
      rfl
    · have empty : trim rest.trim.word.2.chars = [] := Text.trim_of_isBlank none
      rw [if_pos (by simp [empty])]
      rfl
  · rw [if_pos (Piece.start_eq_stop_trim_iff.2 blank)]
    rfl

/-- A line can be taken apart by slices, and it is taken apart as by parsing. -/
theorem parse?_eq (number : Nat) (line : List Char) :
    parse? number line = some (parse number line) := by
  have answer := separated_parse number line
  generalize parse number line = parsed at answer
  rw [parse?, comment?_eq]
  simp only [Option.bind_eq_bind, Option.bind_some, label?_eq]
  cases answer with
  | badLabel labelled =>
    rw [separateComment_whole] at labelled
    rw [Line.code, labelled]
    rfl
  | @badInstruction _ rest _ _ labelled instructed =>
    rw [separateComment_whole] at labelled
    obtain ⟨before, split, start_eq, _⟩ := exists_label labelled
    have separated := instruction?_eq split
    rw [← start_eq, instructed] at separated
    simp only [Line.code, labelled, Except.map, Option.bind_some, separated]
    rfl
  | @statement _ _ rest _ labelled instructed =>
    rw [separateComment_whole] at labelled
    obtain ⟨before, split, start_eq, _⟩ := exists_label labelled
    have separated := instruction?_eq split
    rw [← start_eq, instructed] at separated
    simp only [Line.code, labelled, Except.map, Option.bind_some, separated, Text.trimmedSpan_eq,
      separateComment_whole]
    rfl

end ByOffsets

end Statement

/-! ### Where the parts stand -/

namespace Text

/-- Blank characters at the start of a text end before the first character that is not blank. -/
theorem exists_append_of_blank {lead body front rest : List Char}
    (same : lead ++ body = front ++ rest) (blank : ∀ c ∈ lead, isBlank c = true)
    (visible : ∀ c, rest.head? = some c → isBlank c = false) :
    ∃ more, front = lead ++ more ∧ body = more ++ rest := by
  rcases List.append_eq_append_iff.1 same with
    ⟨more, front_eq, body_eq⟩ | ⟨excess, lead_eq, rest_eq⟩
  · exact ⟨more, front_eq, body_eq⟩
  · cases excess with
    | nil => exact ⟨[], by simpa using lead_eq.symm, by simpa using rest_eq.symm⟩
    | cons c excess =>
      have seen := visible c (by rw [rest_eq]; rfl)
      rw [blank c (by simp [lead_eq])] at seen
      cases seen

end Text

namespace Piece

open Text (byteLength)

variable {outer inner : Piece}

/-- A part that is not blank lies within what is left by trimming, once it is trimmed itself. -/
theorem Within.trim (within : outer.Within inner) (filled : inner.isBlank = false) :
    outer.trim.Within inner.trim := by
  obtain ⟨before, after, split, start_eq⟩ := within
  obtain ⟨trail, trail_blank, outer_split⟩ := Text.exists_trail outer.chars
  obtain ⟨trail', _, inner_split⟩ := Text.exists_trail inner.chars
  have nonempty : inner.trim.chars ≠ [] := Text.trim_ne_nil filled
  have cut : outer.chars.takeWhile Text.isBlank ++ (outer.trim.chars ++ trail) =
      (before ++ inner.chars.takeWhile Text.isBlank) ++
        (inner.trim.chars ++ (trail' ++ after)) := by
    conv_lhs at split => rw [outer_split]
    conv_rhs at split => rw [inner_split]
    simpa [Piece.trim] using split
  -- The blank characters in front of the outer piece end before the inner one begins, and those
  -- behind it begin after the inner one ends.
  have first_visible : ∀ c, (inner.trim.chars ++ (trail' ++ after)).head? = some c →
      Text.isBlank c = false := by
    intro c first
    rw [List.head?_append_of_ne_nil _ nonempty] at first
    exact Text.isBlank_of_head?_trim first
  obtain ⟨ahead, ahead_eq, rest⟩ :=
    Text.exists_append_of_blank cut (fun c => List.mem_takeWhile_imp) first_visible
  have behind : trail.reverse ++ outer.trim.chars.reverse =
      (trail' ++ after).reverse ++ (ahead ++ inner.trim.chars).reverse := by
    rw [← List.reverse_append, rest, ← List.reverse_append, List.append_assoc]
  have last_visible : ∀ c, (ahead ++ inner.trim.chars).reverse.head? = some c →
      Text.isBlank c = false := by
    intro c last
    rw [List.head?_reverse, List.getLast?_append_of_ne_nil _ nonempty] at last
    exact Text.isBlank_of_getLast?_trim last
  obtain ⟨past, _, body⟩ :=
    Text.exists_append_of_blank behind (by simpa using trail_blank) last_visible
  refine ⟨ahead, past.reverse, ?_, ?_⟩
  · rw [← List.reverse_inj, body]
    simp
  · have lengths := congrArg byteLength ahead_eq
    rw [Text.byteLength_append, Text.byteLength_append] at lengths
    change inner.start + _ = outer.start + _ + _
    omega

end Piece

namespace Statement

open Text (slice? byteLength)

/-- The places of the parts, from left to right. -/
def spans (statement : Statement) : List Span :=
  (statement.label.toList ++ statement.mnemonic.toList ++ statement.operands).map Piece.span

/-- What it is for a statement to stand in a line. -/
structure StandsIn (statement : Statement) (line : List Char) : Prop where
  label : ∀ piece, statement.label = some piece → slice? line piece.span = some piece.chars
  mnemonic : ∀ piece, statement.mnemonic = some piece →
    ∃ word, slice? line piece.span = some word ∧ piece.chars = word.map Char.toUpper
  operands : ∀ piece ∈ statement.operands, slice? line piece.span = some piece.chars
  ordered : statement.spans.Pairwise fun first second => first.stop ≤ second.start
  inside : ∀ span ∈ statement.spans,
    statement.span.start ≤ span.start ∧ span.stop ≤ statement.span.stop
  code : ∃ text, slice? line statement.span = some text
  uncommented : statement.span.stop ≤ byteLength (Line.code line)

variable {number : Nat} {line : List Char}

theorem within_of_separateLabel {code rest : Piece} {label : Option Piece}
    (separated : separateLabel code = .ok (label, rest)) :
    code.Within rest ∧
      ∀ piece, label = some piece → code.trim.Within piece ∧ piece.stop ≤ rest.start := by
  unfold separateLabel at separated
  split at separated
  next =>
    obtain ⟨rfl, rfl⟩ := Prod.mk.inj (Except.ok.inj separated)
    refine ⟨.refl code, ?_⟩
    rintro piece ⟨⟩
  next before after cut =>
    obtain ⟨within, behind, ordered⟩ := Piece.within_of_cut? cut
    split at separated
    next => cases separated
    next named =>
      obtain ⟨rfl, rfl⟩ := Prod.mk.inj (Except.ok.inj separated)
      refine ⟨behind, ?_⟩
      rintro piece ⟨⟩
      have filled : before.isBlank = false := by
        by_contra blank
        have empty : before.trim.chars = [] := Text.trim_of_isBlank (Bool.of_not_eq_false blank)
        rw [empty] at named
        cases named
      exact ⟨within.trim filled, before.within_trim.stop_le.trans ordered⟩

theorem within_of_separateOperands {text : Piece} {operands : List Piece}
    (separated : separateOperands text = .ok operands) :
    (∀ piece ∈ operands, text.Within piece) ∧
      operands.Pairwise fun first second => first.stop ≤ second.start := by
  unfold separateOperands at separated
  split at separated
  next =>
    obtain rfl := Except.ok.inj separated
    exact ⟨fun piece member => absurd member List.not_mem_nil, List.Pairwise.nil⟩
  next =>
    simp only at separated
    split at separated
    next => cases separated
    next =>
      obtain rfl := Except.ok.inj separated
      constructor
      · intro piece member
        obtain ⟨item, listed, rfl⟩ := List.mem_map.1 member
        exact (Piece.within_of_mem_split listed).trans item.within_trim
      · refine List.Pairwise.map _ ?_ (text.pairwise_split ',')
        intro first second ordered
        exact first.within_trim.stop_le.trans (ordered.trans second.within_trim.start_le)

/-- An instruction stands in the rest of a code, its word in front of its operands. -/
theorem within_of_separateInstruction {code rest : Piece} {mnemonic : Option Piece}
    {operands : List Piece} (within : code.Within rest)
    (separated : separateInstruction rest = .ok (mnemonic, operands)) :
    (∀ piece, mnemonic = some piece → ∃ word, piece = word.upper ∧ code.trim.Within word ∧
      rest.start ≤ word.start ∧ ∀ operand ∈ operands, word.stop ≤ operand.start) ∧
    (∀ operand ∈ operands, code.trim.Within operand ∧ rest.start ≤ operand.start) ∧
    operands.Pairwise fun first second => first.stop ≤ second.start := by
  unfold separateInstruction at separated
  split at separated
  next =>
    obtain ⟨rfl, rfl⟩ := Prod.mk.inj (Except.ok.inj separated)
    refine ⟨?_, fun operand member => absurd member List.not_mem_nil, List.Pairwise.nil⟩
    rintro piece ⟨⟩
  next filled =>
    rcases listed : separateOperands rest.trim.word.2 with e | pieces
    · simp [listed, Except.map] at separated
    · simp only [listed, Except.map, Except.ok.injEq, Prod.mk.injEq] at separated
      obtain ⟨rfl, rfl⟩ := separated
      obtain ⟨inside, ordered⟩ := within_of_separateOperands listed
      have body := within.trim (Bool.eq_false_iff.2 filled)
      have begins := rest.within_trim.start_le
      refine ⟨?_, ?_, ordered⟩
      · rintro piece ⟨⟩
        exact ⟨rest.trim.word.1, rfl, body.trans rest.trim.within_word_fst, begins,
          fun operand member => (inside operand member).start_le⟩
      · intro operand member
        have here := rest.trim.within_word_snd.trans (inside operand member)
        exact ⟨body.trans here, begins.trans here.start_le⟩

/-- Parts are in order if the label ends and the others begin at some place between them. -/
theorem pairwise_parts {label mnemonic : Option Piece} {operands : List Piece} {middle : Nat}
    (labels : ∀ piece, label = some piece → piece.stop ≤ middle)
    (words : ∀ piece, mnemonic = some piece →
      middle ≤ piece.start ∧ ∀ operand ∈ operands, piece.stop ≤ operand.start)
    (behind : ∀ operand ∈ operands, middle ≤ operand.start)
    (ordered : operands.Pairwise fun first second => first.stop ≤ second.start) :
    (label.toList ++ mnemonic.toList ++ operands).Pairwise
      fun first second => first.stop ≤ second.start := by
  have alone (part : Option Piece) :
      part.toList.Pairwise fun first second => first.stop ≤ second.start := by
    cases part <;> simp
  refine List.pairwise_append.2
    ⟨List.pairwise_append.2 ⟨alone label, alone mnemonic, ?_⟩, ordered, ?_⟩
  · intro piece first word second
    exact (labels piece (Option.mem_toList.1 first)).trans
      (words word (Option.mem_toList.1 second)).1
  · intro piece earlier operand member
    rcases List.mem_append.1 earlier with first | second
    · exact (labels piece (Option.mem_toList.1 first)).trans (behind operand member)
    · exact (words piece (Option.mem_toList.1 second)).2 operand member

/-- The parts of a statement are slices of the line that it was parsed from. -/
theorem standsIn_of_parse {statement : Statement} (parsed : parse number line = .ok statement) :
    statement.StandsIn line := by
  have answer := separated_parse number line
  rw [parsed] at answer
  cases answer with
  | @statement label mnemonic rest operands labelled instructed =>
    have coded : (Piece.whole line).Within (Piece.whole (Line.code line)) :=
      ⟨[], line.dropWhile (· != ';'), List.takeWhile_append_dropWhile.symm, rfl⟩
    rw [separateComment_whole] at labelled ⊢
    obtain ⟨remains, named⟩ := within_of_separateLabel labelled
    obtain ⟨worded, inside, ordered⟩ := within_of_separateInstruction remains instructed
    have code := coded.trans (Piece.whole (Line.code line)).within_trim
    constructor
    case label =>
      intro piece present
      exact (code.trans (named piece present).1).slice?_eq
    case mnemonic =>
      intro piece present
      obtain ⟨word, rfl, within, _⟩ := worded piece present
      exact ⟨word.chars, by rw [Piece.span_upper]; exact (code.trans within).slice?_eq, rfl⟩
    case operands =>
      intro piece member
      exact (code.trans (inside piece member).1).slice?_eq
    case ordered =>
      refine List.Pairwise.map Piece.span (fun first second => id)
        (pairwise_parts (fun piece present => (named piece present).2) ?_
          (fun operand member => (inside operand member).2) ordered)
      intro piece present
      obtain ⟨word, rfl, _, begins, ends⟩ := worded piece present
      have stop_eq : word.upper.stop = word.stop := congrArg Span.stop (Piece.span_upper word)
      exact ⟨begins, fun operand member => stop_eq.trans_le (ends operand member)⟩
    case inside =>
      intro span member
      obtain ⟨piece, listed, rfl⟩ := List.mem_map.1 member
      rcases List.mem_append.1 listed with earlier | operand
      · rcases List.mem_append.1 earlier with first | second
        · have within := (named piece (Option.mem_toList.1 first)).1
          exact ⟨within.start_le, within.stop_le⟩
        · obtain ⟨word, rfl, within, _⟩ := worded piece (Option.mem_toList.1 second)
          rw [Piece.span_upper]
          exact ⟨within.start_le, within.stop_le⟩
      · have within := (inside piece operand).1
        exact ⟨within.start_le, within.stop_le⟩
    case code => exact ⟨_, code.slice?_eq⟩
    case uncommented =>
      have ends := (Piece.whole (Line.code line)).within_trim.stop_le
      exact ends.trans_eq (Nat.zero_add _)

end Statement

/-! ### When a line is refused -/

namespace Line

open Text (isBlank split trim)

/-- Whether the code of a line has a colon and what stands before the first one is no label name. -/
def Mislabelled (line : List Char) : Prop :=
  ':' ∈ code line ∧ ∃ defect, Label.defect? (trim ((code line).takeWhile (· != ':'))) = some defect

/-- Whether there is text after the operation word and nothing between two of its commas. -/
def LacksOperand (line : List Char) : Prop :=
  (arguments line).all isBlank = false ∧
    ∃ item ∈ split ',' (arguments line), item.all isBlank = true

theorem mislabelled_iff {line : List Char} :
    Mislabelled line ↔
      ∃ name defect, label? line = some name ∧ Label.defect? name = some defect := by
  unfold Mislabelled label?
  split
  next present => simp [present]
  next absent => simp [absent]

end Line

namespace Statement

/-- A line is refused for its label or, if there is nothing wrong with that, for an operand. -/
theorem exists_refusal_iff (number : Nat) (line : List Char) (kind : Problem.Kind) :
    (∃ refusal, parse number line = .error refusal ∧ refusal.problem.kind = kind) ↔
      (kind = .invalidLabel ∧ Line.Mislabelled line) ∨
      (kind = .syntaxError ∧ ¬Line.Mislabelled line ∧ Line.LacksOperand line) := by
  have lacking : Line.LacksOperand line ↔ [] ∈ Line.operands line := Line.nil_mem_operands_iff.symm
  have sound (named : ∀ name, Line.label? line = some name → Label.defect? name = none) :
      ¬Line.Mislabelled line := by
    rw [Line.mislabelled_iff]
    rintro ⟨name, defect, label, defective⟩
    rw [named name label] at defective
    cases defective
  have reads := reads_parse number line
  generalize parse number line = answer at reads
  cases reads with
  | badLabel span label defective =>
    have mislabelled := Line.mislabelled_iff.2 ⟨_, _, label, defective⟩
    simp [Problem.kind, mislabelled, eq_comm]
  | emptyOperand span named blank =>
    simp [Problem.kind, sound named, lacking.2 blank, eq_comm]
  | statement named filled =>
    simp [sound named, mt lacking.1 filled]

/-- Taking a line apart by slices never needs a slice that does not exist. The parts of a statement
are slices of the line in the order in which they are written, and a line is refused for a text
before the first colon that is no label name, or else for a blank operand. -/
theorem parse_sliced (number : Nat) (line : List Char) :
    ByOffsets.parse? number line = some (parse number line) ∧
      (∀ statement, parse number line = .ok statement → statement.StandsIn line) ∧
      ∀ kind, (∃ refusal, parse number line = .error refusal ∧ refusal.problem.kind = kind) ↔
        (kind = .invalidLabel ∧ Line.Mislabelled line) ∨
        (kind = .syntaxError ∧ ¬Line.Mislabelled line ∧ Line.LacksOperand line) :=
  ⟨ByOffsets.parse?_eq number line, fun _ => standsIn_of_parse, exists_refusal_iff number line⟩

end Statement

end I8085
