/-
Module: I8085.Proofs.TextSplitting
Layer: Proofs
Purpose: Cutting undoes joining. Pieces that are joined with a separator that none of them contains
  are what the text is split into (`Text.split_intercalate`), and lines that end in no carriage
  return are the lines of the text in which they are joined (`Text.lines_intercalate`). Trimming
  leaves a text alone whose ends are not blank.
Imports: I8085.Text.Piece, Mathlib.Data.List.Basic, Mathlib.Data.List.TakeWhile
Main exports: Text.intercalate_concat, Text.split_intercalate, Text.lines_intercalate,
  Text.trim_eq_self, Piece.map_chars_split, Piece.cut?_of_not_mem
-/
import I8085.Text.Piece
import Mathlib.Data.List.Basic
import Mathlib.Data.List.TakeWhile

namespace I8085

namespace Text

variable {separator : Char}

/-! ### Joining -/

/-- A last piece is joined with one more separator. -/
theorem intercalate_concat {pieces : List (List Char)} (some : pieces ≠ []) (last : List Char) :
    [separator].intercalate (pieces ++ [last]) =
      [separator].intercalate pieces ++ separator :: last := by
  induction pieces with
  | nil => exact absurd rfl some
  | cons first rest ih =>
    cases rest with
    | nil => simp
    | cons second rest =>
      have later := ih (List.cons_ne_nil second rest)
      rw [List.cons_append] at later
      rw [List.cons_append, List.cons_append, List.intercalate_cons_cons, later,
        List.intercalate_cons_cons]
      simp

/-- A character is in a joined text only as the separator or in a piece. -/
theorem not_mem_intercalate {c : Char} (apart : c ≠ separator) {pieces : List (List Char)}
    (absent : ∀ piece ∈ pieces, c ∉ piece) : c ∉ [separator].intercalate pieces := by
  induction pieces with
  | nil => exact List.not_mem_nil
  | cons first rest ih =>
    have later := ih fun piece member => absent piece (List.mem_cons_of_mem first member)
    have here := absent first List.mem_cons_self
    cases rest with
    | nil => rwa [List.intercalate_singleton]
    | cons second rest =>
      rw [List.intercalate_cons_cons]
      simp [here, apart, later]

/-! ### Splitting -/

theorem split_of_not_mem {chars : List Char} (absent : separator ∉ chars) :
    split separator chars = [chars] := by
  induction chars with
  | nil => rfl
  | cons c rest ih =>
    have apart : c ≠ separator := by
      rintro rfl
      exact absent List.mem_cons_self
    have later : separator ∉ rest := fun member => absent (List.mem_cons_of_mem c member)
    rw [split_cons, if_neg apart, ih later]
    rfl

theorem split_append {first : List Char} (absent : separator ∉ first) (rest : List Char) :
    split separator (first ++ separator :: rest) = first :: split separator rest := by
  induction first with
  | nil => rw [List.nil_append, split_cons, if_pos rfl]
  | cons c first ih =>
    have apart : c ≠ separator := by
      rintro rfl
      exact absent List.mem_cons_self
    have later : separator ∉ first := fun member => absent (List.mem_cons_of_mem c member)
    rw [List.cons_append, split_cons, if_neg apart, ih later]
    rfl

/-- Pieces without the separator are what the text is split into in which they are joined. -/
theorem split_intercalate {pieces : List (List Char)} (some : pieces ≠ [])
    (absent : ∀ piece ∈ pieces, separator ∉ piece) :
    split separator ([separator].intercalate pieces) = pieces := by
  induction pieces with
  | nil => exact absurd rfl some
  | cons first rest ih =>
    have here := absent first List.mem_cons_self
    cases rest with
    | nil => rw [List.intercalate_singleton, split_of_not_mem here]
    | cons second rest =>
      have later := ih (List.cons_ne_nil second rest) fun piece member =>
        absent piece (List.mem_cons_of_mem first member)
      rw [List.intercalate_cons_cons, List.append_assoc, List.singleton_append, split_append here,
        later]

/-! ### Lines -/

theorem dropReturn_of_ne {line : List Char} (last : line.getLast? ≠ some '\r') :
    dropReturn line = line := if_neg last

/-- Lines are what the text in which they are joined is cut into, if none of them is empty, has a
line feed or ends in a carriage return. -/
theorem lines_intercalate {joined : List (List Char)}
    (whole : ∀ line ∈ joined, line ≠ [] ∧ '\n' ∉ line ∧ line.getLast? ≠ some '\r') :
    lines (['\n'].intercalate joined) = joined := by
  rcases List.eq_nil_or_concat' joined with rfl | ⟨before, last, rfl⟩
  · rfl
  · have nonempty : before ++ [last] ≠ [] := List.append_ne_nil_of_right_ne_nil before (by simp)
    have cut : split '\n' (['\n'].intercalate (before ++ [last])) = before ++ [last] :=
      split_intercalate nonempty fun line member => (whole line member).2.1
    have kept : before.map dropReturn = before := by
      refine (List.map_congr_left ?_).trans (List.map_id before)
      intro line member
      exact dropReturn_of_ne (whole line (List.mem_append_left [last] member)).2.2
    have present : ¬last.isEmpty = true := by
      rw [List.isEmpty_iff]
      exact (whole last (by simp)).1
    rw [lines, cut, List.dropLast_concat, kept, List.getLast?_concat, Option.getD_some,
      if_neg present]

/-! ### Trimming -/

theorem dropWhile_isBlank_eq_self {chars : List Char}
    (first : ∀ c, chars.head? = some c → isBlank c = false) : chars.dropWhile isBlank = chars := by
  apply List.dropWhile_eq_self_iff.2
  intro below
  rw [first chars[0] (by rw [List.head?_eq_getElem?, List.getElem?_eq_getElem below])]
  exact Bool.false_ne_true

/-- A text whose ends are not blank is trimmed to itself. -/
theorem trim_eq_self {chars : List Char}
    (first : ∀ c, chars.head? = some c → isBlank c = false)
    (last : ∀ c, chars.getLast? = some c → isBlank c = false) : trim chars = chars := by
  rw [trim, dropWhile_isBlank_eq_self first, dropWhile_isBlank_eq_self, List.reverse_reverse]
  intro c ends
  exact last c (by rwa [← List.head?_reverse])

/-- A character that is not blank stays in front. -/
theorem exists_trim_cons {c : Char} (visible : isBlank c = false) (chars : List Char) :
    ∃ rest, trim (c :: chars) = c :: rest := by
  have stays (rest : List Char) : (c :: rest).dropWhile isBlank = c :: rest := by
    rw [List.dropWhile_cons, visible]
    rfl
  rw [trim, stays, List.reverse_cons, List.dropWhile_append, stays]
  split
  · exact ⟨[], rfl⟩
  · exact ⟨_, List.reverse_concat⟩

end Text

/-! ### Pieces -/

namespace Piece

theorem map_chars_place (separator : Char) (start : Nat) (runs : List (List Char)) :
    (place separator start runs).map chars = runs := by
  induction runs generalizing start with
  | nil => rfl
  | cons run rest ih => rw [place, List.map_cons, ih]

/-- The characters of the pieces are those of the split text. -/
theorem map_chars_split (piece : Piece) (separator : Char) :
    (piece.split separator).map chars = Text.split separator piece.chars :=
  map_chars_place separator piece.start (Text.split separator piece.chars)

/-- A piece without the separator is not cut. -/
theorem cut?_of_not_mem {piece : Piece} {separator : Char} (absent : separator ∉ piece.chars) :
    piece.cut? separator = none := by
  have rest : piece.chars.dropWhile (· != separator) = [] := by
    rw [List.dropWhile_eq_nil_iff]
    intro c member
    rw [bne_iff_ne]
    rintro rfl
    exact absent member
  rw [cut?, rest]

end Piece

end I8085
