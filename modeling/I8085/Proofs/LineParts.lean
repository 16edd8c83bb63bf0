/-
Module: I8085.Proofs.LineParts
Layer: Proofs
Purpose: Where the parts of a line stand. A line with an instruction consists of a label with its
  colon, a word, the text of the operands and a comment, with blank characters around the word and
  at the end of the code (`Text.InstructionLine`), and it does so in one way only
  (`Text.InstructionLine.unique`). An operand is an item between commas, which is known by the number
  of commas before it (`Text.IsItem.unique`). Parsing goes by pieces that carry their places, and
  every piece that it comes to has the characters and the place of such a part, the place being
  counted in bytes (`Statement.isOf_of_parse`, `Statement.refused_of_parse`).
Imports: I8085.Proofs.LineCleaning
Main exports: Text.byteLength_append, Text.append_inj_of_test, Text.IsItem, Text.IsItem.unique,
  Text.IsFirstBlank, Text.LabelText, Text.LabelText.unique, Text.InstructionLine,
  Text.exists_instructionLine, Text.InstructionLine.unique,
  Text.InstructionLine.exists_item_of_operandPieces,
  Piece.exists_item_of_split, Piece.exists_isFirstBlank_of_find?, Statement.IsOf,
  Statement.Refused, Statement.isOf_of_parse, Statement.refused_of_parse
-/
import I8085.Proofs.LineCleaning

namespace I8085

/-- Changing what succeeds keeps what fails. -/
theorem eq_error_of_map {ε α β : Type} {f : α → β} {answer : Except ε α} {e : ε}
    (failed : answer.map f = .error e) : answer = .error e := by
  cases answer with
  | error other =>
    obtain rfl := Except.error.inj failed
    rfl
  | ok value => cases failed

namespace Text

variable {separator : Char} {chars : List Char}

/-! ### Lengths in bytes -/

@[simp] theorem byteLength_nil : byteLength [] = 0 := rfl

@[simp] theorem byteLength_cons (c : Char) (chars : List Char) :
    byteLength (c :: chars) = c.utf8Size + byteLength chars := rfl

@[simp] theorem byteLength_append (first second : List Char) :
    byteLength (first ++ second) = byteLength first + byteLength second := by
  induction first with
  | nil => simp
  | cons c rest ih => rw [List.cons_append, byteLength_cons, ih, byteLength_cons, Nat.add_assoc]

/-! ### Letter case -/

/-- The code point of a lower-case letter and that of its upper-case form. -/
theorem toUpper_of_small {c : Char} (small : 'a'.val ≤ c.val ∧ c.val ≤ 'z'.val) :
    c.toUpper.val.toNat + 32 = c.val.toNat ∧ 97 ≤ c.val.toNat ∧ c.val.toNat ≤ 122 := by
  have value : c.toUpper.val = c.val + ('A'.val - 'a'.val) := by
    unfold Char.toUpper
    rw [dif_pos small]
  have shift : ('A'.val - 'a'.val).toNat = 2 ^ 32 - 32 := rfl
  have first : 97 ≤ c.val.toNat := small.1
  have last : c.val.toNat ≤ 122 := small.2
  rw [value, UInt32.toNat_add, shift]
  omega

theorem toUpper_of_not_small {c : Char} (large : ¬('a'.val ≤ c.val ∧ c.val ≤ 'z'.val)) :
    c.toUpper = c := dif_neg large

/-- A letter takes one byte in either case, and no other character is changed. -/
theorem utf8Size_toUpper (c : Char) : c.toUpper.utf8Size = c.utf8Size := by
  by_cases small : 'a'.val ≤ c.val ∧ c.val ≤ 'z'.val
  · obtain ⟨shift, first, last⟩ := toUpper_of_small small
    have one (c : Char) (low : c.val.toNat ≤ 127) : c.utf8Size = 1 := if_pos low
    rw [one c (by omega), one c.toUpper (by omega)]
  · rw [toUpper_of_not_small small]

theorem byteLength_map_toUpper (chars : List Char) :
    byteLength (chars.map Char.toUpper) = byteLength chars := by
  induction chars with
  | nil => rfl
  | cons c rest ih => rw [List.map_cons, byteLength_cons, byteLength_cons, utf8Size_toUpper, ih]

theorem toUpper_toUpper (c : Char) : c.toUpper.toUpper = c.toUpper := by
  by_cases small : 'a'.val ≤ c.val ∧ c.val ≤ 'z'.val
  · obtain ⟨shift, first, last⟩ := toUpper_of_small small
    apply toUpper_of_not_small
    rintro ⟨again, _⟩
    have still : 97 ≤ c.toUpper.val.toNat := again
    omega
  · rw [toUpper_of_not_small small, toUpper_of_not_small small]

theorem upper_upper (text : String) : upper (upper text) = upper text := by
  rw [upper, upper, String.toList_ofList, List.map_map]
  congr 1
  exact List.map_congr_left fun c _ => toUpper_toUpper c

/-! ### Trimming -/

/-- A text is what it is trimmed to, between blank characters. -/
theorem exists_trail (chars : List Char) :
    ∃ trail, (∀ c ∈ trail, isBlank c = true) ∧
      chars = chars.takeWhile isBlank ++ trim chars ++ trail := by
  refine ⟨((chars.dropWhile isBlank).reverse.takeWhile isBlank).reverse, ?_, ?_⟩
  · intro c member
    exact List.mem_takeWhile_imp (List.mem_reverse.1 member)
  · rw [trim, List.append_assoc, ← List.reverse_append, List.takeWhile_append_dropWhile,
      List.reverse_reverse, List.takeWhile_append_dropWhile]

/-- What is not blank is not trimmed off. -/
theorem trim_ne_nil (filled : chars.all isBlank = false) : trim chars ≠ [] := by
  intro empty
  obtain ⟨trail, blank, split⟩ := exists_trail chars
  obtain ⟨c, member, visible⟩ := List.all_eq_false.1 filled
  rw [empty, List.append_nil] at split
  rw [split, List.mem_append] at member
  rcases member with before | after
  · exact visible (List.mem_takeWhile_imp before)
  · exact visible (blank c after)

theorem isBlank_of_getLast?_trim {c : Char} (last : (trim chars).getLast? = some c) :
    isBlank c = false := by
  rw [trim, List.getLast?_reverse] at last
  have first := List.head?_dropWhile_not isBlank (chars.dropWhile isBlank).reverse
  rw [last] at first
  exact first

theorem isBlank_of_head?_trim {c : Char} (first : (trim chars).head? = some c) :
    isBlank c = false := by
  obtain ⟨trail, _, split⟩ := exists_trail chars
  have kept : chars.dropWhile isBlank = trim chars ++ trail := by
    have whole := List.takeWhile_append_dropWhile (p := isBlank) (l := chars)
    rw [List.append_assoc] at split
    exact List.append_cancel_left (whole.trans split)
  have begins := List.head?_dropWhile_not isBlank chars
  rw [kept, List.head?_append, first] at begins
  exact begins

/-! ### Cutting a text -/

/-- A text is cut in one way into characters that pass a test and a rest that begins with one that
does not. -/
theorem append_inj_of_test (test : Char → Bool) {front back front' back' : List Char}
    (same : front ++ back = front' ++ back') (passes : ∀ c ∈ front, test c = true)
    (stops : ∀ c, back.head? = some c → test c = false) (passes' : ∀ c ∈ front', test c = true)
    (stops' : ∀ c, back'.head? = some c → test c = false) : front = front' ∧ back = back' := by
  have cut {front back : List Char} (passes : ∀ c ∈ front, test c = true)
      (stops : ∀ c, back.head? = some c → test c = false) :
      (front ++ back).takeWhile test = front := by
    rw [List.takeWhile_append_of_pos passes]
    cases back with
    | nil => simp
    | cons c rest => simp [stops c rfl]
  have fronts : front = front' := by rw [← cut passes stops, same, cut passes' stops']
  subst fronts
  exact ⟨rfl, List.append_cancel_left same⟩

theorem append_inj_of_not_mem {front back front' back' : List Char}
    (same : front ++ back = front' ++ back') (absent : separator ∉ front)
    (starts : ∀ c, back.head? = some c → c = separator) (absent' : separator ∉ front')
    (starts' : ∀ c, back'.head? = some c → c = separator) : front = front' ∧ back = back' := by
  have passes {front : List Char} (absent : separator ∉ front) :
      ∀ c ∈ front, (c != separator) = true :=
    fun c member => bne_iff_ne.2 fun equal => absent (equal ▸ member)
  exact append_inj_of_test (· != separator) same (passes absent) (by simpa using starts)
    (passes absent') (by simpa using starts')

/-! ### Items -/

/-- Whether a text stands in another one, after so much of it, between two separators or between a
separator and an end. -/
structure IsItem (separator : Char) (chars before item : List Char) : Prop where
  split : ∃ after, chars = before ++ item ++ after ∧
    ∀ c, after.head? = some c → c = separator
  starts : ∀ c, before.getLast? = some c → c = separator
  whole : separator ∉ item

theorem IsItem.isPrefix {before item : List Char} (item_of : IsItem separator chars before item) :
    before <+: chars := by
  obtain ⟨after, split, _⟩ := item_of.split
  exact ⟨item ++ after, by rw [split, List.append_assoc]⟩

/-- Between the beginnings of two items there is a separator. -/
theorem IsItem.eq_of_prefix {before other item : List Char}
    (two : IsItem separator chars other item) (part : before <+: other)
    (number : before.count separator = other.count separator) : before = other := by
  obtain ⟨between, rfl⟩ := part
  rw [List.count_append] at number
  rcases List.eq_nil_or_concat' between with rfl | ⟨init, last, rfl⟩
  · rw [List.append_nil]
  · obtain rfl : last = separator := two.starts last (by simp)
    simp at number

/-- An item is the only one with so many separators before it. -/
theorem IsItem.unique {before other item another : List Char}
    (one : IsItem separator chars before item) (two : IsItem separator chars other another)
    (number : before.count separator = other.count separator) :
    before = other ∧ item = another := by
  obtain rfl : before = other := by
    rcases List.prefix_or_prefix_of_prefix one.isPrefix two.isPrefix with part | part
    · exact two.eq_of_prefix part number
    · exact (one.eq_of_prefix part number.symm).symm
  obtain ⟨after, first, starts⟩ := one.split
  obtain ⟨after', second, starts'⟩ := two.split
  rw [first, List.append_assoc, List.append_assoc] at second
  have same := List.append_cancel_left second
  exact ⟨rfl, (append_inj_of_not_mem same one.whole starts two.whole starts').1⟩

/-- Whether an item is the first blank one. -/
structure IsFirstBlank (separator : Char) (chars before item : List Char) : Prop where
  listed : IsItem separator chars before item
  blank : ∀ c ∈ item, isBlank c = true
  first : ∀ former other, IsItem separator chars former other →
    former.count separator < before.count separator → ∃ c ∈ other, isBlank c = false

/-- No blank item stands before the first one. -/
theorem IsFirstBlank.count_le {before other item another : List Char}
    (one : IsFirstBlank separator chars before item) (listed : IsItem separator chars other another)
    (blank : ∀ c ∈ another, isBlank c = true) : before.count separator ≤ other.count separator := by
  apply Nat.le_of_not_lt
  intro behind
  obtain ⟨c, member, visible⟩ := one.first other another listed behind
  simp [blank c member] at visible

theorem IsFirstBlank.unique {before other item another : List Char}
    (one : IsFirstBlank separator chars before item)
    (two : IsFirstBlank separator chars other another) : before = other ∧ item = another := by
  apply one.listed.unique two.listed
  exact Nat.le_antisymm (one.count_le two.listed two.blank) (two.count_le one.listed one.blank)

/-- Joining undoes splitting. -/
theorem intercalate_split (separator : Char) (chars : List Char) :
    [separator].intercalate (split separator chars) = chars := by
  induction chars with
  | nil => rfl
  | cons c rest ih =>
    rcases pieces : split separator rest with _ | ⟨first, later⟩
    · exact absurd pieces (split_ne_nil separator rest)
    · rw [pieces] at ih
      rw [split_cons, pieces]
      split
      next same =>
        rw [List.intercalate_cons_cons, ih, same]
        rfl
      next =>
        rw [consFirst, ← ih]
        cases later <;> simp

end Text

namespace Piece

open Text (IsItem IsFirstBlank byteLength)

/-- Runs that are placed one after another stand where they stand in the text in which they are
joined. -/
theorem exists_item_of_place {separator : Char} {runs : List (List Char)} {start index : Nat}
    {piece : Piece} (absent : ∀ run ∈ runs, separator ∉ run)
    (placed : (place separator start runs)[index]? = some piece) :
    ∃ earlier, IsItem separator ([separator].intercalate runs) earlier piece.chars ∧
      piece.start = start + byteLength earlier ∧ earlier.count separator = index := by
  induction runs generalizing start index with
  | nil => simp [place] at placed
  | cons run rest ih =>
    rw [List.forall_mem_cons] at absent
    rw [place] at placed
    cases index with
    | zero =>
      rw [List.getElem?_cons_zero] at placed
      obtain rfl := Option.some.inj placed
      refine ⟨[], ⟨?_, by simp, absent.1⟩, rfl, List.count_nil⟩
      rcases rest with _ | ⟨second, rest⟩
      · exact ⟨[], by simp, by simp⟩
      · rw [List.intercalate_cons_cons]
        exact ⟨separator :: [separator].intercalate (second :: rest), by simp, by simp⟩
    | succ index =>
      rw [List.getElem?_cons_succ] at placed
      obtain ⟨earlier, ⟨⟨after, split, ends⟩, starts, whole⟩, start_eq, number⟩ :=
        ih absent.2 placed
      have first : run.count separator = 0 := List.count_eq_zero.2 absent.1
      refine ⟨run ++ separator :: earlier, ⟨⟨after, ?_, ends⟩, ?_, whole⟩, ?_, ?_⟩
      · rcases rest with _ | ⟨second, rest⟩
        · simp [place] at placed
        · rw [List.intercalate_cons_cons, split]
          simp
      · intro c last
        rcases List.eq_nil_or_concat' earlier with rfl | ⟨init, final, rfl⟩
        · simpa [eq_comm] using last
        · exact starts c (by simpa [List.getLast?_append, List.getLast?_cons] using last)
      · rw [start_eq, Text.byteLength_append, Text.byteLength_cons]
        omega
      · simp [first, number]

/-- The pieces between separators stand where they stand in the text, and there are as many
separators before one of them as there are pieces. -/
theorem exists_item_of_split {separator : Char} {piece part : Piece} {index : Nat}
    (placed : (piece.split separator)[index]? = some part) :
    ∃ earlier, IsItem separator piece.chars earlier part.chars ∧
      part.start = piece.start + byteLength earlier ∧ earlier.count separator = index := by
  have absent : ∀ run ∈ Text.split separator piece.chars, separator ∉ run :=
    fun run member => Text.not_mem_of_mem_split member
  have item := exists_item_of_place absent placed
  rwa [Text.intercalate_split] at item

/-- The first blank piece stands where the first blank item does. -/
theorem exists_isFirstBlank_of_find? {separator : Char} {piece part : Piece}
    (found : (piece.split separator).find? isBlank = some part) :
    ∃ earlier, IsFirstBlank separator piece.chars earlier part.chars ∧
      part.start = piece.start + byteLength earlier := by
  obtain ⟨blank, index, bound, rfl, filled⟩ := List.find?_eq_some_iff_getElem.1 found
  obtain ⟨earlier, item_of, start_eq, number⟩ :=
    exists_item_of_split (List.getElem?_eq_getElem bound)
  refine ⟨earlier, ⟨item_of, List.all_eq_true.1 blank, ?_⟩, start_eq⟩
  intro former item other less
  rw [number] at less
  obtain ⟨_, same, _, count⟩ := exists_item_of_split (List.getElem?_eq_getElem (less.trans bound))
  obtain ⟨_, rfl⟩ := other.unique same count.symm
  simpa [isBlank] using filled _ less

theorem span_upper (piece : Piece) : piece.upper.span = piece.span := by
  rw [span, span, stop, stop, upper, Text.byteLength_map_toUpper]

/-- What is trimmed off in front moves the place of a piece. -/
theorem trim_eq (before chars : List Char) :
    ({ start := byteLength before, chars } : Piece).trim =
      { start := byteLength (before ++ chars.takeWhile Text.isBlank)
        chars := Text.trim chars } := by
  rw [trim, Text.byteLength_append]

end Piece

/-! ### Lines -/

namespace Text

/-- Whether a text is what stands before the first colon of a line, and no comment begins there. -/
structure LabelText (line name : List Char) : Prop where
  split : ∃ rest, line = name ++ ':' :: rest
  colon : ':' ∉ name
  comment : ';' ∉ name

/-- A line with an instruction, by its parts from left to right. -/
structure InstructionLine (line : List Char) where
  /-- The label and the colon after it, or nothing. -/
  label : List Char
  lead : List Char
  word : List Char
  /-- What stands between the word and the last character of the code that is not blank. -/
  operands : List Char
  trail : List Char
  /-- The comment and the semicolon before it, or nothing. -/
  comment : List Char
  line_eq : line = label ++ (lead ++ word ++ operands ++ trail) ++ comment
  label_ends : (label = [] ∧ ':' ∉ lead ++ word ++ operands ++ trail) ∨
    ∃ name, label = name ++ [':'] ∧ ':' ∉ name
  comment_starts : ∀ c, comment.head? = some c → c = ';'
  uncommented : ';' ∉ label ++ (lead ++ word ++ operands ++ trail)
  lead_blank : ∀ c ∈ lead, isBlank c = true
  word_ne_nil : word ≠ []
  word_solid : ∀ c ∈ word, isBlank c = false
  operands_apart : ∀ c, operands.head? = some c → isBlank c = true
  operands_end : ∀ c, operands.getLast? = some c → isBlank c = false
  trail_blank : ∀ c ∈ trail, isBlank c = true

/-- Code that is not blank after its label has an instruction there. -/
theorem exists_instructionLine {line label rest comment : List Char}
    (line_eq : line = label ++ rest ++ comment)
    (label_ends : (label = [] ∧ ':' ∉ rest) ∨ ∃ name, label = name ++ [':'] ∧ ':' ∉ name)
    (comment_starts : ∀ c, comment.head? = some c → c = ';') (uncommented : ';' ∉ label ++ rest)
    (filled : rest.all isBlank = false) :
    ∃ parts : InstructionLine line, parts.label = label ∧
      parts.lead = rest.takeWhile isBlank ∧
      parts.word = (trim rest).takeWhile (!isBlank ·) ∧
      parts.operands = (trim rest).dropWhile (!isBlank ·) := by
  obtain ⟨trail, trail_blank, split⟩ := exists_trail rest
  have body := List.takeWhile_append_dropWhile (p := (!isBlank ·)) (l := trim rest)
  have rest_eq : rest = rest.takeWhile isBlank ++ (trim rest).takeWhile (!isBlank ·) ++
      (trim rest).dropWhile (!isBlank ·) ++ trail := by
    rw [List.append_assoc (rest.takeWhile isBlank), body]
    exact split
  refine ⟨{
    label
    lead := rest.takeWhile isBlank
    word := (trim rest).takeWhile (!isBlank ·)
    operands := (trim rest).dropWhile (!isBlank ·)
    trail
    comment
    line_eq := by rwa [← rest_eq]
    label_ends := by rwa [← rest_eq]
    comment_starts
    uncommented := by rwa [← rest_eq]
    lead_blank := fun c => List.mem_takeWhile_imp
    word_ne_nil := ?_
    word_solid := ?_
    operands_apart := ?_
    operands_end := ?_
    trail_blank }, rfl, rfl, rfl, rfl⟩
  · obtain ⟨first, others, trimmed⟩ := List.exists_cons_of_ne_nil (trim_ne_nil filled)
    have visible : isBlank first = false := isBlank_of_head?_trim (by rw [trimmed, List.head?_cons])
    simp [trimmed, visible]
  · intro c member
    simpa using List.mem_takeWhile_imp member
  · intro c first
    have begins := List.head?_dropWhile_not (!isBlank ·) (trim rest)
    rw [first] at begins
    simpa using begins
  · intro c last
    have ends : (trim rest).getLast? = some c := by
      rw [← body, List.getLast?_append, last]
      rfl
    exact isBlank_of_getLast?_trim ends

/-! ### A line has its parts in one way -/

theorem LabelText.unique {line name other : List Char} (one : LabelText line name)
    (two : LabelText line other) : name = other := by
  obtain ⟨rest, first⟩ := one.split
  obtain ⟨others, second⟩ := two.split
  exact (append_inj_of_not_mem (first.symm.trans second) one.colon (by simp) two.colon
    (by simp)).1

namespace InstructionLine

variable {line : List Char}

/-- What stands between the label and the comment. -/
def rest (parts : InstructionLine line) : List Char :=
  parts.lead ++ parts.word ++ parts.operands ++ parts.trail

theorem label_unique (parts others : InstructionLine line)
    (same : parts.label ++ parts.rest = others.label ++ others.rest) :
    parts.label = others.label ∧ parts.rest = others.rest := by
  rcases parts.label_ends with ⟨none, bare⟩ | ⟨name, named, bare⟩ <;>
    rcases others.label_ends with ⟨none', bare'⟩ | ⟨name', named', bare'⟩
  · rw [none, none'] at same ⊢
    exact ⟨rfl, same⟩
  · rw [none, named'] at same
    have colon : ':' ∈ parts.rest := by
      rw [List.nil_append] at same
      simp [same]
    exact absurd colon bare
  · rw [named, none'] at same
    have colon : ':' ∈ others.rest := by
      rw [List.nil_append] at same
      simp [← same]
    exact absurd colon bare'
  · rw [named, named', List.append_assoc, List.append_assoc] at same
    obtain ⟨names, rests⟩ := append_inj_of_not_mem same bare (by simp) bare' (by simp)
    rw [named, named', names]
    exact ⟨rfl, List.append_cancel_left rests⟩

theorem isBlank_of_head?_word (parts : InstructionLine line) (after : List Char) {c : Char}
    (first : (parts.word ++ after).head? = some c) : isBlank c = false := by
  rw [List.head?_append_of_ne_nil parts.word parts.word_ne_nil] at first
  exact parts.word_solid c (List.mem_of_mem_head? first)

theorem isBlank_of_head?_after_word (parts : InstructionLine line) {c : Char}
    (first : (parts.operands ++ parts.trail).head? = some c) : isBlank c = true := by
  rcases empty : parts.operands with _ | ⟨d, others⟩
  · rw [empty, List.nil_append] at first
    exact parts.trail_blank c (List.mem_of_mem_head? first)
  · apply parts.operands_apart c
    rw [empty] at first ⊢
    exact first

theorem rest_unique (parts others : InstructionLine line) (same : parts.rest = others.rest) :
    parts.lead = others.lead ∧ parts.word = others.word ∧ parts.operands = others.operands ∧
      parts.trail = others.trail := by
  unfold rest at same
  simp only [List.append_assoc] at same
  obtain ⟨leads, same⟩ := append_inj_of_test isBlank same parts.lead_blank
    (fun c => parts.isBlank_of_head?_word _) others.lead_blank
    (fun c => others.isBlank_of_head?_word _)
  obtain ⟨words, same⟩ := append_inj_of_test (!isBlank ·) same
    (by simpa using parts.word_solid)
    (fun c first => by simpa using parts.isBlank_of_head?_after_word first)
    (by simpa using others.word_solid)
    (fun c first => by simpa using others.isBlank_of_head?_after_word first)
  -- The blank characters at the end are the first ones from behind.
  have behind := congrArg List.reverse same
  rw [List.reverse_append, List.reverse_append] at behind
  obtain ⟨trails, operands⟩ := append_inj_of_test isBlank behind
    (by simpa using parts.trail_blank) (by simpa using parts.operands_end)
    (by simpa using others.trail_blank) (by simpa using others.operands_end)
  exact ⟨leads, words, List.reverse_inj.1 operands, List.reverse_inj.1 trails⟩

/-- A line has its parts in one way only. -/
theorem unique (parts others : InstructionLine line) : parts = others := by
  obtain ⟨codes, comments⟩ := append_inj_of_not_mem
    (parts.line_eq.symm.trans others.line_eq) parts.uncommented parts.comment_starts
    others.uncommented others.comment_starts
  obtain ⟨labels, rests⟩ := label_unique parts others codes
  obtain ⟨leads, words, operands, trails⟩ := rest_unique parts others rests
  obtain ⟨⟩ := parts
  obtain ⟨⟩ := others
  simp only at labels leads words operands trails comments
  subst labels leads words operands trails comments
  rfl

/-- The operands, without the blank characters around them. -/
def operandTexts (parts : InstructionLine line) : List String :=
  if parts.operands.all isBlank then []
  else (split ',' parts.operands).map fun item => String.ofList (trim item)

/-- The word and its place. -/
def wordPiece (parts : InstructionLine line) : Piece where
  start := byteLength (parts.label ++ parts.lead)
  chars := parts.word

/-- The text of the operands and its place. -/
def operandsPiece (parts : InstructionLine line) : Piece where
  start := byteLength (parts.label ++ parts.lead ++ parts.word)
  chars := parts.operands

/-- The operands and their places. -/
def operandPieces (parts : InstructionLine line) : List Piece :=
  if parts.operands.all isBlank then [] else (parts.operandsPiece.split ',').map Piece.trim

theorem map_text_operandPieces (parts : InstructionLine line) :
    parts.operandPieces.map Piece.text = parts.operandTexts := by
  unfold operandPieces operandTexts
  split
  · rfl
  · have chars := parts.operandsPiece.map_chars_split ','
    rw [List.map_map, operandsPiece] at *
    rw [← chars, List.map_map]
    rfl

/-- An operand is an item between commas, trimmed, and its number is that of the commas before
it. -/
theorem exists_item_of_operandPieces (parts : InstructionLine line) {index : Nat} {piece : Piece}
    (placed : parts.operandPieces[index]? = some piece) :
    ∃ earlier item, IsItem ',' parts.operands earlier item ∧ earlier.count ',' = index ∧
      piece =
        { start := byteLength (parts.label ++ parts.lead ++ parts.word ++ earlier ++
            item.takeWhile isBlank)
          chars := trim item } := by
  unfold operandPieces at placed
  split at placed
  next => cases placed
  next =>
    rw [List.getElem?_map] at placed
    obtain ⟨whole, listed, rfl⟩ := Option.map_eq_some_iff.1 placed
    obtain ⟨earlier, item, start_eq, number⟩ := Piece.exists_item_of_split listed
    rw [operandsPiece, ← byteLength_append] at start_eq
    refine ⟨earlier, whole.chars, item, number, ?_⟩
    rw [← Piece.trim_eq, ← start_eq]

end InstructionLine

end Text

/-! ### Parsing -/

namespace Statement

open Text (LabelText InstructionLine byteLength)

variable {line : List Char} {number : Nat}

/-- The code of a line ends before its comment. -/
theorem exists_code (line : List Char) :
    ∃ code comment, line = code ++ comment ∧ ';' ∉ code ∧
      (∀ c, comment.head? = some c → c = ';') ∧
      (separateComment (Piece.whole line)).1 = Piece.whole code := by
  refine ⟨line.takeWhile (· != ';'), line.dropWhile (· != ';'),
    List.takeWhile_append_dropWhile.symm, Text.not_mem_takeWhile_bne ';' line, ?_,
    separateComment_whole line⟩
  intro c first
  have begins := List.head?_dropWhile_not (· != ';') line
  rw [first] at begins
  simpa using begins

/-- A label that is separated stands before the first colon, and what is left is what stands after
it. -/
theorem exists_label {code : List Char} {label : Option Piece} {rest : Piece}
    (separated : separateLabel (Piece.whole code) = .ok (label, rest)) :
    ∃ before, code = before ++ rest.chars ∧ rest.start = byteLength before ∧
      ((label = none ∧ before = [] ∧ ':' ∉ rest.chars) ∨
        ∃ name, label = some (Piece.whole name).trim ∧ Label.defect? (Text.trim name) = none ∧
          before = name ++ [':'] ∧ ':' ∉ name) := by
  by_cases present : ':' ∈ code
  · obtain ⟨after, split⟩ := Text.exists_takeWhile_append present
    have bare := Text.not_mem_takeWhile_bne ':' code
    generalize code.takeWhile (· != ':') = name at split bare
    rw [split, separateLabel_append bare] at separated
    split at separated
    next => cases separated
    next named =>
      obtain ⟨rfl, rfl⟩ := Prod.mk.inj (Except.ok.inj separated)
      exact ⟨name ++ [':'], by simp [split], by simp, .inr ⟨name, rfl, named, rfl, bare⟩⟩
  · rw [separateLabel, Piece.cut?_of_not_mem present] at separated
    obtain ⟨rfl, rfl⟩ := Prod.mk.inj (Except.ok.inj separated)
    exact ⟨[], rfl, rfl, .inl ⟨rfl, rfl, present⟩⟩

/-- Only the text before the first colon is refused as a label. -/
theorem exists_defect {code : List Char} {problem : Problem} {span : Span}
    (refused : separateLabel (Piece.whole code) = .error (problem, span)) :
    ∃ name rest defect, code = name ++ [':'] ++ rest ∧ ':' ∉ name ∧
      Label.defect? (Text.trim name) = some defect ∧ problem = .badLabel defect ∧
      span = (Piece.whole name).trim.span := by
  by_cases present : ':' ∈ code
  · obtain ⟨after, split⟩ := Text.exists_takeWhile_append present
    have bare := Text.not_mem_takeWhile_bne ':' code
    generalize code.takeWhile (· != ':') = name at split bare
    rw [split, separateLabel_append bare] at refused
    split at refused
    next defect found =>
      obtain ⟨rfl, rfl⟩ := Prod.mk.inj (Except.error.inj refused)
      exact ⟨name, after, defect, by simp [split], bare, found, rfl, rfl⟩
    next => cases refused
  · rw [separateLabel, Piece.cut?_of_not_mem present] at refused
    cases refused

/-- What is left of a line after its label has an instruction, if it is not blank. -/
theorem exists_instruction {label : Option Piece} {rest : Piece}
    (labelled : separateLabel (separateComment (Piece.whole line)).1 = .ok (label, rest))
    (filled : rest.isBlank = false) :
    ∃ parts : InstructionLine line, separateInstruction rest =
      (separateOperands parts.operandsPiece).map fun operands =>
        (some parts.wordPiece.upper, operands) := by
  obtain ⟨code, comment, rfl, uncommented, comment_starts, commented⟩ := exists_code line
  rw [commented] at labelled
  obtain ⟨before, rfl, start_eq, label_eq⟩ := exists_label labelled
  have label_ends : (before = [] ∧ ':' ∉ rest.chars) ∨
      ∃ name, before = name ++ [':'] ∧ ':' ∉ name := by
    rcases label_eq with ⟨_, none, bare⟩ | ⟨name, _, _, colon, bare⟩
    · exact .inl ⟨none, bare⟩
    · exact .inr ⟨name, colon, bare⟩
  obtain ⟨parts, label, lead, word, operands⟩ :=
    Text.exists_instructionLine rfl label_ends comment_starts uncommented filled
  refine ⟨parts, ?_⟩
  obtain ⟨start, chars⟩ := rest
  obtain rfl : start = byteLength before := start_eq
  rw [separateInstruction, filled, Piece.trim_eq]
  simp only [Bool.false_eq_true, if_false, Piece.word, Piece.stop]
  rw [InstructionLine.operandsPiece, InstructionLine.wordPiece, label, lead, word, operands,
    Text.byteLength_append (before ++ chars.takeWhile Text.isBlank)]

theorem labelText_of_code {name rest comment : List Char} (bare : ':' ∉ name)
    (uncommented : ';' ∉ name ++ [':'] ++ rest) :
    LabelText (name ++ [':'] ++ rest ++ comment) name where
  split := ⟨rest ++ comment, by simp⟩
  colon := bare
  comment := fun member => uncommented (by simp [member])

theorem operands_of_separateOperands {parts : InstructionLine line} {operands : List Piece}
    (separated : separateOperands parts.operandsPiece = .ok operands) :
    operands = parts.operandPieces := by
  unfold separateOperands at separated
  unfold InstructionLine.operandPieces
  change (if parts.operands.all Text.isBlank = true then _ else _) = _ at separated
  split at separated
  next blank =>
    rw [if_pos blank]
    exact (Except.ok.inj separated).symm
  next filled =>
    rw [if_neg filled]
    simp only at separated
    split at separated
    next => cases separated
    next => exact (Except.ok.inj separated).symm

theorem find?_of_separateOperands {text : Piece} {problem : Problem} {span : Span}
    (refused : separateOperands text = .error (problem, span)) :
    ∃ piece, (text.split ',').find? Piece.isBlank = some piece ∧ problem = .emptyOperand ∧
      span = piece.span := by
  unfold separateOperands at refused
  split at refused
  next => cases refused
  next =>
    simp only at refused
    split at refused
    next piece found =>
      obtain ⟨rfl, rfl⟩ := Prod.mk.inj (Except.error.inj refused)
      exact ⟨piece, found, rfl, rfl⟩
    next => cases refused

/-- What it is for a statement to have its label and its instruction from a line. -/
structure IsOf (statement : Statement) (line : List Char) : Prop where
  label : ∀ piece, statement.label = some piece →
    ∃ name, LabelText line name ∧ piece = (Piece.whole name).trim
  instruction : ∀ mnemonic, statement.mnemonic = some mnemonic →
    ∃ parts : InstructionLine line, mnemonic = parts.wordPiece.upper ∧
      statement.operands = parts.operandPieces

/-- How a line can be refused, and where. -/
inductive Refused (line : List Char) : Problem → Span → Prop where
  | badLabel {name : List Char} {defect : Label.Defect} (found : LabelText line name)
      (defective : Label.defect? (Text.trim name) = some defect) :
      Refused line (.badLabel defect) (Piece.whole name).trim.span
  | emptyOperand (parts : InstructionLine line) {piece : Piece}
      (found : (parts.operandsPiece.split ',').find? Piece.isBlank = some piece) :
      Refused line .emptyOperand piece.span

/-- A statement has its parts from the line that it was parsed from. -/
theorem isOf_of_parse {statement : Statement} (parsed : parse number line = .ok statement) :
    statement.IsOf line := by
  obtain ⟨rest, labelled, separated⟩ := exists_parts_of_parse parsed
  constructor
  case label =>
    intro piece present
    obtain ⟨code, comment, rfl, uncommented, _, commented⟩ := exists_code line
    rw [commented] at labelled
    obtain ⟨before, rfl, _, ⟨none, _⟩ | ⟨name, named, _, rfl, bare⟩⟩ := exists_label labelled
    · cases none.symm.trans present
    · exact ⟨name, labelText_of_code bare uncommented, Option.some.inj (present.symm.trans named)⟩
  case instruction =>
    intro mnemonic present
    rcases filled : rest.isBlank
    · obtain ⟨parts, instruction⟩ := exists_instruction labelled filled
      rw [instruction] at separated
      rcases operands : separateOperands parts.operandsPiece with e | operands
      · simp [operands, Except.map] at separated
      · simp only [operands, Except.map, Except.ok.injEq, Prod.mk.injEq] at separated
        refine ⟨parts, Option.some.inj (present.symm.trans separated.1.symm), ?_⟩
        rw [← separated.2, operands_of_separateOperands operands]
    · rw [separateInstruction, filled] at separated
      obtain ⟨none, _⟩ := Prod.mk.inj (Except.ok.inj separated)
      cases none.trans present

/-- A line is refused for its label or for an operand. -/
theorem refused_of_parse {refusal : Diagnostic} (refused : parse number line = .error refusal) :
    Refused line refusal.problem refusal.span := by
  have separated := separated_parse number line
  rw [refused] at separated
  cases separated with
  | badLabel labelled =>
    obtain ⟨code, comment, rfl, uncommented, _, commented⟩ := exists_code line
    rw [commented] at labelled
    obtain ⟨name, rest, defect, rfl, bare, found, rfl, rfl⟩ := exists_defect labelled
    exact .badLabel (labelText_of_code bare uncommented) found
  | @badInstruction _ rest _ _ labelled instructed =>
    rcases filled : rest.isBlank
    · obtain ⟨parts, instruction⟩ := exists_instruction labelled filled
      rw [instruction] at instructed
      obtain ⟨piece, found, rfl, rfl⟩ := find?_of_separateOperands (eq_error_of_map instructed)
      exact .emptyOperand parts found
    · rw [separateInstruction, filled] at instructed
      cases instructed

end Statement

end I8085
