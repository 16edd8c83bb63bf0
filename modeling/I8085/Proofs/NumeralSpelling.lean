/-
Module: I8085.Proofs.NumeralSpelling
Layer: Proofs
Purpose: How a number is written. A number has a spelling in each of four forms: hexadecimal digits
  after `#`, between `0` and `H`, or after `0x`, and decimal digits. What the digits stand for is
  the positional value of Mathlib, so the specification shares no more with the parser than the
  value of one digit. Every number has spellings (`Numeral.Form.exists_spelling`). The parser reads
  these and every other way to write a number, and nothing else (`Numeral.map_value_ofChars?`,
  `Numeral.parse_cases`), and none of them can be taken for a label (`Numeral.defect?_of_reads`).
Imports: I8085.Label, I8085.Numeral, I8085.Proofs.StatementParsing,
  Mathlib.Data.Nat.Digits.Lemmas
Main exports: Numeral.Form, Numeral.Form.Spells, Numeral.Form.exists_spelling, Numeral.Reads,
  Numeral.map_value_ofChars?, Numeral.Reads.unique, Numeral.parse_cases, Numeral.parse_of_reads,
  Numeral.isToken_of_spells, Numeral.defect?_of_reads
-/
import I8085.Label
import I8085.Numeral
import I8085.Proofs.StatementParsing
import Mathlib.Data.Nat.Digits.Lemmas

namespace I8085

namespace Numeral

/-! ### Spellings -/

/-- Characters that write a number in a base, the most significant digit first. Zeros may stand in
front. -/
structure Writes (base number : Nat) (chars : List Char) : Prop where
  nonempty : chars ≠ []
  digits : ∀ c ∈ chars, ∃ digit < base, digitValue? c = some digit
  value_eq : Nat.ofDigits base (chars.filterMap digitValue?).reverse = number

theorem isDigitOf_iff {base : Nat} {c : Char} :
    isDigitOf base c = true ↔ ∃ digit < base, digitValue? c = some digit := by
  rw [isDigitOf, Option.any_eq_true]
  constructor
  · rintro ⟨digit, known, below⟩
    exact ⟨digit, of_decide_eq_true below, known⟩
  · rintro ⟨digit, below, known⟩
    exact ⟨digit, known, decide_eq_true below⟩

theorem writes_iff {base number : Nat} {chars : List Char} :
    ((!chars.isEmpty && chars.all (isDigitOf base)) = true ∧
        Nat.ofDigits base (chars.filterMap digitValue?).reverse = number) ↔
      Writes base number chars := by
  rw [Bool.and_eq_true, Bool.not_eq_true', List.isEmpty_eq_false_iff, List.all_eq_true]
  constructor
  · rintro ⟨⟨nonempty, digits⟩, value⟩
    exact ⟨nonempty, fun c member => isDigitOf_iff.1 (digits c member), value⟩
  · rintro ⟨nonempty, digits, value⟩
    exact ⟨⟨nonempty, fun c member => isDigitOf_iff.2 (digits c member)⟩, value⟩

instance (base number : Nat) (chars : List Char) : Decidable (Writes base number chars) :=
  decidable_of_iff _ writes_iff

/-- The forms in which a number can be written. -/
inductive Form where
  /-- As in `#1F`. -/
  | hash
  /-- As in `01FH`. -/
  | suffixed
  /-- As in `0x1F`. -/
  | prefixed
  /-- As in `31`. -/
  | decimal
deriving Repr, DecidableEq

namespace Form

def base : Form → Nat
  | hash => 16
  | suffixed => 16
  | prefixed => 16
  | decimal => 10

/-- Digits with the marks of the form. -/
def mark : Form → List Char → List Char
  | hash, digits => '#' :: digits
  | suffixed, digits => '0' :: digits ++ ['H']
  | prefixed, digits => '0' :: 'x' :: digits
  | decimal, digits => digits

/-- The spellings of a number in a form. -/
def Spells (form : Form) (number : Nat) (chars : List Char) : Prop :=
  ∃ digits, Writes form.base number digits ∧ chars = form.mark digits

theorem base_bounds (form : Form) : 1 < form.base ∧ form.base ≤ 16 := by
  cases form <;> decide

end Form

/-- The ways to write a number, whatever digits it is written with. Each form above is one of
them. -/
inductive Reads (number : Nat) : List Char → Prop where
  /-- As in `#1F`. -/
  | hash {digits : List Char} (written : Writes 16 number digits) : Reads number ('#' :: digits)
  /-- As in `0x1F` and `0X1F`. -/
  | prefixed {mark : Char} {digits : List Char} (marks : mark = 'x' ∨ mark = 'X')
      (written : Writes 16 number digits) : Reads number ('0' :: mark :: digits)
  /-- As in `1FH` and `1Fh`. The first digit is a decimal one. -/
  | suffixed {first : Char} {digits : List Char} {mark : Char} (decimal : first.isDigit = true)
      (marks : mark = 'H' ∨ mark = 'h') (written : Writes 16 number (first :: digits)) :
      Reads number (first :: digits ++ [mark])
  /-- As in `31`. -/
  | decimal {digits : List Char} (written : Writes 10 number digits) : Reads number digits

theorem Reads.ne_nil {number : Nat} {chars : List Char} (reads : Reads number chars) :
    chars ≠ [] := by
  cases reads with
  | hash => exact List.cons_ne_nil _ _
  | prefixed => exact List.cons_ne_nil _ _
  | suffixed => exact List.cons_ne_nil _ _
  | decimal written => exact written.nonempty

/-! ### Digits -/

theorem digitValue?_digitChar {digit : Nat} (below : digit < 16) :
    digitValue? digit.digitChar = some digit := by
  have each : ∀ digit : Fin 16, digitValue? digit.val.digitChar = some digit.val := by decide
  exact each ⟨digit, below⟩

/-- Every number can be written in every form. -/
theorem Form.exists_spelling (form : Form) (number : Nat) : ∃ chars, form.Spells number chars := by
  obtain ⟨one, sixteen⟩ := form.base_bounds
  have below : ∀ digit ∈ (Nat.digits form.base number).reverse, digit < form.base := by
    intro digit member
    exact Nat.digits_lt_base one (List.mem_reverse.1 member)
  have values : ((Nat.digits form.base number).reverse.map Nat.digitChar).filterMap digitValue? =
      (Nat.digits form.base number).reverse := by
    rw [List.filterMap_map]
    refine (List.filterMap_congr ?_).trans List.filterMap_some
    intro digit member
    exact digitValue?_digitChar (Nat.lt_of_lt_of_le (below digit member) sixteen)
  refine ⟨_, '0' :: (Nat.digits form.base number).reverse.map Nat.digitChar, ⟨?_, ?_, ?_⟩, rfl⟩
  · exact List.cons_ne_nil _ _
  · intro c member
    rcases List.mem_cons.1 member with rfl | later
    · exact ⟨0, Nat.lt_trans Nat.zero_lt_one one, rfl⟩
    · obtain ⟨digit, listed, rfl⟩ := List.mem_map.1 later
      exact ⟨digit, below digit listed,
        digitValue?_digitChar (Nat.lt_of_lt_of_le (below digit listed) sixteen)⟩
  · have zero : digitValue? '0' = some 0 := by decide
    rw [List.filterMap_cons_some zero, values, List.reverse_cons, List.reverse_reverse,
      Nat.ofDigits_append, Nat.ofDigits_digits]
    simp

/-- Where the digits stand among the characters. Those with a value below ten stand apart. -/
theorem toNat_of_digitValue? {c : Char} {digit : Nat} (known : digitValue? c = some digit) :
    (48 ≤ c.toNat ∧ c.toNat ≤ 57) ∨
      10 ≤ digit ∧ ((65 ≤ c.toNat ∧ c.toNat ≤ 70) ∨ (97 ≤ c.toNat ∧ c.toNat ≤ 102)) := by
  unfold digitValue? at known
  split at known
  next decimal =>
    left
    simpa [Char.isDigit, UInt32.le_iff_toNat_le] using decimal
  next =>
    right
    split at known
    next lower =>
      have range : 97 ≤ c.toNat ∧ c.toNat ≤ 102 := by
        simpa [Char.le_def, UInt32.le_iff_toNat_le] using lower
      obtain rfl := Option.some.inj known
      exact ⟨Nat.le_add_left 10 _, .inr range⟩
    next =>
      obtain ⟨upper, known⟩ := Option.ite_none_right_eq_some.1 known
      have range : 65 ≤ c.toNat ∧ c.toNat ≤ 70 := by
        simpa [Char.le_def, UInt32.le_iff_toNat_le] using upper
      obtain rfl := Option.some.inj known
      exact ⟨Nat.le_add_left 10 _, .inl range⟩

/-- A character between the first and the last digit does not divide a line, but for the colon and
the semicolon. -/
theorem isPlain_of_digitValue? {c : Char} {digit : Nat} (known : digitValue? c = some digit) :
    Text.isPlain c = true := by
  have place := toNat_of_digitValue? known
  have apart : ∀ other : Char, other ∈ [',', ';', ':'] → c ≠ other := by
    rintro _ member rfl
    simp only [List.mem_cons, List.not_mem_nil, or_false] at member
    rcases member with rfl | rfl | rfl <;> simp at place
  have visible : Text.isBlank c = false := by
    simp only [Text.isBlank, Text.blankRanges, List.any_cons, List.any_nil, Bool.or_false,
      Bool.or_eq_false_iff, Bool.and_eq_false_imp, decide_eq_true_eq, decide_eq_false_iff_not,
      Nat.not_le]
    omega
  simp [Text.isPlain, visible, apart]

namespace Writes

variable {base number : Nat} {chars : List Char}

theorem not_mem (written : Writes base number chars) {c : Char} (other : digitValue? c = none) :
    c ∉ chars := by
  intro member
  obtain ⟨digit, _, known⟩ := written.digits c member
  rw [other] at known
  cases known

/-- A zero in front changes nothing. -/
theorem cons_zero (written : Writes base number chars) (positive : 0 < base) :
    Writes base number ('0' :: chars) where
  nonempty := List.cons_ne_nil _ _
  digits := by
    simp only [List.forall_mem_cons]
    exact ⟨⟨0, positive, rfl⟩, written.digits⟩
  value_eq := by
    have zero : digitValue? '0' = some 0 := by decide
    rw [List.filterMap_cons_some zero, List.reverse_cons, Nat.ofDigits_append, written.value_eq]
    simp

theorem isPlain (written : Writes base number chars) : ∀ c ∈ chars, Text.isPlain c = true := by
  intro c member
  obtain ⟨digit, _, known⟩ := written.digits c member
  exact isPlain_of_digitValue? known

end Writes

/-! ### Reading a spelling -/

theorem value_eq_ofDigits (numeral : Numeral) :
    numeral.value = Nat.ofDigits numeral.base numeral.digits.reverse := by
  rw [Nat.ofDigits_eq_foldr, List.foldr_reverse, value]
  congr 1
  funext value digit
  exact Nat.add_comm _ _

/-- Characters are read as the number that they write in a base, and others are not read. -/
theorem map_value_ofDigits? {base number : Nat} {chars : List Char} :
    (ofDigits? base chars).map value = some number ↔ Writes base number chars := by
  rw [← writes_iff, ofDigits?]
  by_cases digits : (!chars.isEmpty && chars.all (isDigitOf base)) = true
  · rw [if_pos digits, Option.map_some, Option.some.injEq, value_eq_ofDigits]
    exact (and_iff_right digits).symm
  · rw [if_neg digits]
    exact iff_of_false nofun fun written => digits written.1

/-- Without a mark in front, the end of a numeral decides about its base. -/
theorem ofChars?_of_unmarked {chars : List Char} (hash : '#' ∉ chars) (lower : 'x' ∉ chars)
    (upper : 'X' ∉ chars) :
    ofChars? chars =
      match beforeSuffix? chars with
      | some digits => if digits.head?.any Char.isDigit then ofDigits? 16 digits else none
      | none => ofDigits? 10 chars := by
  unfold ofChars?
  split
  · simp at hash
  · simp at lower
  · simp at upper
  · rfl

theorem beforeSuffix?_eq_none {chars : List Char} (upper : 'H' ∉ chars) (lower : 'h' ∉ chars) :
    beforeSuffix? chars = none := by
  unfold beforeSuffix?
  split
  next ends => exact absurd (List.mem_of_getLast? ends) upper
  next ends => exact absurd (List.mem_of_getLast? ends) lower
  next => rfl

theorem beforeSuffix?_concat {mark : Char} (marks : mark = 'H' ∨ mark = 'h') (digits : List Char) :
    beforeSuffix? (digits ++ [mark]) = some digits := by
  rw [beforeSuffix?, List.getLast?_concat, List.dropLast_concat]
  rcases marks with rfl | rfl <;> rfl

theorem exists_mark_of_beforeSuffix? {chars digits : List Char}
    (before : beforeSuffix? chars = some digits) :
    ∃ mark, (mark = 'H' ∨ mark = 'h') ∧ chars = digits ++ [mark] := by
  unfold beforeSuffix? at before
  split at before
  next ends =>
    obtain rfl := Option.some.inj before
    exact ⟨'H', .inl rfl, (List.dropLast_append_getLast? 'H' ends).symm⟩
  next ends =>
    obtain rfl := Option.some.inj before
    exact ⟨'h', .inr rfl, (List.dropLast_append_getLast? 'h' ends).symm⟩
  next => cases before

variable {form : Form} {number : Nat} {chars : List Char}

/-- Characters that are read as a number write it in one of the ways. -/
theorem reads_of_ofChars? (read : (ofChars? chars).map value = some number) :
    Reads number chars := by
  unfold ofChars? at read
  split at read
  next digits => exact .hash (map_value_ofDigits?.1 read)
  next digits => exact .prefixed (.inl rfl) (map_value_ofDigits?.1 read)
  next digits => exact .prefixed (.inr rfl) (map_value_ofDigits?.1 read)
  next =>
    split at read
    next digits before =>
      obtain ⟨mark, marks, rfl⟩ := exists_mark_of_beforeSuffix? before
      split at read
      next starts =>
        obtain ⟨first, head, decimal⟩ := (Option.any_eq_true _ _).1 starts
        obtain ⟨rest, rfl⟩ := List.head?_eq_some_iff.1 head
        exact .suffixed decimal marks (map_value_ofDigits?.1 read)
      next => cases read
    next => exact .decimal (map_value_ofDigits?.1 read)

/-- Digits before a suffix are read as such, since no prefix is among them. -/
theorem ofChars?_of_suffixed {first mark : Char} {digits : List Char}
    (decimal : first.isDigit = true) (marks : mark = 'H' ∨ mark = 'h')
    (written : Writes 16 number (first :: digits)) :
    ofChars? (first :: digits ++ [mark]) = ofDigits? 16 (first :: digits) := by
  have absent (other : Char) (unknown : digitValue? other = none) (apart : other ≠ 'H')
      (distinct : other ≠ 'h') : other ∉ first :: digits ++ [mark] := by
    intro among
    rcases List.mem_append.1 among with digit | last
    · exact written.not_mem unknown digit
    · obtain rfl := List.mem_singleton.1 last
      exact marks.elim apart distinct
  rw [ofChars?_of_unmarked (absent '#' (by decide) (by decide) (by decide))
    (absent 'x' (by decide) (by decide) (by decide))
    (absent 'X' (by decide) (by decide) (by decide)), beforeSuffix?_concat marks]
  simp only [List.head?_cons, Option.any_some, decimal, if_true]

/-- Characters are read as a number exactly if they write it in one of the ways. -/
theorem map_value_ofChars? :
    (ofChars? chars).map value = some number ↔ Reads number chars := by
  refine ⟨reads_of_ofChars?, ?_⟩
  intro reads
  cases reads with
  | hash written => exact map_value_ofDigits?.2 written
  | prefixed marks written =>
    rcases marks with rfl | rfl <;> exact map_value_ofDigits?.2 written
  | suffixed decimal marks written =>
    rw [ofChars?_of_suffixed decimal marks written]
    exact map_value_ofDigits?.2 written
  | decimal written =>
    have suffix : beforeSuffix? chars = none :=
      beforeSuffix?_eq_none (written.not_mem (by decide)) (written.not_mem (by decide))
    rw [ofChars?_of_unmarked (written.not_mem (by decide)) (written.not_mem (by decide))
      (written.not_mem (by decide)), suffix]
    exact map_value_ofDigits?.2 written

/-- No text writes two numbers. -/
theorem Reads.unique {other : Nat} (reads : Reads number chars) (again : Reads other chars) :
    number = other := by
  have first := map_value_ofChars?.2 reads
  rw [map_value_ofChars?.2 again] at first
  exact (Option.some.inj first).symm

/-- What the parser makes of a text, blank characters at its ends apart. If the text writes a
number, this is the answer unless it does not fit into 32 bits. -/
theorem parse_cases (text : String) :
    (∃ number, Reads number (Text.trim text.toList) ∧
      parse text =
        if number < limit then .ok number
        else .error (.tooLarge (String.ofList (Text.trim text.toList)))) ∨
    ((∀ number, ¬Reads number (Text.trim text.toList)) ∧
      (parse text = .error .empty ∨
        parse text = .error (.malformed (String.ofList (Text.trim text.toList))))) := by
  have read (number : Nat) := @map_value_ofChars? number (Text.trim text.toList)
  rcases outcome : ofChars? (Text.trim text.toList) with _ | numeral
  · right
    constructor
    · intro number reads
      have answer := (read number).2 reads
      rw [outcome] at answer
      cases answer
    · unfold parse
      simp only [outcome]
      split
      · exact .inl rfl
      · exact .inr rfl
  · left
    have reads := (read numeral.value).1 (by rw [outcome, Option.map_some])
    have some : ¬(Text.trim text.toList).isEmpty = true := by
      rw [List.isEmpty_iff]
      intro none
      rw [none] at reads
      exact reads.ne_nil rfl
    refine ⟨numeral.value, reads, ?_⟩
    unfold parse
    simp only [outcome, if_neg some]

/-- A text is parsed as the number that it writes. -/
theorem parse_of_reads {text : String} (reads : Reads number (Text.trim text.toList))
    (fits : number < limit) : parse text = .ok number := by
  rcases parse_cases text with ⟨other, again, answer⟩ | ⟨none, _⟩
  · obtain rfl := reads.unique again
    rw [answer, if_pos fits]
  · exact absurd reads (none number)

/-- A spelling is one of the ways to write a number. -/
theorem reads_of_spells (spelled : form.Spells number chars) : Reads number chars := by
  obtain ⟨digits, written, rfl⟩ := spelled
  cases form with
  | hash => exact .hash written
  | suffixed => exact .suffixed (by decide) (.inl rfl) (written.cons_zero (by decide))
  | prefixed => exact .prefixed (.inl rfl) written
  | decimal => exact .decimal written

/-- A spelling is not divided by a line. -/
theorem isToken_of_spells (spelled : form.Spells number chars) : Text.IsToken chars := by
  obtain ⟨digits, written, rfl⟩ := spelled
  have plain := written.isPlain
  cases form with
  | hash =>
    refine ⟨List.cons_ne_nil _ _, ?_⟩
    simp only [Form.mark, List.forall_mem_cons]
    exact ⟨by decide, plain⟩
  | suffixed =>
    refine ⟨List.cons_ne_nil _ _, ?_⟩
    simp only [Form.mark, List.forall_mem_append, List.forall_mem_cons]
    exact ⟨⟨by decide, plain⟩, by decide, by simp⟩
  | prefixed =>
    refine ⟨List.cons_ne_nil _ _, ?_⟩
    simp only [Form.mark, List.forall_mem_cons]
    exact ⟨by decide, by decide, plain⟩
  | decimal => exact ⟨written.nonempty, plain⟩

/-- A spelling has no blank characters around it. -/
theorem reads_trim_of_spells (spelled : form.Spells number chars) :
    Reads number (Text.trim (String.ofList chars).toList) := by
  rw [String.toList_ofList, (isToken_of_spells spelled).trim_eq]
  exact reads_of_spells spelled

/-- A text that starts with another character than labels do is no label name. -/
theorem defect?_cons_ne_none {first : Char} (other : Label.isStart first = false)
    (rest : List Char) : Label.defect? (first :: rest) ≠ none := by
  simp only [Label.defect?, other]
  split <;> simp

theorem isStart_of_isDigit {c : Char} (decimal : c.isDigit = true) : Label.isStart c = false := by
  have place : 48 ≤ c.toNat ∧ c.toNat ≤ 57 := by
    simpa [Char.isDigit, UInt32.le_iff_toNat_le] using decimal
  have each : ∀ code : Fin 58, 48 ≤ code.val → Label.isStart (Char.ofNat code.val) = false := by
    decide
  have here := each ⟨c.toNat, Nat.lt_succ_of_le place.2⟩ place.1
  rwa [Char.ofNat_toNat] at here

theorem isStart_of_isBlank {c : Char} (blank : Text.isBlank c = true) :
    Label.isStart c = false := by
  by_contra starts
  have part := Label.isPart_of_isStart (Bool.of_not_eq_false starts)
  rw [Label.isPart_of_isBlank blank] at part
  cases part

/-- A digit of base ten is a decimal digit. -/
theorem isDigit_of_digitValue? {c : Char} {digit : Nat} (known : digitValue? c = some digit)
    (below : digit < 10) : c.isDigit = true := by
  rcases toNat_of_digitValue? known with place | ⟨beyond, _⟩
  · simpa [Char.isDigit, UInt32.le_iff_toNat_le] using place
  · exact absurd below (Nat.not_lt.2 beyond)

/-- A text that writes a number starts with `#` or with a decimal digit, as no label does. -/
theorem Reads.exists_first (reads : Reads number chars) :
    ∃ first rest, chars = first :: rest ∧ Label.isStart first = false := by
  cases reads with
  | hash written => exact ⟨_, _, rfl, by decide⟩
  | prefixed marks written => exact ⟨_, _, rfl, by decide⟩
  | suffixed decimal marks written => exact ⟨_, _, rfl, isStart_of_isDigit decimal⟩
  | decimal written =>
    obtain ⟨first, rest, rfl⟩ := List.exists_cons_of_ne_nil written.nonempty
    obtain ⟨digit, below, known⟩ := written.digits first List.mem_cons_self
    exact ⟨_, _, rfl, isStart_of_isDigit (isDigit_of_digitValue? known below)⟩

/-- No text that writes a number is a label name, with blank characters around it or without. -/
theorem defect?_of_reads (reads : Reads number (Text.trim chars)) :
    Label.defect? chars ≠ none := by
  obtain ⟨first, rest, trimmed, other⟩ := reads.exists_first
  match chars with
  | [] => simp [Text.trim] at trimmed
  | c :: others =>
    rcases visible : Text.isBlank c with _ | _
    · obtain ⟨_, kept⟩ := Text.exists_trim_cons visible others
      rw [kept] at trimmed
      obtain rfl := (List.cons.inj trimmed).1
      exact defect?_cons_ne_none other others
    · exact defect?_cons_ne_none (isStart_of_isBlank visible) others

end Numeral

end I8085
