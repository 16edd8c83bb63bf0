/-
Module: I8085.Proofs.NumeralGrammar
Layer: Proofs
Purpose: Which texts are numbers. A text is read in a form and as a list of digits, and the grammar
  says what the characters of each form are, without a word about how the parser goes over them. A
  digit is written as the library writes it, in either case. The characters that mark a form are
  not digits, and they mark no other form, so a text has one reading at most
  (`Numeral.Reading.Of.unique`). The parser accepts the texts whose reading fits into 32 bits, and
  says of every other text why it does not (`Numeral.parse_follows_grammar`).
Imports: I8085.Proofs.LineParts, I8085.Proofs.NumeralSpelling
Main exports: Text.Trims, Numeral.IsDigit, Numeral.AreDigits, Numeral.Reading, Numeral.Reading.Of,
  Numeral.Reading.Of.unique, Numeral.exists_reading_iff, Numeral.parse_of_reading,
  Numeral.parse_of_no_reading, Numeral.FollowsGrammar, Numeral.parse_follows_grammar
-/
import I8085.Proofs.LineParts
import I8085.Proofs.NumeralSpelling

namespace I8085

/-- What is left of characters without those that are blank at either end. -/
structure Text.Trims (whole chars : List Char) : Prop where
  between : ∃ before after, whole = before ++ chars ++ after ∧
    (∀ c ∈ before, isBlank c = true) ∧ (∀ c ∈ after, isBlank c = true)
  first : ∀ c, chars.head? = some c → isBlank c = false
  last : ∀ c, chars.getLast? = some c → isBlank c = false

theorem Text.trims_trim (whole : List Char) : Trims whole (trim whole) := by
  obtain ⟨after, blank, split⟩ := exists_trail whole
  constructor
  case between =>
    exact ⟨_, after, split, fun c member => List.mem_takeWhile_imp member, blank⟩
  case first => exact fun c first => isBlank_of_head?_trim first
  case last => exact fun c last => isBlank_of_getLast?_trim last

namespace Numeral

/-! ### The grammar -/

/-- Whether a character writes a digit of a base. Letters may be of either case. -/
structure IsDigit (base digit : Nat) (c : Char) : Prop where
  below : digit < base
  spelt : c = digit.digitChar ∨ c = digit.digitChar.toUpper

/-- Whether characters write digits of a base, one at least. -/
structure AreDigits (base : Nat) (digits : List Nat) (chars : List Char) : Prop where
  nonempty : digits ≠ []
  each : List.Forall₂ (IsDigit base) digits chars

/-- What a text is read as: a form and the digits, the most significant one first. -/
structure Reading where
  form : Form
  digits : List Nat
deriving Repr, DecidableEq

namespace Reading

/-- The positional value. -/
def value (reading : Reading) : Nat := Nat.ofDigits reading.form.base reading.digits.reverse

/-- The characters that are read so. -/
inductive Of : Reading → List Char → Prop where
  | hash {digits : List Nat} {chars : List Char} (written : AreDigits 16 digits chars) :
      Of ⟨.hash, digits⟩ ('#' :: chars)
  | prefixed {digits : List Nat} {mark : Char} {chars : List Char} (marks : mark = 'x' ∨ mark = 'X')
      (written : AreDigits 16 digits chars) : Of ⟨.prefixed, digits⟩ ('0' :: mark :: chars)
  | suffixed {digit : Nat} {digits : List Nat} {first mark : Char} {chars : List Char}
      (decimal : IsDigit 10 digit first) (others : List.Forall₂ (IsDigit 16) digits chars)
      (marks : mark = 'H' ∨ mark = 'h') : Of ⟨.suffixed, digit :: digits⟩ (first :: chars ++ [mark])
  | decimal {digits : List Nat} {chars : List Char} (written : AreDigits 10 digits chars) :
      Of ⟨.decimal, digits⟩ chars

end Reading

/-! ### Digits -/

variable {base digit number : Nat} {digits : List Nat} {c : Char} {chars : List Char}

/-- The characters that write a digit are those that have its value. -/
theorem isDigit_iff (small : base ≤ 16) :
    IsDigit base digit c ↔ digitValue? c = some digit ∧ digit < base := by
  constructor
  · rintro ⟨below, rfl | rfl⟩
    · exact ⟨digitValue?_digitChar (Nat.lt_of_lt_of_le below small), below⟩
    · have each : ∀ digit : Fin 16, digitValue? digit.val.digitChar.toUpper = some digit.val := by
        decide
      exact ⟨each ⟨digit, Nat.lt_of_lt_of_le below small⟩, below⟩
  · rintro ⟨known, below⟩
    have place : c.toNat < 103 := by
      have places := toNat_of_digitValue? known
      omega
    have each : ∀ code : Fin 103, (digitValue? (Char.ofNat code.val)).all fun digit =>
        Char.ofNat code.val = digit.digitChar ∨
          Char.ofNat code.val = digit.digitChar.toUpper := by
      decide +kernel
    have here := each ⟨c.toNat, place⟩
    rw [Char.ofNat_toNat, known] at here
    exact ⟨below, of_decide_eq_true here⟩

theorem IsDigit.isDigit (decimal : IsDigit 10 digit c) : c.isDigit = true := by
  obtain ⟨known, below⟩ := (isDigit_iff (by decide)).1 decimal
  exact isDigit_of_digitValue? known below

theorem isDigit_of_value (known : digitValue? c = some digit) (decimal : c.isDigit = true) :
    IsDigit 10 digit c := by
  have place : 48 ≤ c.toNat ∧ c.toNat ≤ 57 := by
    simpa [Char.isDigit, UInt32.le_iff_toNat_le] using decimal
  have same := known
  rw [digitValue?, if_pos decimal] at same
  obtain rfl := Option.some.inj same
  exact (isDigit_iff (by decide)).2 ⟨known, by change c.toNat - 48 < 10; omega⟩

/-- A digit of a smaller base is one of a larger base. -/
theorem IsDigit.mono {larger : Nat} (written : IsDigit base digit c) (more : base ≤ larger) :
    IsDigit larger digit c :=
  ⟨Nat.lt_of_lt_of_le written.below more, written.spelt⟩

/-- Digits can be read back from the characters that write them. -/
theorem filterMap_eq_of_digits (small : base ≤ 16)
    (written : List.Forall₂ (IsDigit base) digits chars) :
    chars.filterMap digitValue? = digits := by
  induction written with
  | nil => rfl
  | cons first _ ih =>
    rw [List.filterMap_cons_some ((isDigit_iff small).1 first).1, ih]

theorem digits_of_values (small : base ≤ 16)
    (values : ∀ c ∈ chars, ∃ digit < base, digitValue? c = some digit) :
    List.Forall₂ (IsDigit base) (chars.filterMap digitValue?) chars := by
  induction chars with
  | nil => exact .nil
  | cons first rest ih =>
    rw [List.forall_mem_cons] at values
    obtain ⟨⟨digit, below, known⟩, others⟩ := values
    rw [List.filterMap_cons_some known]
    exact .cons ((isDigit_iff small).2 ⟨known, below⟩) (ih others)

theorem values_of_digits (small : base ≤ 16) (written : List.Forall₂ (IsDigit base) digits chars) :
    ∀ c ∈ chars, ∃ digit < base, digitValue? c = some digit := by
  induction written with
  | nil => exact List.forall_mem_nil _
  | cons first _ ih =>
    obtain ⟨known, below⟩ := (isDigit_iff small).1 first
    exact List.forall_mem_cons.2 ⟨⟨_, below, known⟩, ih⟩

namespace AreDigits

theorem writes (written : AreDigits base digits chars) (small : base ≤ 16) :
    Writes base (Nat.ofDigits base digits.reverse) chars where
  nonempty := by
    rintro rfl
    exact written.nonempty (List.forall₂_nil_right_iff.1 written.each)
  digits := values_of_digits small written.each
  value_eq := by rw [filterMap_eq_of_digits small written.each]

end AreDigits

theorem Writes.areDigits (written : Writes base number chars) (small : base ≤ 16) :
    AreDigits base (chars.filterMap digitValue?) chars := by
  have each := digits_of_values small written.digits
  refine ⟨?_, each⟩
  intro none
  rw [none] at each
  exact written.nonempty (List.forall₂_nil_left_iff.1 each)

/-! ### Readings -/

namespace Reading

variable {reading other : Reading}

/-- A text that has a reading writes its value. -/
theorem Of.reads (of : reading.Of chars) : Reads reading.value chars := by
  cases of with
  | hash written => exact .hash (written.writes (by decide))
  | prefixed marks written => exact .prefixed marks (written.writes (by decide))
  | suffixed decimal others marks =>
    have written : AreDigits 16 (_ :: _) (_ :: _) :=
      ⟨List.cons_ne_nil _ _, .cons (decimal.mono (by decide)) others⟩
    exact .suffixed decimal.isDigit marks (written.writes (by decide))
  | decimal written => exact .decimal (written.writes (by decide))

end Reading

/-- A text writes a number exactly if it has a reading with this value. -/
theorem exists_reading_iff :
    (∃ reading : Reading, reading.Of chars ∧ reading.value = number) ↔ Reads number chars := by
  constructor
  · rintro ⟨reading, of, rfl⟩
    exact of.reads
  · intro reads
    cases reads with
    | hash written => exact ⟨_, .hash (written.areDigits (by decide)), written.value_eq⟩
    | prefixed marks written =>
      exact ⟨_, .prefixed marks (written.areDigits (by decide)), written.value_eq⟩
    | suffixed decimal marks written =>
      obtain ⟨digit, _, known⟩ := written.digits _ List.mem_cons_self
      have others := digits_of_values (by decide) (List.forall_mem_cons.1 written.digits).2
      refine ⟨_, .suffixed (isDigit_of_value known decimal) others marks, ?_⟩
      rw [← written.value_eq, List.filterMap_cons_some known]
      rfl
    | decimal written => exact ⟨_, .decimal (written.areDigits (by decide)), written.value_eq⟩

/-- The characters that mark a form. -/
def Form.signs : Form → List Char
  | hash => ['#']
  | suffixed => ['H', 'h']
  | prefixed => ['x', 'X']
  | decimal => []

theorem Form.mem_signs_prefixed : c ∈ prefixed.signs ↔ c = 'x' ∨ c = 'X' := by
  simp [signs]

theorem Form.mem_signs_suffixed : c ∈ suffixed.signs ↔ c = 'H' ∨ c = 'h' := by
  simp [signs]

theorem Form.eq_of_sign {form other : Form} (here : c ∈ form.signs) (there : c ∈ other.signs) :
    form = other := by
  cases form <;> cases other <;> grind [signs]

theorem Form.digitValue?_sign {form : Form} (sign : c ∈ form.signs) : digitValue? c = none := by
  cases form with
  | hash =>
    obtain rfl := List.mem_singleton.1 sign
    rfl
  | suffixed => rcases mem_signs_suffixed.1 sign with rfl | rfl <;> rfl
  | prefixed => rcases mem_signs_prefixed.1 sign with rfl | rfl <;> rfl
  | decimal => cases sign

theorem not_mem_of_digits {form : Form} (small : base ≤ 16)
    (written : List.Forall₂ (IsDigit base) digits chars) (sign : c ∈ form.signs) : c ∉ chars := by
  intro member
  obtain ⟨digit, _, known⟩ := values_of_digits small written c member
  rw [Form.digitValue?_sign sign] at known
  cases known

namespace Reading

variable {reading other : Reading}

/-- No sign but those of its form is in a text. -/
theorem Of.form_eq_of_sign {form : Form} (of : reading.Of chars) (sign : c ∈ form.signs)
    (member : c ∈ chars) : form = reading.form := by
  have digits {base : Nat} {digits : List Nat} {chars : List Char} (small : base ≤ 16)
      (written : List.Forall₂ (IsDigit base) digits chars) (among : c ∈ chars) :
      form = reading.form := absurd among (not_mem_of_digits small written sign)
  cases of with
  | hash written =>
    rcases List.mem_cons.1 member with rfl | later
    · exact Form.eq_of_sign sign (List.mem_singleton_self _)
    · exact digits (by decide) written.each later
  | prefixed marks written =>
    rcases List.mem_cons.1 member with rfl | later
    · cases Form.digitValue?_sign sign
    · rcases List.mem_cons.1 later with rfl | later
      · exact Form.eq_of_sign sign (Form.mem_signs_prefixed.2 marks)
      · exact digits (by decide) written.each later
  | suffixed decimal others marks =>
    rcases List.mem_append.1 member with front | last
    · exact digits (by decide) (.cons (decimal.mono (by decide)) others) front
    · obtain rfl := List.mem_singleton.1 last
      exact Form.eq_of_sign sign (Form.mem_signs_suffixed.2 marks)
  | decimal written => exact digits (by decide) written.each member

theorem Of.exists_sign (of : reading.Of chars) (marked : reading.form ≠ .decimal) :
    ∃ c ∈ reading.form.signs, c ∈ chars := by
  cases of with
  | hash => exact ⟨'#', List.mem_singleton_self _, List.mem_cons_self⟩
  | prefixed marks =>
    exact ⟨_, Form.mem_signs_prefixed.2 marks, List.mem_cons_of_mem _ List.mem_cons_self⟩
  | suffixed _ _ marks =>
    exact ⟨_, Form.mem_signs_suffixed.2 marks,
      List.mem_append_right _ (List.mem_singleton_self _)⟩
  | decimal => exact absurd rfl marked

theorem Of.form_eq (of : reading.Of chars) (again : other.Of chars) :
    reading.form = other.form := by
  by_cases marked : reading.form = .decimal
  · by_cases alsoMarked : other.form = .decimal
    · rw [marked, alsoMarked]
    · obtain ⟨c, sign, member⟩ := again.exists_sign alsoMarked
      exact (of.form_eq_of_sign sign member).symm
  · obtain ⟨c, sign, member⟩ := of.exists_sign marked
    exact again.form_eq_of_sign sign member

/-- Every character that has a value writes one of the digits, but for the zero of a prefix. -/
theorem Of.filterMap_eq (of : reading.Of chars) :
    chars.filterMap digitValue? =
      if reading.form = .prefixed then 0 :: reading.digits else reading.digits := by
  have zero : digitValue? '0' = some 0 := by decide
  cases of with
  | hash written =>
    have sign : digitValue? '#' = none := by decide
    rw [List.filterMap_cons_none sign, filterMap_eq_of_digits (by decide) written.each]
    rfl
  | prefixed marks written =>
    have sign := Form.digitValue?_sign (Form.mem_signs_prefixed.2 marks)
    rw [List.filterMap_cons_some zero, List.filterMap_cons_none sign,
      filterMap_eq_of_digits (by decide) written.each]
    rfl
  | suffixed decimal others marks =>
    have sign := Form.digitValue?_sign (Form.mem_signs_suffixed.2 marks)
    rw [List.filterMap_append, List.filterMap_cons_none sign, List.filterMap_nil, List.append_nil]
    exact filterMap_eq_of_digits (by decide) (.cons (decimal.mono (by decide)) others)
  | decimal written => exact filterMap_eq_of_digits (by decide) written.each

/-- No text has two readings. -/
theorem Of.unique (of : reading.Of chars) (again : other.Of chars) : reading = other := by
  have form := of.form_eq again
  have digits := of.filterMap_eq.symm.trans again.filterMap_eq
  rw [form] at digits
  have same : reading.digits = other.digits := by
    split at digits
    · exact (List.cons.inj digits).2
    · exact digits
  cases reading
  cases other
  cases form
  cases same
  rfl

end Reading

/-! ### The parser -/

variable {reading : Reading} {text : String}

/-- A text that has a reading is answered by its value, or is said to be too large. -/
theorem parse_of_reading (of : reading.Of (Text.trim text.toList)) :
    parse text =
      if reading.value < limit then .ok reading.value
      else .error (.tooLarge (String.ofList (Text.trim text.toList))) := by
  rcases parse_cases text with ⟨number, reads, answer⟩ | ⟨none, _⟩
  · rwa [of.reads.unique reads]
  · exact absurd of.reads (none reading.value)

/-- A text that has no reading is said to be empty or malformed. -/
theorem parse_of_no_reading (none : ∀ reading : Reading, ¬reading.Of (Text.trim text.toList)) :
    parse text =
      .error (if Text.trim text.toList = [] then .empty
        else .malformed (String.ofList (Text.trim text.toList))) := by
  have unread : ofChars? (Text.trim text.toList) = .none := by
    rcases outcome : ofChars? (Text.trim text.toList) with _ | numeral
    · rfl
    · have reads := map_value_ofChars?.1 (by rw [outcome, Option.map_some])
      obtain ⟨reading, of, _⟩ := exists_reading_iff.2 reads
      exact absurd of (none reading)
  unfold parse
  simp only [unread, List.isEmpty_iff]
  split <;> rfl

/-- What the grammar says about the answer to a text. The characters are what is left of it without
the blank ones at its ends. -/
structure FollowsGrammar (text : String) (chars : List Char) : Prop where
  trimmed : Text.Trims text.toList chars
  unique : ∀ reading other : Reading, reading.Of chars → other.Of chars → reading = other
  accepted : ∀ number, parse text = .ok number ↔
    ∃ reading : Reading, reading.Of chars ∧ reading.value = number ∧ number < 2 ^ 32
  empty : chars = [] → (parse text).mapError NumeralError.message = .error "empty number string"
  malformed : chars ≠ [] → (∀ reading : Reading, ¬reading.Of chars) →
    (parse text).mapError NumeralError.message =
      .error ("invalid number: " ++ String.ofList chars)
  tooLarge : ∀ reading : Reading, reading.Of chars → 2 ^ 32 ≤ reading.value →
    (parse text).mapError NumeralError.message =
      .error ("number too large: " ++ String.ofList chars)

/-- The parser answers every text as the grammar says. -/
theorem parse_follows_grammar (text : String) : FollowsGrammar text (Text.trim text.toList) := by
  constructor
  case trimmed => exact Text.trims_trim text.toList
  case unique => exact fun reading other of again => of.unique again
  case accepted =>
    intro number
    constructor
    · intro answer
      by_cases readable : ∃ reading : Reading, reading.Of (Text.trim text.toList)
      · obtain ⟨reading, of⟩ := readable
        rw [parse_of_reading of] at answer
        split at answer
        next fits =>
          obtain rfl := Except.ok.inj answer
          exact ⟨reading, of, rfl, fits⟩
        next => cases answer
      · rw [parse_of_no_reading (not_exists.1 readable)] at answer
        cases answer
    · rintro ⟨reading, of, rfl, fits⟩
      exact (parse_of_reading of).trans (if_pos fits)
  case empty =>
    intro empty
    have none (reading : Reading) : ¬reading.Of (Text.trim text.toList) :=
      fun of => of.reads.ne_nil empty
    rw [parse_of_no_reading none, if_pos empty]
    rfl
  case malformed =>
    intro filled none
    rw [parse_of_no_reading none, if_neg filled]
    rfl
  case tooLarge =>
    intro reading of large
    have beyond : ¬reading.value < limit := Nat.not_lt.2 large
    rw [parse_of_reading of, if_neg beyond]
    rfl

/-- The forms do not mix: a prefix leaves no room for a suffix. -/
example : parse " 0x1H" = .error (.malformed "0x1H") := by rfl

end Numeral

end I8085
