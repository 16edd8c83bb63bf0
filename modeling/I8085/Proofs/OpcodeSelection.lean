/-
Module: I8085.Proofs.OpcodeSelection
Layer: Proofs
Purpose: The opcode that is chosen for the operands of a chart entry. Operands are ambiguous: a
  register name can be a label, and a single digit can be a restart vector. The choice is still
  settled, since all opcodes of a mnemonic have the same number of fields
  (`Opcode.length_fields_of_cell`), so that the search for the longest run of fields finds none but
  that one (`Selection.findSome?_ofFields?`), and since no two opcodes agree in mnemonic and fields.
  Conversely nothing is chosen that is not written in the chart: an opcode is the answer exactly if
  its entry takes the word and the operands (`Selection.ofOperands_settled`).
Imports: I8085.Assembly.Selection
Main exports: Mnemonic.ofName?_name, Mnemonic.fieldCount, Opcode.ofNames?_of_cell,
  Selection.findSome?_ofFields?, Selection.ofOperands_of_cell, Opcode.Entry.Takes,
  Selection.exists_takes_of_ofOperands, Selection.ofOperands_settled
-/
import I8085.Assembly.Selection

namespace I8085

/-! ### Mnemonics and fields -/

namespace Mnemonic

theorem mem_all (mnemonic : Mnemonic) : mnemonic ∈ all := by
  cases mnemonic <;> decide

/-- A mnemonic is found by its name. -/
theorem ofName?_name (mnemonic : Mnemonic) : ofName? mnemonic.name = some mnemonic := by
  have each : ∀ mnemonic ∈ all, ofName? mnemonic.name = some mnemonic := by decide +kernel
  exact each mnemonic (mem_all mnemonic)

/-- What is found by a name has this name. -/
theorem name_of_ofName? {name : String} {mnemonic : Mnemonic}
    (found : ofName? name = some mnemonic) : mnemonic.name = name := by
  have same := List.find?_some found
  exact beq_iff_eq.1 same

/-- The number of operands that an opcode of the mnemonic names. -/
def fieldCount : Mnemonic → Nat
  | mov => 2
  | mvi | lxi | ldax | stax | inx | dcx | dad | inr | dcr => 1
  | add | adc | sub | sbb | ana | xra | ora | cmp => 1
  | push | pop | rst => 1
  | _ => 0

end Mnemonic

namespace Opcode

variable {opcode : Byte} {entry : Entry}

/-- All opcodes of a mnemonic name equally many operands. -/
theorem length_fields_of_cell (cell : cell? opcode = some entry) :
    entry.fields.length = entry.mnemonic.fieldCount := by
  have each : ∀ code : Fin 256, (cell? (UInt8.ofNat code)).all fun entry =>
      entry.fields.length == entry.mnemonic.fieldCount := by
    decide +kernel
  have here : (cell? opcode).all fun entry => entry.fields.length == entry.mnemonic.fieldCount := by
    simpa using each opcode.toFin
  rw [cell] at here
  simpa using here

/-- No two opcodes have both the mnemonic and the fields in common. -/
theorem ofNames?_of_cell (cell : cell? opcode = some entry) :
    ofNames? entry.mnemonic entry.fieldNames = some opcode := by
  have each : ∀ code : Fin 256, (cell? (UInt8.ofNat code)).all fun entry =>
      ofNames? entry.mnemonic entry.fieldNames == some (UInt8.ofNat code) := by
    decide +kernel
  have here : (cell? opcode).all fun entry =>
      ofNames? entry.mnemonic entry.fieldNames == some opcode := by
    simpa using each opcode.toFin
  rw [cell] at here
  simpa using here

/-- The operand of an opcode is that of its entry. -/
theorem operand_of_cell (cell : cell? opcode = some entry) : operand opcode = entry.operand := by
  rw [operand, cell]
  rfl

/-- Every mnemonic has an opcode. -/
theorem exists_cell_of_mnemonic (mnemonic : Mnemonic) :
    ∃ opcode entry, cell? opcode = some entry ∧ entry.mnemonic = mnemonic := by
  have each : ∀ mnemonic ∈ Mnemonic.all,
      (find? fun entry => entry.mnemonic == mnemonic).isSome = true := by
    decide +kernel
  obtain ⟨opcode, found⟩ := Option.isSome_iff_exists.1 (each mnemonic mnemonic.mem_all)
  have passes := List.find?_some found
  obtain ⟨entry, cell, same⟩ := (Option.any_eq_true _ _).1 passes
  exact ⟨opcode, entry, cell, beq_iff_eq.1 same⟩

/-- The names of fields are in upper case. -/
theorem upper_field (field : Field) : Text.upper field.name = field.name := by
  cases field with
  | register register => cases register <;> decide
  | pair pair => cases pair <;> decide
  | vector number =>
    have each : ∀ number : Fin 8,
        Text.upper (Field.vector number).name = (Field.vector number).name := by
      decide
    exact each number

theorem map_upper_fieldNames (entry : Entry) :
    entry.fieldNames.map Text.upper = entry.fieldNames := by
  rw [Entry.fieldNames, List.map_map]
  exact List.map_congr_left fun field _ => upper_field field

/-- What is found for names has these names as its fields. -/
theorem cell_of_ofNames? {mnemonic : Mnemonic} {names : List String}
    (found : ofNames? mnemonic names = some opcode) :
    ∃ entry, cell? opcode = some entry ∧ entry.mnemonic = mnemonic ∧ entry.fieldNames = names := by
  have passes := List.find?_some found
  obtain ⟨entry, cell, same⟩ := (Option.any_eq_true _ _).1 passes
  simp only [Bool.and_eq_true, beq_iff_eq] at same
  exact ⟨entry, cell, same⟩

/-- Whether a written instruction is one of a chart entry: the word is the mnemonic and the first
operands are the fields, in either case, and one operand more is written if the entry takes data. -/
structure Entry.Takes (entry : Entry) (word : String) (operands : List String) : Prop where
  word_eq : Text.upper word = entry.mnemonic.name
  fields_eq : (operands.take entry.fields.length).map Text.upper = entry.fieldNames.map Text.upper
  count : operands.length = entry.fields.length + if entry.operand = .none then 0 else 1

/-- No instruction is written as two opcodes. -/
theorem Entry.Takes.unique {other : Byte} {another : Entry} {word : String}
    {operands : List String} (cell : cell? opcode = some entry)
    (cell_other : cell? other = some another) (takes : entry.Takes word operands)
    (takes_other : another.Takes word operands) : opcode = other := by
  have mnemonic : entry.mnemonic = another.mnemonic := by
    have names := takes.word_eq.symm.trans takes_other.word_eq
    have found := Mnemonic.ofName?_name entry.mnemonic
    rw [names, Mnemonic.ofName?_name] at found
    exact (Option.some.inj found).symm
  have arity : entry.fields.length = another.fields.length := by
    rw [length_fields_of_cell cell, length_fields_of_cell cell_other, mnemonic]
  have names : entry.fieldNames = another.fieldNames := by
    rw [← map_upper_fieldNames entry, ← map_upper_fieldNames another, ← takes.fields_eq,
      ← takes_other.fields_eq, arity]
  have found := ofNames?_of_cell cell
  rw [mnemonic, names, ofNames?_of_cell cell_other] at found
  exact (Option.some.inj found).symm

end Opcode

/-! ### The names of fields -/

namespace Selection

/-- The upper-case form of a character is a decimal digit only if the character is that digit. -/
theorem toUpper_eq_self_of_isDigit {c : Char} (digit : c.toUpper.isDigit = true) :
    c.toUpper = c := by
  unfold Char.toUpper at digit ⊢
  split
  next lower =>
    exfalso
    rw [dif_pos lower] at digit
    simp [Char.isDigit, UInt32.le_iff_toNat_le] at digit lower
    omega
  next => rfl

/-- A decimal digit has no other case. -/
theorem toUpper_of_isDigit {c : Char} (digit : c.isDigit = true) : c.toUpper = c := by
  unfold Char.toUpper
  split
  next lower =>
    exfalso
    simp [Char.isDigit, UInt32.le_iff_toNat_le] at digit lower
    omega
  next => rfl

/-- The name of the register or the pair that is spelled so. Registers come first, so a pair of two
registers is found as the first of them, which has the same name. -/
def operandName? (name : String) : Option String :=
  ((Register.all.toList.find? (·.name == name)).map Register.name).or
    (([RegisterPair.bc, .de, .hl, .sp, .psw].find? (·.name == name)).map RegisterPair.name)

theorem fieldName?_eq (operand : String) :
    fieldName? operand =
      (operandName? (Text.upper operand)).or
        (match operand.toList with
        | [digit] => if digit.isDigit then some operand else none
        | _ => none) := by
  rw [fieldName?, ← Option.or_assoc]
  rfl

theorem operandName?_register (register : Register) :
    operandName? register.name = some register.name := by
  cases register <;> decide

theorem operandName?_pair (pair : RegisterPair) : operandName? pair.name = some pair.name := by
  cases pair <;> decide

theorem operandName?_vector (number : Fin 8) : operandName? (toString number.val) = none := by
  revert number
  decide

/-- The number of a restart vector is written as one digit. -/
theorem exists_vector_digit (number : Fin 8) :
    ∃ digit : Char, (toString number.val).toList = [digit] ∧ digit.isDigit = true := by
  have each : ∀ number : Fin 8, (toString number.val).toList = [Nat.digitChar number.val] ∧
      (Nat.digitChar number.val).isDigit = true := by
    decide
  exact ⟨_, each number⟩

/-- A text that is the name of a field but for case is taken for that field. -/
theorem fieldName?_of_upper {operand : String} {field : Opcode.Field}
    (same : Text.upper operand = field.name) : fieldName? operand = some field.name := by
  rw [fieldName?_eq, same]
  cases field with
  | register register => rw [Opcode.Field.name, operandName?_register, Option.some_or]
  | pair pair => rw [Opcode.Field.name, operandName?_pair, Option.some_or]
  | vector number =>
    obtain ⟨digit, spelt, decimal⟩ := exists_vector_digit number
    have chars : operand.toList.map Char.toUpper = [digit] := by
      rw [← spelt, ← Opcode.Field.name, ← same, Text.upper, String.toList_ofList]
    obtain ⟨c, single, raised⟩ := List.map_eq_singleton_iff.1 chars
    obtain rfl : c = digit := by
      rw [← raised] at decimal ⊢
      exact (toUpper_eq_self_of_isDigit decimal).symm
    have text : operand = toString number.val := by
      rw [← String.toList_inj, single, spelt]
    rw [Opcode.Field.name, operandName?_vector, Option.none_or, single]
    simp only [decimal, if_true]
    rw [text]

theorem eq_of_operandName? {text name : String} (found : operandName? text = some name) :
    name = text := by
  rcases Option.or_eq_some_iff.1 found with register | ⟨_, pair⟩
  · obtain ⟨register, listed, rfl⟩ := Option.map_eq_some_iff.1 register
    have same := List.find?_some listed
    exact beq_iff_eq.1 same
  · obtain ⟨pair, listed, rfl⟩ := Option.map_eq_some_iff.1 pair
    have same := List.find?_some listed
    exact beq_iff_eq.1 same

/-- A text is taken for a field only if it is the name of this field but for case. -/
theorem upper_of_fieldName? {operand name : String} (taken : fieldName? operand = some name) :
    Text.upper operand = name := by
  rw [fieldName?_eq] at taken
  rcases Option.or_eq_some_iff.1 taken with named | ⟨_, digit⟩
  · exact (eq_of_operandName? named).symm
  · split at digit
    next c single =>
      simp only [Option.ite_none_right_eq_some, Option.some.injEq] at digit
      obtain ⟨decimal, rfl⟩ := digit
      rw [← String.toList_inj, Text.upper, String.toList_ofList, single, List.map_singleton,
        toUpper_of_isDigit decimal]
    next => cases digit

theorem map_upper_take_fieldNames (operands : List String) :
    (operands.take (fieldNames operands).length).map Text.upper = fieldNames operands := by
  induction operands with
  | nil => rfl
  | cons operand rest ih =>
    rw [fieldNames]
    split
    next name taken =>
      rw [List.length_cons, List.take_succ_cons, List.map_cons, ih, upper_of_fieldName? taken]
    next => rfl

/-- Operands that name fields are taken for these fields, and the search goes on after them. -/
theorem fieldNames_append {operands : List String} {fields : List Opcode.Field}
    (listed : operands.map Text.upper = fields.map Opcode.Field.name) (data : List String) :
    fieldNames (operands ++ data) = fields.map Opcode.Field.name ++ fieldNames data := by
  induction fields generalizing operands with
  | nil =>
    obtain rfl : operands = [] := List.map_eq_nil_iff.1 listed
    rfl
  | cons field rest ih =>
    obtain ⟨operand, later, rfl, same, listed⟩ := List.map_eq_cons_iff.1 listed
    rw [List.cons_append, fieldNames, fieldName?_of_upper same]
    simp only [List.map_cons, List.cons_append]
    rw [ih listed]

/-! ### The search -/

/-- Names are fields of the mnemonic only if there are as many as it takes. -/
theorem ofFields?_eq_none {mnemonic : Mnemonic} {names : List String}
    (other : names.length ≠ mnemonic.fieldCount) (operandCount : Nat) :
    ofFields? mnemonic names operandCount = none := by
  have absent : Opcode.ofNames? mnemonic names = none := by
    rw [Option.eq_none_iff_forall_ne_some]
    intro opcode found
    obtain ⟨entry, cell, rfl, rfl⟩ := Opcode.cell_of_ofNames? found
    apply other
    rw [Opcode.Entry.fieldNames, List.length_map, Opcode.length_fields_of_cell cell]
  rw [ofFields?, absent]

theorem findSome?_eq_of_unique {α β : Type} {f : α → Option β} {values : List α} {a : α}
    (member : a ∈ values) (others : ∀ b ∈ values, b ≠ a → f b = none) :
    values.findSome? f = f a := by
  induction values with
  | nil => cases member
  | cons b rest ih =>
    rw [List.findSome?_cons]
    by_cases same : b = a
    · subst same
      rcases found : f b with _ | value
      · simp only
        rw [List.findSome?_eq_none_iff]
        intro c later
        by_cases again : c = b
        · rw [again, found]
        · exact others c (List.mem_cons_of_mem b later) again
      · rfl
    · rw [others b List.mem_cons_self same]
      exact ih (by simpa [Ne.symm same] using member) fun c later =>
        others c (List.mem_cons_of_mem b later)

/-- Of all runs of field names, only the one with as many names as the mnemonic takes can be
found. -/
theorem findSome?_ofFields? {mnemonic : Mnemonic} {names : List String}
    (enough : mnemonic.fieldCount ≤ names.length) (operandCount : Nat) :
    ((List.range (names.length + 1)).reverse.findSome? fun count =>
        ofFields? mnemonic (names.take count) operandCount) =
      ofFields? mnemonic (names.take mnemonic.fieldCount) operandCount := by
  apply findSome?_eq_of_unique
  · rw [List.mem_reverse, List.mem_range]
    exact Nat.lt_succ_of_le enough
  · intro count listed apart
    rw [List.mem_reverse, List.mem_range] at listed
    apply ofFields?_eq_none
    rw [List.length_take_of_le (Nat.le_of_lt_succ listed)]
    exact apart

theorem dataCount_of_ne_none {kind : OperandKind} (some : kind ≠ .none) : dataCount kind = 1 := by
  cases kind with
  | none => exact absurd rfl some
  | byte => rfl
  | word => rfl

/-- The operands of a chart entry, followed by as much data as it takes, choose its opcode. -/
theorem ofOperands_of_cell {opcode : Byte} {entry : Opcode.Entry} {word : String}
    {fields data : List String} (cell : Opcode.cell? opcode = some entry)
    (named : Text.upper word = entry.mnemonic.name)
    (listed : fields.map Text.upper = entry.fieldNames)
    (count : data.length = dataCount entry.operand) :
    ofOperands word (fields ++ data) =
      .ok
        { opcode
          operand := entry.operand
          dataIndex := if entry.operand = .none then none else some fields.length } := by
  have kind := Opcode.operand_of_cell cell
  have arity := Opcode.length_fields_of_cell cell
  have names := fieldNames_append listed data
  have taken : (fieldNames (fields ++ data)).take entry.mnemonic.fieldCount = entry.fieldNames := by
    rw [names, ← arity]
    exact List.take_left' (List.length_map _)
  have enough : entry.mnemonic.fieldCount ≤ (fieldNames (fields ++ data)).length := by
    rw [names, ← arity, List.length_append, List.length_map]
    exact Nat.le_add_right _ _
  have same : fields.length = entry.fieldNames.length := by
    rw [← listed, List.length_map]
  have total : (fields ++ data).length = entry.fieldNames.length + dataCount entry.operand := by
    rw [List.length_append, count, same]
  simp only [ofOperands, named, Mnemonic.ofName?_name, findSome?_ofFields? enough, taken]
  simp only [ofFields?, Opcode.ofNames?_of_cell cell, kind, total, if_true, same]

/-- The choice of an opcode by its entry. Its data, if it takes any, comes after its fields. -/
def ofEntry (opcode : Byte) (entry : Opcode.Entry) : Selection where
  opcode
  operand := entry.operand
  dataIndex := if entry.operand = .none then none else some entry.fields.length

theorem dataCount_eq (kind : OperandKind) : dataCount kind = if kind = .none then 0 else 1 := by
  cases kind <;> rfl

variable {word : String} {operands : List String}

/-- An opcode whose entry takes the word and the operands is chosen. -/
theorem ofOperands_of_takes {opcode : Byte} {entry : Opcode.Entry}
    (cell : Opcode.cell? opcode = some entry) (takes : entry.Takes word operands) :
    ofOperands word operands = .ok (ofEntry opcode entry) := by
  have count := takes.count
  rw [← dataCount_eq] at count
  have fields_eq := takes.fields_eq
  rw [Opcode.map_upper_fieldNames] at fields_eq
  have taken : (operands.take entry.fields.length).length = entry.fields.length := by
    rw [List.length_take, count]
    omega
  have rest : (operands.drop entry.fields.length).length = dataCount entry.operand := by
    rw [List.length_drop, count]
    omega
  have chosen := ofOperands_of_cell cell takes.word_eq fields_eq rest
  rwa [List.take_append_drop, taken] at chosen

/-- What is chosen is an opcode whose entry takes the word and the operands. -/
theorem exists_takes_of_ofOperands {selection : Selection}
    (chosen : ofOperands word operands = .ok selection) :
    ∃ opcode entry, Opcode.cell? opcode = some entry ∧ entry.Takes word operands ∧
      selection = ofEntry opcode entry := by
  unfold ofOperands at chosen
  simp only at chosen
  split at chosen
  next => cases chosen
  next mnemonic named =>
    split at chosen
    next found =>
      obtain rfl := Except.ok.inj chosen
      obtain ⟨count, listed, fields⟩ := List.exists_of_findSome?_eq_some found
      rw [List.mem_reverse, List.mem_range] at listed
      have enough : count ≤ (fieldNames operands).length := Nat.le_of_lt_succ listed
      unfold ofFields? at fields
      split at fields
      next => cases fields
      next opcode known =>
        obtain ⟨entry, cell, rfl, names⟩ := Opcode.cell_of_ofNames? known
        have kind := Opcode.operand_of_cell cell
        have arity : entry.fields.length = count := by
          rw [← List.length_take_of_le enough, ← names, Opcode.Entry.fieldNames, List.length_map]
        simp only [Option.ite_none_right_eq_some, Option.some.injEq, List.length_take_of_le enough,
          kind] at fields
        obtain ⟨total, rfl⟩ := fields
        refine ⟨opcode, entry, cell, ⟨?_, ?_, ?_⟩, ?_⟩
        · exact (Mnemonic.name_of_ofName? named).symm
        · rw [Opcode.map_upper_fieldNames, names, ← map_upper_take_fieldNames operands,
            ← List.map_take, List.take_take, arity, Nat.min_eq_left enough]
        · rw [total, arity, dataCount_eq]
        · rw [ofEntry, arity]
    next => cases chosen

/-- A word is unknown exactly if it is the mnemonic of no entry, in either case. -/
theorem ofName?_eq_none_iff {name : String} :
    Mnemonic.ofName? name = none ↔
      ∀ opcode entry, Opcode.cell? opcode = some entry → entry.mnemonic.name ≠ name := by
  constructor
  · rintro absent opcode entry _ rfl
    rw [Mnemonic.ofName?_name] at absent
    cases absent
  · intro other
    rw [Option.eq_none_iff_forall_ne_some]
    intro mnemonic found
    obtain ⟨opcode, entry, cell, rfl⟩ := Opcode.exists_cell_of_mnemonic mnemonic
    exact other opcode entry cell (Mnemonic.name_of_ofName? found)

/-- What it is for an answer to be the one that the chart has for a word and operands. -/
structure Settles (word : String) (operands : List String) (answer : Except Problem Selection) :
    Prop where
  /-- An opcode is chosen exactly if its entry takes the word and the operands. -/
  ok_iff : ∀ selection, answer = .ok selection ↔
    ∃ opcode entry, Opcode.cell? opcode = some entry ∧ entry.Takes word operands ∧
      selection = ofEntry opcode entry
  /-- There is no other such opcode. -/
  unique : ∀ opcode entry other another,
    Opcode.cell? opcode = some entry → entry.Takes word operands →
    Opcode.cell? other = some another → another.Takes word operands → opcode = other
  /-- If there is none, the word is to blame if no entry has it, and else the operands. -/
  error_of_none : (∀ opcode entry, Opcode.cell? opcode = some entry → ¬ entry.Takes word operands) →
    ∃ problem, answer = .error problem ∧
      ((∀ opcode entry, Opcode.cell? opcode = some entry →
          entry.mnemonic.name ≠ Text.upper word) →
        problem = .unknownMnemonic (Text.upper word) ∧ problem.kind = .invalidMnemonic) ∧
      ((∃ opcode entry, Opcode.cell? opcode = some entry ∧
          entry.mnemonic.name = Text.upper word) →
        problem = .badOperands (Text.upper word) operands ∧ problem.kind = .invalidOperand)

/-- The opcode for a word and operands is the one of the entry that takes them, and a word or
operands that no entry takes are refused. -/
theorem ofOperands_settled (word : String) (operands : List String) :
    Settles word operands (ofOperands word operands) := by
  constructor
  case ok_iff =>
    intro selection
    constructor
    · exact exists_takes_of_ofOperands
    · rintro ⟨opcode, entry, cell, takes, rfl⟩
      exact ofOperands_of_takes cell takes
  case unique =>
    intro opcode entry other another cell takes cell_other takes_other
    exact takes.unique cell cell_other takes_other
  case error_of_none =>
    intro none
    rcases answer : ofOperands word operands with problem | selection
    · refine ⟨problem, rfl, ?_, ?_⟩
      · intro absent
        rw [ofOperands, ofName?_eq_none_iff.2 absent] at answer
        obtain rfl := Except.error.inj answer
        exact ⟨rfl, rfl⟩
      · rintro ⟨opcode, entry, cell, named⟩
        rw [ofOperands, ← named] at answer
        simp only [Mnemonic.ofName?_name] at answer
        split at answer
        next => cases answer
        next =>
          obtain rfl := Except.error.inj answer
          rw [named]
          exact ⟨rfl, rfl⟩
    · obtain ⟨opcode, entry, cell, takes, _⟩ := exists_takes_of_ofOperands answer
      exact absurd takes (none opcode entry cell)

end Selection

end I8085
