/-
Module: I8085.Proofs.JoinedSources
Layer: Proofs
Purpose: Assembling two sources as one. If strict mode assembles one source, and another one for the
  address behind it, and no label is defined in both, then it assembles the two with a line feed
  between them, to the bytes of the one and then those of the other and with the labels of both
  (`assemble_joined`). Each of the sources is complete in itself, so the larger table of labels
  changes nothing about an instruction that either of the smaller ones was enough for.
Imports: I8085.Proofs.LenientMode, I8085.Proofs.LineEnds, Mathlib.Data.List.Forall2
Main exports: LabelTable.Extends, Selection.encode_of_extends, Symbol.below,
  Layout.definitions_append, Assembly.SoundStatements, Assembly.ofLines_strict_iff,
  Assembly.MadeOf, Assembly.soundStatements_joined, assemble_joined
-/
import I8085.Proofs.LenientMode
import I8085.Proofs.LineEnds
import Mathlib.Data.List.Forall2

namespace I8085

/-! ### Larger tables -/

/-- The entry of a label in a source with more lines in front. -/
def Symbol.below (lines : Nat) (symbol : Symbol) : Symbol :=
  { symbol with definedAt := symbol.definedAt + lines }

namespace LabelTable

/-- Whether a table has an entry at the same address for every label of another. -/
def Extends (larger smaller : LabelTable) : Prop :=
  ∀ name symbol, smaller.find? name = some symbol →
    ∃ other, larger.find? name = some other ∧ other.address = symbol.address

/-- Entries for different names are all kept. -/
theorem toList_ofSymbols {symbols : List Symbol}
    (distinct : (symbols.map Symbol.name).Nodup) : (ofSymbols symbols).toList = symbols := by
  induction symbols using List.reverseRecOn with
  | nil => rfl
  | append_singleton before last ih =>
    rw [List.map_append, List.nodup_append] at distinct
    obtain ⟨earlier, _, apart⟩ := distinct
    have fresh : (ofSymbols before).find? last.name = none := by
      rw [find?_ofSymbols, List.find?_eq_none]
      intro symbol member
      rw [beq_iff_eq]
      exact apart symbol.name (List.mem_map_of_mem member) last.name (by simp)
    have added : ofSymbols (before ++ [last]) = (ofSymbols before).keepFirst last := by
      simp [ofSymbols]
    rw [added, keepFirst, bind_of_fresh _ _ fresh]
    exact congrArg (· ++ [last]) (ih earlier)

/-- The entries in front stay what is found. -/
theorem extends_append_left (symbols others : List Symbol) :
    (ofSymbols (symbols ++ others)).Extends (ofSymbols symbols) := by
  intro name symbol found
  rw [find?_ofSymbols] at found
  refine ⟨symbol, ?_, rfl⟩
  rw [find?_ofSymbols, List.find?_append, found, Option.some_or]

/-- The entries behind are found if none in front is for the same name. -/
theorem extends_append_right {symbols others : List Symbol} (lines : Nat)
    (apart : ∀ name ∈ symbols.map Symbol.name, name ∉ others.map Symbol.name) :
    (ofSymbols (symbols ++ others.map (Symbol.below lines))).Extends (ofSymbols others) := by
  intro name symbol found
  rw [find?_ofSymbols] at found
  have fresh : symbols.find? (·.name == name) = none := by
    rw [List.find?_eq_none]
    intro earlier member same
    have named : symbol.name = name := by simpa using List.find?_some found
    apply apart name (beq_iff_eq.1 same ▸ List.mem_map_of_mem member)
    exact named ▸ List.mem_map_of_mem (List.mem_of_find?_eq_some found)
  have moved : (others.map (Symbol.below lines)).find? (·.name == name) =
      some (symbol.below lines) := by
    rw [List.find?_map]
    exact congrArg (Option.map (Symbol.below lines)) found
  refine ⟨symbol.below lines, ?_, rfl⟩
  rw [find?_ofSymbols, List.find?_append, fresh, Option.none_or, moved]

end LabelTable

namespace Selection

variable {labels larger : LabelTable}

theorem wordOperand_of_extends (kept : larger.Extends labels) {text : String} {word : Word}
    (known : wordOperand text labels = .ok word) : wordOperand text larger = .ok word := by
  unfold wordOperand at known ⊢
  split
  next label =>
    rw [if_pos label] at known
    rcases bound : labels.find? text with _ | symbol
    · simp [bound] at known
    · obtain ⟨other, found, same⟩ := kept text symbol bound
      simpa [bound, found, same] using known
  next number => rwa [if_neg number] at known

/-- An instruction that can be encoded is encoded to the same bytes against a larger table. -/
theorem encode_of_extends {selection : Selection} {operands : List String} {bytes : List Byte}
    (kept : larger.Extends labels) (encoded : selection.encode operands labels = .ok bytes) :
    selection.encode operands larger = .ok bytes := by
  unfold encode at encoded ⊢
  generalize selection.dataIndex.bind (operands[·]?) = data at encoded ⊢
  rcases data with _ | text
  · exact encoded
  · simp only at encoded ⊢
    rcases kind : selection.operand <;> rw [kind] at encoded
    case none => exact encoded
    case byte => exact encoded
    case word =>
      rcases known : wordOperand text labels with problem | word
      · simp [operandBytes, known, Except.map] at encoded
      · simpa [operandBytes, known, wordOperand_of_extends kept known] using encoded

end Selection

/-! ### Statements that ask for the same -/

namespace Statement.Alike

variable {lines : Nat} {first second : Statement}

theorem selection?_eq (alike : Alike lines first second) :
    second.selection? = first.selection? := by
  have chosen (statement : Statement) : statement.selection? =
      (statement.mnemonic.map Piece.text).bind fun word =>
        (Selection.ofOperands word statement.operandTexts).toOption := by
    rw [selection?, Option.bind_map]
    rfl
  rw [chosen, chosen, alike.mnemonic_eq, alike.operands_eq]

theorem unknown?_eq_none (alike : Alike lines first second) (known : first.unknown? = none) :
    second.unknown? = none := by
  rw [Assembly.unknown?_eq_none_iff] at known ⊢
  intro mnemonic present
  have word := alike.mnemonic_eq
  rw [present, Option.map_some, eq_comm, Option.map_eq_some_iff] at word
  obtain ⟨other, also, same⟩ := word
  rw [alike.operands_eq, ← same]
  exact known other also

theorem width_eq (alike : Alike lines first second) (known : first.unknown? = none) (mode : Mode) :
    second.width mode = first.width mode := by
  rw [width_of_known known, width_of_known (alike.unknown?_eq_none known), alike.selection?_eq]

theorem symbol?_eq (alike : Alike lines first second) (address : Word) :
    second.symbol? address = (first.symbol? address).map (Symbol.below lines) := by
  rw [Statement.symbol?_eq, Statement.symbol?_eq, alike.label_eq, alike.line_eq, Option.map_map]
  rfl

/-- What can be encoded is encoded to the same bytes against a larger table. -/
theorem bytes_eq (alike : Alike lines first second) {labels larger : LabelTable}
    (kept : larger.Extends labels) (encoded : first.unencodable? labels = none) :
    second.unencodable? larger = none ∧ second.bytes larger = first.bytes labels := by
  rw [Assembly.unencodable?_eq_none_iff] at encoded ⊢
  unfold bytes
  rw [alike.selection?_eq, alike.operands_eq]
  rcases chosen : first.selection? with _ | selection
  · refine ⟨?_, rfl⟩
    intro selection none
    cases none
  · obtain ⟨bytes, answer⟩ := encoded selection chosen
    have again := Selection.encode_of_extends kept answer
    constructor
    · rintro _ ⟨⟩
      exact ⟨bytes, again⟩
    · simp only [answer, again]

end Statement.Alike

/-! ### Addresses behind a program -/

namespace Layout

/-- Statements behind an offset are met as at the start of a program that begins there. -/
theorem addressed_add (start : Word) (mode : Mode) (behind offset : Nat)
    (statements : List Statement) :
    addressed start mode (behind + offset) statements =
      addressed (start + UInt16.ofNat behind) mode offset statements := by
  induction statements generalizing offset with
  | nil => rfl
  | cons statement rest ih =>
    rw [addressed, addressed, UInt16.ofNat_add, ← UInt16.add_assoc, Nat.add_assoc, ih]

/-- The labels of the statements of two sources have the addresses of the one and of the other for
the address behind it. -/
theorem definitions_append (start : Word) (mode : Mode) (first second : List Statement) :
    definitions start mode (first ++ second) =
      definitions start mode first ++
        definitions (start + UInt16.ofNat (widths mode first)) mode second := by
  have behind := addressed_add start mode (widths mode first) 0 second
  rw [definitions, addressed_append, List.filterMap_append, Nat.zero_add, definitions, definitions,
    ← behind, Nat.add_zero]

theorem widths_append (mode : Mode) (first second : List Statement) :
    widths mode (first ++ second) = widths mode first + widths mode second := by
  rw [widths, List.map_append, List.sum_append, widths, widths]

end Layout

namespace Assembly

open Statement (Alike)

section Alike

variable {down : Nat} {statements alike : List Statement}

theorem labelNames_of_alike (same : List.Forall₂ (Alike down) statements alike) :
    alike.filterMap Statement.labelName? = statements.filterMap Statement.labelName? := by
  induction same with
  | nil => rfl
  | cons here _ ih => rw [List.filterMap_cons, List.filterMap_cons, here.label_eq, ih]

theorem unknown?_of_alike (same : List.Forall₂ (Alike down) statements alike)
    (known : ∀ statement ∈ statements, statement.unknown? = none) :
    ∀ statement ∈ alike, statement.unknown? = none := by
  induction same with
  | nil => exact fun statement member => nomatch member
  | cons here _ ih =>
    rw [List.forall_mem_cons] at known ⊢
    exact ⟨here.unknown?_eq_none known.1, ih known.2⟩

theorem widths_of_alike (same : List.Forall₂ (Alike down) statements alike)
    (known : ∀ statement ∈ statements, statement.unknown? = none) (mode : Mode) :
    Layout.widths mode alike = Layout.widths mode statements := by
  induction same with
  | nil => rfl
  | cons here _ ih =>
    rw [List.forall_mem_cons] at known
    rw [Layout.widths, Layout.widths, List.map_cons, List.map_cons, List.sum_cons, List.sum_cons,
      here.width_eq known.1, ← Layout.widths, ← Layout.widths, ih known.2]

theorem definitions_of_alike (start : Word) (mode : Mode)
    (same : List.Forall₂ (Alike down) statements alike)
    (known : ∀ statement ∈ statements, statement.unknown? = none) :
    Layout.definitions start mode alike =
      (Layout.definitions start mode statements).map (Symbol.below down) := by
  unfold Layout.definitions
  -- The offset runs on in step, since statements that ask for the same count equally many bytes.
  generalize 0 = offset
  induction same generalizing offset with
  | nil => rfl
  | @cons statement _ _ _ here _ ih =>
    rw [List.forall_mem_cons] at known
    rw [Layout.addressed, Layout.addressed, List.filterMap_cons, List.filterMap_cons,
      here.width_eq known.1, ih known.2]
    simp only [here.symbol?_eq]
    rcases statement.symbol? (start + UInt16.ofNat offset) <;> rfl

theorem bytes_of_alike {labels larger : LabelTable} (kept : larger.Extends labels)
    (same : List.Forall₂ (Alike down) statements alike)
    (encoded : ∀ statement ∈ statements, statement.unencodable? labels = none) :
    (∀ statement ∈ alike, statement.unencodable? larger = none) ∧
      alike.flatMap (Statement.bytes larger) = statements.flatMap (Statement.bytes labels) := by
  induction same with
  | nil =>
    refine ⟨?_, rfl⟩
    intro statement member
    cases member
  | cons here _ ih =>
    rw [List.forall_mem_cons] at encoded ⊢
    obtain ⟨encoded_here, bytes_here⟩ := here.bytes_eq kept encoded.1
    obtain ⟨encoded_later, bytes_later⟩ := ih encoded.2
    rw [List.flatMap_cons, List.flatMap_cons, bytes_here, bytes_later]
    exact ⟨⟨encoded_here, encoded_later⟩, rfl⟩

end Alike

/-! ### Statements with nothing wrong -/

/-- What it is for statements to have nothing wrong with them. -/
structure SoundStatements (start : Word) (statements : List Statement) : Prop where
  distinct : (statements.filterMap Statement.labelName?).Nodup
  known : ∀ statement ∈ statements, statement.unknown? = none
  encoded : ∀ statement ∈ statements,
    statement.unencodable? (allLabels start statements) = none
  fits : start.toNat + Layout.widths .strict statements ≤ Memory.size

theorem complaints_eq_nil_iff_soundStatements (lines : List (List Char)) (start : Word) :
    complaints lines start = [] ↔
      failures (parseLines lines) = [] ∧ SoundStatements start (successes (parseLines lines)) := by
  have short_iff : tooLong? start (successes (parseLines lines)) = none ↔
      start.toNat + Layout.widths .strict (successes (parseLines lines)) ≤ Memory.size := by
    simp only [tooLong?, Memory.size]
    split
    next fits => simp [fits]
    next beyond => simp [beyond]
  simp only [complaints, List.append_eq_nil_iff, duplicates_eq_nil_iff,
    List.filterMap_eq_nil_iff, Option.toList_eq_nil_iff, short_iff]
  constructor
  · rintro ⟨⟨⟨parsed, distinct, known⟩, fits⟩, encoded⟩
    exact ⟨parsed, distinct, known, encoded, fits⟩
  · rintro ⟨parsed, distinct, known, encoded, fits⟩
    exact ⟨⟨⟨parsed, distinct, known⟩, fits⟩, encoded⟩

variable {lines : List (List Char)} {start : Word} {program : Program}

/-- Strict mode assembles a source exactly if its lines are taken apart into statements with nothing
wrong with them. -/
theorem ofLines_strict_iff :
    (∃ program, ofLines lines start .strict = .ok program) ↔
      ∃ statements, parseLines lines = statements.map Except.ok ∧
        SoundStatements start statements := by
  have quiet_iff : (Passes.ofLines lines start .strict).diagnostics = [] ↔
      complaints lines start = [] := by
    rw [← List.perm_nil, ← List.perm_nil]
    exact (diagnostics_perm lines start).congr_left []
  simp only [ofLines_eq_ok_iff, quiet_iff, complaints_eq_nil_iff_soundStatements]
  constructor
  · rintro ⟨_, ⟨none, sound⟩, _⟩
    exact ⟨_, eq_map_ok_of_failures_nil none, sound⟩
  · rintro ⟨statements, parsed, sound⟩
    refine ⟨_, ⟨?_, ?_⟩, rfl⟩
    · rw [parsed, failures_map_ok]
    · rwa [parsed, successes_map_ok]

/-- Strict mode makes the table of all labels. -/
theorem labels_of_strict (assembled : ofLines lines start .strict = .ok program) :
    program.labels = allLabels start (successes (parseLines lines)) := by
  obtain ⟨_, rfl⟩ := passes_of_ok assembled
  exact Layout.labels_ofStatements_strict start _

/-- What it is for a program to be made of statements with nothing wrong with them. -/
structure MadeOf (start : Word) (statements : List Statement) (program : Program) : Prop where
  sound : SoundStatements start statements
  bytes_eq : program.bytes = statements.flatMap (Statement.bytes (allLabels start statements))
  labels_eq : program.labels.toList = Layout.definitions start .strict statements
  length_eq : program.bytes.length = Layout.widths .strict statements

/-- What strict mode assembles is made of the statements of the lines. -/
theorem madeOf_of_strict (assembled : ofLines lines start .strict = .ok program)
    {statements : List Statement} (parsed : parseLines lines = statements.map Except.ok)
    (sound : SoundStatements start statements) : MadeOf start statements program := by
  have labels := labels_of_strict assembled
  rw [parsed, successes_map_ok] at labels
  refine ⟨sound, ?_, ?_, ?_⟩
  · rw [bytes_eq_emitted assembled, emitted, flatten_map_lineBytes, parsed, successes_map_ok,
      labels]
  · rw [labels]
    apply LabelTable.toList_ofSymbols
    rw [Layout.map_name_definitions]
    exact sound.distinct
  · rw [length_bytes assembled, parsed, successes_map_ok]

theorem exists_statements_of_strict (assembled : ofLines lines start .strict = .ok program) :
    ∃ statements, parseLines lines = statements.map Except.ok ∧
      MadeOf start statements program := by
  obtain ⟨statements, parsed, sound⟩ := ofLines_strict_iff.1 ⟨program, assembled⟩
  exact ⟨statements, parsed, madeOf_of_strict assembled parsed sound⟩

theorem exists_program_of_sound {statements : List Statement}
    (parsed : parseLines lines = statements.map Except.ok)
    (sound : SoundStatements start statements) :
    ∃ program, ofLines lines start .strict = .ok program ∧ MadeOf start statements program := by
  obtain ⟨program, assembled⟩ := ofLines_strict_iff.2 ⟨statements, parsed, sound⟩
  exact ⟨program, assembled, madeOf_of_strict assembled parsed sound⟩

/-! ### Two sources -/

section Joined

variable {first second firstAlike secondAlike : List Statement} {down : Nat}

/-- The labels of both sources have the addresses that they have in each of them. -/
theorem definitions_joined (start : Word) (known : ∀ statement ∈ first, statement.unknown? = none)
    (knownBehind : ∀ statement ∈ second, statement.unknown? = none)
    (same : List.Forall₂ (Alike 0) first firstAlike)
    (behind : List.Forall₂ (Alike down) second secondAlike) :
    Layout.definitions start .strict (firstAlike ++ secondAlike) =
      Layout.definitions start .strict first ++
        (Layout.definitions (start + UInt16.ofNat (Layout.widths .strict first)) .strict
          second).map (Symbol.below down) := by
  have kept : Symbol.below 0 = id := rfl
  rw [Layout.definitions_append, widths_of_alike same known, definitions_of_alike _ _ same known,
    definitions_of_alike _ _ behind knownBehind, kept, List.map_id]

/-- Two sources with nothing wrong with them, of which the second is for the address behind the
first, have nothing wrong with them together, and all their bytes are kept. -/
theorem soundStatements_joined {start : Word} (one : SoundStatements start first)
    (other : SoundStatements (start + UInt16.ofNat (Layout.widths .strict first)) second)
    (room : start.toNat + Layout.widths .strict first < Memory.size)
    (apart : ∀ name ∈ first.filterMap Statement.labelName?,
      name ∉ second.filterMap Statement.labelName?)
    (same : List.Forall₂ (Alike 0) first firstAlike)
    (behind : List.Forall₂ (Alike down) second secondAlike) :
    SoundStatements start (firstAlike ++ secondAlike) ∧
      (firstAlike ++ secondAlike).flatMap
          (Statement.bytes (allLabels start (firstAlike ++ secondAlike))) =
        first.flatMap (Statement.bytes (allLabels start first)) ++
          second.flatMap (Statement.bytes
            (allLabels (start + UInt16.ofNat (Layout.widths .strict first)) second)) := by
  have definitions := definitions_joined start one.known other.known same behind
  have front : (allLabels start (firstAlike ++ secondAlike)).Extends (allLabels start first) := by
    rw [allLabels, definitions]
    exact LabelTable.extends_append_left _ _
  have back : (allLabels start (firstAlike ++ secondAlike)).Extends
      (allLabels (start + UInt16.ofNat (Layout.widths .strict first)) second) := by
    rw [allLabels, definitions]
    apply LabelTable.extends_append_right
    rwa [Layout.map_name_definitions, Layout.map_name_definitions]
  obtain ⟨encoded, bytes⟩ := bytes_of_alike front same one.encoded
  obtain ⟨encodedBehind, bytesBehind⟩ := bytes_of_alike back behind other.encoded
  constructor
  · constructor
    case distinct =>
      rw [List.filterMap_append, labelNames_of_alike same, labelNames_of_alike behind,
        List.nodup_append]
      refine ⟨one.distinct, other.distinct, ?_⟩
      rintro name defined _ again rfl
      exact apart name defined again
    case known =>
      rw [List.forall_mem_append]
      exact ⟨unknown?_of_alike same one.known, unknown?_of_alike behind other.known⟩
    case encoded =>
      rw [List.forall_mem_append]
      exact ⟨encoded, encodedBehind⟩
    case fits =>
      have fits := other.fits
      have below : start.toNat + Layout.widths .strict first < 2 ^ 16 := room
      rw [UInt16.toNat_add, UInt16.toNat_ofNat', Nat.add_mod_mod, Nat.mod_eq_of_lt below] at fits
      rw [Layout.widths_append, widths_of_alike same one.known,
        widths_of_alike behind other.known]
      omega
  · rw [List.flatMap_append, bytes, bytesBehind]

end Joined

/-- The last piece of a text may be taken for a line even if it is empty. -/
theorem ofLines_pieces_iff {text last : List Char} {before : List (List Char)} {mode : Mode}
    (cut : Text.split '\n' text = before ++ [last]) :
    ofLines (before.map Text.dropReturn ++ [last]) start mode = .ok program ↔
      ofLines (Text.lines text) start mode = .ok program := by
  rw [Text.lines_of_split cut]
  split
  next empty => rw [List.isEmpty_iff.1 empty, ofLines_concat_empty, List.append_nil]
  next => rfl

/-- In a source that strict mode assembles, a label has an entry if a line defines it. -/
theorem mem_labelNames_iff (assembled : ofLines lines start .strict = .ok program) (name : String) :
    name ∈ program.labels.toList.map Symbol.name ↔ ∃ index, Defines lines index name := by
  rw [← isSome_find?_allLabels lines start, ← labels_of_strict assembled, LabelTable.find?,
    List.find?_isSome]
  simp

theorem parseLines_append (lines others : List (List Char)) :
    parseLines (lines ++ others) =
      parseLines lines ++
        others.mapIdx fun index line => Statement.parse (index + (1 + lines.length)) line := by
  rw [parseLines, List.mapIdx_append, ← parseLines]
  simp only [Nat.add_assoc, Nat.add_comm 1]

/-- The lines of two texts with a line feed between them are taken apart into statements that ask
for what those of the one and of the other do. -/
theorem exists_joined {text last other : List Char} {before : List (List Char)}
    {first second : List Statement} (cut : Text.split '\n' text = before ++ [last])
    (parsed : parseLines (before.map Text.dropReturn ++ [last]) = first.map Except.ok)
    (parsedBehind : parseLines (Text.lines other) = second.map Except.ok) :
    ∃ firstAlike secondAlike,
      parseLines (Text.lines (text ++ '\n' :: other)) =
        (firstAlike ++ secondAlike).map Except.ok ∧
      List.Forall₂ (Alike 0) first firstAlike ∧
      List.Forall₂ (Alike (before.length + 1)) second secondAlike := by
  have ended : List.Forall₂ Text.SameLine (before.map Text.dropReturn ++ [last])
      ((before ++ [last]).map Text.dropReturn) := by
    rw [List.map_append]
    exact List.rel_append (Text.sameLines_refl _) (.cons (Text.sameLine_dropReturn last) .nil)
  obtain ⟨firstAlike, parsed, same⟩ := exists_alike 0 ended parsed
  obtain ⟨secondAlike, parsedBehind, behind⟩ :=
    exists_alike (before.length + 1) (Text.sameLines_refl _) parsedBehind
  refine ⟨firstAlike, secondAlike, ?_, same, behind⟩
  have front : parseLines ((before ++ [last]).map Text.dropReturn) =
      firstAlike.map Except.ok := parsed
  rw [Text.lines_append, cut, parseLines_append, List.length_map, List.length_append,
    List.length_singleton, parsedBehind, front, List.map_append]

end Assembly

open Assembly in
/-- If strict mode assembles a source and, for the address behind it, another one, and no label is
defined in both, then it assembles both with a line feed between them, to the bytes of the one and
then those of the other. The labels are those of the one and then those of the other, at the same
addresses, on lines that are further down by the line feeds now in front of them. -/
theorem assemble_joined {first second : String} {start : Word} {one other : Program}
    (assembled : assemble first start .strict = .ok one)
    (room : start.toNat + one.bytes.length ≤ 0xFFFF)
    (assembledBehind :
      assemble second (start + UInt16.ofNat one.bytes.length) .strict = .ok other)
    (apart : ∀ name index again, Defines (Text.lines first.toList) index name →
      ¬ Defines (Text.lines second.toList) again name) :
    ∃ joined, assemble (first ++ "\n" ++ second) start .strict = .ok joined ∧
      joined.bytes = one.bytes ++ other.bytes ∧
      joined.labels.toList = one.labels.toList ++
        other.labels.toList.map (Symbol.below (first.toList.count '\n' + 1)) := by
  obtain empty | ⟨before, last, cut⟩ := List.eq_nil_or_concat' (Text.split '\n' first.toList)
  · exact absurd empty (Text.split_ne_nil '\n' first.toList)
  obtain ⟨statements, parsed, made⟩ :=
    exists_statements_of_strict ((ofLines_pieces_iff cut).2 assembled)
  obtain ⟨statementsBehind, parsedBehind, madeBehind⟩ :=
    exists_statements_of_strict assembledBehind
  rw [made.length_eq] at room madeBehind
  have namesApart : ∀ name ∈ statements.filterMap Statement.labelName?,
      name ∉ statementsBehind.filterMap Statement.labelName? := by
    rw [← Layout.map_name_definitions start .strict, ← made.labels_eq,
      ← Layout.map_name_definitions _ .strict statementsBehind, ← madeBehind.labels_eq]
    intro name named again
    obtain ⟨index, defined⟩ := (mem_labelNames_iff assembled name).1 named
    obtain ⟨place, definedBehind⟩ := (mem_labelNames_iff assembledBehind name).1 again
    exact apart name index place defined definedBehind
  obtain ⟨alike, alikeBehind, parsedJoined, same, behind⟩ :=
    exists_joined cut parsed parsedBehind
  obtain ⟨soundJoined, bytesJoined⟩ := soundStatements_joined made.sound madeBehind.sound
    (Nat.lt_succ_of_le room) namesApart same behind
  obtain ⟨joined, assembledJoined, madeJoined⟩ := exists_program_of_sound parsedJoined soundJoined
  have text : (first ++ "\n" ++ second).toList = first.toList ++ '\n' :: second.toList := by
    simp
  have count : before.length + 1 = first.toList.count '\n' + 1 := by
    rw [← Text.length_split, cut, List.length_append, List.length_singleton]
  refine ⟨joined, ?_, ?_, ?_⟩
  · rw [assemble, text]
    exact assembledJoined
  · rw [madeJoined.bytes_eq, bytesJoined, made.bytes_eq, madeBehind.bytes_eq]
  · rw [madeJoined.labels_eq, made.labels_eq, madeBehind.labels_eq, ← count]
    exact definitions_joined start made.sound.known madeBehind.sound.known same behind

/-- A jump forward before a last line that is ended by a carriage return alone. -/
def jumpOver : String := "JMP OVER\r\nMVI A,#5\nOVER: NOP\r"

/-- A jump forward, and a label behind the last instruction. -/
def jumpOut : String := "AGAIN: JMP OUT\n\nOUT:"

/-- Each jump goes to the label of its own source. -/
theorem assemble_joined_jumps :
    ∃ joined,
      assemble (jumpOver ++ "\n" ++ jumpOut) 0x8000 .strict = .ok joined ∧
      joined.bytes = [0xC3, 0x05, 0x80, 0x3E, 0x05, 0x00, 0xC3, 0x09, 0x80] ∧
      joined.labels.toList =
        [⟨"OVER", 0x8005, 3⟩, ⟨"AGAIN", 0x8006, 4⟩, ⟨"OUT", 0x8009, 6⟩] := by
  have outcome : ((assemble jumpOver 0x8000 .strict).toOption.map fun program =>
      (program.bytes, program.labels.toList)) =
      some ([0xC3, 0x05, 0x80, 0x3E, 0x05, 0x00], [⟨"OVER", 0x8005, 3⟩]) := by
    decide +kernel
  have outcomeBehind : ((assemble jumpOut 0x8006 .strict).toOption.map fun program =>
      (program.bytes, program.labels.toList)) =
      some ([0xC3, 0x09, 0x80], [⟨"AGAIN", 0x8006, 1⟩, ⟨"OUT", 0x8009, 3⟩]) := by
    decide +kernel
  rcases assembled : assemble jumpOver 0x8000 .strict with diagnostics | one
  · simp [assembled, Except.toOption] at outcome
  rcases assembledBehind : assemble jumpOut 0x8006 .strict with diagnostics | other
  · simp [assembledBehind, Except.toOption] at outcomeBehind
  obtain ⟨bytes, labels⟩ : _ ∧ _ := by simpa [assembled, Except.toOption] using outcome
  obtain ⟨bytesBehind, labelsBehind⟩ : _ ∧ _ := by
    simpa [assembledBehind, Except.toOption] using outcomeBehind
  have apart : ∀ name index again,
      Assembly.Defines (Text.lines jumpOver.toList) index name →
      ¬ Assembly.Defines (Text.lines jumpOut.toList) again name := by
    intro name index again defined definedBehind
    have named := (Assembly.mem_labelNames_iff assembled name).2 ⟨index, defined⟩
    have namedBehind := (Assembly.mem_labelNames_iff assembledBehind name).2 ⟨again, definedBehind⟩
    obtain rfl : name = "OVER" := by simpa [labels] using named
    simp [labelsBehind] at namedBehind
  obtain ⟨joined, assembledJoined, joinedBytes, joinedLabels⟩ :=
    assemble_joined assembled (by rw [bytes]; decide) (by rw [bytes]; exact assembledBehind) apart
  refine ⟨joined, assembledJoined, ?_, ?_⟩
  · rw [joinedBytes, bytes, bytesBehind]
    rfl
  · rw [joinedLabels, labels, labelsBehind]
    decide

end I8085
