/-
Module: I8085.Proofs.ProgramListing
Layer: Proofs
Purpose: How an assembled program is divided among the lines of its source. The instructions of a
  program stand one after another from its first address on, in the order of their lines
  (`Assembly.consists_of_ok`). The listing enters each of them into two tables, which are sorted and
  searched by halves; both answer for these instructions and for nothing else, so that the ranges
  of the lines cover the program without a gap and without an overlap (`listing_divides`).
Imports: I8085.Proofs.DirectoryLookup, I8085.Proofs.LabelAddresses
Main exports: Assembly.Encoded.line, Assembly.Encoded.range, Assembly.Encoded.place,
  Assembly.instructions, Assembly.Adjacent, Assembly.Emits, Assembly.Consists,
  Assembly.consists_of_ok, Assembly.place?_listingOf, Assembly.range?_listingOf,
  Listing.Consecutive, Assembly.Divides, listing_divides
-/
import I8085.Proofs.DirectoryLookup
import I8085.Proofs.LabelAddresses

namespace I8085

/-! ### Encoded instructions -/

namespace Assembly

namespace Encoded

/-- The line of the source from which an instruction comes. -/
def line (encoded : Encoded) : Nat := encoded.placement.statement.line

/-- The addresses of the bytes of an instruction. -/
def range (encoded : Encoded) : Listing.AddressRange where
  start := encoded.address
  stop := encoded.address + UInt16.ofNat encoded.bytes.length

/-- Where the text of an instruction stands. -/
def place (encoded : Encoded) : Listing.Place where
  line := encoded.line
  column := encoded.placement.statement.span.start
  length := encoded.placement.statement.span.length

end Encoded

/-! ### Instructions one after another -/

/-- Whether instructions stand one after another from an address on. -/
def Adjacent : Word → List Encoded → Prop
  | _, [] => True
  | address, first :: rest =>
      first.address = address ∧ Adjacent (address + UInt16.ofNat first.bytes.length) rest

theorem adjacent_append {address : Word} {before after : List Encoded} :
    Adjacent address (before ++ after) ↔
      Adjacent address before ∧
        Adjacent (address + UInt16.ofNat (before.flatMap Encoded.bytes).length) after := by
  induction before generalizing address with
  | nil => simp [Adjacent]
  | cons first rest ih =>
    rw [List.cons_append, Adjacent, Adjacent, ih, List.flatMap_cons, List.length_append,
      UInt16.ofNat_add, UInt16.add_assoc, and_assoc]

/-- The instructions of statements that are met at the addresses that the first pass counts stand
one after another, if it counts the bytes that they have. -/
theorem adjacent_addressed {labels : LabelTable} {start : Word} {mode : Mode}
    {statements : List Statement}
    (counted : ∀ statement ∈ statements,
      (statement.bytes labels).length = statement.width mode) (offset : Nat) :
    Adjacent (start + UInt16.ofNat offset)
      ((Layout.addressed start mode offset statements).filterMap fun (statement, address) =>
        statement.encoded? labels address) := by
  induction statements generalizing offset with
  | nil => trivial
  | cons statement rest ih =>
    have later := ih (fun other member => counted other (List.mem_cons_of_mem statement member))
      (offset + statement.width mode)
    have here := counted statement List.mem_cons_self
    have bytes := statement.bytes_encoded? labels (start + UInt16.ofNat offset)
    -- A statement without an instruction counts no bytes, so the next one is met at its address.
    rw [← here, UInt16.ofNat_add, ← UInt16.add_assoc, ← bytes] at later
    rw [Layout.addressed, List.filterMap_cons, ← here, ← bytes]
    rcases met : statement.encoded? labels (start + UInt16.ofNat offset) with _ | encoded
    · simpa [met] using later
    · obtain ⟨_, address, _⟩ := Statement.encoded?_eq_some_iff.1 met
      simp only [met]
      exact ⟨address, by simpa [met] using later⟩

/-- An instruction is as far behind the first address as there are bytes before it. -/
theorem toNat_address {start : Word} {before after : List Encoded} {encoded : Encoded}
    (adjacent : Adjacent start (before ++ encoded :: after)) (some : encoded.bytes ≠ [])
    (fits : start.toNat + ((before ++ encoded :: after).flatMap Encoded.bytes).length ≤
      Memory.size) :
    encoded.address.toNat = start.toNat + (before.flatMap Encoded.bytes).length := by
  obtain ⟨_, address, _⟩ := adjacent_append.1 adjacent
  have room := List.length_pos_iff.2 some
  rw [List.flatMap_append, List.flatMap_cons, List.length_append, List.length_append,
    Memory.size] at fits
  rw [address, UInt16.toNat_add, UInt16.toNat_ofNat']
  omega

/-- Adjacent instructions that end below the top of memory stand at ascending addresses. -/
theorem pairwise_address {start : Word} {instructions : List Encoded}
    (adjacent : Adjacent start instructions) (filled : ∀ encoded ∈ instructions, encoded.bytes ≠ [])
    (fits : start.toNat + (instructions.flatMap Encoded.bytes).length ≤ Memory.size) :
    instructions.Pairwise fun first second => first.address < second.address := by
  induction instructions generalizing start with
  | nil => exact .nil
  | cons first rest ih =>
    obtain ⟨here, later⟩ := adjacent
    -- The rest may start at address zero, but only if it is empty.
    have first_filled := List.length_pos_iff.2 (filled first List.mem_cons_self)
    have rest_filled : ∀ encoded ∈ rest, encoded.bytes ≠ [] := fun encoded member =>
      filled encoded (List.mem_cons_of_mem first member)
    refine .cons ?_ (ih later rest_filled ?_)
    · intro encoded member
      obtain ⟨before, after, rfl⟩ := List.append_of_mem member
      have behind : encoded.address.toNat =
          start.toNat + ((first :: before).flatMap Encoded.bytes).length :=
        toNat_address ⟨here, later⟩ (rest_filled encoded member) fits
      rw [List.flatMap_cons, List.length_append] at behind
      rw [UInt16.lt_iff_toNat_lt, here]
      omega
    · rw [List.flatMap_cons, List.length_append] at fits
      rw [UInt16.toNat_add, UInt16.toNat_ofNat']
      omega

/-! ### The instructions of a program -/

/-- The instructions of an assembled source, in the order in which they were encoded. -/
def instructions (lines : List (List Char)) (start : Word) (mode : Mode) : List Encoded :=
  successes (Passes.ofLines lines start mode).encoded

/-- Whether a line has an instruction that is encoded to these bytes. -/
def Emits (lines : List (List Char)) (labels : LabelTable) (line : Nat) (bytes : List Byte) :
    Prop :=
  ∃ (index : Nat) (statement : Statement) (selection : Selection), line = index + 1 ∧
    (parseLines lines)[index]? = some (.ok statement) ∧
    statement.selection? = some selection ∧
    selection.encode statement.operandTexts labels = .ok bytes

/-- What it is for a program to consist of instructions. -/
structure Consists (lines : List (List Char)) (start : Word) (program : Program)
    (instructions : List Encoded) : Prop where
  bytes_eq : program.bytes = instructions.flatMap Encoded.bytes
  listing_eq : program.listing = listingOf instructions
  adjacent : Adjacent start instructions
  fits : start.toNat + program.bytes.length ≤ Memory.size
  lines_ascend : instructions.Pairwise fun first second => first.line < second.line
  /-- Each instruction is what a line of the source is encoded to. -/
  of_line : ∀ encoded ∈ instructions, ∃ index : Nat,
    (parseLines lines)[index]? = some (.ok encoded.placement.statement) ∧
    encoded.placement.statement.encoded? program.labels encoded.address = some encoded
  /-- No line that is encoded is left out. -/
  complete : ∀ line bytes, Emits lines program.labels line bytes →
    ∃ encoded ∈ instructions, encoded.line = line ∧ encoded.bytes = bytes

/-- The statements of a source are in the order of their lines. -/
theorem pairwise_line (lines : List (List Char)) :
    (successes (parseLines lines)).Pairwise fun first second => first.line < second.line := by
  apply pairwise_filterMap_of_place
  intro i j answer again first second less place otherPlace one other
  rcases answer with _ | statement
  · cases one
  · rcases again with _ | statement
    · cases other
    · rw [← Option.some.inj one, ← Option.some.inj other, line_of_parsed place,
        line_of_parsed otherPlace]
      exact Nat.add_lt_add_right less 1

theorem instructions_eq (lines : List (List Char)) (start : Word) (mode : Mode) :
    instructions lines start mode =
      (Layout.addressed start mode 0 (successes (parseLines lines))).filterMap
        fun (statement, address) =>
          statement.encoded? (Passes.ofLines lines start mode).program.labels address := by
  rw [instructions, Passes.ofLines]
  simp only
  rw [Layout.placements_ofStatements, successes_encoded]
  rfl

variable {lines : List (List Char)} {start : Word} {mode : Mode} {program : Program}

/-- A program ends below the top of memory. -/
theorem length_bytes_le (assembled : ofLines lines start mode = .ok program) :
    start.toNat + program.bytes.length ≤ Memory.size := by
  obtain ⟨quiet, _⟩ := passes_of_ok assembled
  obtain ⟨_, _, fits, _⟩ := Passes.diagnostics_eq_nil quiet
  rw [length_bytes assembled, ← Layout.length_ofStatements]
  exact fits

/-- An assembled program consists of its instructions. -/
theorem consists_of_ok (assembled : ofLines lines start mode = .ok program) :
    Consists lines start program (instructions lines start mode) := by
  have fits := length_bytes_le assembled
  have counted : ∀ statement ∈ successes (parseLines lines),
      (statement.bytes program.labels).length = statement.width mode :=
    fun _ member => length_bytes_eq_width assembled member
  obtain ⟨_, rfl⟩ := passes_of_ok assembled
  have listed := instructions_eq lines start mode
  have statements := Layout.map_fst_addressed start mode 0 (successes (parseLines lines))
  constructor
  case bytes_eq => rfl
  case listing_eq => rfl
  case fits => exact fits
  case adjacent =>
    rw [listed]
    simpa using (adjacent_addressed counted 0 : Adjacent (start + UInt16.ofNat 0) _)
  case lines_ascend =>
    have ascend := pairwise_line lines
    rw [← statements, List.pairwise_map] at ascend
    rw [listed, List.pairwise_filterMap]
    refine ascend.imp ?_
    intro first second less one made other also
    obtain ⟨same, _⟩ := Statement.encoded?_eq_some_iff.1 made
    obtain ⟨again, _⟩ := Statement.encoded?_eq_some_iff.1 also
    rwa [Encoded.line, Encoded.line, same, again]
  case of_line =>
    intro encoded member
    rw [listed, List.mem_filterMap] at member
    obtain ⟨⟨statement, address⟩, met, made⟩ := member
    obtain ⟨rfl, rfl, _⟩ := Statement.encoded?_eq_some_iff.1 made
    have parsed : encoded.placement.statement ∈ successes (parseLines lines) := by
      rw [← statements]
      exact List.mem_map_of_mem met
    obtain ⟨index, place⟩ := List.getElem?_of_mem (mem_successes.1 parsed)
    exact ⟨index, place, made⟩
  case complete =>
    rintro line bytes ⟨index, statement, selection, rfl, parsed, chosen, answer⟩
    have member := mem_successes.2 (List.mem_of_getElem? parsed)
    rw [← statements] at member
    obtain ⟨⟨_, address⟩, met, rfl⟩ := List.mem_map.1 member
    refine ⟨⟨⟨_, selection, address⟩, bytes⟩, ?_, line_of_parsed parsed, rfl⟩
    rw [listed, List.mem_filterMap]
    exact ⟨_, met, Statement.encoded?_eq_some_iff.2 ⟨rfl, rfl, chosen, answer⟩⟩

/-- No instruction of a program is empty. -/
theorem Consists.bytes_ne_nil {instructions : List Encoded}
    (consists : Consists lines start program instructions) {encoded : Encoded}
    (member : encoded ∈ instructions) : encoded.bytes ≠ [] := by
  obtain ⟨_, _, made⟩ := consists.of_line encoded member
  obtain ⟨_, _, _, answer⟩ := Statement.encoded?_eq_some_iff.1 made
  obtain ⟨data, bytes⟩ := Selection.exists_data answer
  rw [bytes]
  exact List.cons_ne_nil _ _

/-! ### Looking up in the listing -/

/-- Entering instructions adds a row for each of them to both tables. -/
theorem rows_foldl_enter (instructions : List Encoded) (listing : Listing) :
    (instructions.foldl enter listing).byAddress.rows.toList =
        listing.byAddress.rows.toList ++
          instructions.map (fun encoded => (encoded.address.toNat, encoded.place)) ∧
      (instructions.foldl enter listing).byLine.rows.toList =
        listing.byLine.rows.toList ++
          instructions.map (fun encoded => (encoded.line, encoded.range)) := by
  induction instructions generalizing listing with
  | nil => simp
  | cons first rest ih =>
    obtain ⟨byAddress, byLine⟩ := ih (enter listing first)
    rw [List.foldl_cons, byAddress, byLine, List.map_cons, List.map_cons]
    simp only [enter, Listing.add, Directory.add, Array.toList_push, List.append_assoc,
      List.cons_append, List.nil_append]
    exact ⟨rfl, rfl⟩

theorem rows_entered (instructions : List Encoded) :
    (instructions.foldl enter .empty).byAddress.rows.toList =
        instructions.map (fun encoded => (encoded.address.toNat, encoded.place)) ∧
      (instructions.foldl enter .empty).byLine.rows.toList =
        instructions.map (fun encoded => (encoded.line, encoded.range)) :=
  rows_foldl_enter instructions .empty

/-- The place of an instruction is found by its address. -/
theorem place?_listingOf {instructions : List Encoded}
    (ascending : instructions.Pairwise fun first second => first.address < second.address)
    (address : Word) (place : Listing.Place) :
    (listingOf instructions).place? address = some place ↔
      ∃ encoded ∈ instructions, encoded.address = address ∧ encoded.place = place := by
  obtain ⟨rows, _⟩ := rows_entered instructions
  have distinct : (instructions.map fun encoded => encoded.address.toNat).Nodup := by
    apply List.pairwise_map.2
    refine ascending.imp ?_
    intro first second less
    exact Nat.ne_of_lt (UInt16.lt_iff_toNat_lt.1 less)
  refine (Directory.find?_sorted_of_perm (.of_eq rows) distinct).trans ?_
  simp only [UInt16.toNat_inj]

/-- The range of an instruction is found by its line. -/
theorem range?_listingOf {instructions : List Encoded}
    (ascending : instructions.Pairwise fun first second => first.line < second.line)
    (line : Nat) (range : Listing.AddressRange) :
    (listingOf instructions).range? line = some range ↔
      ∃ encoded ∈ instructions, encoded.line = line ∧ encoded.range = range := by
  obtain ⟨_, rows⟩ := rows_entered instructions
  have distinct : (instructions.map Encoded.line).Nodup :=
    List.pairwise_map.2 (ascending.imp fun less => Nat.ne_of_lt less)
  exact Directory.find?_sorted_of_perm (.of_eq rows) distinct

/-- The listing has as many rows as there are instructions. -/
theorem size_listingOf (instructions : List Encoded) :
    (listingOf instructions).size = instructions.length := by
  obtain ⟨rows, _⟩ := rows_entered instructions
  have same := (instructions.foldl enter .empty).byAddress.rows_sorted_perm.length_eq
  rw [rows, List.length_map] at same
  exact same

namespace Consists

variable {instructions : List Encoded}

theorem pairwise_address (consists : Consists lines start program instructions) :
    instructions.Pairwise fun first second => first.address < second.address := by
  have fits := consists.fits
  rw [consists.bytes_eq] at fits
  exact Assembly.pairwise_address consists.adjacent (fun _ => consists.bytes_ne_nil) fits

theorem place?_eq_some_iff (consists : Consists lines start program instructions)
    (address : Word) (place : Listing.Place) :
    program.listing.place? address = some place ↔
      ∃ encoded ∈ instructions, encoded.address = address ∧ encoded.place = place := by
  rw [consists.listing_eq]
  exact place?_listingOf consists.pairwise_address address place

theorem range?_eq_some_iff (consists : Consists lines start program instructions)
    (line : Nat) (range : Listing.AddressRange) :
    program.listing.range? line = some range ↔
      ∃ encoded ∈ instructions, encoded.line = line ∧ encoded.range = range := by
  rw [consists.listing_eq]
  exact range?_listingOf consists.lines_ascend line range

/-- An instruction of a program is as far behind the first address as there are bytes before it, and
ends below the top of memory. -/
theorem toNat_address (consists : Consists lines start program instructions)
    {before after : List Encoded} {encoded : Encoded}
    (split : instructions = before ++ encoded :: after) :
    encoded.address.toNat = start.toNat + (before.flatMap Encoded.bytes).length ∧
      encoded.address.toNat + encoded.bytes.length ≤ Memory.size := by
  subst split
  have fits := consists.fits
  rw [consists.bytes_eq] at fits
  have behind := Assembly.toNat_address consists.adjacent (consists.bytes_ne_nil (by simp)) fits
  refine ⟨behind, ?_⟩
  rw [List.flatMap_append, List.flatMap_cons, List.length_append, List.length_append] at fits
  omega

end Consists

end Assembly

/-! ### The division of a program -/

/-- Whether ranges lie end to end from one address to another. -/
def Listing.Consecutive : Word → List AddressRange → Word → Prop
  | start, [], stop => start = stop
  | start, range :: rest, stop => range.start = start ∧ Consecutive range.stop rest stop

open Listing (AddressRange Consecutive Place)

namespace Assembly

theorem consecutive_of_adjacent {address : Word} {instructions : List Encoded}
    (adjacent : Adjacent address instructions) :
    Consecutive address (instructions.map Encoded.range)
      (address + UInt16.ofNat (instructions.flatMap Encoded.bytes).length) := by
  induction instructions generalizing address with
  | nil => simp [Consecutive]
  | cons first rest ih =>
    obtain ⟨rfl, later⟩ := adjacent
    have consecutive := ih later
    rw [UInt16.add_assoc, ← UInt16.ofNat_add, ← List.length_append,
      ← List.flatMap_cons] at consecutive
    exact ⟨rfl, consecutive⟩

/-- What it is for the listing of a program to divide its bytes among the lines of the source. -/
structure Divides (lines : List (List Char)) (start : Word) (program : Program)
    (instructions : List Encoded) : Prop where
  /-- The instructions are those of the lines that can be encoded. -/
  emits_iff : ∀ line bytes, Emits lines program.labels line bytes ↔
    ∃ encoded ∈ instructions, encoded.line = line ∧ encoded.bytes = bytes
  ascending : instructions.Pairwise fun first second => first.line < second.line
  bytes_eq : program.bytes = instructions.flatMap Encoded.bytes
  /-- The lines of instructions are those that have a range. -/
  range_iff : ∀ line range, program.listing.range? line = some range ↔
    ∃ encoded ∈ instructions, encoded.line = line ∧ encoded.range = range
  consecutive : Consecutive start (instructions.map Encoded.range)
    (start + UInt16.ofNat program.bytes.length)
  /-- The bytes in a range are those of the line. -/
  held : ∀ encoded ∈ instructions, start ≤ encoded.range.start ∧
    (program.bytes.drop (encoded.range.start.toNat - start.toNat)).take encoded.bytes.length =
      encoded.bytes
  /-- The end of a range wraps at the top of memory and nowhere else. -/
  stop_eq : ∀ encoded ∈ instructions, encoded.range.start.toNat + encoded.bytes.length =
    if encoded.range.stop = 0 then Memory.size else encoded.range.stop.toNat
  /-- A place is found at the start of each range and nowhere else, on the line of the range. -/
  place_iff : ∀ address line, (program.listing.place? address).map Place.line = some line ↔
    ∃ range, program.listing.range? line = some range ∧ range.start = address
  size_eq : program.listing.size = instructions.length

namespace Consists

variable {lines : List (List Char)} {start : Word} {program : Program}
  {instructions : List Encoded}

theorem emits_iff (consists : Consists lines start program instructions) (line : Nat)
    (bytes : List Byte) :
    Emits lines program.labels line bytes ↔
      ∃ encoded ∈ instructions, encoded.line = line ∧ encoded.bytes = bytes := by
  constructor
  · exact consists.complete line bytes
  · rintro ⟨encoded, member, rfl, rfl⟩
    obtain ⟨index, parsed, made⟩ := consists.of_line encoded member
    obtain ⟨_, _, chosen, answer⟩ := Statement.encoded?_eq_some_iff.1 made
    exact ⟨index, _, _, line_of_parsed parsed, parsed, chosen, answer⟩

theorem held (consists : Consists lines start program instructions) {encoded : Encoded}
    (member : encoded ∈ instructions) :
    start ≤ encoded.address ∧
      (program.bytes.drop (encoded.address.toNat - start.toNat)).take encoded.bytes.length =
        encoded.bytes := by
  obtain ⟨before, after, split⟩ := List.append_of_mem member
  obtain ⟨behind, _⟩ := consists.toNat_address split
  constructor
  · rw [UInt16.le_iff_toNat_le]
    omega
  · rw [behind, Nat.add_sub_cancel_left, consists.bytes_eq, split, List.flatMap_append,
      List.drop_left, List.flatMap_cons, List.take_left]

theorem stop_eq (consists : Consists lines start program instructions) {encoded : Encoded}
    (member : encoded ∈ instructions) :
    encoded.range.start.toNat + encoded.bytes.length =
      if encoded.range.stop = 0 then Memory.size else encoded.range.stop.toNat := by
  obtain ⟨before, after, split⟩ := List.append_of_mem member
  obtain ⟨_, inside⟩ := consists.toNat_address split
  have filled := List.length_pos_iff.2 (consists.bytes_ne_nil member)
  have stop : encoded.range.stop.toNat =
      (encoded.address.toNat + encoded.bytes.length) % Memory.size := by
    rw [Encoded.range, UInt16.toNat_add, UInt16.toNat_ofNat', Nat.add_mod_mod]
    rfl
  change encoded.address.toNat + encoded.bytes.length = _
  by_cases zero : encoded.range.stop = 0
  · rw [zero, UInt16.toNat_zero] at stop
    rw [if_pos zero]
    unfold Memory.size at *
    omega
  · have positive : encoded.range.stop.toNat ≠ 0 := fun none => zero (UInt16.toNat_inj.1 none)
    rw [if_neg zero]
    unfold Memory.size at *
    omega

theorem place_iff (consists : Consists lines start program instructions) (address : Word)
    (line : Nat) :
    (program.listing.place? address).map Place.line = some line ↔
      ∃ range, program.listing.range? line = some range ∧ range.start = address := by
  simp only [Option.map_eq_some_iff, consists.place?_eq_some_iff, consists.range?_eq_some_iff]
  constructor
  · rintro ⟨_, ⟨encoded, member, rfl, rfl⟩, rfl⟩
    exact ⟨encoded.range, ⟨encoded, member, rfl, rfl⟩, rfl⟩
  · rintro ⟨_, ⟨encoded, member, rfl, rfl⟩, rfl⟩
    exact ⟨encoded.place, ⟨encoded, member, rfl, rfl⟩, rfl⟩

theorem divides (consists : Consists lines start program instructions) :
    Divides lines start program instructions where
  emits_iff := consists.emits_iff
  ascending := consists.lines_ascend
  bytes_eq := consists.bytes_eq
  range_iff := consists.range?_eq_some_iff
  consecutive := by
    rw [consists.bytes_eq]
    exact consecutive_of_adjacent consists.adjacent
  held _ member := consists.held member
  stop_eq _ member := consists.stop_eq member
  place_iff := consists.place_iff
  size_eq := by rw [consists.listing_eq, size_listingOf]

end Consists

end Assembly

open Assembly in
/-- The listing of an assembled program divides its bytes among the lines of the source. -/
theorem listing_divides {source : String} {start : Word} {mode : Mode} {program : Program}
    (assembled : assemble source start mode = .ok program) :
    Divides (Text.lines source.toList) start program
      (instructions (Text.lines source.toList) start mode) :=
  (consists_of_ok assembled).divides

/-- A program that ends at the last address. Its first line is a comment, the next has no
instruction and the fourth is skipped. -/
def endsAtTop : String := "; top\nX:\n MVI A,#5\nFOO\n JMP X"

/-- Two of the lines have ranges, of which the last ends at zero. -/
theorem listing_divides_at_top :
    ∃ program,
      assemble endsAtTop 0xFFFB .lenient = .ok program ∧
      program.bytes = [0x3E, 0x05, 0xC3, 0xFB, 0xFF] ∧
      ((Assembly.instructions (Text.lines endsAtTop.toList) 0xFFFB .lenient).map fun encoded =>
          (encoded.line, encoded.range)) =
        [(3, ⟨0xFFFB, 0xFFFD⟩), (5, ⟨0xFFFD, 0x0000⟩)] ∧
      Assembly.Divides (Text.lines endsAtTop.toList) 0xFFFB program
        (Assembly.instructions (Text.lines endsAtTop.toList) 0xFFFB .lenient) := by
  have outcome : (assemble endsAtTop 0xFFFB .lenient).toOption.map Program.bytes =
      some [0x3E, 0x05, 0xC3, 0xFB, 0xFF] := by
    decide +kernel
  rcases assembled : assemble endsAtTop 0xFFFB .lenient with diagnostics | program
  · simp [assembled, Except.toOption] at outcome
  · have bytes : program.bytes = [0x3E, 0x05, 0xC3, 0xFB, 0xFF] := by
      simpa [assembled, Except.toOption] using outcome
    have ranges : ((Assembly.instructions (Text.lines endsAtTop.toList) 0xFFFB .lenient).map
        fun encoded => (encoded.line, encoded.range)) =
          [(3, ⟨0xFFFB, 0xFFFD⟩), (5, ⟨0xFFFD, 0x0000⟩)] := by
      decide +kernel
    exact ⟨program, rfl, bytes, ranges, listing_divides assembled⟩

end I8085
