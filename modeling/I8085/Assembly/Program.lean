/-
Module: I8085.Assembly.Program
Layer: Assembly
Purpose: Assembling a source text. The lines are parsed, laid out and encoded, and whatever is
  wrong in any of the three stages is collected. If nothing is, the answer is the program: its
  bytes, its labels, the listing and the warnings. Otherwise it is all that is wrong, in the order
  of the source.
Imports: I8085.Assembly.Layout, I8085.Assembly.Listing, I8085.Memory
Main exports: Program, Program.address?, Program.stop, Assembly.Passes, Assembly.ofLines, assemble
-/
import I8085.Assembly.Layout
import I8085.Assembly.Listing
import I8085.Memory

namespace I8085

structure Program where
  bytes : List Byte
  /-- The address of the first byte. -/
  start : Word
  labels : LabelTable
  listing : Listing
  warnings : List Warning

def Program.address? (program : Program) (name : String) : Option Word :=
  (program.labels.find? name).map Symbol.address

/-- The address after the last byte. It wraps to zero at the top of memory. -/
def Program.stop (program : Program) : Word := program.start + UInt16.ofNat program.bytes.length

namespace Assembly

/-- The answers of those that succeeded, in order. -/
def successes {ε α : Type} (answers : List (Except ε α)) : List α :=
  answers.filterMap fun
    | .ok value => some value
    | .error _ => none

/-- The errors of those that failed, in order. -/
def failures {ε α : Type} (answers : List (Except ε α)) : List ε :=
  answers.filterMap fun
    | .ok _ => none
    | .error e => some e

/-- Numbered lines, each taken apart or refused. -/
def parseLines (lines : List (List Char)) : List (Except Diagnostic Statement) :=
  lines.mapIdx fun index line => Statement.parse (index + 1) line

structure Encoded where
  placement : Placement
  bytes : List Byte
deriving Repr, DecidableEq

/-- Encode an instruction. If something is wrong with its data, the place of the complaint is the
last operand of the line. -/
def encodePlacement (labels : LabelTable) (placement : Placement) : Except Diagnostic Encoded :=
  let statement := placement.statement
  match placement.selection.encode statement.operandTexts labels with
  | .ok bytes => .ok { placement, bytes }
  | .error problem =>
      let span := (statement.operands.getLast?.map Piece.span).getD statement.span
      .error { problem, line := statement.line, span }

/-- Enter an encoded instruction in a listing. -/
def enter (listing : Listing) (encoded : Encoded) : Listing :=
  let statement := encoded.placement.statement
  listing.add encoded.placement.address (UInt16.ofNat encoded.bytes.length)
    { line := statement.line, column := statement.span.start, length := statement.span.length }

/-- The listing of encoded instructions, ready for looking up. -/
def listingOf (instructions : List Encoded) : Listing := (instructions.foldl enter .empty).sorted

/-- The complaint about a program that runs past the top of memory, if it does. It is placed at the
start of the last line that was taken apart. -/
def overflow (start : Word) (length : Nat) (statements : List Statement) : List Diagnostic :=
  if Memory.size < start.toNat + length then
    let line := (statements.getLast?.map Statement.line).getD 1
    [{ problem := .programTooLong length start, line, span := { start := 0, stop := 0 } }]
  else []

/-- The warning for a line that was refused. -/
def skip (refusal : Diagnostic) : Warning :=
  { line := refusal.line, remedy := .skipped refusal.problem }

/-- What the two passes over a source make of it. -/
structure Passes where
  start : Word
  mode : Mode
  /-- The lines that were refused. -/
  refusals : List Diagnostic
  statements : List Statement
  /-- The first pass. -/
  layout : Layout
  /-- The second pass. -/
  encoded : List (Except Diagnostic Encoded)

namespace Passes

/-- Pass twice over the lines of a source text. -/
def ofLines (lines : List (List Char)) (start : Word) (mode : Mode) : Passes :=
  let parsed := parseLines lines
  let statements := successes parsed
  let layout := Layout.ofStatements start mode statements
  { start
    mode
    refusals := failures parsed
    statements
    layout
    encoded := layout.placements.toList.map (encodePlacement layout.labels) }

/-- All that is wrong. A line that was refused is wrong in strict mode only. -/
def diagnostics (passes : Passes) : List Diagnostic :=
  let refused := if passes.mode = .strict then passes.refusals else []
  refused ++ passes.layout.diagnostics.toList ++
    overflow passes.start passes.layout.length passes.statements ++ failures passes.encoded

/-- The program, if nothing is wrong. -/
def program (passes : Passes) : Program where
  bytes := (successes passes.encoded).flatMap Encoded.bytes
  start := passes.start
  labels := passes.layout.labels
  listing := listingOf (successes passes.encoded)
  warnings :=
    (if passes.mode = .strict then [] else passes.refusals.map skip) ++
      passes.layout.warnings.toList

end Passes

/-- Assemble the lines of a source text for loading at an address. -/
def ofLines (lines : List (List Char)) (start : Word) (mode : Mode) :
    Except (List Diagnostic) Program :=
  let passes := Passes.ofLines lines start mode
  if passes.diagnostics.isEmpty then .ok passes.program
  else .error (passes.diagnostics.mergeSort Diagnostic.precedes)

end Assembly

/-- Assemble a source text for loading at an address. -/
def assemble (source : String) (start : Word) (mode : Mode) : Except (List Diagnostic) Program :=
  Assembly.ofLines (Text.lines source.toList) start mode

end I8085
