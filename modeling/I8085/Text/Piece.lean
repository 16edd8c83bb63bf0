/-
Module: I8085.Text.Piece
Layer: Text
Purpose: A piece of a line together with the place where it stands. Places and lengths are counted
  in the bytes of the UTF-8 form of the line. Every operation that takes a piece apart keeps the
  places of the parts, so the span of a part is known without searching the line for it again.
Imports: I8085.Text.Blank, I8085.Text.Lines
Main exports: Span, Text.byteLength, Piece, Piece.span, Piece.trim, Piece.cut?, Piece.split,
  Piece.word
-/
import I8085.Text.Blank
import I8085.Text.Lines

namespace I8085

/-- A range of byte offsets in a line, the end excluded. -/
structure Span where
  start : Nat
  stop : Nat
deriving Repr, DecidableEq, Inhabited

def Span.length (span : Span) : Nat := span.stop - span.start

/-- The length of the UTF-8 form. -/
def Text.byteLength (chars : List Char) : Nat :=
  chars.foldr (fun c length => c.utf8Size + length) 0

/-- Characters and the byte offset of the first of them. -/
structure Piece where
  start : Nat
  chars : List Char
deriving Repr, DecidableEq, Inhabited

namespace Piece

def whole (chars : List Char) : Piece := { start := 0, chars }

def stop (piece : Piece) : Nat := piece.start + Text.byteLength piece.chars

def span (piece : Piece) : Span := { start := piece.start, stop := piece.stop }

def text (piece : Piece) : String := String.ofList piece.chars

/-- The piece without blank characters at its ends. Of a blank piece the empty end remains. -/
def trim (piece : Piece) : Piece where
  start := piece.start + Text.byteLength (piece.chars.takeWhile Text.isBlank)
  chars := Text.trim piece.chars

def isBlank (piece : Piece) : Bool := piece.chars.all Text.isBlank

/-- What stands before the first separator and what stands after it, if there is one. -/
def cut? (piece : Piece) (separator : Char) : Option (Piece × Piece) :=
  let before := { piece with chars := piece.chars.takeWhile (· != separator) }
  match piece.chars.dropWhile (· != separator) with
  | [] => none
  | found :: after => some (before, { start := before.stop + found.utf8Size, chars := after })

/-- The characters up to the first blank one, and the rest. -/
def word (piece : Piece) : Piece × Piece :=
  let word := { piece with chars := piece.chars.takeWhile (!Text.isBlank ·) }
  (word, { start := word.stop, chars := piece.chars.dropWhile (!Text.isBlank ·) })

/-- Place consecutive runs of characters that stand a separator apart. -/
def place (separator : Char) (start : Nat) : List (List Char) → List Piece
  | [] => []
  | chars :: rest =>
      { start, chars } :: place separator (start + Text.byteLength chars + separator.utf8Size) rest

/-- The pieces between the separators. -/
def split (piece : Piece) (separator : Char) : List Piece :=
  place separator piece.start (Text.split separator piece.chars)

/-- The piece with its ASCII letters in upper case. It takes as many bytes as before. -/
def upper (piece : Piece) : Piece := { piece with chars := piece.chars.map Char.toUpper }

end Piece

end I8085
