/-
Module: I8085.Label
Layer: Assembly
Purpose: Which texts are label names. A name starts with an ASCII letter or an underscore, goes on
  with letters, digits and underscores, and takes at most 32 bytes. A text that is no name is
  reported with the first rule that it breaks, the length being checked before the characters.
Imports: I8085.Text.Piece
Main exports: Label.maxLength, Label.Defect, Label.Defect.message, Label.defect?
-/
import I8085.Text.Piece

namespace I8085.Label

/-- The greatest length of a name in bytes. -/
def maxLength : Nat := 32

inductive Defect where
  | empty
  | tooLong (name : String)
  | badStart (found : Char)
  | badCharacter (found : Char)
deriving Repr, DecidableEq

def Defect.message : Defect → String
  | .empty => "label name cannot be empty"
  | .tooLong name => s!"label name too long (max {maxLength} characters): {name}"
  | .badStart found => s!"label must start with a letter, not '{found}'"
  | .badCharacter found =>
      s!"label contains invalid character '{found}' (only letters, digits, and underscores allowed)"

/-- Whether a name may start with a character. -/
def isStart (c : Char) : Bool := c.isAlpha || c == '_'

/-- Whether a name may go on with a character. -/
def isPart (c : Char) : Bool := c.isAlphanum || c == '_'

/-- The first rule that a text breaks as a label name; `none` when it is one. -/
def defect? : List Char → Option Defect
  | [] => some .empty
  | first :: rest =>
      if maxLength < Text.byteLength (first :: rest) then
        some (.tooLong (String.ofList (first :: rest)))
      else if !isStart first then some (.badStart first)
      else (rest.find? (!isPart ·)).map .badCharacter

end I8085.Label
