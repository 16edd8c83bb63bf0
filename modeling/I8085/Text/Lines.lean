/-
Module: I8085.Text.Lines
Layer: Text
Purpose: Cutting text at a character. Splitting gives one piece more than there are separators.
  Lines are the pieces between line feeds; a carriage return just before a line feed belongs to
  the line end, and text after the last line feed is a line only if there is any.
Imports: none
Main exports: Text.split, Text.lines
-/

namespace I8085.Text

/-- Put a character in front of the first piece. -/
def consFirst (c : Char) : List (List Char) → List (List Char)
  | [] => [[c]]
  | piece :: rest => (c :: piece) :: rest

/-- The pieces between the separators. -/
def split (separator : Char) (chars : List Char) : List (List Char) :=
  chars.foldr (fun c pieces => if c = separator then [] :: pieces else consFirst c pieces) [[]]

@[simp] theorem split_nil (separator : Char) : split separator [] = [[]] := rfl

@[simp] theorem split_cons (separator c : Char) (chars : List Char) :
    split separator (c :: chars) =
      if c = separator then [] :: split separator chars
      else consFirst c (split separator chars) := rfl

/-- A line without the carriage return that ends it, if one does. -/
def dropReturn (line : List Char) : List Char :=
  if line.getLast? = some '\r' then line.dropLast else line

def lines (text : List Char) : List (List Char) :=
  let pieces := split '\n' text
  let rest := pieces.getLast?.getD []
  pieces.dropLast.map dropReturn ++ if rest.isEmpty then [] else [rest]

end I8085.Text
