/-
Module: I8085.Text.Hex
Layer: Text
Purpose: Hexadecimal numbers as the messages show them: upper-case digits, filled up with zeros on
  the left to a least width. A number with more digits is written in full.
Imports: none
Main exports: Text.hex
-/

namespace I8085.Text

/-- The number in upper-case hexadecimal with at least `width` digits. -/
def hex (width n : Nat) : String :=
  let digits := (Nat.toDigits 16 n).map Char.toUpper
  String.ofList (List.replicate (width - digits.length) '0' ++ digits)

end I8085.Text
