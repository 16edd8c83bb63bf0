/-
Module: I8085.Text.Case
Layer: Text
Purpose: Letter case as the assembly language sees it. Mnemonics and register names may be written
  in either case, and only the letters `a` to `z` have one: `Char.toUpper` leaves every character
  outside ASCII alone. Two texts agree but for case when their upper-case forms are equal.
Imports: none
Main exports: Text.upper
-/

namespace I8085.Text

/-- The text with its ASCII letters in upper case. -/
def upper (s : String) : String := String.ofList (s.toList.map Char.toUpper)

end I8085.Text
