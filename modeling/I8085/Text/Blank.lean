/-
Module: I8085.Text.Blank
Layer: Text
Purpose: Which characters are blank: those with the Unicode property White_Space, as a table of
  ranges. The zero-width space, the byte order mark and the four information separators do not have
  the property.
Imports: none
Main exports: Text.blankRanges, Text.isBlank
-/

namespace I8085.Text

/-- The code points of blank characters, as closed ranges. -/
def blankRanges : List (Nat × Nat) :=
  [(0x09, 0x0D), (0x20, 0x20), (0x85, 0x85), (0xA0, 0xA0), (0x1680, 0x1680), (0x2000, 0x200A),
   (0x2028, 0x2029), (0x202F, 0x202F), (0x205F, 0x205F), (0x3000, 0x3000)]

def isBlank (c : Char) : Bool :=
  blankRanges.any fun (first, last) => first ≤ c.toNat && c.toNat ≤ last

/-- Characters without those that are blank at either end. -/
def trim (chars : List Char) : List Char :=
  ((chars.dropWhile isBlank).reverse.dropWhile isBlank).reverse

end I8085.Text
