/-
Module: I8085.Numeral
Layer: Assembly
Purpose: Numbers as assembly text writes them: decimal, or hexadecimal after `#` or `0x`, or
  hexadecimal before `H`. The last form has to start with a decimal digit, so that it cannot be
  taken for a name. Any number of digits may be written; the value has to fit into 32 bits.
  Whether it fits into the operand at hand is for the caller to decide.
Imports: I8085.Text.Blank
Main exports: Numeral, Numeral.value, Numeral.ofChars?, Numeral.parse, NumeralError
-/
import I8085.Text.Blank

namespace I8085

/-- The value of a digit, letters counting from ten in either case. -/
def digitValue? (c : Char) : Option Nat :=
  if c.isDigit then some (c.toNat - '0'.toNat)
  else if 'a' ≤ c ∧ c ≤ 'f' then some (c.toNat - 'a'.toNat + 10)
  else if 'A' ≤ c ∧ c ≤ 'F' then some (c.toNat - 'A'.toNat + 10)
  else none

structure Numeral where
  base : Nat
  digits : List Nat
deriving Repr, DecidableEq

inductive NumeralError where
  /-- There is no text. -/
  | empty
  /-- The text has none of the written forms. -/
  | malformed (text : String)
  /-- The value does not fit into 32 bits. -/
  | tooLarge (text : String)
deriving Repr, DecidableEq

def NumeralError.message : NumeralError → String
  | .empty => "empty number string"
  | .malformed text => s!"invalid number: {text}"
  | .tooLarge text => s!"number too large: {text}"

namespace Numeral

def value (numeral : Numeral) : Nat :=
  numeral.digits.foldl (fun value digit => numeral.base * value + digit) 0

def isDigitOf (base : Nat) (c : Char) : Bool := (digitValue? c).any (· < base)

/-- Characters as digits of a base. There has to be one at least, and all have to be digits. -/
def ofDigits? (base : Nat) (chars : List Char) : Option Numeral :=
  if !chars.isEmpty && chars.all (isDigitOf base) then
    some { base, digits := chars.filterMap digitValue? }
  else none

/-- The digits before a final `H`, in either case. -/
def beforeSuffix? (chars : List Char) : Option (List Char) :=
  match chars.getLast? with
  | some 'H' => some chars.dropLast
  | some 'h' => some chars.dropLast
  | _ => none

/-- The numeral that the characters write. A prefix decides before the suffix does. -/
def ofChars? (chars : List Char) : Option Numeral :=
  match chars with
  | '#' :: digits => ofDigits? 16 digits
  | '0' :: 'x' :: digits => ofDigits? 16 digits
  | '0' :: 'X' :: digits => ofDigits? 16 digits
  | _ =>
      match beforeSuffix? chars with
      | some digits => if digits.head?.any Char.isDigit then ofDigits? 16 digits else none
      | none => ofDigits? 10 chars

/-- Values from here on do not fit into 32 bits. -/
def limit : Nat := 0x100000000

/-- The number that a text writes, blank characters at its ends apart. -/
def parse (text : String) : Except NumeralError Nat :=
  let chars := Text.trim text.toList
  if chars.isEmpty then .error .empty
  else
    match ofChars? chars with
    | none => .error (.malformed (String.ofList chars))
    | some numeral =>
        if numeral.value < limit then .ok numeral.value
        else .error (.tooLarge (String.ofList chars))

end Numeral

end I8085
