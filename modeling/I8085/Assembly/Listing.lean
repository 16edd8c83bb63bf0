/-
Module: I8085.Assembly.Listing
Layer: Assembly
Purpose: Which address came from which line of source. Each instruction is entered once with its
  address, its length and the place of its text; after the listing has been sorted, the place is
  found by the address and the range of addresses by the line. The end of a range is the address
  after the last byte and wraps to zero at the top of memory.
Imports: I8085.Directory, I8085.Word
Main exports: Listing, Listing.Place, Listing.AddressRange, Listing.add, Listing.sorted,
  Listing.place?, Listing.range?
-/
import I8085.Directory
import I8085.Word

namespace I8085

/-- Where the text of an instruction stands. -/
structure Listing.Place where
  line : Nat
  column : Nat
  /-- In bytes, from the label or mnemonic to the last operand. -/
  length : Nat
deriving Repr, DecidableEq

/-- The addresses from `start` up to and without `stop`. -/
structure Listing.AddressRange where
  start : Word
  stop : Word
deriving Repr, DecidableEq

/-- Instructions by address and by line. -/
structure Listing where
  byAddress : Directory Listing.Place := .empty
  byLine : Directory Listing.AddressRange := .empty

namespace Listing

def empty : Listing := {}

instance : Inhabited Listing := ⟨empty⟩

def add (listing : Listing) (address length : Word) (place : Place) : Listing where
  byAddress := listing.byAddress.add address.toNat place
  byLine := listing.byLine.add place.line { start := address, stop := address + length }

/-- The listing made ready for looking up. -/
def sorted (listing : Listing) : Listing where
  byAddress := listing.byAddress.sorted
  byLine := listing.byLine.sorted

/-- The place of the instruction that starts at an address. -/
def place? (listing : Listing) (address : Word) : Option Place :=
  listing.byAddress.find? address.toNat

/-- The addresses of the instruction on a line. -/
def range? (listing : Listing) (line : Nat) : Option AddressRange := listing.byLine.find? line

def size (listing : Listing) : Nat := listing.byAddress.size

end Listing

end I8085
