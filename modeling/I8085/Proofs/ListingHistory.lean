/-
Module: I8085.Proofs.ListingHistory
Layer: Proofs
Purpose: The answers of a listing do not depend on how it was filled. Instructions are entered one
  after another, in any order, and the listing is sorted on the way as often as one likes. Once it
  has been sorted after the last of them, it finds the place of each instruction by its address and
  the range of each by its line, and nothing else, if no two of them share an address or a line
  (`Listing.maps_entered`). The two tables are sorted each by its own key; what carries the proof is
  that neither entering nor sorting loses a row of either (`Listing.rows_after`).
Imports: I8085.Assembly.Listing, I8085.Proofs.DirectoryLookup, Mathlib.Data.List.Induction
Main exports: Listing.Mapping, Listing.Request, Listing.serve, Listing.after, Listing.entered,
  Listing.rows_after, Listing.Maps, Listing.SameAnswers, Listing.maps_entered
-/
import I8085.Assembly.Listing
import I8085.Proofs.DirectoryLookup
import Mathlib.Data.List.Induction

namespace I8085.Listing

/-! ### Requests -/

/-- An instruction as it is entered in a listing. -/
structure Mapping where
  address : Word
  length : Word
  place : Place
deriving Repr, DecidableEq

namespace Mapping

def line (mapping : Mapping) : Nat := mapping.place.line

/-- The addresses of the bytes of an instruction. -/
def range (mapping : Mapping) : AddressRange where
  start := mapping.address
  stop := mapping.address + mapping.length

/-- The end of a range wraps at the top of memory. -/
theorem toNat_stop_range (mapping : Mapping) :
    mapping.range.stop.toNat = (mapping.address.toNat + mapping.length.toNat) % 65536 :=
  UInt16.toNat_add mapping.address mapping.length

end Mapping

/-- What can be asked of a listing that changes it. -/
inductive Request where
  | add (mapping : Mapping)
  /-- Make the listing ready for looking up. -/
  | sort
deriving Repr, DecidableEq

/-- The instruction that is to be entered, if one is. -/
def Request.mapping? : Request → Option Mapping
  | .add mapping => some mapping
  | .sort => none

def serve (listing : Listing) : Request → Listing
  | .add mapping => listing.add mapping.address mapping.length mapping.place
  | .sort => listing.sorted

/-- The listing after requests, made one after another. -/
def after (listing : Listing) (requests : List Request) : Listing := requests.foldl serve listing

/-- The instructions that are entered by requests, in the order of the requests. -/
def entered (requests : List Request) : List Mapping := requests.filterMap Request.mapping?

variable {requests : List Request}

theorem after_concat (listing : Listing) (requests : List Request) (request : Request) :
    listing.after (requests ++ [request]) = (listing.after requests).serve request := by
  rw [after, List.foldl_append]
  rfl

theorem entered_concat_add (requests : List Request) (mapping : Mapping) :
    entered (requests ++ [.add mapping]) = entered requests ++ [mapping] :=
  List.filterMap_append

theorem entered_concat_sort (requests : List Request) :
    entered (requests ++ [.sort]) = entered requests :=
  List.filterMap_append.trans (List.append_nil _)

/-! ### The rows of the tables -/

/-- However a listing has been filled and sorted, each of its tables has one row for each
instruction that was entered. -/
theorem rows_after (requests : List Request) :
    (empty.after requests).byAddress.rows.toList.Perm
        ((entered requests).map fun mapping => (mapping.address.toNat, mapping.place)) ∧
      (empty.after requests).byLine.rows.toList.Perm
        ((entered requests).map fun mapping => (mapping.line, mapping.range)) := by
  induction requests using List.reverseRecOn with
  | nil => exact ⟨.refl [], .refl []⟩
  | append_singleton before request ih =>
    obtain ⟨byAddress, byLine⟩ := ih
    rw [after_concat]
    cases request with
    | add mapping =>
      rw [entered_concat_add, List.map_append, List.map_append]
      simp only [serve, add, Directory.add, Array.toList_push]
      exact ⟨byAddress.append_right _, byLine.append_right _⟩
    | sort =>
      rw [entered_concat_sort]
      exact ⟨(Directory.rows_sorted_perm _).trans byAddress,
        (Directory.rows_sorted_perm _).trans byLine⟩

/-- A listing that has been sorted finds the place of an instruction by its address. -/
theorem place?_after_sort (addresses : ((entered requests).map Mapping.address).Nodup)
    (address : Word) (place : Place) :
    (empty.after (requests ++ [.sort])).place? address = some place ↔
      ∃ mapping ∈ entered requests, mapping.address = address ∧ mapping.place = place := by
  have distinct : ((entered requests).map fun mapping => mapping.address.toNat).Nodup := by
    apply List.pairwise_map.2
    exact (List.pairwise_map.1 addresses).imp fun apart same => apart (UInt16.toNat_inj.1 same)
  rw [after_concat, serve, place?, sorted]
  refine (Directory.find?_sorted_of_perm (rows_after requests).1 distinct).trans ?_
  simp only [UInt16.toNat_inj]

/-- A listing that has been sorted finds the range of an instruction by its line. -/
theorem range?_after_sort (lines : ((entered requests).map Mapping.line).Nodup) (line : Nat)
    (range : AddressRange) :
    (empty.after (requests ++ [.sort])).range? line = some range ↔
      ∃ mapping ∈ entered requests, mapping.line = line ∧ mapping.range = range := by
  rw [after_concat, serve, range?, sorted]
  exact Directory.find?_sorted_of_perm (rows_after requests).2 lines

theorem size_after (requests : List Request) :
    (empty.after requests).size = (entered requests).length := by
  have same := (rows_after requests).1.length_eq
  rwa [List.length_map] at same

/-! ### The answers -/

/-- What it is for a listing to answer for some instructions and for nothing else. -/
structure Maps (listing : Listing) (mappings : List Mapping) : Prop where
  /-- The place of an instruction is found by its address. -/
  place?_eq : ∀ mapping ∈ mappings, listing.place? mapping.address = some mapping.place
  place?_eq_none : ∀ address, (∀ mapping ∈ mappings, mapping.address ≠ address) →
    listing.place? address = none
  /-- The range of an instruction is found by its line. It starts at its address, and ends as many
  addresses on as the instruction is long, with the address zero after the last one. -/
  range?_eq : ∀ mapping ∈ mappings, ∃ stop : Word,
    listing.range? mapping.line = some { start := mapping.address, stop } ∧
      stop.toNat = (mapping.address.toNat + mapping.length.toNat) % 65536
  range?_eq_none : ∀ line, (∀ mapping ∈ mappings, mapping.line ≠ line) → listing.range? line = none
  size_eq : listing.size = mappings.length

/-- Whether two listings cannot be told apart by what they answer. -/
structure SameAnswers (first second : Listing) : Prop where
  place?_eq : first.place? = second.place?
  range?_eq : first.range? = second.range?
  size_eq : first.size = second.size

theorem maps_after_sort (addresses : ((entered requests).map Mapping.address).Nodup)
    (lines : ((entered requests).map Mapping.line).Nodup) :
    (empty.after (requests ++ [.sort])).Maps (entered requests) where
  place?_eq mapping member := (place?_after_sort addresses _ _).2 ⟨mapping, member, rfl, rfl⟩
  place?_eq_none := by
    intro address absent
    rw [Option.eq_none_iff_forall_ne_some]
    intro place found
    obtain ⟨mapping, member, here, _⟩ := (place?_after_sort addresses address place).1 found
    exact absent mapping member here
  range?_eq mapping member :=
    ⟨mapping.range.stop, (range?_after_sort lines _ _).2 ⟨mapping, member, rfl, rfl⟩,
      mapping.toNat_stop_range⟩
  range?_eq_none := by
    intro line absent
    rw [Option.eq_none_iff_forall_ne_some]
    intro range found
    obtain ⟨mapping, member, here, _⟩ := (range?_after_sort lines line range).1 found
    exact absent mapping member here
  size_eq := by rw [size_after, entered_concat_sort]

/-- Two listings into which the same instructions were entered, in whatever order, and which were
sorted in the end cannot be told apart. -/
theorem sameAnswers_of_perm {others : List Request}
    (addresses : ((entered requests).map Mapping.address).Nodup)
    (lines : ((entered requests).map Mapping.line).Nodup)
    (same : (entered others).Perm (entered requests)) :
    (empty.after (others ++ [.sort])).SameAnswers (empty.after (requests ++ [.sort])) where
  place?_eq := by
    have otherAddresses := (same.map Mapping.address).nodup_iff.2 addresses
    funext address
    apply Option.ext
    intro place
    rw [place?_after_sort otherAddresses, place?_after_sort addresses]
    simp only [same.mem_iff]
  range?_eq := by
    have otherLines := (same.map Mapping.line).nodup_iff.2 lines
    funext line
    apply Option.ext
    intro range
    rw [range?_after_sort otherLines, range?_after_sort lines]
    simp only [same.mem_iff]
  size_eq := by
    rw [size_after, size_after, entered_concat_sort, entered_concat_sort, same.length_eq]

/-- If no two of the instructions that were entered share an address or a line, a listing that is
sorted in the end answers for all of them and for nothing else, whether or not it was sorted before
and between. Every listing that comes of the same instructions in this way, be they entered in
another order and the listing sorted at other times, has the same answers. -/
theorem maps_entered (addresses : ((entered requests).map Mapping.address).Nodup)
    (lines : ((entered requests).map Mapping.line).Nodup) :
    (empty.after (requests ++ [.sort])).Maps (entered requests) ∧
      ∀ others : List Request, (entered others).Perm (entered requests) →
        (empty.after (others ++ [.sort])).SameAnswers (empty.after (requests ++ [.sort])) :=
  ⟨maps_after_sort addresses lines, fun _ => sameAnswers_of_perm addresses lines⟩

/-- The first instruction ends at the top of memory. The others are entered after it has been sorted
in, and against the order of their lines. -/
def enteredLate : List Request :=
  [.add ⟨0xFFFD, 3, ⟨2, 0, 8⟩⟩, .sort, .add ⟨0x8000, 2, ⟨7, 4, 9⟩⟩, .add ⟨0x8002, 3, ⟨5, 0, 6⟩⟩,
    .sort, .sort]

/-- The same instructions in the order of their lines, and not sorted on the way. -/
def enteredByLine : List Request :=
  [.add ⟨0xFFFD, 3, ⟨2, 0, 8⟩⟩, .add ⟨0x8002, 3, ⟨5, 0, 6⟩⟩, .add ⟨0x8000, 2, ⟨7, 4, 9⟩⟩]

theorem maps_entered_late :
    (empty.after (enteredLate ++ [.sort])).Maps
        [⟨0xFFFD, 3, ⟨2, 0, 8⟩⟩, ⟨0x8000, 2, ⟨7, 4, 9⟩⟩, ⟨0x8002, 3, ⟨5, 0, 6⟩⟩] ∧
      (empty.after (enteredByLine ++ [.sort])).SameAnswers
        (empty.after (enteredLate ++ [.sort])) ∧
      (empty.after (enteredLate ++ [.sort])).range? 2 = some ⟨0xFFFD, 0x0000⟩ := by
  obtain ⟨maps, same⟩ := @maps_entered enteredLate (by decide) (by decide)
  obtain ⟨stop, found, wraps⟩ := maps.range?_eq ⟨0xFFFD, 3, ⟨2, 0, 8⟩⟩ (by decide)
  obtain rfl : stop = 0x0000 := UInt16.toNat_inj.1 wraps
  exact ⟨maps, same enteredByLine (by decide), found⟩

end I8085.Listing
