/-
Module: I8085.Breakpoints
Layer: Machine
Purpose: A set of breakpoint addresses. The addresses are kept in strictly ascending order, which is
  the order in which they are listed, so equal sets are equal values.
Imports: I8085.Word
Main exports: Breakpoints, Breakpoints.insert, Breakpoints.erase, Breakpoints.contains,
  Breakpoints.contains_insert, Breakpoints.contains_erase
-/
import I8085.Word

namespace I8085

/-- A set of addresses. -/
structure Breakpoints where
  toList : List Word := []
  ascending : toList.Pairwise (· < ·) := by simp

namespace Breakpoints

/-- No breakpoint. -/
def empty : Breakpoints := {}

instance : Inhabited Breakpoints := ⟨empty⟩

/-- Whether there is a breakpoint at an address. -/
def contains (set : Breakpoints) (address : Word) : Bool := set.toList.contains address

/-- Add a breakpoint. -/
def insert (set : Breakpoints) (address : Word) : Breakpoints where
  toList := set.toList.filter (· < address) ++ address :: set.toList.filter (address < ·)
  ascending := by
    have below : (set.toList.filter (· < address)).Pairwise (· < ·) := set.ascending.filter _
    have above : (set.toList.filter (address < ·)).Pairwise (· < ·) := set.ascending.filter _
    simp only [List.pairwise_append, List.pairwise_cons, List.mem_cons, List.mem_filter,
      decide_eq_true_eq]
    refine ⟨below, ⟨fun _ h => h.2, above⟩, fun x hx y hy => ?_⟩
    rcases hy with rfl | hy
    · exact hx.2
    · exact UInt16.lt_trans hx.2 hy.2

/-- Remove a breakpoint. -/
def erase (set : Breakpoints) (address : Word) : Breakpoints where
  toList := set.toList.filter (· != address)
  ascending := set.ascending.filter _

/-! ### Membership after each operation -/

@[simp] theorem contains_empty (address : Word) : empty.contains address = false := rfl

theorem contains_insert (set : Breakpoints) (address other : Word) :
    (set.insert address).contains other = (other == address || set.contains other) := by
  rw [Bool.eq_iff_iff]
  simp only [contains, insert, List.contains_iff_mem, List.mem_append, List.mem_cons,
    List.mem_filter, decide_eq_true_eq, Bool.or_eq_true, beq_iff_eq]
  constructor
  · rintro (⟨member, _⟩ | rfl | ⟨member, _⟩)
    · exact Or.inr member
    · exact Or.inl rfl
    · exact Or.inr member
  · rintro (rfl | member)
    · exact Or.inr (Or.inl rfl)
    · rcases Nat.lt_trichotomy other.toNat address.toNat with below | same | above
      · exact Or.inl ⟨member, UInt16.lt_iff_toNat_lt.2 below⟩
      · exact Or.inr (Or.inl (UInt16.toNat_inj.1 same))
      · exact Or.inr (Or.inr ⟨member, UInt16.lt_iff_toNat_lt.2 above⟩)

theorem contains_erase (set : Breakpoints) (address other : Word) :
    (set.erase address).contains other = (other != address && set.contains other) := by
  rw [Bool.eq_iff_iff]
  simp only [contains, erase, List.contains_iff_mem, List.mem_filter, Bool.and_eq_true]
  exact and_comm

end Breakpoints

end I8085
