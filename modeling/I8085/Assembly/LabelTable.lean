/-
Module: I8085.Assembly.LabelTable
Layer: Assembly
Purpose: The labels of a program with their addresses, in the order in which the names were first
  bound. No name occurs twice. Binding a name that is already bound is refused and leaves the table
  as it is; binding it again on purpose changes its entry and keeps its position. Names that differ
  in case are different.
Imports: I8085.Word
Main exports: Symbol, LabelTable, LabelTable.find?, LabelTable.bind, LabelTable.rebind
-/
import I8085.Word

namespace I8085

structure Symbol where
  name : String
  address : Word
  /-- The line that binds it. -/
  definedAt : Nat
deriving Repr, DecidableEq

structure LabelTable where
  toList : List Symbol := []
  names_nodup : (toList.map Symbol.name).Nodup := by simp

namespace LabelTable

def empty : LabelTable := {}

instance : Inhabited LabelTable := ⟨empty⟩

def find? (table : LabelTable) (name : String) : Option Symbol :=
  table.toList.find? (·.name == name)

/-- Add an entry for a name that has none. -/
def append (table : LabelTable) (symbol : Symbol) (fresh : table.find? symbol.name = none) :
    LabelTable where
  toList := table.toList ++ [symbol]
  names_nodup := by
    simp only [find?, List.find?_eq_none, beq_iff_eq] at fresh
    simp only [List.map_append, List.map_cons, List.map_nil, List.nodup_append,
      List.mem_map, List.mem_singleton]
    refine ⟨table.names_nodup, by simp, ?_⟩
    rintro _ ⟨other, member, rfl⟩ _ rfl
    exact fresh other member

/-- Change the entry of a name, if it has one. -/
def replace (table : LabelTable) (symbol : Symbol) : LabelTable where
  toList := table.toList.map fun other => if other.name = symbol.name then symbol else other
  names_nodup := by
    have same : Symbol.name ∘ (fun other => if other.name = symbol.name then symbol else other) =
        Symbol.name := by
      funext other
      simp only [Function.comp_apply]
      split
      · next h => exact h.symm
      · rfl
    rw [List.map_map, same]
    exact table.names_nodup

/-- An added entry is found by its name, and no other name is affected. -/
theorem find?_append (table : LabelTable) (symbol : Symbol)
    (fresh : table.find? symbol.name = none) (name : String) :
    (table.append symbol fresh).find? name =
      if symbol.name = name then some symbol else table.find? name := by
  by_cases same : symbol.name = name
  · subst same
    unfold find? at fresh
    simp [find?, append, List.find?_append, fresh]
  · simp [find?, append, List.find?_append, same]

/-- A changed entry is found by its name if there was one, and no other name is affected. -/
theorem find?_replace (table : LabelTable) (symbol : Symbol) (name : String) :
    (table.replace symbol).find? name =
      if symbol.name = name then (table.find? name).map fun _ => symbol
      else table.find? name := by
  simp only [find?, replace]
  induction table.toList with
  | nil => simp
  | cons first rest ih =>
    by_cases changed : first.name = symbol.name <;> by_cases same : symbol.name = name <;>
      by_cases found : first.name = name <;> simp_all

/-- Bind a new name. The answer is the entry that the name already has, if there is one. -/
def bind (table : LabelTable) (symbol : Symbol) : Except Symbol LabelTable :=
  match fresh : table.find? symbol.name with
  | none => .ok (table.append symbol fresh)
  | some existing => .error existing

/-- Bind a name whether or not it is bound already. -/
def rebind (table : LabelTable) (symbol : Symbol) : LabelTable :=
  match table.bind symbol with
  | .ok extended => extended
  | .error _ => table.replace symbol

theorem bind_of_fresh (table : LabelTable) (symbol : Symbol)
    (fresh : table.find? symbol.name = none) :
    table.bind symbol = .ok (table.append symbol fresh) := by
  unfold bind
  split
  · rfl
  · next existing bound => simp [fresh] at bound

theorem bind_of_bound (table : LabelTable) (symbol : Symbol) {existing : Symbol}
    (bound : table.find? symbol.name = some existing) : table.bind symbol = .error existing := by
  unfold bind
  split
  · next fresh => simp [bound] at fresh
  · next other found => simpa [bound] using found.symm

theorem rebind_of_bound (table : LabelTable) (symbol : Symbol) {existing : Symbol}
    (bound : table.find? symbol.name = some existing) :
    table.rebind symbol = table.replace symbol := by
  simp [rebind, bind_of_bound table symbol bound]

/-- An entry of the table is the one that is found by its name. -/
theorem find?_of_mem {table : LabelTable} {symbol : Symbol} (entered : symbol ∈ table.toList) :
    table.find? symbol.name = some symbol := by
  have names := table.names_nodup
  unfold find?
  generalize table.toList = symbols at entered names ⊢
  induction symbols with
  | nil => simp at entered
  | cons first rest ih =>
    simp only [List.map_cons, List.nodup_cons] at names
    rcases List.mem_cons.1 entered with rfl | later
    · simp
    · have apart : first.name ≠ symbol.name := by
        intro same
        exact names.1 (same ▸ List.mem_map_of_mem later)
      simpa [apart] using ih later names.2

end LabelTable

end I8085
