/-
Module: I8085.Proofs.DirectoryLookup
Layer: Proofs
Purpose: Looking up in a directory that has been sorted. The search halves a range of rows; on
  rows in strictly ascending order it never leaves the row of the key behind, so it finds exactly
  the rows that are there (`Directory.search_eq_some_iff`). Sorting puts the rows in this order if
  no key was entered twice, so a sorted directory answers as its rows do, whatever the order in
  which they were entered (`Directory.find?_sorted_of_perm`).
Imports: I8085.Directory
Main exports: Directory.keys, Directory.search_eq_some_iff, Directory.find?_sorted_eq_some_iff,
  Directory.find?_sorted_of_perm
-/
import I8085.Directory

namespace I8085.Directory

variable {α : Type} {directory : Directory α} {key : Nat} {value : α}

/-- The keys of the rows, in the order of the rows. -/
def keys (directory : Directory α) : List Nat := directory.rows.toList.map Prod.fst

/-! ### The search -/

/-- Rows whose keys ascend stand in the order of their keys. -/
theorem position_lt_iff {rows : Array (Nat × α)}
    (ascending : rows.toList.Pairwise fun first second => first.1 < second.1)
    {i j : Nat} {row : Nat × α} (here : i < rows.size) (there : rows[j]? = some row) :
    (i < j ↔ rows[i].1 < row.1) ∧ (j < i ↔ row.1 < rows[i].1) := by
  obtain ⟨within, rfl⟩ := Array.getElem?_eq_some_iff.1 there
  rw [List.pairwise_iff_getElem] at ascending
  have forward := ascending i j here within
  have backward := ascending j i within here
  simp only [Array.getElem_toList] at forward backward
  rcases Nat.lt_trichotomy i j with before | rfl | after
  · have less := forward before
    omega
  · omega
  · have less := backward after
    omega

/-- Searching a range of rows whose keys ascend finds the value of a key exactly if a row in the
range has both. -/
theorem search_eq_some_iff {rows : Array (Nat × α)}
    (ascending : rows.toList.Pairwise fun first second => first.1 < second.1)
    {low high : Nat} {bound : high ≤ rows.size} :
    search rows key low high bound = some value ↔
      ∃ index, low ≤ index ∧ index < high ∧ rows[index]? = some (key, value) := by
  fun_induction search rows key low high bound with
  | case1 low high bound range middle inside row same =>
    change rows[middle].1 = key at same
    constructor
    · intro found
      refine ⟨middle, by omega, by omega, ?_⟩
      rw [Array.getElem?_eq_getElem inside, ← same, ← Option.some.inj found]
    · rintro ⟨index, _, _, there⟩
      obtain ⟨before, after⟩ := position_lt_iff ascending inside there
      obtain rfl : middle = index := by omega
      rw [Array.getElem?_eq_getElem inside] at there
      exact congrArg (Option.map Prod.snd) there
  | case2 low high bound range middle inside row apart less ih =>
    refine ih.trans ⟨?_, ?_⟩
    · rintro ⟨index, after, before, there⟩
      exact ⟨index, by omega, before, there⟩
    · rintro ⟨index, after, before, there⟩
      have past := (position_lt_iff ascending inside there).1.2 less
      exact ⟨index, past, before, there⟩
  | case3 low high bound range middle inside row apart notLess ih =>
    change ¬rows[middle].1 = key at apart
    change ¬rows[middle].1 < key at notLess
    refine ih.trans ⟨?_, ?_⟩
    · rintro ⟨index, after, before, there⟩
      exact ⟨index, after, by omega, there⟩
    · rintro ⟨index, after, before, there⟩
      have before := (position_lt_iff ascending inside there).2.2
      exact ⟨index, after, before (by omega), there⟩
  | case4 low high bound empty =>
    constructor
    · intro found
      cases found
    · rintro ⟨index, after, before, _⟩
      omega

theorem find?_eq_some_iff
    (ascending : directory.rows.toList.Pairwise fun first second => first.1 < second.1) :
    directory.find? key = some value ↔ (key, value) ∈ directory.rows.toList := by
  rw [find?, search_eq_some_iff ascending, List.mem_iff_getElem?]
  constructor
  · rintro ⟨index, _, _, there⟩
    exact ⟨index, by simpa using there⟩
  · rintro ⟨index, there⟩
    rw [Array.getElem?_toList] at there
    obtain ⟨within, _⟩ := Array.getElem?_eq_some_iff.1 there
    exact ⟨index, Nat.zero_le index, within, there⟩

/-! ### Sorting -/

/-- Sorting keeps the rows. -/
theorem rows_sorted_perm (directory : Directory α) :
    directory.sorted.rows.toList.Perm directory.rows.toList := by
  rw [sorted]
  exact List.mergeSort_perm _ _

/-- The keys of sorted rows ascend if none of them occurs twice. -/
theorem pairwise_sorted (distinct : directory.keys.Nodup) :
    directory.sorted.rows.toList.Pairwise fun first second => first.1 < second.1 := by
  have ordered : directory.sorted.rows.toList.Pairwise fun first second =>
      decide (first.1 ≤ second.1) = true := by
    rw [sorted]
    apply List.pairwise_mergeSort
    · intro first second third one two
      rw [decide_eq_true_iff] at *
      exact Nat.le_trans one two
    · intro first second
      rw [Bool.or_eq_true, decide_eq_true_iff, decide_eq_true_iff]
      exact Nat.le_total first.1 second.1
  have apart : (directory.sorted.rows.toList.map Prod.fst).Nodup :=
    (directory.rows_sorted_perm.map Prod.fst).nodup_iff.2 distinct
  refine (ordered.and (List.pairwise_map.1 apart)).imp ?_
  intro first second both
  have least := of_decide_eq_true both.1
  omega

/-- A sorted directory in which no key was entered twice has the value of a key exactly if they were
entered together. -/
theorem find?_sorted_eq_some_iff (distinct : directory.keys.Nodup) :
    directory.sorted.find? key = some value ↔ (key, value) ∈ directory.rows.toList := by
  rw [find?_eq_some_iff (pairwise_sorted distinct)]
  exact directory.rows_sorted_perm.mem_iff

/-- A sorted directory whose rows stand for items answers for these, in whatever order they were
entered, if no two of them have the same key. -/
theorem find?_sorted_of_perm {β : Type} {items : List β} {keyOf : β → Nat} {valueOf : β → α}
    (rows : directory.rows.toList.Perm (items.map fun item => (keyOf item, valueOf item)))
    (distinct : (items.map keyOf).Nodup) :
    directory.sorted.find? key = some value ↔
      ∃ item ∈ items, keyOf item = key ∧ valueOf item = value := by
  have keys : directory.keys.Perm (items.map keyOf) := by
    have mapped := rows.map Prod.fst
    rwa [List.map_map] at mapped
  rw [find?_sorted_eq_some_iff (keys.nodup_iff.2 distinct), rows.mem_iff, List.mem_map]
  simp only [Prod.mk.injEq]

end I8085.Directory
