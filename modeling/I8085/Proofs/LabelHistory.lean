/-
Module: I8085.Proofs.LabelHistory
Layer: Proofs
Purpose: What a label table holds follows from what has been asked of it. Names are bound, and bound
  again, one request after another on a new table; a request that is granted gives its name an entry
  (`LabelTable.granted`). Every name that was given an entry is listed once, at the place of its
  first one, and has its last one. A request to bind is refused exactly if the name has an entry,
  and then tells this entry and changes nothing; to bind a name again changes no other name
  (`LabelTable.follows_requests`).
Imports: I8085.Assembly.Program, Mathlib.Data.List.Induction
Main exports: LabelTable.Request, LabelTable.serve, LabelTable.after, LabelTable.granted,
  LabelTable.names, LabelTable.Remembers, LabelTable.Answers, LabelTable.follows_requests
-/
import I8085.Assembly.Program
import Mathlib.Data.List.Induction

namespace I8085.LabelTable

/-! ### Requests -/

/-- What can be asked of a table that changes it. -/
inductive Request where
  /-- Bind a name that has no entry. -/
  | bind (symbol : Symbol)
  /-- Bind a name, whether or not it has an entry. -/
  | rebind (symbol : Symbol)
deriving Repr, DecidableEq

namespace Request

/-- The entry that is asked for. -/
def symbol : Request → Symbol
  | bind symbol => symbol
  | rebind symbol => symbol

def name (request : Request) : String := request.symbol.name

end Request

/-- The table after a request, and the answer. A request that is refused is answered with the entry
that stands against it. -/
def serve (table : LabelTable) : Request → LabelTable × Except Symbol Unit
  | .bind symbol =>
      match table.bind symbol with
      | .ok extended => (extended, .ok ())
      | .error existing => (table, .error existing)
  | .rebind symbol => (table.rebind symbol, .ok ())

/-- The table after requests, made one after another. -/
def after (table : LabelTable) (requests : List Request) : LabelTable :=
  requests.foldl (fun table request => (table.serve request).1) table

/-- The entries of the requests that are granted, in the order of the requests. -/
def granted (table : LabelTable) : List Request → List Symbol
  | [] => []
  | request :: rest =>
      (if (table.serve request).2.isOk then [request.symbol] else []) ++
        (table.serve request).1.granted rest

/-- The names that have an entry, in the order of the table. -/
def names (table : LabelTable) : List String := table.toList.map Symbol.name

variable {table : LabelTable} {symbol existing : Symbol} {name : String}

/-! ### One request -/

theorem mem_names_iff : name ∈ table.names ↔ ∃ symbol, table.find? name = some symbol := by
  rw [← Option.isSome_iff_exists, find?, List.find?_isSome, names, List.mem_map]
  simp only [beq_iff_eq]

theorem not_mem_names_iff : name ∉ table.names ↔ table.find? name = none := by
  rw [mem_names_iff, Option.eq_none_iff_forall_ne_some, not_exists]

theorem names_append (fresh : table.find? symbol.name = none) :
    (table.append symbol fresh).names = table.names ++ [symbol.name] := by
  rw [names, append, List.map_append, ← names]
  rfl

/-- Changing an entry changes no name. -/
theorem names_replace (table : LabelTable) (symbol : Symbol) :
    (table.replace symbol).names = table.names := by
  rw [names, replace, List.map_map, names]
  apply List.map_congr_left
  intro other _
  rw [Function.comp_apply]
  split
  next same => exact same.symm
  next => rfl

/-- A new name is given its entry, whichever way it is asked for. -/
theorem serve_of_fresh (request : Request) (fresh : table.find? request.symbol.name = none) :
    table.serve request = (table.append request.symbol fresh, .ok ()) := by
  cases request with
  | bind symbol => simp only [serve, bind_of_fresh table symbol fresh, Request.symbol]
  | rebind symbol => simp only [serve, rebind, bind_of_fresh table symbol fresh, Request.symbol]

theorem serve_bind_of_bound (symbol : Symbol) (bound : table.find? symbol.name = some existing) :
    table.serve (.bind symbol) = (table, .error existing) := by
  rw [serve, bind_of_bound table symbol bound]

theorem serve_rebind_of_bound (symbol : Symbol) (bound : table.find? symbol.name = some existing) :
    table.serve (.rebind symbol) = (table.replace symbol, .ok ()) := by
  rw [serve, rebind_of_bound table symbol bound]

/-- Everything that a request can do to a table: add an entry, be refused, or change an entry. -/
theorem serve_cases (table : LabelTable) (request : Request) :
    (∃ fresh, table.serve request = (table.append request.symbol fresh, .ok ())) ∨
      ∃ existing, table.find? request.name = some existing ∧
        (table.serve request = (table, .error existing) ∨
          table.serve request = (table.replace request.symbol, .ok ())) := by
  rcases Option.eq_none_or_eq_some (table.find? request.symbol.name) with fresh | ⟨existing, bound⟩
  · exact .inl ⟨fresh, serve_of_fresh request fresh⟩
  · refine .inr ⟨existing, bound, ?_⟩
    cases request with
    | bind symbol => exact .inl (serve_bind_of_bound symbol bound)
    | rebind symbol => exact .inr (serve_rebind_of_bound symbol bound)

/-- A request that is refused leaves the table as it is. -/
theorem serve_of_refused {request : Request} (refused : (table.serve request).2 = .error existing) :
    table.serve request = (table, .error existing) := by
  rcases table.serve_cases request with ⟨_, added⟩ | ⟨other, _, kept | changed⟩
  · rw [added] at refused
    cases refused
  · rw [kept] at refused ⊢
    rw [Except.error.inj refused]
  · rw [changed] at refused
    cases refused

/-- A name that is asked for is listed afterwards, at the end if it was not listed before. -/
theorem names_serve (table : LabelTable) (request : Request) :
    (table.serve request).1.names =
      if request.name ∈ table.names then table.names else table.names ++ [request.name] := by
  rcases table.serve_cases request with ⟨fresh, added⟩ | ⟨existing, bound, kept | changed⟩
  · have new : request.name ∉ table.names := not_mem_names_iff.2 fresh
    rw [added, names_append, if_neg new]
    rfl
  · rw [kept, if_pos (mem_names_iff.2 ⟨existing, bound⟩)]
  · rw [changed, names_replace, if_pos (mem_names_iff.2 ⟨existing, bound⟩)]

/-- A request that is granted gives its name the entry, and leaves every other name alone. -/
theorem find?_serve_of_granted {request : Request} (granted : (table.serve request).2 = .ok ())
    (name : String) :
    (table.serve request).1.find? name =
      if request.name = name then some request.symbol else table.find? name := by
  rcases table.serve_cases request with ⟨fresh, added⟩ | ⟨existing, bound, kept | changed⟩
  · rw [added]
    exact find?_append table request.symbol fresh name
  · rw [kept] at granted
    cases granted
  · rw [changed]
    refine (find?_replace table request.symbol name).trans ?_
    by_cases same : request.name = name
    · have found : table.find? name = some existing := same ▸ bound
      rw [found]
      rfl
    · exact (if_neg same).trans (if_neg same).symm

/-! ### Requests one after another -/

theorem after_concat (table : LabelTable) (requests : List Request) (request : Request) :
    table.after (requests ++ [request]) = ((table.after requests).serve request).1 := by
  rw [after, List.foldl_append]
  rfl

theorem granted_concat (table : LabelTable) (requests : List Request) (request : Request) :
    table.granted (requests ++ [request]) =
      table.granted requests ++
        if ((table.after requests).serve request).2.isOk then [request.symbol] else [] := by
  induction requests generalizing table with
  | nil => exact List.append_nil _
  | cons first rest ih =>
    rw [List.cons_append, granted, ih, granted, List.append_assoc]
    rfl

/-- One value more at the end of a list without repetitions is new, or it is left out. -/
theorem eraseDups_concat (values : List String) (last : String) :
    (values ++ [last]).eraseDups =
      if last ∈ values then values.eraseDups else values.eraseDups ++ [last] := by
  rw [List.eraseDups_append]
  by_cases member : last ∈ values
  · simp [List.removeAll, member]
  · simp [List.removeAll, member, List.eraseDups_cons]

/-- The names that were given an entry are listed in the order in which they first were. -/
theorem names_after (requests : List Request) :
    (empty.after requests).names =
      ((empty.granted requests).map Symbol.name).eraseDups := by
  induction requests using List.reverseRecOn with
  | nil => rfl
  | append_singleton before request ih =>
    rw [after_concat, names_serve, granted_concat, List.map_append]
    rcases answer : ((empty.after before).serve request).2 with existing | _
    · -- Only a name that is listed is refused.
      have bound : request.name ∈ (empty.after before).names := by
        by_contra new
        rw [serve_of_fresh request (not_mem_names_iff.1 new)] at answer
        cases answer
      rw [if_pos bound, ih]
      exact congrArg List.eraseDups (List.append_nil _).symm
    · have given : ((empty.granted before).map Symbol.name ++ [request.name]).eraseDups =
          if request.name ∈ (empty.after before).names then (empty.after before).names
          else (empty.after before).names ++ [request.name] := by
        rw [eraseDups_concat, ih]
        simp only [List.mem_eraseDups]
      exact given.symm

/-- A name has the last entry that it was given. -/
theorem find?_after (requests : List Request) (name : String) :
    (empty.after requests).find? name =
      (empty.granted requests).reverse.find? (·.name == name) := by
  induction requests using List.reverseRecOn with
  | nil => rfl
  | append_singleton before request ih =>
    rw [after_concat, granted_concat, List.reverse_append, List.find?_append, ← ih]
    rcases answer : ((empty.after before).serve request).2 with existing | _
    · rw [serve_of_refused answer]
      rfl
    · rw [find?_serve_of_granted answer]
      by_cases same : request.symbol.name = name
      · simp [Except.isOk, Except.toBool, Request.name, same]
      · simp [Except.isOk, Except.toBool, Request.name, same]

/-! ### The table of a history -/

/-- What it is for a table to be the map, in the order of insertion, that the requests made of a new
table have led to. -/
structure Remembers (table : LabelTable) (requests : List Request) : Prop where
  /-- No name is listed twice. -/
  names_nodup : table.names.Nodup
  /-- The names are listed in the order in which each was first given an entry. -/
  names_eq : table.names = ((empty.granted requests).map Symbol.name).eraseDups
  /-- The entry of a name is the last one that it was given, and there is none if it was given none.
  -/
  find?_eq : ∀ name, table.find? name = (empty.granted requests).reverse.find? (·.name == name)
  /-- A program with this table has the addresses of these entries. -/
  address?_eq : ∀ (program : Program) (name : String),
    ({ program with labels := table } : Program).address? name =
      ((empty.granted requests).reverse.find? (·.name == name)).map Symbol.address

/-- What it is for a table to treat an entry that is asked for as a map does. -/
structure Answers (table : LabelTable) (symbol : Symbol) : Prop where
  /-- To bind a name is refused exactly if it has an entry. -/
  refused_iff :
    (∃ existing, (table.serve (.bind symbol)).2 = .error existing) ↔ symbol.name ∈ table.names
  /-- The answer is then the entry that the name has, and the table stays as it is. -/
  refusal : ∀ existing, (table.serve (.bind symbol)).2 = .error existing →
    table.find? symbol.name = some existing ∧ (table.serve (.bind symbol)).1 = table
  /-- To bind a name again is always granted. -/
  granted : (table.serve (.rebind symbol)).2 = .ok ()
  /-- The name has the entry afterwards, and every other name the one that it had. -/
  find?_eq : ∀ name, (table.serve (.rebind symbol)).1.find? name =
    if symbol.name = name then some symbol else table.find? name
  /-- A name that has an entry keeps its place in the list, and so do all others. -/
  names_eq : (table.serve (.rebind symbol)).1.names =
    if symbol.name ∈ table.names then table.names else table.names ++ [symbol.name]

theorem remembers_after (requests : List Request) :
    (empty.after requests).Remembers requests where
  names_nodup := (empty.after requests).names_nodup
  names_eq := names_after requests
  find?_eq := find?_after requests
  address?_eq _ name := congrArg (Option.map Symbol.address) (find?_after requests name)

theorem answers (table : LabelTable) (symbol : Symbol) : table.Answers symbol where
  refused_iff := by
    rw [mem_names_iff]
    rcases bound : table.find? symbol.name with _ | existing
    · rw [serve_of_fresh (.bind symbol) bound]
      exact iff_of_false nofun nofun
    · rw [serve_bind_of_bound symbol bound]
      exact iff_of_true ⟨existing, rfl⟩ ⟨existing, rfl⟩
  refusal := by
    intro other refused
    refine ⟨?_, congrArg Prod.fst (serve_of_refused refused)⟩
    rcases bound : table.find? symbol.name with _ | existing
    · rw [serve_of_fresh (.bind symbol) bound] at refused
      cases refused
    · rw [serve_bind_of_bound symbol bound] at refused
      rw [Except.error.inj refused]
  granted := rfl
  find?_eq := find?_serve_of_granted rfl
  names_eq := names_serve table (.rebind symbol)

/-- A table remembers the requests that have been made of it since it was new, and treats the next
one as a map does. -/
theorem follows_requests (requests : List Request) :
    (empty.after requests).Remembers requests ∧
      ∀ symbol, (empty.after requests).Answers symbol :=
  ⟨remembers_after requests, answers (empty.after requests)⟩

/-- The third request is refused, and the fourth keeps the place of the name. -/
example :
    (empty.after
        [.bind ⟨"X", 0, 1⟩, .rebind ⟨"x", 1, 2⟩, .bind ⟨"X", 2, 3⟩, .rebind ⟨"X", 3, 4⟩]).toList =
      [⟨"X", 3, 4⟩, ⟨"x", 1, 2⟩] := by
  decide +kernel

end I8085.LabelTable
