/-
Module: I8085.Proofs.StackDiscipline
Layer: Proofs
Purpose: Pushes and pops that match each other like brackets leave the stack as it was. Every pop
  gives back the word of the push that it matches, the stack pointer ends where it began, and only
  the cells below it are used, as many as the nesting needs (`Machine.balanced_moves`). This holds
  modulo 65536 and down to a stack that fills the whole memory, since words are stacked at distances
  of two bytes and do not overlap before 32768 of them are open. What a machine has on its stack
  while the moves are made is a list of words (`Machine.Stacked`), on which a push and a pop act as
  on any list. The only push that fails is one that would straddle the top of memory, which does not
  happen from an even stack pointer.
Imports: I8085.Proofs.DataEffects, Mathlib.Data.List.Basic,
  Mathlib.Data.List.Induction, Mathlib.Data.List.Infix
Main exports: StackMove, StackMove.Balanced, StackMove.Nests, StackMove.opened,
  StackMove.exists_push_of_opened, Word.IsBelow, Memory.Stacks, Machine.afterMoves, Machine.Stacked,
  Machine.stacked_afterMoves, Machine.PushesSucceed, Machine.Disciplined, Machine.balanced_moves
-/
import I8085.Proofs.DataEffects
import Mathlib.Data.List.Basic
import Mathlib.Data.List.Induction
import Mathlib.Data.List.Infix

namespace I8085

/-- One use of the stack. -/
inductive StackMove where
  | push (value : Word)
  | pop
deriving Repr, DecidableEq

namespace StackMove

/-! ### Sequences of moves -/

def pushes (moves : List StackMove) : Nat := moves.countP (· ≠ pop)

def pops (moves : List StackMove) : Nat := moves.countP (· = pop)

@[simp] theorem pushes_append (before after : List StackMove) :
    pushes (before ++ after) = pushes before + pushes after := List.countP_append ..

@[simp] theorem pops_append (before after : List StackMove) :
    pops (before ++ after) = pops before + pops after := List.countP_append ..

@[simp] theorem pushes_nil : pushes [] = 0 := rfl

@[simp] theorem pops_nil : pops [] = 0 := rfl

@[simp] theorem pushes_push (value : Word) (rest : List StackMove) :
    pushes (push value :: rest) = pushes rest + 1 := by
  simp [pushes]

@[simp] theorem pops_push (value : Word) (rest : List StackMove) :
    pops (push value :: rest) = pops rest := by
  simp [pops]

@[simp] theorem pushes_pop (rest : List StackMove) : pushes (pop :: rest) = pushes rest := by
  simp [pushes]

@[simp] theorem pops_pop (rest : List StackMove) : pops (pop :: rest) = pops rest + 1 := by
  simp [pops]

/-- Whether every pop finds a word that has been pushed: no part from the beginning has more pops
than pushes. -/
def Covered (moves : List StackMove) : Prop :=
  ∀ before, before <+: moves → pops before ≤ pushes before

/-- Whether pushes and pops match like brackets. -/
structure Balanced (moves : List StackMove) : Prop where
  covered : Covered moves
  settled : pops moves = pushes moves

/-- Whether no more than a number of words are open at any time. -/
def Nests (moves : List StackMove) (depth : Nat) : Prop :=
  ∀ before, before <+: moves → pushes before ≤ pops before + depth

instance (moves : List StackMove) : Decidable (Covered moves) :=
  decidable_of_iff (∀ before ∈ moves.inits, pops before ≤ pushes before)
    (forall_congr' fun before => imp_congr_left (List.mem_inits before moves))

instance (moves : List StackMove) : Decidable (Balanced moves) :=
  decidable_of_iff (Covered moves ∧ pops moves = pushes moves)
    ⟨fun both => ⟨both.1, both.2⟩, fun balanced => ⟨balanced.covered, balanced.settled⟩⟩

instance (moves : List StackMove) (depth : Nat) : Decidable (Nests moves depth) :=
  decidable_of_iff (∀ before ∈ moves.inits, pushes before ≤ pops before + depth)
    (forall_congr' fun before => imp_congr_left (List.mem_inits before moves))

variable {moves before after : List StackMove} {value : Word} {depth : Nat}

theorem Covered.of_append (covered : Covered (before ++ after)) : Covered before :=
  fun part isPart => covered part (isPart.trans (List.prefix_append before after))

/-- Before a pop there are more pushes than pops. -/
theorem Covered.pops_lt (covered : Covered (before ++ pop :: after)) :
    pops before < pushes before := by
  have enough := covered (before ++ [pop]) ((List.prefix_append_right_inj before).2 ⟨after, rfl⟩)
  rw [pops_append, pushes_append] at enough
  exact enough

theorem Nests.of_append (nests : Nests (before ++ after) depth) : Nests before depth :=
  fun part isPart => nests part (isPart.trans (List.prefix_append before after))

/-- Before a push there is room for its word. -/
theorem Nests.pushes_lt (nests : Nests (before ++ push value :: after) depth) :
    pushes before < pops before + depth := by
  have most := nests (before ++ [push value])
    ((List.prefix_append_right_inj before).2 ⟨after, rfl⟩)
  rw [pops_append, pushes_append] at most
  exact most

theorem balanced_nil : Balanced [] where
  covered part isPart := by
    obtain rfl := List.prefix_nil.1 isPart
    exact Nat.le_refl 0
  settled := rfl

/-- One balanced sequence after another is balanced. -/
theorem Balanced.append (first : Balanced before) (second : Balanced after) :
    Balanced (before ++ after) where
  covered part isPart := by
    rcases List.prefix_or_prefix_of_prefix isPart (List.prefix_append before after) with
      inFirst | ⟨rest, rfl⟩
    · exact first.covered part inFirst
    · have beyond := second.covered rest ((List.prefix_append_right_inj before).1 isPart)
      have whole := first.settled
      rw [pops_append, pushes_append]
      omega
  settled := by
    rw [pops_append, pushes_append, first.settled, second.settled]

/-- A balanced sequence between a push and a pop is balanced. -/
theorem Balanced.bracket (inner : Balanced moves) (value : Word) :
    Balanced (push value :: moves ++ [pop]) where
  covered part isPart := by
    rcases List.prefix_or_prefix_of_prefix isPart (List.prefix_append (push value :: moves) [pop])
      with inside | ⟨rest, rfl⟩
    · rcases List.prefix_cons_iff.1 inside with rfl | ⟨others, rfl, within⟩
      · exact Nat.le_refl 0
      · have below := inner.covered others within
        rw [pops_push, pushes_push]
        omega
    · have ends := (List.prefix_append_right_inj _).1 isPart
      have one : pops rest ≤ 1 := ends.sublist.countP_le
      have whole := inner.settled
      rw [pops_append, pushes_append, pops_push, pushes_push]
      omega
  settled := by
    have whole := inner.settled
    rw [pops_append, pushes_append, pops_push, pushes_push, pops_pop, pushes_pop, pops_nil,
      pushes_nil]
    omega

/-! ### The words that are open -/

/-- What a move does to a stack of words, the last one pushed in front. -/
def applyTo (stack : List Word) : StackMove → List Word
  | push value => value :: stack
  | pop => stack.tail

/-- The words that have been pushed and not popped, the last one in front. -/
def opened (moves : List StackMove) : List Word := moves.foldl applyTo []

theorem opened_concat (moves : List StackMove) (move : StackMove) :
    opened (moves ++ [move]) = applyTo (opened moves) move := by
  rw [opened, List.foldl_append]
  rfl

/-- As many words are open as there are pushes without a pop. -/
theorem length_opened (covered : Covered moves) :
    (opened moves).length + pops moves = pushes moves := by
  induction moves using List.reverseRecOn with
  | nil => rfl
  | append_singleton before move ih =>
    have counted := ih covered.of_append
    rw [opened_concat, pops_append, pushes_append]
    cases move with
    | push value =>
      rw [applyTo, List.length_cons, pops_push, pushes_push, pops_nil, pushes_nil]
      omega
    | pop =>
      have enough := covered.pops_lt
      rw [applyTo, List.length_tail, pops_pop, pushes_pop, pops_nil, pushes_nil]
      omega

/-- A pop finds a word. -/
theorem Covered.exists_opened (covered : Covered (before ++ pop :: after)) :
    ∃ value rest, opened before = value :: rest := by
  have enough := covered.pops_lt
  have counted := length_opened covered.of_append
  apply List.exists_cons_of_length_pos
  omega

/-- The first open word is the one of the last push after which the moves are balanced. -/
theorem exists_push_of_opened (covered : Covered moves) {rest : List Word}
    (opens : opened moves = value :: rest) :
    ∃ earlier inner, moves = earlier ++ push value :: inner ∧ Balanced inner ∧
      opened earlier = rest := by
  -- Below a pop stands the word after the one that was popped, so two shorter parts are needed.
  induction counted : moves.length using Nat.strongRecOn generalizing moves value rest with
  | ind size ih =>
    subst counted
    rcases List.eq_nil_or_concat' moves with rfl | ⟨before, move, rfl⟩
    · cases opens
    · rw [opened_concat] at opens
      have fewer : before.length < (before ++ [move]).length := by simp
      cases move with
      | push other =>
        obtain ⟨rfl, rfl⟩ := List.cons.inj opens
        exact ⟨before, [], rfl, balanced_nil, rfl⟩
      | pop =>
        rw [applyTo] at opens
        obtain ⟨popped, inFront⟩ : ∃ popped, opened before = popped :: value :: rest := by
          rcases front : opened before with _ | ⟨popped, others⟩
          · rw [front] at opens
            cases opens
          · rw [front] at opens
            exact ⟨popped, by rw [← opens, List.tail_cons]⟩
        obtain ⟨middle, last, rfl, lastBalanced, inMiddle⟩ :=
          ih _ fewer covered.of_append inFront rfl
        have shorter : middle.length < (middle ++ push popped :: last ++ [pop]).length := by
          simp
        obtain ⟨earlier, inner, rfl, innerBalanced, opensEarlier⟩ :=
          ih _ shorter covered.of_append.of_append inMiddle rfl
        refine ⟨earlier, inner ++ (push popped :: last ++ [pop]), ?_,
          innerBalanced.append (lastBalanced.bracket popped), opensEarlier⟩
        simp only [List.append_assoc, List.cons_append]

end StackMove

/-! ### Words in memory -/

/-- Whether an address is among a number of cells below another address. Addresses wrap. -/
def Word.IsBelow (address start : Word) (count : Nat) : Prop :=
  ∃ distance, 1 ≤ distance ∧ distance ≤ count ∧ address = start - UInt16.ofNat distance

/-- Whether the memory holds words one after another from an address on, none of which straddles the
top of memory. Addresses wrap. -/
def Memory.Stacks (memory : Memory) : Word → List Word → Prop
  | _, [] => True
  | top, value :: rest =>
      top ≠ maxAddress ∧ memory.wordAt top = value ∧ memory.Stacks (top + 2) rest

namespace Memory

variable {memory other : Memory} {top address value : Word} {stack : List Word}

/-- Whether words are stacked depends on their own cells only. -/
theorem Stacks.congr (held : memory.Stacks top stack)
    (same : ∀ index, index < 2 * stack.length →
      other.read (top + UInt16.ofNat index) = memory.read (top + UInt16.ofNat index)) :
    other.Stacks top stack := by
  induction stack generalizing top with
  | nil => trivial
  | cons value rest ih =>
    obtain ⟨inside, here, later⟩ := held
    rw [List.length_cons] at same
    have low := same 0 (by omega)
    have high := same 1 (by omega)
    have start : top + UInt16.ofNat 0 = top := UInt16.add_zero top
    rw [start] at low
    refine ⟨inside, ?_, ih later ?_⟩
    · rw [← here, wordAt, wordAt, low]
      exact congrArg (Word.ofBytes · _) high
    · intro index less
      have place : top + 2 + UInt16.ofNat index = top + UInt16.ofNat (2 + index) := by
        rw [UInt16.ofNat_add, UInt16.add_assoc]
        rfl
      rw [place]
      exact same (2 + index) (by omega)

theorem wordAt_withWord (memory : Memory) (address value : Word) :
    (memory.withWord address value).wordAt address = value := by
  have apart : address + 1 ≠ address := by grind
  rw [wordAt, Machine.read_withWord, Machine.read_withWord, if_neg apart, if_pos rfl, if_pos rfl,
    Word.ofBytes_halves]

/-- A word can be stacked on others as long as they leave room for it. -/
theorem Stacks.push (held : memory.Stacks top stack) (room : stack.length < 32768)
    (inside : top - 2 ≠ maxAddress) (value : Word) :
    (memory.withWord (top - 2) value).Stacks (top - 2) (value :: stack) := by
  have back : top - 2 + 2 = top := UInt16.sub_add_cancel top 2
  refine ⟨inside, wordAt_withWord memory (top - 2) value, ?_⟩
  rw [back]
  apply held.congr
  intro index less
  have below := top.toNat_lt
  have first : top + UInt16.ofNat index ≠ top - 2 := by
    rw [Ne, ← UInt16.toNat_inj]
    simp only [UInt16.toNat_add, UInt16.toNat_sub, UInt16.toNat_ofNat', UInt16.reduceToNat]
    omega
  have second : top + UInt16.ofNat index ≠ top - 2 + 1 := by
    rw [Ne, ← UInt16.toNat_inj]
    simp only [UInt16.toNat_add, UInt16.toNat_sub, UInt16.toNat_ofNat', UInt16.reduceToNat]
    omega
  rw [Machine.read_withWord, if_neg first, if_neg second]

end Memory

/-! ### Moves of a machine -/

/-- The action of a move. A pop answers with a word. -/
def StackMove.action : StackMove → Action (Option Word)
  | push value => (fun _ => none) <$> Action.push value
  | pop => some <$> Action.pop

namespace Machine

/-- The machine after a number of moves, be they successful or not. -/
def afterMoves (m : Machine) (moves : List StackMove) : Machine :=
  moves.foldl (fun m move => (move.action.on m).1) m

/-- What it is for a machine to have come from another one by moves that have left words open on the
stack, never more than a number of them at a time. -/
structure Stacked (start : Machine) (depth : Nat) (m : Machine) (stack : List Word) : Prop where
  cpu_eq : m.cpu = { start.cpu with sp := start.cpu.sp - UInt16.ofNat (2 * stack.length) }
  breakpoints_eq : m.breakpoints = start.breakpoints
  held : m.memory.Stacks m.cpu.sp stack
  /-- Only cells below the stack pointer have been used. -/
  frame : ∀ address, ¬Word.IsBelow address start.cpu.sp (2 * depth) →
    m.memory.read address = start.memory.read address

variable {start m : Machine} {depth : Nat} {stack : List Word} {value : Word}
  {moves before after : List StackMove}

theorem afterMoves_concat (m : Machine) (moves : List StackMove) (move : StackMove) :
    m.afterMoves (moves ++ [move]) = (move.action.on (m.afterMoves moves)).1 := by
  rw [afterMoves, List.foldl_append]
  rfl

theorem on_push_action (m : Machine) (value : Word) :
    (StackMove.push value).action.on m =
      if m.cpu.sp - 2 = Memory.maxAddress then (m, .error .straddle)
      else
        ({ m with
            memory := m.memory.withWord (m.cpu.sp - 2) value
            cpu.sp := m.cpu.sp - 2 }, .ok none) := by
  by_cases last : m.cpu.sp - 2 = Memory.maxAddress <;> simp [StackMove.action, last]

theorem on_pop_action (m : Machine) :
    StackMove.pop.action.on m =
      if m.cpu.sp = Memory.maxAddress then (m, .error .straddle)
      else ({ m with cpu.sp := m.cpu.sp + 2 }, .ok (some (m.memory.wordAt m.cpu.sp))) := by
  by_cases last : m.cpu.sp = Memory.maxAddress <;> simp [StackMove.action, last]

theorem stacked_start (start : Machine) (depth : Nat) : Stacked start depth start [] where
  cpu_eq := by
    have same : start.cpu.sp - UInt16.ofNat (2 * 0) = start.cpu.sp := UInt16.sub_zero _
    rw [List.length_nil, same]
  breakpoints_eq := rfl
  held := trivial
  frame _ _ := rfl

/-- Two bytes further down. -/
theorem sub_ofNat_two_mul_succ (sp : Word) (count : Nat) :
    sp - UInt16.ofNat (2 * (count + 1)) = sp - UInt16.ofNat (2 * count) - 2 := by
  rw [Nat.mul_add, UInt16.ofNat_add]
  grind

/-- A push that succeeds puts its word on the stack. -/
theorem Stacked.push (stacked : Stacked start depth m stack) (room : stack.length < depth)
    (shallow : depth ≤ 32768) (inside : m.cpu.sp - 2 ≠ Memory.maxAddress) (value : Word) :
    Stacked start depth ((StackMove.push value).action.on m).1 (value :: stack) := by
  rw [on_push_action, if_neg inside]
  have sp : m.cpu.sp = start.cpu.sp - UInt16.ofNat (2 * stack.length) := by
    rw [stacked.cpu_eq]
  constructor
  case cpu_eq =>
    rw [List.length_cons, sub_ofNat_two_mul_succ, ← sp, stacked.cpu_eq]
  case breakpoints_eq => exact stacked.breakpoints_eq
  case held => exact stacked.held.push (by omega) inside value
  case frame =>
    intro address outside
    have first : address ≠ m.cpu.sp - 2 := by
      intro same
      refine outside ⟨2 * (stack.length + 1), by omega, by omega, ?_⟩
      rw [sub_ofNat_two_mul_succ, ← sp, same]
    have second : address ≠ m.cpu.sp - 2 + 1 := by
      intro same
      refine outside ⟨2 * stack.length + 1, by omega, by omega, ?_⟩
      rw [UInt16.ofNat_add, same, sp]
      grind
    simp only
    rw [read_withWord, if_neg first, if_neg second]
    exact stacked.frame address outside

/-- A pop answers with the first word of the stack and takes it away. -/
theorem Stacked.pop (stacked : Stacked start depth m (value :: stack)) :
    (StackMove.pop.action.on m).2 = .ok (some value) ∧
      Stacked start depth (StackMove.pop.action.on m).1 stack := by
  obtain ⟨inside, here, later⟩ := stacked.held
  rw [on_pop_action, if_neg inside, here]
  refine ⟨rfl, ?_⟩
  have sp : m.cpu.sp = start.cpu.sp - UInt16.ofNat (2 * (stack.length + 1)) := by
    rw [stacked.cpu_eq, List.length_cons]
  constructor
  case cpu_eq =>
    have raised : m.cpu.sp + 2 = start.cpu.sp - UInt16.ofNat (2 * stack.length) := by
      rw [sp, sub_ofNat_two_mul_succ, UInt16.sub_add_cancel]
    simp only
    rw [raised, stacked.cpu_eq]
  case breakpoints_eq => exact stacked.breakpoints_eq
  case held => exact later
  case frame => exact stacked.frame

/-- Whether no push of a sequence of moves fails. -/
def PushesSucceed (m : Machine) (moves : List StackMove) : Prop :=
  ∀ before value after, moves = before ++ .push value :: after →
    ((StackMove.push value).action.on (m.afterMoves before)).2 = .ok none

theorem PushesSucceed.of_append (succeed : m.PushesSucceed (before ++ after)) :
    m.PushesSucceed before := by
  rintro earlier value later rfl
  apply succeed earlier value (later ++ after)
  rw [List.append_assoc, List.cons_append]

/-- The stack of the machine is the list of the words that are open. -/
theorem stacked_afterMoves (covered : StackMove.Covered moves) (nests : StackMove.Nests moves depth)
    (shallow : depth ≤ 32768) (succeed : m.PushesSucceed moves) :
    Stacked m depth (m.afterMoves moves) (StackMove.opened moves) := by
  induction moves using List.reverseRecOn with
  | nil => exact stacked_start m depth
  | append_singleton before move ih =>
    have stacked := ih covered.of_append nests.of_append succeed.of_append
    rw [afterMoves_concat, StackMove.opened_concat]
    cases move with
    | push value =>
      have counted := StackMove.length_opened covered.of_append
      have room := nests.pushes_lt
      have inside : (m.afterMoves before).cpu.sp - 2 ≠ Memory.maxAddress := by
        intro straddles
        have answer := succeed before value [] rfl
        rw [on_push_action, if_pos straddles] at answer
        cases answer
      exact stacked.push (by omega) shallow inside value
    | pop =>
      obtain ⟨value, rest, front⟩ := covered.exists_opened
      rw [front] at stacked ⊢
      exact stacked.pop.2

/-! ### Even stack pointers -/

/-- A move keeps the stack pointer even. -/
theorem even_sp_action (even : m.cpu.sp.toNat % 2 = 0) (move : StackMove) :
    (move.action.on m).1.cpu.sp.toNat % 2 = 0 := by
  cases move with
  | push value =>
    rw [on_push_action]
    split
    · exact even
    · simp only [UInt16.toNat_sub, UInt16.reduceToNat]
      omega
  | pop =>
    rw [on_pop_action]
    split
    · exact even
    · simp only [UInt16.toNat_add, UInt16.reduceToNat]
      omega

theorem even_sp_afterMoves (even : m.cpu.sp.toNat % 2 = 0) (moves : List StackMove) :
    (m.afterMoves moves).cpu.sp.toNat % 2 = 0 := by
  induction moves using List.reverseRecOn with
  | nil => exact even
  | append_singleton before move ih =>
    rw [afterMoves_concat]
    exact even_sp_action ih move

/-- From an even stack pointer no push fails, since the last address is odd. -/
theorem pushesSucceed_of_even (even : m.cpu.sp.toNat % 2 = 0) (moves : List StackMove) :
    m.PushesSucceed moves := by
  intro before value after _
  have stays := even_sp_afterMoves even before
  have inside : (m.afterMoves before).cpu.sp - 2 ≠ Memory.maxAddress := by
    rw [Ne, ← UInt16.toNat_inj]
    simp only [UInt16.toNat_sub, UInt16.reduceToNat, Memory.maxAddress]
    omega
  rw [on_push_action, if_neg inside]

/-! ### Balanced moves -/

/-- What it is for moves to leave the stack as it was. -/
structure Disciplined (m : Machine) (moves : List StackMove) (depth : Nat) : Prop where
  /-- A pop succeeds with the word of the push that it matches: between both, the moves are
  balanced. -/
  pop_returns : ∀ before after, moves = before ++ .pop :: after →
    ∃ earlier value inner, before = earlier ++ .push value :: inner ∧ StackMove.Balanced inner ∧
      (StackMove.pop.action.on (m.afterMoves before)).2 = .ok (some value)
  /-- The processor, with its stack pointer, ends as it began. -/
  cpu_eq : (m.afterMoves moves).cpu = m.cpu
  breakpoints_eq : (m.afterMoves moves).breakpoints = m.breakpoints
  /-- Only cells below the stack pointer change, two for each word that is open at a time. -/
  frame : ∀ address, ¬Word.IsBelow address m.cpu.sp (2 * depth) →
    (m.afterMoves moves).memory.read address = m.memory.read address

/-- Balanced moves of which no push fails leave the stack as it was, if no more words are open at a
time than there is room for in the memory. From an even stack pointer no push fails. -/
theorem balanced_moves (m : Machine) {moves : List StackMove} {depth : Nat}
    (balanced : StackMove.Balanced moves) (nests : StackMove.Nests moves depth)
    (shallow : depth ≤ 32768) :
    (m.PushesSucceed moves → m.Disciplined moves depth) ∧
      (m.cpu.sp.toNat % 2 = 0 → m.PushesSucceed moves) := by
  refine ⟨fun succeed => ?_, fun even => pushesSucceed_of_even even moves⟩
  have stacked := stacked_afterMoves balanced.covered nests shallow succeed
  have none : StackMove.opened moves = [] := by
    have counted := StackMove.length_opened balanced.covered
    rw [balanced.settled] at counted
    exact List.eq_nil_of_length_eq_zero (by omega)
  rw [none] at stacked
  constructor
  case pop_returns =>
    rintro before after rfl
    have covered := balanced.covered.of_append
    obtain ⟨value, rest, front⟩ := balanced.covered.exists_opened
    obtain ⟨earlier, inner, split, inside, _⟩ := StackMove.exists_push_of_opened covered front
    have stacked := stacked_afterMoves covered nests.of_append shallow succeed.of_append
    rw [front] at stacked
    exact ⟨earlier, value, inner, split, inside, stacked.pop.1⟩
  case cpu_eq =>
    rw [stacked.cpu_eq]
    have same : m.cpu.sp - UInt16.ofNat (2 * 0) = m.cpu.sp := UInt16.sub_zero _
    rw [List.length_nil, same]
  case breakpoints_eq => exact stacked.breakpoints_eq
  case frame => exact stacked.frame

/-- A machine with room for one word before its stack pointer wraps. -/
def nearBottom : Machine where
  cpu := { sp := 0x0002 }

/-- The second word goes to the top of memory, and so does the third after it. -/
theorem balanced_moves_around_zero :
    nearBottom.Disciplined [.push 0x1234, .push 0x5678, .pop, .push 0x9ABC, .pop, .pop] 2 ∧
      (nearBottom.afterMoves [.push 0x1234, .push 0x5678]).cpu.sp = 0xFFFE ∧
      (nearBottom.afterMoves [.push 0x1234, .push 0x5678]).memory.read 0xFFFF = 0x56 := by
  obtain ⟨disciplined, succeed⟩ := nearBottom.balanced_moves
    (by decide : StackMove.Balanced [.push 0x1234, .push 0x5678, .pop, .push 0x9ABC, .pop, .pop])
    (by decide : StackMove.Nests _ 2) (by decide)
  exact ⟨disciplined (succeed rfl), by decide +kernel, by decide +kernel⟩

end Machine

end I8085
