/-
Module: I8085.Proofs.ByteLoops
Layer: Proofs
Purpose: Work on numbers of several bytes, one byte after another. The digits that stand at one
  place of the numbers are a column, and a carry goes from each column to the next. If the equation
  of addition holds in every column, it holds of the numbers, whatever their length
  (`Ripples.sum_eq`). Sums, differences and shifts are all read off this one equation. A loop of the
  machine takes a turn for each column and does other work before it (`Machine.Loops`); a loop whose
  turns obey the equation has a carry that goes through its columns (`Machine.Loops.ripples`).
Imports: I8085.Proofs.FlagEffects, Mathlib.Data.Nat.Digits.Lemmas, Mathlib.Tactic.LinearCombination
Main exports: numberOf, numberOf_lt, Ripples, Ripples.concat, Ripples.sum_eq, Ripples.sum_mod,
  Ripples.difference_mod, Machine.Idles, Machine.Idles.flags_eq, Machine.exists_idles,
  Machine.Loops, Machine.Loops.forall_mem, Machine.Loops.ripples, Machine.Loops.ripples_reverse,
  Machine.exists_loops
-/
import I8085.Proofs.FlagEffects
import Mathlib.Data.Nat.Digits.Lemmas
import Mathlib.Tactic.LinearCombination

namespace I8085

/-- The number that bytes stand for, the least significant one first. -/
def numberOf (bytes : List Byte) : Nat := Nat.ofDigits 256 (bytes.map UInt8.toNat)

theorem numberOf_map {α : Type} (byte : α → Byte) (columns : List α) :
    numberOf (columns.map byte) =
      Nat.ofDigits 256 (columns.map fun column => (byte column).toNat) := by
  rw [numberOf, List.map_map]
  rfl

/-- A number is less than the power of the base that its digits can hold. -/
theorem ofDigits_map_lt {α : Type} {base : Nat} {digit : α → Nat} {columns : List α}
    (one : 1 < base) (below : ∀ column ∈ columns, digit column < base) :
    Nat.ofDigits base (columns.map digit) < base ^ columns.length := by
  have digits : ∀ value ∈ columns.map digit, value < base := by
    intro value member
    obtain ⟨column, among, rfl⟩ := List.mem_map.1 member
    exact below column among
  have bound := Nat.ofDigits_lt_base_pow_length one digits
  rwa [List.length_map] at bound

theorem numberOf_lt (bytes : List Byte) : numberOf bytes < 256 ^ bytes.length :=
  ofDigits_map_lt (by decide) fun byte _ => byte.toNat_lt

/-! ### A carry that goes through columns -/

/-- A carry that goes through columns, the least significant one first. In each of them the addends
and the carry that comes in are together the sum and as many times the base as the carry that goes
out. -/
inductive Ripples {α : Type} (base : Nat) (first second sum : α → Nat) :
    Bool → List α → Bool → Prop where
  | nil (carry : Bool) : Ripples base first second sum carry [] carry
  | cons {column : α} {columns : List α} {carryIn between carryOut : Bool}
      (adds : first column + second column + carryIn.toNat = sum column + base * between.toNat)
      (rest : Ripples base first second sum between columns carryOut) :
      Ripples base first second sum carryIn (column :: columns) carryOut

namespace Ripples

variable {α : Type} {base : Nat} {first second sum : α → Nat} {carryIn between carryOut : Bool}
  {column : α} {columns : List α}

theorem carry_of_nil (ripples : Ripples base first second sum carryIn [] carryOut) :
    carryOut = carryIn := by
  cases ripples
  rfl

/-- One more column at the most significant end. -/
theorem concat (ripples : Ripples base first second sum carryIn columns between)
    (adds : first column + second column + between.toNat = sum column + base * carryOut.toNat) :
    Ripples base first second sum carryIn (columns ++ [column]) carryOut := by
  induction ripples with
  | nil carry => exact .cons adds (.nil carryOut)
  | cons here _ ih => exact .cons here (ih adds)

/-- The equation of the columns holds of the numbers. -/
theorem sum_eq (ripples : Ripples base first second sum carryIn columns carryOut) :
    Nat.ofDigits base (columns.map first) + Nat.ofDigits base (columns.map second) +
        carryIn.toNat =
      Nat.ofDigits base (columns.map sum) + base ^ columns.length * carryOut.toNat := by
  induction ripples with
  | nil carry => simp
  | cons adds _ ih =>
    simp only [List.map_cons, Nat.ofDigits_cons, List.length_cons, pow_succ]
    linear_combination adds + base * ih

/-- The sum keeps as many digits as there are columns, and the carry tells whether that loses
something. -/
theorem sum_mod (ripples : Ripples base first second sum carryIn columns carryOut)
    (one : 1 < base) (below : ∀ column ∈ columns, sum column < base) :
    Nat.ofDigits base (columns.map sum) =
        (Nat.ofDigits base (columns.map first) + Nat.ofDigits base (columns.map second) +
          carryIn.toNat) % base ^ columns.length ∧
      (carryOut = true ↔
        base ^ columns.length ≤
          Nat.ofDigits base (columns.map first) + Nat.ofDigits base (columns.map second) +
            carryIn.toNat) := by
  have bound := ofDigits_map_lt one below
  rw [ripples.sum_eq, Nat.add_mul_mod_self_left, Nat.mod_eq_of_lt bound]
  cases carryOut <;> simp [bound]

/-- Read from the sum, the columns subtract: what is left keeps as many digits as there are columns,
and the carry tells whether the difference is negative. -/
theorem difference_mod (ripples : Ripples base first second sum carryIn columns carryOut)
    (one : 1 < base) (below : ∀ column ∈ columns, first column < base) :
    ((Nat.ofDigits base (columns.map first) : Nat) : Int) =
        (((Nat.ofDigits base (columns.map sum) : Nat) : Int) -
          (Nat.ofDigits base (columns.map second) : Nat) - carryIn.toNat) %
          (base ^ columns.length : Nat) ∧
      (carryOut = true ↔
        Nat.ofDigits base (columns.map sum) <
          Nat.ofDigits base (columns.map second) + carryIn.toNat) := by
  have bound := ofDigits_map_lt one below
  have whole := ripples.sum_eq
  generalize base ^ columns.length = weight at bound whole ⊢
  generalize Nat.ofDigits base (columns.map first) = difference at bound whole ⊢
  have wrapped : ((Nat.ofDigits base (columns.map sum) : Nat) : Int) -
      (Nat.ofDigits base (columns.map second) : Nat) - carryIn.toNat =
        difference - weight * carryOut.toNat := by
    have cast := congrArg (Nat.cast (R := Int)) whole
    simp only [Nat.cast_add, Nat.cast_mul] at cast
    linear_combination -cast
  constructor
  · rw [wrapped, Int.sub_mul_emod_self_left,
      Int.emod_eq_of_lt (Int.natCast_nonneg difference) (Int.ofNat_lt.2 bound)]
  · cases carryOut with
    | false =>
      simp only [Bool.toNat_false] at whole
      simp only [Bool.false_eq_true, false_iff]
      omega
    | true =>
      simp only [Bool.toNat_true] at whole
      simp only [true_iff]
      omega

end Ripples

namespace Machine

/-! ### Work between the turns of a loop -/

/-- Whether the instruction at the program counter changes no flag. -/
def isFlagNeutral (m : Machine) : Bool :=
  (Opcode.cell? m.nextOpcode).any (·.flagEffect = .none)

/-- What can happen to a machine without a change of flags: it executes instructions that change
none, and its holder gives it another memory. -/
inductive Idles (m : Machine) : Machine → Prop where
  | stays : Idles m m
  | executes {next last : Machine} (before : Idles m next) (neutral : next.isFlagNeutral = true)
      (stepped : next.step = (last, .ok true)) : Idles m last
  | exchanges {next : Machine} (before : Idles m next) (memory : Memory) :
      Idles m { next with memory }

variable {m ready next last : Machine}

theorem running_of_step (stepped : m.step = (next, .ok true)) : m.cpu.halted = false := by
  by_contra halted
  rw [step_of_halted (Bool.of_not_eq_false halted)] at stepped
  cases stepped

theorem flags_of_neutral_step (neutral : m.isFlagNeutral = true)
    (stepped : m.step = (next, .ok true)) : next.cpu.flags = m.cpu.flags := by
  have frames := step_flags (running_of_step stepped)
  rw [stepped] at frames
  apply frames.kept
  intro entry cell
  rw [isFlagNeutral, cell] at neutral
  exact of_decide_eq_true neutral

theorem Idles.flags_eq (idles : m.Idles ready) : ready.cpu.flags = m.cpu.flags := by
  induction idles with
  | stays => rfl
  | executes _ neutral stepped ih => exact (flags_of_neutral_step neutral stepped).trans ih
  | exchanges _ memory ih => exact ih

/-- The opcode 0x3E loads the accumulator with the byte after it. -/
theorem step_of_load (running : m.cpu.halted = false) (opcode : m.nextOpcode = 0x3E) :
    m.step =
      ({ m with cpu.a := m.memory.read (m.cpu.pc + 1), cpu.pc := m.cpu.pc + 1 + 1 }, .ok true) := by
  have cell : Opcode.cell? m.nextOpcode = some ⟨.mvi, [.register .a], .byte⟩ := by
    rw [opcode]
    decide +kernel
  have decoded : Instruction.decode m.nextOpcode = some (.needsByte (.mvi .a)) := by
    rw [opcode]
    rfl
  rw [step_of_decoded running cell decoded]
  simp [Action.fetchOperand, Action.execute, withPc, set]

/-- Idle work can load the accumulator with any byte and then leave any memory behind, which may
depend on where the program counter stands. -/
theorem exists_idles (running : m.cpu.halted = false) (value : Byte) (memory : Word → Memory) :
    ∃ ready : Machine, m.Idles ready ∧ ready.cpu.halted = false ∧ ready.cpu.a = value ∧
      ready.memory = memory ready.cpu.pc := by
  have apart : m.cpu.pc + 1 ≠ m.cpu.pc := by grind
  let loading : Machine :=
    { m with memory := (Memory.blank.write m.cpu.pc 0x3E).write (m.cpu.pc + 1) value }
  have opcode : loading.nextOpcode = 0x3E := by
    simp [loading, nextOpcode, Memory.read_write, apart]
  have operand : loading.memory.read (loading.cpu.pc + 1) = value := by
    simp [loading, Memory.read_write]
  have neutral : loading.isFlagNeutral = true := by
    rw [isFlagNeutral, opcode]
    decide +kernel
  have loaded := Idles.executes (.exchanges .stays _) neutral (step_of_load running opcode)
  exact ⟨_, .exchanges loaded (memory _), running, operand, rfl⟩

/-! ### Loops -/

variable {α β : Type} {work : Machine → Machine → Prop} {turn : α → Machine → Machine → Prop}
  {columns : List α}

/-- A loop over columns: it takes a turn for each of them. Before each turn and after the last one
there may be other work. -/
inductive Loops (work : Machine → Machine → Prop) (turn : α → Machine → Machine → Prop) :
    Machine → List α → Machine → Prop where
  | done {m last : Machine} (worked : work m last) : Loops work turn m [] last
  | turn {m ready next last : Machine} {column : α} {columns : List α} (worked : work m ready)
      (taken : turn column ready next) (rest : Loops work turn next columns last) :
      Loops work turn m (column :: columns) last

/-- What every turn brings about holds of every column of a loop. -/
theorem Loops.forall_mem {holds : α → Prop} (loops : Loops work turn m columns last)
    (each : ∀ column ∈ columns, ∀ ready next, turn column ready next → holds column) :
    ∀ column ∈ columns, holds column := by
  induction loops with
  | done _ => exact List.forall_mem_nil _
  | turn _ taken _ ih =>
    rw [List.forall_mem_cons] at each ⊢
    exact ⟨each.1 _ _ taken, ih each.2⟩

variable {base : Nat} {first second sum : α → Nat}

/-- A loop from the least significant column on carries from each column to the next, if every turn
obeys the equation of addition and the other work keeps the carry. -/
theorem Loops.ripples (loops : Loops work turn m columns last)
    (keeps : ∀ m ready, work m ready → ready.cpu.flags.carry = m.cpu.flags.carry)
    (adds : ∀ column ∈ columns, ∀ ready next, turn column ready next →
      first column + second column + ready.cpu.flags.carry.toNat =
        sum column + base * next.cpu.flags.carry.toNat) :
    Ripples base first second sum m.cpu.flags.carry columns last.cpu.flags.carry := by
  induction loops with
  | done worked =>
    rw [keeps _ _ worked]
    exact .nil _
  | turn worked taken _ ih =>
    rw [List.forall_mem_cons] at adds
    have here := adds.1 _ _ taken
    rw [keeps _ _ worked] at here
    exact .cons here (ih adds.2)

/-- A loop from the most significant column on carries backwards: what it leaves in the carry goes
into the least significant column, and what it finds there comes out of the most significant
one. -/
theorem Loops.ripples_reverse (loops : Loops work turn m columns last)
    (keeps : ∀ m ready, work m ready → ready.cpu.flags.carry = m.cpu.flags.carry)
    (adds : ∀ column ∈ columns, ∀ ready next, turn column ready next →
      first column + second column + next.cpu.flags.carry.toNat =
        sum column + base * ready.cpu.flags.carry.toNat) :
    Ripples base first second sum last.cpu.flags.carry columns.reverse m.cpu.flags.carry := by
  induction loops with
  | done worked =>
    rw [keeps _ _ worked]
    exact .nil _
  | turn worked taken _ ih =>
    rw [List.forall_mem_cons] at adds
    have here := adds.1 _ _ taken
    rw [keeps _ _ worked] at here
    rw [List.reverse_cons]
    exact (ih adds.2).concat here

/-- A running machine can go through a loop over any operands if it can always take one turn and is
running after it. -/
theorem exists_loops {operand : α → β} (idle : ∀ m, work m m)
    (possible : ∀ (m : Machine) (given : β), m.cpu.halted = false →
      ∃ column ready next, operand column = given ∧ work m ready ∧ turn column ready next ∧
        next.cpu.halted = false)
    (running : m.cpu.halted = false) (operands : List β) :
    ∃ columns last, columns.map operand = operands ∧ Loops work turn m columns last := by
  induction operands generalizing m with
  | nil => exact ⟨[], m, rfl, .done (idle m)⟩
  | cons given others ih =>
    obtain ⟨column, ready, next, same, worked, taken, stillRunning⟩ := possible m given running
    obtain ⟨columns, last, rfl, rest⟩ := ih stillRunning
    exact ⟨column :: columns, last, by rw [List.map_cons, same], .turn worked taken rest⟩

end Machine

end I8085
