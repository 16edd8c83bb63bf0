/-
Module: I8085.Proofs.MultiByteArithmetic
Layer: Proofs
Purpose: Sums and differences of numbers of several bytes. The carrying forms of addition and
  subtraction, applied to one byte after another from the least significant one on, compute the sum
  and the difference of the numbers modulo the power of 256 that their bytes can hold, and the last
  carry tells whether that loses something. This holds of the instructions, whatever the machine
  does between them as long as the carry stays, and of the arithmetic and logic unit alone
  (`sums_and_differences`).
Imports: I8085.Proofs.ByteLoops
Main exports: Column, Column.IsSum, Column.IsDifference, Machine.StepsWith,
  Machine.exists_stepsWith, Machine.Combined, Machine.exists_combinations, Alu.columns,
  sums_and_differences
-/
import I8085.Proofs.ByteLoops

namespace I8085

/-- A byte of each of two numbers, and the byte that has come of them. -/
structure Column where
  first : Byte
  second : Byte
  result : Byte
deriving Repr, DecidableEq

namespace Column

def operands (column : Column) : Byte × Byte := (column.first, column.second)

/-- Whether the results, with the last carry, are the sum of the two numbers and the first carry. -/
structure IsSum (columns : List Column) (carryIn carryOut : Bool) : Prop where
  number : numberOf (columns.map result) =
    (numberOf (columns.map first) + numberOf (columns.map second) + carryIn.toNat) %
      256 ^ columns.length
  carry : carryOut = true ↔ 256 ^ columns.length ≤
    numberOf (columns.map first) + numberOf (columns.map second) + carryIn.toNat

/-- Whether the results, with the last carry, are the difference of the two numbers, less the first
carry. -/
structure IsDifference (columns : List Column) (carryIn carryOut : Bool) : Prop where
  number : (numberOf (columns.map result) : Int) =
    ((numberOf (columns.map first) : Int) - numberOf (columns.map second) - carryIn.toNat) %
      256 ^ columns.length
  carry : carryOut = true ↔
    numberOf (columns.map first) < numberOf (columns.map second) + carryIn.toNat

variable {columns : List Column} {carryIn carryOut : Bool}

theorem isSum_of_ripples
    (ripples : Ripples 256 (·.first.toNat) (·.second.toNat) (·.result.toNat) carryIn columns
      carryOut) : IsSum columns carryIn carryOut := by
  obtain ⟨number, carry⟩ := ripples.sum_mod (by decide) fun column _ => column.result.toNat_lt
  constructor
  · simpa only [numberOf_map] using number
  · simpa only [numberOf_map] using carry

theorem isDifference_of_ripples
    (ripples : Ripples 256 (·.result.toNat) (·.second.toNat) (·.first.toNat) carryIn columns
      carryOut) : IsDifference columns carryIn carryOut := by
  obtain ⟨number, carry⟩ :=
    ripples.difference_mod (by decide) fun column _ => column.result.toNat_lt
  constructor
  · simpa only [numberOf_map, Nat.cast_pow, Nat.cast_ofNat] using number
  · simpa only [numberOf_map] using carry

end Column

/-! ### One column -/

namespace Combination

variable {a value : Nat} {carried : Bool}

/-- A sum of bytes is its result with the carry in front. -/
theorem sum_eq (withCarry : Bool) (first : a < 256) (second : value < 256) :
    a + value + carried.toNat =
      (sum withCarry).result a value carried.toNat +
        256 * ((sum withCarry).carries a value carried.toNat).toNat := by
  have bit := carried.toNat_le
  by_cases passes : 255 < a + value + carried.toNat
  · simp only [result, carries, passes, decide_true, Bool.toNat_true]
    omega
  · simp only [result, carries, passes, decide_false, Bool.toNat_false]
    omega

/-- What is left of a byte is what it takes to make up the byte again, with a borrowed 256 if there
was a borrow. -/
theorem difference_eq (withCarry : Bool) (first : a < 256) (second : value < 256) :
    (difference withCarry).result a value carried.toNat + value + carried.toNat =
      a + 256 * ((difference withCarry).carries a value carried.toNat).toNat := by
  have bit := carried.toNat_le
  by_cases borrows : a < value + carried.toNat
  · simp only [result, carries, borrows, decide_true, Bool.toNat_true]
    omega
  · simp only [result, carries, borrows, decide_false, Bool.toNat_false]
    omega

end Combination

/-! ### The instructions -/

namespace Machine

/-- What it is for a step to combine the accumulator with a value. -/
structure StepsWith (combination : Combination) (value : Byte) (m next : Machine) : Prop where
  named : ∃ entry, Opcode.cell? m.nextOpcode = some entry ∧
    entry.mnemonic.combination? = some combination ∧
    m.namedValue? entry.fieldNames = some value
  stepped : m.step = (next, .ok true)

variable {m ready next last : Machine} {combination : Combination} {value : Byte}
  {column : Column} {columns : List Column}

theorem StepsWith.combines (steps : StepsWith combination value m next) :
    m.Combines next combination value := by
  obtain ⟨entry, cell, group, named⟩ := steps.named
  obtain ⟨last, other, step, same, combines⟩ :=
    step_combines (running_of_step steps.stepped) cell group
  rw [steps.stepped] at step
  rw [named] at same
  obtain rfl := (Prod.mk.inj step).1
  obtain rfl := Option.some.inj same
  exact combines

/-- Every immediate instruction of the accumulator group combines the accumulator with the byte
after the opcode. -/
theorem exists_stepsWith {entry : Opcode.Entry} (running : m.cpu.halted = false)
    (cell : Opcode.cell? m.nextOpcode = some entry)
    (group : entry.mnemonic.combination? = some combination) (bare : entry.fields = []) :
    ∃ next, StepsWith combination (m.memory.read (m.cpu.pc + 1)) m next ∧
      next.cpu.halted = false := by
  obtain ⟨next, value, step, named, combines⟩ := step_combines running cell group
  have immediate : m.namedValue? entry.fieldNames = some (m.memory.read (m.cpu.pc + 1)) := by
    rw [Opcode.Entry.fieldNames, bare]
    rfl
  have halted : next.cpu.halted = m.cpu.halted :=
    congrArg (fun machine => machine.cpu.halted) combines.rest
  exact ⟨next, ⟨⟨entry, cell, group, immediate⟩, step⟩, halted.trans running⟩

/-- What it is for a step to work on a column: the accumulator holds the first byte, is combined
with the second one, and is left with the result. -/
structure Combined (combination : Combination) (column : Column) (m next : Machine) : Prop where
  loaded : m.cpu.a = column.first
  steps : StepsWith combination column.second m next
  delivered : next.cpu.a = column.result

theorem Combined.result_eq (combined : Combined combination column m next)
    (kept : combination ≠ .comparison) :
    column.result.toNat =
        combination.result column.first.toNat column.second.toNat
          (combination.carryIn m.cpu.flags) ∧
      next.cpu.flags.carry =
        combination.carries column.first.toNat column.second.toNat
          (combination.carryIn m.cpu.flags) := by
  have combines := combined.steps.combines
  rw [← combined.loaded, ← combined.delivered, combines.accumulator, if_neg kept]
  exact ⟨rfl, combines.flags.carry⟩

theorem Combined.sum_eq (combined : Combined (.sum true) column m next) :
    column.first.toNat + column.second.toNat + m.cpu.flags.carry.toNat =
      column.result.toNat + 256 * next.cpu.flags.carry.toNat := by
  obtain ⟨result, carry⟩ := combined.result_eq nofun
  rw [result, carry]
  exact Combination.sum_eq true column.first.toNat_lt column.second.toNat_lt

theorem Combined.difference_eq (combined : Combined (.difference true) column m next) :
    column.result.toNat + column.second.toNat + m.cpu.flags.carry.toNat =
      column.first.toNat + 256 * next.cpu.flags.carry.toNat := by
  obtain ⟨result, carry⟩ := combined.result_eq nofun
  rw [result, carry]
  exact Combination.difference_eq true column.first.toNat_lt column.second.toNat_lt

/-- Whether the carry is as it was, whatever else has happened to the machine. -/
def KeepsCarry (m ready : Machine) : Prop := ready.cpu.flags.carry = m.cpu.flags.carry

/-- A running machine can be made to work on any column with an immediate instruction. -/
theorem exists_combined {opcode : Byte} {entry : Opcode.Entry}
    (cell : Opcode.cell? opcode = some entry)
    (group : entry.mnemonic.combination? = some combination) (bare : entry.fields = [])
    (running : m.cpu.halted = false) (operands : Byte × Byte) :
    ∃ column ready next, column.operands = operands ∧ m.KeepsCarry ready ∧
      Combined combination column ready next ∧ next.cpu.halted = false := by
  have apart : m.cpu.pc + 1 ≠ m.cpu.pc := by grind
  let ready : Machine :=
    { m with
      cpu.a := operands.1
      memory := (m.memory.write m.cpu.pc opcode).write (m.cpu.pc + 1) operands.2 }
  have here : ready.nextOpcode = opcode := by
    simp [ready, nextOpcode, Memory.read_write, apart]
  have operand : ready.memory.read (ready.cpu.pc + 1) = operands.2 := by
    simp [ready, Memory.read_write]
  rw [← here] at cell
  have stands : ready.cpu.halted = false := running
  obtain ⟨next, steps, stillRunning⟩ := exists_stepsWith stands cell group bare
  rw [operand] at steps
  exact ⟨⟨operands.1, operands.2, next.cpu.a⟩, ready, next, rfl, rfl, ⟨rfl, steps, rfl⟩,
    stillRunning⟩

/-- A running machine can go through a loop of immediate instructions with any two numbers. -/
theorem exists_combinations {opcode : Byte} {entry : Opcode.Entry}
    (cell : Opcode.cell? opcode = some entry)
    (group : entry.mnemonic.combination? = some combination) (bare : entry.fields = [])
    (running : m.cpu.halted = false) (operands : List (Byte × Byte)) :
    ∃ columns last, columns.map Column.operands = operands ∧
      m.Loops KeepsCarry (Combined combination) columns last := by
  have idle (m : Machine) : m.KeepsCarry m := rfl
  exact exists_loops idle (fun _ given running => exists_combined cell group bare running given)
    running operands

end Machine

/-! ### The unit -/

namespace Alu

/-- The columns that an operation of the unit makes of pairs of bytes, each with the carry that the
one before it leaves, and the last carry. -/
def columns (operation : Byte → Byte → Bool → Result) (carry : Bool) :
    List (Byte × Byte) → List Column × Bool
  | [] => ([], carry)
  | (first, second) :: rest =>
      let result := operation first second carry
      let (later, last) := columns operation result.flags.carry rest
      (⟨first, second, result.value⟩ :: later, last)

theorem map_operands_columns (operation : Byte → Byte → Bool → Result) (carry : Bool)
    (operands : List (Byte × Byte)) :
    (columns operation carry operands).1.map Column.operands = operands := by
  induction operands generalizing carry with
  | nil => rfl
  | cons pair rest ih =>
    rw [columns, List.map_cons, ih]
    rfl

theorem ripples_columns_add (carry : Bool) (operands : List (Byte × Byte)) :
    Ripples 256 (·.first.toNat) (·.second.toNat) (·.result.toNat) carry
      (columns add carry operands).1 (columns add carry operands).2 := by
  induction operands generalizing carry with
  | nil => exact .nil carry
  | cons pair rest ih =>
    have yields := add_yields true pair.1 pair.2 carry
    refine .cons ?_ (ih _)
    rw [yields.value, yields.carry]
    exact Combination.sum_eq true pair.1.toNat_lt pair.2.toNat_lt

theorem ripples_columns_sub (borrow : Bool) (operands : List (Byte × Byte)) :
    Ripples 256 (·.result.toNat) (·.second.toNat) (·.first.toNat) borrow
      (columns sub borrow operands).1 (columns sub borrow operands).2 := by
  induction operands generalizing borrow with
  | nil => exact .nil borrow
  | cons pair rest ih =>
    have yields := sub_yields true pair.1 pair.2 borrow
    refine .cons ?_ (ih _)
    rw [yields.value, yields.carry]
    exact Combination.difference_eq true pair.1.toNat_lt pair.2.toNat_lt

end Alu

/-! ### Numbers of any length -/

/-- What it is for a combination of the accumulator group and an operation of the unit to compute a
result of numbers byte by byte, from the least significant byte on. -/
structure Computes (combination : Combination) (operation : Byte → Byte → Bool → Alu.Result)
    (IsResult : List Column → Bool → Bool → Prop) : Prop where
  /-- Each instruction of the loop finds the carry that the one before it has left. -/
  loop : ∀ (m last : Machine) (columns : List Column),
    m.Loops Machine.KeepsCarry (Machine.Combined combination) columns last →
    IsResult columns m.cpu.flags.carry last.cpu.flags.carry
  /-- A running machine can go through the loop with any two numbers. -/
  possible : ∀ (m : Machine) (operands : List (Byte × Byte)), m.cpu.halted = false →
    ∃ columns last, columns.map Column.operands = operands ∧
      m.Loops Machine.KeepsCarry (Machine.Combined combination) columns last
  unit : ∀ (carry : Bool) (operands : List (Byte × Byte)),
    (Alu.columns operation carry operands).1.map Column.operands = operands ∧
      IsResult (Alu.columns operation carry operands).1 carry
        (Alu.columns operation carry operands).2

/-- The carrying addition computes the sum of two numbers with the first carry, and the carrying
subtraction their difference less the first carry, whatever the length of the numbers. -/
theorem sums_and_differences :
    Computes (.sum true) Alu.add Column.IsSum ∧
      Computes (.difference true) Alu.sub Column.IsDifference := by
  have keeps : ∀ m ready : Machine, m.KeepsCarry ready →
      ready.cpu.flags.carry = m.cpu.flags.carry := fun _ _ => id
  constructor
  · constructor
    case loop =>
      intro m last columns loops
      apply Column.isSum_of_ripples
      exact loops.ripples keeps fun _ _ _ _ combined => combined.sum_eq
    case possible =>
      intro m operands running
      have cell : Opcode.cell? 0xCE = some ⟨.aci, [], .byte⟩ := by decide +kernel
      exact Machine.exists_combinations cell rfl rfl running operands
    case unit =>
      intro carry operands
      exact ⟨Alu.map_operands_columns Alu.add carry operands,
        Column.isSum_of_ripples (Alu.ripples_columns_add carry operands)⟩
  · constructor
    case loop =>
      intro m last columns loops
      apply Column.isDifference_of_ripples
      exact loops.ripples keeps fun _ _ _ _ combined => combined.difference_eq
    case possible =>
      intro m operands running
      have cell : Opcode.cell? 0xDE = some ⟨.sbi, [], .byte⟩ := by decide +kernel
      exact Machine.exists_combinations cell rfl rfl running operands
    case unit =>
      intro carry operands
      exact ⟨Alu.map_operands_columns Alu.sub carry operands,
        Column.isDifference_of_ripples (Alu.ripples_columns_sub carry operands)⟩

/-- Zero less one, in two bytes: the borrow goes through both. -/
example : Alu.columns Alu.sub false [(0x00, 0x01), (0x00, 0x00)] =
    ([⟨0x00, 0x01, 0xFF⟩, ⟨0x00, 0x00, 0xFF⟩], true) := by decide

end I8085
