/-
Module: I8085.Proofs.DecimalAddition
Layer: Proofs
Purpose: Decimal numbers with two digits in a byte. A binary addition of two such bytes followed by
  the decimal adjustment is the addition of their decimal values: the adjustment recovers both
  decimal carries from the binary sum and the two carries that the addition leaves
  (`Alu.decimalAdjust_sum`). So the loop of both instructions, from the least significant byte on,
  adds numbers of any length (`Machine.adds_decimally`).
Imports: I8085.Proofs.MultiByteArithmetic
Main exports: IsPackedDecimal, twoDigits, decimalOf, Alu.decimalAdjust_sum, Column.IsDecimalSum,
  Machine.AddedDecimally, Machine.adds_decimally
-/
import I8085.Proofs.MultiByteArithmetic

namespace I8085

/-- Whether both halves of a byte are decimal digits. -/
def IsPackedDecimal (b : Byte) : Prop := b.toNat % 16 ≤ 9 ∧ b.toNat / 16 ≤ 9

instance (b : Byte) : Decidable (IsPackedDecimal b) := inferInstanceAs (Decidable (_ ∧ _))

/-- The decimal number of the two halves of a byte. -/
def twoDigits (b : Nat) : Nat := b % 16 + 10 * (b / 16)

/-- The decimal number that packed bytes stand for, the least significant one first. In each byte
the lower half is the less significant digit. -/
def decimalOf (bytes : List Byte) : Nat :=
  Nat.ofDigits 10 (bytes.flatMap fun b => [b.toNat % 16, b.toNat / 16])

/-- Two decimal digits are one of base 100. -/
theorem decimalOf_map {α : Type} (byte : α → Byte) (columns : List α) :
    decimalOf (columns.map byte) =
      Nat.ofDigits 100 (columns.map fun column => twoDigits (byte column).toNat) := by
  induction columns with
  | nil => rfl
  | cons column rest ih =>
    have digits (low high : Nat) (others : List Nat) :
        Nat.ofDigits 10 (low :: high :: others) =
          low + 10 * high + 100 * Nat.ofDigits 10 others := by
      simp only [Nat.ofDigits_cons]
      omega
    rw [List.map_cons, decimalOf, List.flatMap_cons, List.map_cons, Nat.ofDigits_cons, ← ih]
    exact digits _ _ _

/-! ### The adjustment of one byte -/

namespace Alu

variable {a : Byte} {flags : Flags} {x y : Nat} {carry : Bool}

theorem toNat_value_decimalAdjust (a : Byte) (flags : Flags) :
    (decimalAdjust a flags).value.toNat =
      (a.toNat + (if (9 < a.toNat % 16 || flags.auxCarry) = true then 6 else 0) +
        (if (0x99 < a.toNat || flags.carry) = true then 96 else 0)) % 256 := by
  have correction (lower upper : Bool) :
      ((if lower then 0x06 else 0) + (if upper then 0x60 else 0) : Byte).toNat =
        (if lower = true then 6 else 0) + (if upper = true then 96 else 0) := by
    cases lower <;> cases upper <;> rfl
  rw [decimalAdjust, add, UInt8.toNat_ofNat', correction, Bool.toNat_false, Nat.add_zero,
    Nat.add_assoc]

/-- The lower digit is adjusted exactly if the sum of the lower digits passes nine. -/
theorem lower_adjusted (number : a.toNat = (x + y + carry.toNat) % 256)
    (half : flags.auxCarry = decide (15 < x % 16 + y % 16 + carry.toNat))
    (first : x % 16 ≤ 9) (second : y % 16 ≤ 9) :
    (9 < a.toNat % 16 || flags.auxCarry) = decide (9 < x % 16 + y % 16 + carry.toNat) := by
  have bit := carry.toNat_le
  rw [half, ← Bool.decide_or, decide_eq_decide]
  omega

/-- The upper digit is adjusted exactly if the decimal sum passes 99. -/
theorem upper_adjusted (number : a.toNat = (x + y + carry.toNat) % 256)
    (whole : flags.carry = decide (255 < x + y + carry.toNat))
    (first : x % 16 ≤ 9 ∧ x / 16 ≤ 9) (second : y % 16 ≤ 9 ∧ y / 16 ≤ 9) :
    (0x99 < a.toNat || flags.carry) = decide (99 < twoDigits x + twoDigits y + carry.toNat) := by
  have bit := carry.toNat_le
  rw [whole, ← Bool.decide_or, decide_eq_decide, twoDigits, twoDigits]
  omega

/-- Adjusted for decimal digits, the sum of two packed bytes and a carry is packed and has the
decimal value of the sum, with the carry in front. -/
theorem decimalAdjust_sum (number : a.toNat = (x + y + carry.toNat) % 256)
    (whole : flags.carry = decide (255 < x + y + carry.toNat))
    (half : flags.auxCarry = decide (15 < x % 16 + y % 16 + carry.toNat))
    (first : x % 16 ≤ 9 ∧ x / 16 ≤ 9) (second : y % 16 ≤ 9 ∧ y / 16 ≤ 9) :
    IsPackedDecimal (decimalAdjust a flags).value ∧
      twoDigits x + twoDigits y + carry.toNat =
        twoDigits (decimalAdjust a flags).value.toNat +
          100 * (decimalAdjust a flags).flags.carry.toNat := by
  have bit := carry.toNat_le
  have value := toNat_value_decimalAdjust a flags
  have upper := upper_adjusted number whole first second
  rw [lower_adjusted number half first.1 second.1, upper] at value
  have adjusted : (decimalAdjust a flags).flags.carry =
      decide (99 < twoDigits x + twoDigits y + carry.toNat) := upper
  rw [adjusted, IsPackedDecimal]
  simp only [twoDigits] at value ⊢
  generalize (decimalAdjust a flags).value.toNat = result at value ⊢
  -- one case for each of the two digits, which are adjusted or not
  by_cases low : 9 < x % 16 + y % 16 + carry.toNat <;>
    by_cases high : 99 < x % 16 + 10 * (x / 16) + (y % 16 + 10 * (y / 16)) + carry.toNat <;>
    simp only [low, high, decide_true, decide_false, if_true, if_false, Bool.toNat_true,
      Bool.toNat_false, Bool.false_eq_true] at value ⊢ <;>
    omega

end Alu

namespace Column

/-- Whether the results, with the last carry, are the decimal sum of the two numbers, of two digits
for each byte. -/
structure IsDecimalSum (columns : List Column) (carryOut : Bool) : Prop where
  packed : ∀ column ∈ columns, IsPackedDecimal column.result
  number : decimalOf (columns.map result) =
    (decimalOf (columns.map first) + decimalOf (columns.map second)) % 10 ^ (2 * columns.length)
  carry : carryOut = true ↔
    10 ^ (2 * columns.length) ≤ decimalOf (columns.map first) + decimalOf (columns.map second)

theorem twoDigits_lt {b : Byte} (packed : IsPackedDecimal b) : twoDigits b.toNat < 100 := by
  obtain ⟨low, high⟩ := packed
  rw [twoDigits]
  omega

theorem isDecimalSum_of_ripples {columns : List Column} {carryOut : Bool}
    (packed : ∀ column ∈ columns, IsPackedDecimal column.result)
    (ripples : Ripples 100 (fun column => twoDigits column.first.toNat)
      (fun column => twoDigits column.second.toNat) (fun column => twoDigits column.result.toNat)
      false columns carryOut) : IsDecimalSum columns carryOut := by
  obtain ⟨number, carry⟩ := ripples.sum_mod (by decide) fun column member =>
    twoDigits_lt (packed column member)
  have weight : 10 ^ (2 * columns.length) = 100 ^ columns.length := Nat.pow_mul 10 2 _
  refine ⟨packed, ?_, ?_⟩
  · simpa only [decimalOf_map, weight, Bool.toNat_false, Nat.add_zero] using number
  · simpa only [decimalOf_map, weight, Bool.toNat_false, Nat.add_zero] using carry

end Column

/-! ### The loop -/

namespace Machine

variable {m next last : Machine} {column : Column} {columns : List Column}

theorem step_of_daa (running : m.cpu.halted = false)
    (cell : Opcode.cell? m.nextOpcode = some Instruction.daa.entry) :
    m.step = (m.pastInstruction.adjust, .ok true) := by
  have fetched : m.fetchStraddles Instruction.daa.entry = false := by
    simp [fetchStraddles, Instruction.entry]
  obtain ⟨instruction, spelt, _, step⟩ := step_of_fetched running cell fetched
  have adjusts : instruction.flagEffect = .adjusts := by
    rw [← instruction.flagEffect_entry, spelt]
    rfl
  obtain rfl := Instruction.eq_daa adjusts
  rw [step, Action.on_map]
  rfl

/-- What it is for two steps to add a column decimally: the accumulator holds the first byte, the
second one is added with the carry, the sum is adjusted, and the result is left. -/
structure AddedDecimally (column : Column) (m next : Machine) : Prop where
  loaded : m.cpu.a = column.first
  steps : ∃ between, StepsWith (.sum true) column.second m between ∧
    Opcode.cell? between.nextOpcode = some Instruction.daa.entry ∧
    between.step = (next, .ok true)
  delivered : next.cpu.a = column.result

theorem AddedDecimally.sum_eq (added : AddedDecimally column m next)
    (first : IsPackedDecimal column.first) (second : IsPackedDecimal column.second) :
    IsPackedDecimal column.result ∧
      twoDigits column.first.toNat + twoDigits column.second.toNat + m.cpu.flags.carry.toNat =
        twoDigits column.result.toNat + 100 * next.cpu.flags.carry.toNat := by
  obtain ⟨between, steps, cell, stepped⟩ := added.steps
  have combines := steps.combines
  have number := combines.accumulator
  rw [step_of_daa (running_of_step stepped) cell] at stepped
  obtain rfl := (Prod.mk.inj stepped).1
  rw [← added.delivered, ← added.loaded]
  rw [← added.loaded] at first
  exact Alu.decimalAdjust_sum number combines.flags.carry combines.flags.auxCarry first second

/-- Two steps of a running machine that finds the opcodes 0xCE and 0x27, with a byte between them,
add this byte decimally. -/
theorem addedDecimally_of_opcodes (running : m.cpu.halted = false) (opcode : m.nextOpcode = 0xCE)
    (adjusting : m.memory.read (m.cpu.pc + 2) = 0x27) :
    AddedDecimally
        ⟨m.cpu.a, m.memory.read (m.cpu.pc + 1), m.step.1.step.1.cpu.a⟩ m m.step.1.step.1 ∧
      m.step.1.step.1.cpu.halted = false := by
  have aci : Opcode.cell? m.nextOpcode = some ⟨.aci, [], .byte⟩ := by
    rw [opcode]
    decide +kernel
  obtain ⟨between, steps, stillRunning⟩ := exists_stepsWith running aci rfl rfl
  have next : between.nextOpcode = 0x27 := by
    have pc : between.cpu.pc = m.following :=
      congrArg (fun machine => machine.cpu.pc) steps.combines.rest
    have kept : between.memory = m.memory :=
      congrArg (fun machine => machine.memory) steps.combines.rest
    have size : UInt16.ofNat (Opcode.size 0xCE) = 2 := by decide +kernel
    rw [following, opcode, size] at pc
    rw [nextOpcode, pc, kept, adjusting]
  have daa : Opcode.cell? between.nextOpcode = some Instruction.daa.entry := by
    rw [next]
    decide +kernel
  have adjusted := step_of_daa stillRunning daa
  rw [steps.stepped, adjusted]
  exact ⟨⟨rfl, ⟨between, steps, daa, adjusted⟩, rfl⟩, stillRunning⟩

/-- A running machine can be made to add any column decimally. -/
theorem exists_addedDecimally (running : m.cpu.halted = false) (operands : Byte × Byte) :
    ∃ column ready next, column.operands = operands ∧ m.Idles ready ∧
      AddedDecimally column ready next ∧ next.cpu.halted = false := by
  obtain ⟨ready, idles, stands, loaded, memory⟩ := exists_idles running operands.1 fun pc =>
    ((Memory.blank.write pc 0xCE).write (pc + 1) operands.2).write (pc + 2) 0x27
  have apart : ready.cpu.pc + 1 ≠ ready.cpu.pc ∧ ready.cpu.pc + 2 ≠ ready.cpu.pc ∧
      ready.cpu.pc + 2 ≠ ready.cpu.pc + 1 := by grind
  have opcode : ready.nextOpcode = 0xCE := by
    simp [nextOpcode, memory, Memory.read_write, apart]
  have operand : ready.memory.read (ready.cpu.pc + 1) = operands.2 := by
    simp [memory, Memory.read_write, apart]
  have adjusting : ready.memory.read (ready.cpu.pc + 2) = 0x27 := by
    simp [memory, Memory.read_write]
  obtain ⟨added, stillRunning⟩ := addedDecimally_of_opcodes stands opcode adjusting
  rw [loaded, operand] at added
  exact ⟨_, ready, _, rfl, idles, added, stillRunning⟩

/-- Adding two packed decimal numbers byte by byte, from the least significant byte on and with a
clear carry at first, leaves the packed digits of their sum, and a carry exactly if the sum has more
digits than there is room for. Before each addition the accumulator is loaded without a change of
flags; a running machine can do so with any two numbers. -/
theorem adds_decimally (clear : m.cpu.flags.carry = false) :
    (∀ columns last,
        (∀ column ∈ columns, IsPackedDecimal column.first ∧ IsPackedDecimal column.second) →
        m.Loops Idles AddedDecimally columns last →
        Column.IsDecimalSum columns last.cpu.flags.carry) ∧
      (m.cpu.halted = false → ∀ operands : List (Byte × Byte),
        ∃ columns last, columns.map Column.operands = operands ∧
          m.Loops Idles AddedDecimally columns last) := by
  constructor
  · intro columns last packed loops
    have adds : ∀ column ∈ columns, ∀ ready next, AddedDecimally column ready next → _ :=
      fun column member ready next added =>
        added.sum_eq (packed column member).1 (packed column member).2
    apply Column.isDecimalSum_of_ripples
    · exact loops.forall_mem fun column member ready next added =>
        (adds column member ready next added).1
    · rw [← clear]
      exact loops.ripples (fun _ _ idles => congrArg Flags.carry idles.flags_eq)
        fun column member ready next added => (adds column member ready next added).2
  · intro running operands
    exact exists_loops (fun _ => .stays)
      (fun _ given running => exists_addedDecimally running given) running operands

/-- A machine that is about to add 67 to 9958: it loads the accumulator with each byte of the one
number, adds the byte of the other one and adjusts. -/
def addingDecimals : Machine where
  memory := Memory.blank.writeAll 0x8000
    [0x3E, 0x58, 0xCE, 0x67, 0x27, 0x3E, 0x99, 0xCE, 0x00, 0x27]

/-- The sum 10025 has a digit more than there is room for. -/
theorem adds_decimally_past_room :
    ∃ last,
      addingDecimals.Loops Idles AddedDecimally
        [⟨0x58, 0x67, 0x25⟩, ⟨0x99, 0x00, 0x00⟩] last ∧
      decimalOf [0x25, 0x00] = (decimalOf [0x58, 0x99] + decimalOf [0x67, 0x00]) % 10 ^ 4 ∧
      last.cpu.flags.carry = true := by
  let first := addingDecimals.step.1
  let second := first.step.1.step.1
  let third := second.step.1
  have lower : addingDecimals.Idles first :=
    .executes .stays (by decide +kernel) (Prod.ext rfl (by decide +kernel))
  have addLower : AddedDecimally _ first second :=
    (addedDecimally_of_opcodes (by decide +kernel) (by decide +kernel) (by decide +kernel)).1
  have upper : second.Idles third :=
    .executes .stays (by decide +kernel) (Prod.ext rfl (by decide +kernel))
  have addUpper : AddedDecimally _ third third.step.1.step.1 :=
    (addedDecimally_of_opcodes (by decide +kernel) (by decide +kernel) (by decide +kernel)).1
  have loops := Loops.turn lower addLower (.turn upper addUpper (.done .stays))
  have columns : [Column.mk first.cpu.a (first.memory.read (first.cpu.pc + 1)) second.cpu.a,
      ⟨third.cpu.a, third.memory.read (third.cpu.pc + 1), third.step.1.step.1.cpu.a⟩] =
      [⟨0x58, 0x67, 0x25⟩, ⟨0x99, 0x00, 0x00⟩] := by
    decide +kernel
  rw [columns] at loops
  have sum := (adds_decimally rfl).1 _ _ (by decide) loops
  exact ⟨_, loops, sum.number, sum.carry.2 (by decide)⟩

end Machine

end I8085
