/-
Module: I8085.Proofs.MultiByteShifts
Layer: Proofs
Purpose: Shifts of numbers of several bytes by one bit. A rotation through the carry, applied to one
  byte after another, takes into each byte the bit that falls out of the one before. To the left and
  from the least significant byte on this doubles the number, which is adding it to itself; to the
  right and from the most significant byte on it halves the number, which is the same read
  backwards. No flag but the carry changes on the way (`shifts_through_carry`).
Imports: I8085.Proofs.ByteLoops
Main exports: Shift, Shift.IsLeft, Shift.IsRight, Machine.step_of_rotate, Machine.Rotated,
  Machine.exists_rotations, shifts_through_carry
-/
import I8085.Proofs.ByteLoops

namespace I8085

/-- A byte of a number, before it is shifted and after. -/
structure Shift where
  before : Byte
  after : Byte
deriving Repr, DecidableEq

namespace Shift

/-- Whether a number, from the least significant byte on, has been shifted to the left with the
first carry below it. The bit that fell out at the top is the last carry. -/
structure IsLeft (shifts : List Shift) (old new : Flags) : Prop where
  number : numberOf (shifts.map after) =
    (2 * numberOf (shifts.map before) + old.carry.toNat) % 256 ^ shifts.length
  carry : new.carry =
    if shifts = [] then old.carry
    else (numberOf (shifts.map before)).testBit (8 * shifts.length - 1)
  rest : new = { old with carry := new.carry }

/-- Whether a number, from the most significant byte on, has been shifted to the right with the
first carry above it. The bit that fell out below is the last carry. -/
structure IsRight (shifts : List Shift) (old new : Flags) : Prop where
  number : numberOf (shifts.map after).reverse =
    (numberOf (shifts.map before).reverse + old.carry.toNat * 256 ^ shifts.length) / 2
  carry : new.carry =
    if shifts = [] then old.carry
    else decide (numberOf (shifts.map before).reverse % 2 = 1)
  rest : new = { old with carry := new.carry }

variable {shifts : List Shift} {carryIn carryOut : Bool}

/-- The double of a number passes what its bytes can hold exactly if its top bit is set. -/
theorem testBit_top {number size : Nat} (some : size ≠ 0) (below : number < 256 ^ size)
    (carry : Bool) :
    (256 ^ size ≤ number + number + carry.toNat) ↔ number.testBit (8 * size - 1) = true := by
  have weight : 256 ^ size = 2 ^ (8 * size - 1 + 1) := by
    rw [Nat.sub_add_cancel (by omega), Nat.pow_mul]
  have bit := carry.toNat_le
  rw [weight] at below ⊢
  constructor
  · intro passes
    apply Nat.testBit_of_two_pow_le_and_two_pow_add_one_gt _ below
    rw [Nat.pow_succ] at passes
    omega
  · intro set
    by_contra small
    rw [Nat.testBit_lt_two_pow] at set
    · cases set
    · rw [Nat.pow_succ] at small
      omega

/-- A number that is added to itself is shifted to the left. -/
theorem isLeft_of_ripples {old new : Flags}
    (ripples : Ripples 256 (·.before.toNat) (·.before.toNat) (·.after.toNat) old.carry shifts
      new.carry)
    (rest : new = { old with carry := new.carry }) : IsLeft shifts old new := by
  obtain ⟨number, carry⟩ := ripples.sum_mod (by decide) fun shift _ => shift.after.toNat_lt
  simp only [← numberOf_map] at number carry
  constructor
  case number => rwa [Nat.two_mul]
  case carry =>
    split
    next none =>
      subst none
      exact ripples.carry_of_nil
    next some =>
      have size : shifts.length ≠ 0 := fun none => some (List.eq_nil_of_length_eq_zero none)
      have below := numberOf_lt (shifts.map before)
      rw [List.length_map] at below
      rw [Bool.eq_iff_iff, carry, testBit_top size below]
  case rest => exact rest

/-- A number whose bytes, read backwards, are what comes of a number that is added to itself is that
number shifted to the right. -/
theorem isRight_of_ripples {old new : Flags}
    (ripples : Ripples 256 (·.after.toNat) (·.after.toNat) (·.before.toNat) new.carry
      shifts.reverse old.carry)
    (rest : new = { old with carry := new.carry }) : IsRight shifts old new := by
  have whole := ripples.sum_eq
  simp only [← numberOf_map, List.length_reverse] at whole
  simp only [List.map_reverse] at whole
  have bit := new.carry.toNat_le
  constructor
  case number =>
    rw [Nat.mul_comm old.carry.toNat]
    omega
  case carry =>
    split
    next none =>
      subst none
      exact ripples.carry_of_nil.symm
    next some =>
      -- The carry that comes in at the top counts for an even number.
      obtain ⟨others, size⟩ := Nat.exists_eq_succ_of_ne_zero fun none =>
        some (List.eq_nil_of_length_eq_zero none)
      rw [size, Nat.pow_succ, Nat.mul_comm (256 ^ others), Nat.mul_assoc] at whole
      generalize 256 ^ others * old.carry.toNat = above at whole
      rw [Bool.eq_iff_iff, decide_eq_true_iff]
      cases carried : new.carry with
      | false =>
        rw [carried, Bool.toNat_false] at whole
        simp only [Bool.false_eq_true, false_iff]
        omega
      | true =>
        rw [carried, Bool.toNat_true] at whole
        simp only [true_iff]
        omega
  case rest => exact rest

end Shift

namespace Instruction

/-- A rotation is the only instruction of its spelling. -/
theorem eq_rotate {instruction : Instruction} {rotation : Rotation}
    (spelt : instruction.entry = (rotate rotation).entry) : instruction = rotate rotation := by
  have narrow : instruction.flagEffect = .carry := by
    rw [← instruction.flagEffect_entry, spelt]
    cases rotation <;> rfl
  cases instruction
  case rotate other => cases other <;> cases rotation <;> first | rfl | cases spelt
  case stc | cmc => cases rotation <;> cases spelt
  case pop target => cases target <;> cases narrow
  all_goals cases narrow

end Instruction

/-! ### The instructions -/

namespace Machine

variable {m next last : Machine} {rotation : Rotation} {shift : Shift} {shifts : List Shift}

theorem step_of_rotate (running : m.cpu.halted = false)
    (cell : Opcode.cell? m.nextOpcode = some (Instruction.rotate rotation).entry) :
    m.step = (m.pastInstruction.rotate rotation, .ok true) := by
  have fetched : m.fetchStraddles (Instruction.rotate rotation).entry = false := by
    simp [fetchStraddles, Instruction.entry]
  obtain ⟨instruction, spelt, _, step⟩ := step_of_fetched running cell fetched
  rw [step, Instruction.eq_rotate spelt, Action.on_map]
  rfl

/-- What it is for a step to shift a byte: the accumulator holds it, is rotated, and is left with
the shifted byte. -/
structure Rotated (rotation : Rotation) (shift : Shift) (m next : Machine) : Prop where
  loaded : m.cpu.a = shift.before
  named : Opcode.cell? m.nextOpcode = some (Instruction.rotate rotation).entry
  stepped : m.step = (next, .ok true)
  delivered : next.cpu.a = shift.after

namespace Rotated

theorem next_eq (rotated : Rotated rotation shift m next) :
    next = m.pastInstruction.rotate rotation := by
  have step := rotated.stepped
  rw [step_of_rotate (running_of_step step) rotated.named] at step
  exact (Prod.mk.inj step).1.symm

theorem flags_eq (rotated : Rotated rotation shift m next) :
    next.cpu.flags = { m.cpu.flags with carry := next.cpu.flags.carry } := by
  rw [rotated.next_eq]
  rfl

/-- A byte that is rotated to the left is added to itself. -/
theorem left_eq (rotated : Rotated .leftThroughCarry shift m next) :
    shift.before.toNat + shift.before.toNat + m.cpu.flags.carry.toNat =
      shift.after.toNat + 256 * next.cpu.flags.carry.toNat := by
  rw [← rotated.delivered, ← rotated.loaded, rotated.next_eq]
  have below := m.cpu.a.toNat_lt
  have bit := m.cpu.flags.carry.toNat_le
  change _ = (UInt8.ofNat (2 * m.cpu.a.toNat + m.cpu.flags.carry.toNat)).toNat +
    256 * (decide (128 ≤ m.cpu.a.toNat)).toNat
  rw [UInt8.toNat_ofNat']
  by_cases top : 128 ≤ m.cpu.a.toNat
  · simp only [top, decide_true, Bool.toNat_true]
    omega
  · simp only [top, decide_false, Bool.toNat_false]
    omega

/-- A byte that is rotated to the right is what comes of one that is added to itself. -/
theorem right_eq (rotated : Rotated .rightThroughCarry shift m next) :
    shift.after.toNat + shift.after.toNat + next.cpu.flags.carry.toNat =
      shift.before.toNat + 256 * m.cpu.flags.carry.toNat := by
  rw [← rotated.delivered, ← rotated.loaded, rotated.next_eq]
  have below := m.cpu.a.toNat_lt
  have bit := m.cpu.flags.carry.toNat_le
  change (UInt8.ofNat (m.cpu.a.toNat / 2 + m.cpu.flags.carry.toNat * 128)).toNat +
    (UInt8.ofNat (m.cpu.a.toNat / 2 + m.cpu.flags.carry.toNat * 128)).toNat +
      (m.cpu.a.toNat % 2 == 1).toNat = _
  rw [UInt8.toNat_ofNat']
  by_cases odd : m.cpu.a.toNat % 2 = 1
  · simp only [odd, beq_self_eq_true, Bool.toNat_true]
    omega
  · simp only [beq_eq_false_iff_ne.2 odd, Bool.toNat_false]
    omega

end Rotated

/-- A loop of rotations changes no flag but the carry. -/
theorem flags_of_rotations (loops : m.Loops Idles (Rotated rotation) shifts last) :
    last.cpu.flags = { m.cpu.flags with carry := last.cpu.flags.carry } := by
  induction loops with
  | done idles => rw [idles.flags_eq]
  | turn idles rotated _ ih => rw [ih, rotated.flags_eq, idles.flags_eq]

/-- A running machine can be made to rotate any byte. -/
theorem exists_rotated {opcode : Byte}
    (cell : Opcode.cell? opcode = some (Instruction.rotate rotation).entry)
    (running : m.cpu.halted = false) (byte : Byte) :
    ∃ shift ready next, shift.before = byte ∧ m.Idles ready ∧ Rotated rotation shift ready next ∧
      next.cpu.halted = false := by
  obtain ⟨ready, idles, stands, loaded, memory⟩ := exists_idles running byte fun pc =>
    Memory.blank.write pc opcode
  have here : ready.nextOpcode = opcode := by
    simp [nextOpcode, memory, Memory.read_write]
  rw [← here] at cell
  exact ⟨⟨byte, _⟩, ready, _, rfl, idles, ⟨loaded, cell, step_of_rotate stands cell, rfl⟩, stands⟩

/-- A running machine can go through a loop of rotations with any number. -/
theorem exists_rotations {opcode : Byte}
    (cell : Opcode.cell? opcode = some (Instruction.rotate rotation).entry)
    (running : m.cpu.halted = false) (bytes : List Byte) :
    ∃ shifts last, shifts.map Shift.before = bytes ∧
      m.Loops Idles (Rotated rotation) shifts last :=
  exists_loops (fun _ => .stays) (fun _ byte running => exists_rotated cell running byte) running
    bytes

end Machine

/-! ### Numbers of any length -/

/-- What it is for a rotation to shift numbers byte by byte. -/
structure Shifts (rotation : Rotation) (IsShifted : List Shift → Flags → Flags → Prop) : Prop where
  /-- Before each rotation the accumulator is loaded without a change of flags. Every part of the
  loop from its beginning is such a loop as well, so this is also what the flags are on the way. -/
  loop : ∀ (m last : Machine) (shifts : List Shift),
    m.Loops Machine.Idles (Machine.Rotated rotation) shifts last →
    IsShifted shifts m.cpu.flags last.cpu.flags
  /-- A running machine can go through the loop with any number. -/
  possible : ∀ (m : Machine) (bytes : List Byte), m.cpu.halted = false →
    ∃ shifts last, shifts.map Shift.before = bytes ∧
      m.Loops Machine.Idles (Machine.Rotated rotation) shifts last

/-- The rotations through the carry shift numbers of any length by one bit, to the left from the
least significant byte on and to the right from the most significant byte on. -/
theorem shifts_through_carry :
    Shifts .leftThroughCarry Shift.IsLeft ∧ Shifts .rightThroughCarry Shift.IsRight := by
  have keeps : ∀ m ready : Machine, m.Idles ready →
      ready.cpu.flags.carry = m.cpu.flags.carry :=
    fun _ _ idles => congrArg Flags.carry idles.flags_eq
  constructor
  · constructor
    case loop =>
      intro m last shifts loops
      exact Shift.isLeft_of_ripples
        (loops.ripples keeps fun _ _ _ _ rotated => rotated.left_eq)
        (Machine.flags_of_rotations loops)
    case possible =>
      intro m bytes running
      have cell : Opcode.cell? 0x17 = some (Instruction.rotate .leftThroughCarry).entry := by
        decide +kernel
      exact Machine.exists_rotations cell running bytes
  · constructor
    case loop =>
      intro m last shifts loops
      exact Shift.isRight_of_ripples
        (loops.ripples_reverse keeps fun _ _ _ _ rotated => rotated.right_eq)
        (Machine.flags_of_rotations loops)
    case possible =>
      intro m bytes running
      have cell : Opcode.cell? 0x1F = some (Instruction.rotate .rightThroughCarry).entry := by
        decide +kernel
      exact Machine.exists_rotations cell running bytes

end I8085
