/-
Module: I8085.Proofs.FlagEffects
Layer: Proofs
Purpose: Which flags a step changes. What an instruction does with the flags is read off its chart
  entry: most instructions leave all five alone, some touch the carry only, counting keeps the carry,
  and popping the processor status word takes all five from a byte of the stack. A step, which copies
  flags as a whole in some instructions and sets one of them in others, does to them what the entry
  says and nothing more, whether it succeeds or fails (`Machine.step_flags`).
Imports: I8085.Proofs.AccumulatorGroup
Main exports: FlagEffect, Opcode.Entry.flagEffect, Flags.Counted, Machine.FramesFlags,
  Instruction.flagEffect_entry, Machine.flags_completed, Machine.step_flags
-/
import I8085.Proofs.AccumulatorGroup

namespace I8085

/-! ### What a chart entry says about the flags -/

/-- What an instruction does with the flags. -/
inductive FlagEffect where
  /-- It changes none. -/
  | none
  /-- It sets all five from what the arithmetic and logic unit delivers. -/
  | all
  /-- It sets all five, after a decimal addition. -/
  | adjusts
  /-- It changes no flag but carry. -/
  | carry
  /-- It changes no flag but carry, which tells whether a sum of words passes 65535. -/
  | wideSum
  /-- It sets all but carry. Auxiliary carry tells whether the lower nibble was `limit`, from where it
  wraps. -/
  | counts (limit : Nat)
  /-- It takes all five from the byte on top of the stack. -/
  | loads
deriving Repr, DecidableEq

/-- What the instruction with an entry does with the flags. -/
def Opcode.Entry.flagEffect (entry : Entry) : FlagEffect :=
  match entry.mnemonic with
  | .inr => .counts 15
  | .dcr => .counts 0
  | .dad => .wideSum
  | .daa => .adjusts
  | .rlc | .rrc | .ral | .rar | .stc | .cmc => .carry
  | .pop => if entry.fields = [.pair .psw] then .loads else .none
  | mnemonic => if mnemonic.combination?.isSome then .all else .none

namespace Flags

/-- What it is for flags to be those after a value has been counted to a new one. -/
structure Counted (before after : Flags) (limit : Nat) (old new : Byte) : Prop where
  carry : after.carry = before.carry
  sign : after.sign = true ↔ 128 ≤ new.toNat
  zero : after.zero = true ↔ new = 0
  /-- The number of one bits is even. -/
  parity : after.parity = true ↔ Even (Nat.digits 2 new.toNat).sum
  auxCarry : after.auxCarry = true ↔ old.toNat % 16 = limit

end Flags

namespace Machine

/-- What it is for a step to do to the flags what the entry of the opcode says. An opcode without an
entry says nothing about them. -/
structure FramesFlags (m next : Machine) (answer : Except Fault Bool) : Prop where
  kept : (∀ entry, Opcode.cell? m.nextOpcode = some entry → entry.flagEffect = .none) →
    next.cpu.flags = m.cpu.flags
  carry_only : ∀ entry, Opcode.cell? m.nextOpcode = some entry →
    entry.flagEffect = .carry ∨ entry.flagEffect = .wideSum →
    next.cpu.flags = { m.cpu.flags with carry := next.cpu.flags.carry }
  /-- The carry out of the sum of HL and the pair that is named. -/
  sum : ∀ entry, Opcode.cell? m.nextOpcode = some entry → entry.flagEffect = .wideSum →
    ∃ source, entry.fields = [.pair source] ∧
      (next.cpu.flags.carry = true ↔
        65536 ≤ (m.contents.word .hl).toNat + (m.contents.word source).toNat)
  /-- The flags describe what the place that is named holds now. -/
  counted : ∀ entry limit, Opcode.cell? m.nextOpcode = some entry →
    entry.flagEffect = .counts limit →
    ∃ target, entry.fields = [.register target] ∧
      m.cpu.flags.Counted next.cpu.flags limit (m.contents.byte (m.contents.place target))
        (next.contents.byte (m.contents.place target))
  adjusted : ∀ entry, Opcode.cell? m.nextOpcode = some entry → entry.flagEffect = .adjusts →
    m.cpu.flags.carry = true → next.cpu.flags.carry = true
  loaded : ∀ entry proceeded, Opcode.cell? m.nextOpcode = some entry →
    entry.flagEffect = .loads → answer = .ok proceeded →
    next.cpu.flags = .ofBits (m.memory.read m.cpu.sp)
  failed : ∀ fault, answer = .error fault → next.cpu.flags = m.cpu.flags

end Machine

/-! ### Instructions -/

/-- What an instruction does with the flags. -/
def Instruction.flagEffect : Instruction → FlagEffect
  | accumulate .. => .all
  | daa => .adjusts
  | rotate _ | stc | cmc => .carry
  | dad _ => .wideSum
  | inr _ => .counts 15
  | dcr _ => .counts 0
  | pop .psw => .loads
  | _ => .none

/-- The entry of an instruction says what it does with the flags. -/
theorem Instruction.flagEffect_entry (instruction : Instruction) :
    instruction.entry.flagEffect = instruction.flagEffect := by
  cases instruction
  case accumulate operation source => cases source <;> cases operation <;> rfl
  case rotate rotation => cases rotation <;> rfl
  case jump condition target =>
    rcases condition with _ | condition
    · rfl
    · cases condition <;> rfl
  case call condition target =>
    rcases condition with _ | condition
    · rfl
    · cases condition <;> rfl
  case ret condition =>
    rcases condition with _ | condition
    · rfl
    · cases condition <;> rfl
  case pop target => cases target <;> rfl
  all_goals rfl

namespace Instruction

variable {instruction : Instruction}

theorem eq_dad (sums : instruction.flagEffect = .wideSum) : ∃ source, instruction = dad source := by
  cases instruction
  case dad source => exact ⟨source, rfl⟩
  case pop target => cases target <;> cases sums
  all_goals cases sums

theorem eq_count {limit : Nat} (counts : instruction.flagEffect = .counts limit) :
    (∃ target, instruction = inr target ∧ limit = 15) ∨
      (∃ target, instruction = dcr target ∧ limit = 0) := by
  cases instruction
  case inr target =>
    cases counts
    exact .inl ⟨target, rfl, rfl⟩
  case dcr target =>
    cases counts
    exact .inr ⟨target, rfl, rfl⟩
  case pop target => cases target <;> cases counts
  all_goals cases counts

theorem eq_daa (adjusts : instruction.flagEffect = .adjusts) : instruction = daa := by
  cases instruction
  case daa => rfl
  case pop target => cases target <;> cases adjusts
  all_goals cases adjusts

theorem eq_pop_psw (loads : instruction.flagEffect = .loads) : instruction = pop .psw := by
  cases instruction
  case pop target =>
    cases target
    case psw => rfl
    all_goals cases loads
  all_goals cases loads

end Instruction

/-- Only PUSH and POP name the processor status word. -/
theorem Opcode.ne_psw_of_cell {opcode : Byte} {entry : Entry} {pair : RegisterPair}
    (cell : cell? opcode = some entry) (named : entry.fields = [.pair pair])
    (apart : entry.mnemonic ≠ .push ∧ entry.mnemonic ≠ .pop) : pair ≠ .psw := by
  have each : ∀ code : Fin 256, ∀ entry ∈ cell? (UInt8.ofNat code),
      entry.fields = [.pair .psw] → entry.mnemonic = .push ∨ entry.mnemonic = .pop := by
    decide +kernel
  rintro rfl
  rcases each opcode.toFin entry (by simpa using cell) named with push | pop
  · exact apart.1 push
  · exact apart.2 pop

/-- An instruction that computes flags reaches no word of memory. -/
theorem Opcode.nowhere_of_flagEffect {opcode : Byte} {entry : Entry}
    (cell : cell? opcode = some entry) (sets : entry.flagEffect ≠ .none)
    (apart : entry.flagEffect ≠ .loads) :
    entry.operand ≠ .word ∧ entry.mnemonic.wordAccess = .nowhere := by
  have each : ∀ code : Fin 256, ∀ entry ∈ cell? (UInt8.ofNat code),
      entry.flagEffect ≠ .none → entry.flagEffect ≠ .loads →
        entry.operand ≠ .word ∧ entry.mnemonic.wordAccess = .nowhere := by
    decide +kernel
  exact each opcode.toFin entry (by simpa using cell) sets apart

/-- The flags that the arithmetic and logic unit delivers with a value, except for carry, are those
after counting to that value. -/
theorem Flags.counted_of_result {before : Flags} {limit : Nat} {old : Byte} {result : Alu.Result}
    (shown : result.flags =
      { ofResult result.value with
        auxCarry := result.flags.auxCarry
        carry := result.flags.carry })
    (auxCarry : result.flags.auxCarry = true ↔ old.toNat % 16 = limit) :
    before.Counted { result.flags with carry := before.carry } limit old result.value where
  carry := rfl
  sign := by
    rw [shown, ofResult, decide_eq_true_iff]
  zero := by
    rw [shown, ofResult, beq_iff_eq]
  parity := by
    rw [shown]
    exact evenParity_iff result.value
  auxCarry := auxCarry

namespace Machine

variable {m : Machine}

theorem flags_set (m : Machine) (register : Register) (value : Byte) :
    (m.set register value).cpu.flags = m.cpu.flags := by
  cases register <;> rfl

theorem flags_setPair {pair : RegisterPair} (apart : pair ≠ .psw) (m : Machine) (value : Word) :
    (m.setPair pair value).cpu.flags = m.cpu.flags := by
  cases pair
  case psw => exact absurd rfl apart
  all_goals rfl

/-- An instruction of the chart that is said to change no flag leaves them all as they were. -/
theorem flags_completed (m : Machine) {opcode : Byte} {instruction : Instruction}
    (cell : Opcode.cell? opcode = some instruction.entry)
    (quiet : instruction.flagEffect = .none) :
    (m.completed instruction).cpu.flags = m.cpu.flags := by
  cases instruction
  case mov target source => exact flags_set m target _
  case mvi target value => exact flags_set m target value
  case lxi target value => exact flags_setPair (Opcode.ne_psw_of_cell cell rfl ⟨nofun, nofun⟩) m value
  case inx target => exact flags_setPair (Opcode.ne_psw_of_cell cell rfl ⟨nofun, nofun⟩) m _
  case dcx target => exact flags_setPair (Opcode.ne_psw_of_cell cell rfl ⟨nofun, nofun⟩) m _
  case pop target =>
    have apart : target ≠ .psw := by
      rintro rfl
      cases quiet
    exact flags_setPair apart _ _
  case jump condition target =>
    rw [completed]
    split <;> rfl
  case call condition target =>
    rw [completed]
    split <;> rfl
  case ret condition =>
    rw [completed]
    split <;> rfl
  case accumulate | daa | rotate | stc | cmc | dad | inr | dcr => cases quiet
  all_goals rfl

/-- An instruction that is said to change the carry only changes no other flag. -/
theorem flags_completed_of_carry (m : Machine) {instruction : Instruction}
    (narrow : instruction.flagEffect = .carry ∨ instruction.flagEffect = .wideSum) :
    (m.completed instruction).cpu.flags =
      { m.cpu.flags with carry := (m.completed instruction).cpu.flags.carry } := by
  cases instruction
  case rotate | stc | cmc | dad => rfl
  case pop target => cases target <;> rcases narrow with same | same <;> cases same
  all_goals rcases narrow with same | same <;> cases same

/-- The carry after adding a word to HL is the one out of the whole sum. -/
theorem carry_addToHL (m : Machine) (source : RegisterPair) :
    (m.completed (.dad source)).cpu.flags.carry = true ↔
      65536 ≤ (m.contents.word .hl).toNat + (m.contents.word source).toNat := by
  rw [← pair_eq_word, ← pair_eq_word]
  exact decide_eq_true_iff.trans Nat.lt_iff_add_one_le

/-- The place to which a value has been counted holds it. -/
theorem byte_count (m : Machine) (target : Register) (result : Alu.Result) :
    (m.count target result).contents.byte (m.contents.place target) = result.value := by
  rw [(m.count_shows target result).byte]
  simp [Contents.after, Changes.put]

theorem counted_up (m : Machine) (target : Register) :
    m.cpu.flags.Counted (m.completed (.inr target)).cpu.flags 15
      (m.contents.byte (m.contents.place target))
      ((m.completed (.inr target)).contents.byte (m.contents.place target)) := by
  have half : (Alu.add (m.get target) 1 false).flags.auxCarry = true ↔
      (m.get target).toNat % 16 = 15 := by
    have wraps : 15 < (m.get target).toNat % 16 + 1 ↔ (m.get target).toNat % 16 = 15 := by omega
    exact decide_eq_true_iff.trans wraps
  rw [completed, byte_count, ← get_eq_byte]
  exact Flags.counted_of_result rfl half

theorem counted_down (m : Machine) (target : Register) :
    m.cpu.flags.Counted (m.completed (.dcr target)).cpu.flags 0
      (m.contents.byte (m.contents.place target))
      ((m.completed (.dcr target)).contents.byte (m.contents.place target)) := by
  have half : (Alu.sub (m.get target) 1 false).flags.auxCarry = true ↔
      (m.get target).toNat % 16 = 0 := by
    have wraps : (m.get target).toNat % 16 < 1 ↔ (m.get target).toNat % 16 = 0 := by omega
    exact decide_eq_true_iff.trans wraps
  rw [completed, byte_count, ← get_eq_byte]
  exact Flags.counted_of_result rfl half

/-- Decimal adjustment never clears the carry. -/
theorem carry_adjust (set : m.cpu.flags.carry = true) : m.adjust.cpu.flags.carry = true := by
  simp [adjust, Alu.decimalAdjust, set]

/-! ### Steps -/

/-- An instruction that may fail sets no flags, or takes them from the stack. -/
theorem flagEffect_of_failed {entry : Opcode.Entry} {fault : Fault}
    (running : m.cpu.halted = false) (cell : Opcode.cell? m.nextOpcode = some entry)
    (failed : m.step.2 = .error fault) : entry.flagEffect = .none ∨ entry.flagEffect = .loads := by
  by_contra computes
  rw [not_or] at computes
  obtain ⟨short, nowhere⟩ := Opcode.nowhere_of_flagEffect cell computes.1 computes.2
  have fetched : m.fetchStraddles entry = false := by simp [fetchStraddles, short]
  have reachable : m.accessStraddles entry = false := by simp [accessStraddles, nowhere]
  rw [answer_step_of_reachable running cell fetched reachable] at failed
  cases failed

theorem framesFlags_of_failed {address : Word} {fault : Fault} (running : m.cpu.halted = false)
    (failed : m.step = (m.withPc address, .error fault)) :
    m.FramesFlags (m.withPc address) (.error fault) := by
  have effect {entry : Opcode.Entry} (cell : Opcode.cell? m.nextOpcode = some entry) :=
    flagEffect_of_failed running cell (congrArg Prod.snd failed)
  constructor
  case kept => exact fun _ => rfl
  case carry_only => exact fun _ _ _ => rfl
  case sum =>
    intro entry cell sums
    rcases effect cell with same | same <;> rw [same] at sums <;> cases sums
  case counted =>
    intro entry limit cell counts
    rcases effect cell with same | same <;> rw [same] at counts <;> cases counts
  case adjusted => exact fun _ _ _ => id
  case loaded => exact fun _ _ _ _ succeeded => nomatch succeeded
  case failed => exact fun _ _ => rfl

theorem framesFlags_of_completed {instruction : Instruction}
    (cell : Opcode.cell? m.nextOpcode = some instruction.entry) :
    m.FramesFlags (m.pastInstruction.completed instruction) (.ok true) := by
  have effect {entry : Opcode.Entry} (charted : Opcode.cell? m.nextOpcode = some entry) :
      entry = instruction.entry ∧ entry.flagEffect = instruction.flagEffect := by
    obtain rfl := Option.some.inj (cell.symm.trans charted)
    exact ⟨rfl, instruction.flagEffect_entry⟩
  constructor
  case kept =>
    intro quiet
    apply flags_completed m.pastInstruction cell
    rw [← instruction.flagEffect_entry]
    exact quiet _ cell
  case carry_only =>
    intro entry charted narrow
    rw [(effect charted).2] at narrow
    exact m.pastInstruction.flags_completed_of_carry narrow
  case sum =>
    intro entry charted sums
    rw [(effect charted).2] at sums
    obtain ⟨source, rfl⟩ := Instruction.eq_dad sums
    exact ⟨source, (effect charted).1 ▸ rfl, m.pastInstruction.carry_addToHL source⟩
  case counted =>
    intro entry limit charted counts
    rw [(effect charted).2] at counts
    rcases Instruction.eq_count counts with ⟨target, rfl, rfl⟩ | ⟨target, rfl, rfl⟩
    · exact ⟨target, (effect charted).1 ▸ rfl, m.pastInstruction.counted_up target⟩
    · exact ⟨target, (effect charted).1 ▸ rfl, m.pastInstruction.counted_down target⟩
  case adjusted =>
    intro entry charted adjusts set
    rw [(effect charted).2] at adjusts
    obtain rfl := Instruction.eq_daa adjusts
    exact carry_adjust set
  case loaded =>
    intro entry proceeded charted loads _
    rw [(effect charted).2] at loads
    obtain rfl := Instruction.eq_pop_psw loads
    rw [← Flags.ofByte_eq_ofBits]
    change Flags.ofByte (Word.low (Word.ofBytes _ (m.memory.read m.cpu.sp))) = _
    rw [Word.low_ofBytes]
  case failed => exact fun _ failed => nomatch failed

/-- A step of a running machine, whether it succeeds or fails, does to the flags what the chart entry
of the opcode says. No flag changes at any other opcode, nor in a step that fails. -/
theorem step_flags (running : m.cpu.halted = false) : m.FramesFlags m.step.1 m.step.2 := by
  rcases m.step_cases with ⟨halted, _⟩ | ⟨_, address, fault, step⟩ | ⟨_, instruction, cell, _, step⟩
  · rw [running] at halted
    cases halted
  · rw [step]
    exact framesFlags_of_failed running step
  · rw [step]
    exact framesFlags_of_completed cell

/-- A machine that is about to pop the processor status word. All three bits of the flag byte that
stand for nothing are set. -/
def poppingStatus : Machine where
  cpu := { sp := 0x9000, flags := { zero := true, parity := true } }
  memory := ((Memory.blank.write 0x8000 0xF1).write 0x9000 0xAB).write 0x9001 0x12

/-- The flags that were set are cleared, and sign and carry are set. -/
theorem step_flags_popped :
    ∃ next,
      poppingStatus.step = (next, .ok true) ∧
        next.cpu.flags = { sign := true, carry := true } := by
  have cell : Opcode.cell? poppingStatus.nextOpcode = some ⟨.pop, [.pair .psw], .none⟩ := by
    decide +kernel
  have stepped : poppingStatus.step = (poppingStatus.step.1, .ok true) := rfl
  have frames : poppingStatus.FramesFlags poppingStatus.step.1 poppingStatus.step.2 :=
    step_flags rfl
  refine ⟨_, stepped, ?_⟩
  rw [frames.loaded _ true cell rfl (congrArg Prod.snd stepped)]
  decide +kernel

end Machine

end I8085
