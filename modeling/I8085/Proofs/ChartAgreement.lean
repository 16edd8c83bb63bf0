/-
Module: I8085.Proofs.ChartAgreement
Layer: Proofs
Purpose: The opcode chart and the decoder say the same. The chart is written out cell by cell, the
  decoder works from bit fields; they meet in the spelling of an instruction, which is the chart
  entry under which it is written, and in its data, which are the bytes that follow its opcode.
  Whatever opcode is decoded, the chart has the spelling of the decoded instruction, and the data
  are the operand bytes that were fetched for it (`Instruction.decode_of_cell`).
Imports: I8085.Instruction.Decode, I8085.Opcode.Chart
Main exports: Instruction.entry, Instruction.data, Instruction.Pattern.instruction,
  Instruction.Pattern.kind, Instruction.decode_spelt, Instruction.isSome_decode,
  Instruction.decode_of_cell
-/
import I8085.Instruction.Decode
import I8085.Opcode.Chart

namespace I8085

/-! ### The spelling of an instruction -/

/-- The word for an operation of the accumulator group on a register. -/
def Operation.registerMnemonic : Operation → Mnemonic
  | .add => .add
  | .addCarry => .adc
  | .sub => .sub
  | .subBorrow => .sbb
  | .and => .ana
  | .xor => .xra
  | .or => .ora
  | .compare => .cmp

/-- The word for an operation of the accumulator group on an immediate byte. -/
def Operation.immediateMnemonic : Operation → Mnemonic
  | .add => .adi
  | .addCarry => .aci
  | .sub => .sui
  | .subBorrow => .sbi
  | .and => .ani
  | .xor => .xri
  | .or => .ori
  | .compare => .cpi

/-- The word for a rotation. -/
def Rotation.mnemonic : Rotation → Mnemonic
  | .left => .rlc
  | .right => .rrc
  | .leftThroughCarry => .ral
  | .rightThroughCarry => .rar

/-- The word for a jump. -/
def Condition.jumpMnemonic : Option Condition → Mnemonic
  | none => .jmp
  | some .notZero => .jnz
  | some .zero => .jz
  | some .noCarry => .jnc
  | some .carry => .jc
  | some .parityOdd => .jpo
  | some .parityEven => .jpe
  | some .plus => .jp
  | some .minus => .jm

/-- The word for a call. -/
def Condition.callMnemonic : Option Condition → Mnemonic
  | none => .call
  | some .notZero => .cnz
  | some .zero => .cz
  | some .noCarry => .cnc
  | some .carry => .cc
  | some .parityOdd => .cpo
  | some .parityEven => .cpe
  | some .plus => .cp
  | some .minus => .cm

/-- The word for a return. -/
def Condition.returnMnemonic : Option Condition → Mnemonic
  | none => .ret
  | some .notZero => .rnz
  | some .zero => .rz
  | some .noCarry => .rnc
  | some .carry => .rc
  | some .parityOdd => .rpo
  | some .parityEven => .rpe
  | some .plus => .rp
  | some .minus => .rm

namespace Instruction

/-- The chart entry under which an instruction is written. -/
def entry : Instruction → Opcode.Entry
  | mov target source => ⟨.mov, [.register target, .register source], .none⟩
  | mvi target _ => ⟨.mvi, [.register target], .byte⟩
  | lxi target _ => ⟨.lxi, [.pair target], .word⟩
  | lda _ => ⟨.lda, [], .word⟩
  | sta _ => ⟨.sta, [], .word⟩
  | ldax address => ⟨.ldax, [.pair address], .none⟩
  | stax address => ⟨.stax, [.pair address], .none⟩
  | lhld _ => ⟨.lhld, [], .word⟩
  | shld _ => ⟨.shld, [], .word⟩
  | xchg => ⟨.xchg, [], .none⟩
  | accumulate operation (.register source) =>
      ⟨operation.registerMnemonic, [.register source], .none⟩
  | accumulate operation (.immediate _) => ⟨operation.immediateMnemonic, [], .byte⟩
  | inr target => ⟨.inr, [.register target], .none⟩
  | dcr target => ⟨.dcr, [.register target], .none⟩
  | inx target => ⟨.inx, [.pair target], .none⟩
  | dcx target => ⟨.dcx, [.pair target], .none⟩
  | dad source => ⟨.dad, [.pair source], .none⟩
  | daa => ⟨.daa, [], .none⟩
  | rotate rotation => ⟨rotation.mnemonic, [], .none⟩
  | cma => ⟨.cma, [], .none⟩
  | stc => ⟨.stc, [], .none⟩
  | cmc => ⟨.cmc, [], .none⟩
  | jump condition _ => ⟨Condition.jumpMnemonic condition, [], .word⟩
  | call condition _ => ⟨Condition.callMnemonic condition, [], .word⟩
  | ret condition => ⟨Condition.returnMnemonic condition, [], .none⟩
  | rst vector => ⟨.rst, [.vector vector], .none⟩
  | pchl => ⟨.pchl, [], .none⟩
  | push source => ⟨.push, [.pair source], .none⟩
  | pop target => ⟨.pop, [.pair target], .none⟩
  | xthl => ⟨.xthl, [], .none⟩
  | sphl => ⟨.sphl, [], .none⟩
  | nop => ⟨.nop, [], .none⟩
  | hlt => ⟨.hlt, [], .none⟩
  | ei => ⟨.ei, [], .none⟩
  | di => ⟨.di, [], .none⟩
  | rim => ⟨.rim, [], .none⟩
  | sim => ⟨.sim, [], .none⟩

/-- The bytes that follow the opcode of an instruction. -/
def data : Instruction → List Byte
  | mvi _ value => [value]
  | accumulate _ (.immediate value) => [value]
  | lxi _ value => Word.littleEndian value
  | lda address => Word.littleEndian address
  | sta address => Word.littleEndian address
  | lhld address => Word.littleEndian address
  | shld address => Word.littleEndian address
  | jump _ target => Word.littleEndian target
  | call _ target => Word.littleEndian target
  | _ => []

/-- A word operand is the word of its data. -/
theorem operand_of_data_word {value word : Word}
    (data : Word.littleEndian value = (Word.littleEndian word).take OperandKind.word.size) :
    value = word :=
  Word.littleEndian_inj.1 data

/-- A byte operand is the lower half of the word that its data begin. -/
theorem operand_of_data_byte {value : Byte} {word : Word}
    (data : [value] = (Word.littleEndian word).take OperandKind.byte.size) :
    value = Word.low word :=
  List.head_eq_of_cons_eq data

/-! ### Patterns and the chart -/

namespace Pattern

/-- What has to be fetched to complete a pattern. -/
def kind : Pattern → OperandKind
  | complete _ => .none
  | needsByte _ => .byte
  | needsWord _ => .word

/-- The instruction that a pattern becomes with an operand, of which a byte pattern takes the lower
half. -/
def instruction (operand : Word) : Pattern → Instruction
  | complete instruction => instruction
  | needsByte instruction => instruction (Word.low operand)
  | needsWord instruction => instruction operand

/-- Every operand completes the pattern to an instruction of the same spelling with that operand as
its data. -/
def Spelt (pattern : Pattern) : Prop :=
  ∀ operand, (pattern.instruction operand).entry = (pattern.instruction 0).entry ∧
    (pattern.instruction operand).data = (Word.littleEndian operand).take pattern.kind.size

end Pattern

theorem decodeTransfer_spelt {opcode : Byte} {pattern : Pattern}
    (decoded : decodeTransfer opcode = some pattern) : pattern.Spelt := by
  simp only [decodeTransfer] at decoded
  -- one case for each branch of the decoder, two for those that look at the parity of the row
  split at decoded <;> try split at decoded
  all_goals cases decoded
  all_goals exact fun _ => ⟨rfl, rfl⟩

theorem decodeMove_spelt (opcode : Byte) : (decodeMove opcode).Spelt := by
  intro operand
  simp only [decodeMove]
  split <;> exact ⟨rfl, rfl⟩

theorem decodeBranch_spelt {opcode : Byte} {pattern : Pattern}
    (decoded : decodeBranch opcode = some pattern) : pattern.Spelt := by
  simp only [decodeBranch] at decoded
  split at decoded
  all_goals cases decoded
  all_goals exact fun _ => ⟨rfl, rfl⟩

/-- The decoder yields only patterns that every operand completes to the same spelling. -/
theorem decode_spelt {opcode : Byte} {pattern : Pattern}
    (decoded : decode opcode = some pattern) : pattern.Spelt := by
  unfold decode at decoded
  split at decoded
  · exact decodeTransfer_spelt decoded
  · cases decoded
    exact decodeMove_spelt opcode
  · cases decoded
    exact fun _ => ⟨rfl, rfl⟩
  · exact decodeBranch_spelt decoded

/-- The chart entry and the operand kind that the decoder gives to an opcode. -/
def spelling? (opcode : Byte) : Option (Opcode.Entry × OperandKind) :=
  (decode opcode).map fun pattern => ((pattern.instruction 0).entry, pattern.kind)

/-- The chart and the decoder agree on all 256 opcodes. -/
theorem spelling?_eq_cell? (opcode : Byte) :
    spelling? opcode = (Opcode.cell? opcode).map fun entry => (entry, entry.operand) := by
  have agreed : ∀ code : Fin 256,
      spelling? (UInt8.ofNat code) =
        (Opcode.cell? (UInt8.ofNat code)).map fun entry => (entry, entry.operand) := by
    decide +kernel
  simpa using agreed opcode.toFin

/-- An opcode has a decoding exactly if it has a cell. -/
theorem isSome_decode (opcode : Byte) : (decode opcode).isSome = (Opcode.cell? opcode).isSome := by
  have agreed := congrArg Option.isSome (spelling?_eq_cell? opcode)
  simpa [spelling?] using agreed

/-- An opcode with a cell is decoded to a pattern that waits for the operand of the cell, and every
operand completes it to an instruction that is spelt as the cell says. -/
theorem decode_of_cell {opcode : Byte} {entry : Opcode.Entry}
    (cell : Opcode.cell? opcode = some entry) :
    ∃ pattern, decode opcode = some pattern ∧ pattern.kind = entry.operand ∧
      ∀ operand, (pattern.instruction operand).entry = entry ∧
        (pattern.instruction operand).data =
          (Word.littleEndian operand).take entry.operand.size := by
  have agreed := spelling?_eq_cell? opcode
  rw [cell] at agreed
  obtain ⟨pattern, decoded, spelt⟩ := Option.map_eq_some_iff.1 agreed
  obtain ⟨spelling, kind⟩ := Prod.mk.inj spelt
  refine ⟨pattern, decoded, kind, fun operand => ?_⟩
  obtain ⟨uniform, data⟩ := decode_spelt decoded operand
  exact ⟨uniform.trans spelling, kind ▸ data⟩

end Instruction

end I8085
