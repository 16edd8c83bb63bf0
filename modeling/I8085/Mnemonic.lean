/-
Module: I8085.Mnemonic
Layer: Data
Purpose: The operation words of the assembly language. A mnemonic stands for a family of opcodes
  that differ in the operands they name; conditional jumps, calls and returns have a word for each
  condition. The names are written in upper case.
Imports: none
Main exports: Mnemonic, Mnemonic.name, Mnemonic.all, Mnemonic.ofName?
-/

namespace I8085

/-- An operation word. -/
inductive Mnemonic where
  -- Data transfer
  | mov | mvi | lxi | lda | sta | ldax | stax | lhld | shld | xchg
  -- Arithmetic
  | add | adc | sub | sbb | adi | aci | sui | sbi | inr | dcr | inx | dcx | dad | daa
  -- Logic
  | ana | xra | ora | cmp | ani | xri | ori | cpi | rlc | rrc | ral | rar | cma | stc | cmc
  -- Jumps
  | jmp | jnz | jz | jnc | jc | jpo | jpe | jp | jm | pchl
  -- Calls
  | call | cnz | cz | cnc | cc | cpo | cpe | cp | cm | rst
  -- Returns
  | ret | rnz | rz | rnc | rc | rpo | rpe | rp | rm
  -- Stack
  | push | pop | xthl | sphl
  -- Control
  | nop | hlt | ei | di | rim | sim
deriving Repr, DecidableEq, Inhabited

namespace Mnemonic

/-- The spelling of a mnemonic. -/
def name : Mnemonic → String
  | mov => "MOV"
  | mvi => "MVI"
  | lxi => "LXI"
  | lda => "LDA"
  | sta => "STA"
  | ldax => "LDAX"
  | stax => "STAX"
  | lhld => "LHLD"
  | shld => "SHLD"
  | xchg => "XCHG"
  | add => "ADD"
  | adc => "ADC"
  | sub => "SUB"
  | sbb => "SBB"
  | adi => "ADI"
  | aci => "ACI"
  | sui => "SUI"
  | sbi => "SBI"
  | inr => "INR"
  | dcr => "DCR"
  | inx => "INX"
  | dcx => "DCX"
  | dad => "DAD"
  | daa => "DAA"
  | ana => "ANA"
  | xra => "XRA"
  | ora => "ORA"
  | cmp => "CMP"
  | ani => "ANI"
  | xri => "XRI"
  | ori => "ORI"
  | cpi => "CPI"
  | rlc => "RLC"
  | rrc => "RRC"
  | ral => "RAL"
  | rar => "RAR"
  | cma => "CMA"
  | stc => "STC"
  | cmc => "CMC"
  | jmp => "JMP"
  | jnz => "JNZ"
  | jz => "JZ"
  | jnc => "JNC"
  | jc => "JC"
  | jpo => "JPO"
  | jpe => "JPE"
  | jp => "JP"
  | jm => "JM"
  | pchl => "PCHL"
  | call => "CALL"
  | cnz => "CNZ"
  | cz => "CZ"
  | cnc => "CNC"
  | cc => "CC"
  | cpo => "CPO"
  | cpe => "CPE"
  | cp => "CP"
  | cm => "CM"
  | rst => "RST"
  | ret => "RET"
  | rnz => "RNZ"
  | rz => "RZ"
  | rnc => "RNC"
  | rc => "RC"
  | rpo => "RPO"
  | rpe => "RPE"
  | rp => "RP"
  | rm => "RM"
  | push => "PUSH"
  | pop => "POP"
  | xthl => "XTHL"
  | sphl => "SPHL"
  | nop => "NOP"
  | hlt => "HLT"
  | ei => "EI"
  | di => "DI"
  | rim => "RIM"
  | sim => "SIM"

/-- Every mnemonic. -/
def all : List Mnemonic :=
  [mov, mvi, lxi, lda, sta, ldax, stax, lhld, shld, xchg, add, adc, sub, sbb, adi, aci, sui,
   sbi, inr, dcr, inx, dcx, dad, daa, ana, xra, ora, cmp, ani, xri, ori, cpi, rlc, rrc, ral,
   rar, cma, stc, cmc, jmp, jnz, jz, jnc, jc, jpo, jpe, jp, jm, pchl, call, cnz, cz, cnc, cc,
   cpo, cpe, cp, cm, rst, ret, rnz, rz, rnc, rc, rpo, rpe, rp, rm, push, pop, xthl, sphl, nop,
   hlt, ei, di, rim, sim]

/-- The mnemonic that is spelled so, in upper case. -/
def ofName? (text : String) : Option Mnemonic :=
  all.find? fun mnemonic => mnemonic.name == text

end Mnemonic

end I8085
