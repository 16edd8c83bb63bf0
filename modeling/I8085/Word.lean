/-
Module: I8085.Word
Layer: Data
Purpose: Bytes and 16-bit words, and the two halves of a word. The machine keeps every address and
  every register pair as a word and every memory cell as a byte; a word is stored low byte first.
  The halves are given by division and remainder, so statements about them reduce to linear
  arithmetic on natural numbers, and a word is recovered from its two halves
  (`Word.ofBytes_halves`).
Imports: none
Main exports: Byte, Word, Word.high, Word.low, Word.ofBytes, Word.littleEndian
-/

namespace I8085

/-- One memory cell or 8-bit register. -/
abbrev Byte := UInt8

/-- One address or 16-bit register. Addition and subtraction wrap at 65536. -/
abbrev Word := UInt16

def Word.high (w : Word) : Byte := UInt8.ofNat (w.toNat / 256)

def Word.low (w : Word) : Byte := UInt8.ofNat w.toNat

/-- The word with the given halves, the more significant one first. -/
def Word.ofBytes (high low : Byte) : Word := UInt16.ofNat (high.toNat * 256 + low.toNat)

/-- The two bytes of a word in the order in which memory holds them. -/
def Word.littleEndian (w : Word) : List Byte := [Word.low w, Word.high w]

/-! ### The halves as numbers -/

theorem Word.toNat_high (w : Word) : (Word.high w).toNat = w.toNat / 256 := by
  have := w.toNat_lt
  simp only [Word.high, UInt8.toNat_ofNat']
  omega

theorem Word.toNat_low (w : Word) : (Word.low w).toNat = w.toNat % 256 := by
  simp [Word.low]

theorem Word.toNat_ofBytes (high low : Byte) :
    (Word.ofBytes high low).toNat = high.toNat * 256 + low.toNat := by
  have := high.toNat_lt
  have := low.toNat_lt
  simp only [Word.ofBytes, UInt16.toNat_ofNat']
  omega

@[simp] theorem Word.high_ofBytes (high low : Byte) : Word.high (Word.ofBytes high low) = high := by
  have := low.toNat_lt
  apply UInt8.toNat_inj.1
  rw [Word.toNat_high, Word.toNat_ofBytes]
  omega

@[simp] theorem Word.low_ofBytes (high low : Byte) : Word.low (Word.ofBytes high low) = low := by
  have := low.toNat_lt
  apply UInt8.toNat_inj.1
  rw [Word.toNat_low, Word.toNat_ofBytes]
  omega

/-- A word is its two halves put together again. -/
@[simp] theorem Word.ofBytes_halves (w : Word) : Word.ofBytes (Word.high w) (Word.low w) = w := by
  apply UInt16.toNat_inj.1
  rw [Word.toNat_ofBytes, Word.toNat_high, Word.toNat_low]
  omega

/-- Two words with the same halves are equal. -/
theorem Word.ext_halves {v w : Word} (high : Word.high v = Word.high w)
    (low : Word.low v = Word.low w) : v = w := by
  rw [← Word.ofBytes_halves v, ← Word.ofBytes_halves w, high, low]

/-- A word is determined by the bytes that memory holds of it. -/
@[simp] theorem Word.littleEndian_inj {v w : Word} :
    Word.littleEndian v = Word.littleEndian w ↔ v = w := by
  constructor
  · intro same
    obtain ⟨low, high, _⟩ : Word.low v = Word.low w ∧ Word.high v = Word.high w ∧ True := by
      simpa [Word.littleEndian] using same
    exact Word.ext_halves high low
  · rintro rfl
    rfl

end I8085
