/-!
# Instruction words

A program is stored as 16-bit words. A word is a bit vector, so that its fields can be named by
concatenation; its two bytes are machine bytes, because that is what files hold.
-/

namespace PioKit

/-- An instruction word. -/
abbrev Word := BitVec 16

namespace Word

/-- Bits 0 to 7. -/
def lowByte (w : Word) : UInt8 :=
  UInt8.ofBitVec (w.extractLsb' 0 8)

/-- Bits 8 to 15. -/
def highByte (w : Word) : UInt8 :=
  UInt8.ofBitVec (w.extractLsb' 8 8)

/-- The word with the given bytes. -/
def ofBytes (low high : UInt8) : Word :=
  high.toBitVec ++ low.toBitVec

/-- The lower part of a concatenation. -/
theorem extractLsb'_zero_append {n m : Nat} (x : BitVec n) (y : BitVec m) :
    (x ++ y).extractLsb' 0 m = y := by
  apply BitVec.eq_of_getLsbD_eq
  intro i hi
  simp [BitVec.getLsbD_append, hi]

/-- The upper part of a concatenation. -/
theorem extractLsb'_width_append {n m : Nat} (x : BitVec n) (y : BitVec m) :
    (x ++ y).extractLsb' m n = x := by
  apply BitVec.eq_of_getLsbD_eq
  intro i hi
  simp [BitVec.getLsbD_append, hi]

@[simp] theorem lowByte_ofBytes (low high : UInt8) : (ofBytes low high).lowByte = low := by
  apply UInt8.toBitVec_inj.mp
  exact extractLsb'_zero_append high.toBitVec low.toBitVec

@[simp] theorem highByte_ofBytes (low high : UInt8) : (ofBytes low high).highByte = high := by
  apply UInt8.toBitVec_inj.mp
  exact extractLsb'_width_append high.toBitVec low.toBitVec

@[simp] theorem ofBytes_lowByte_highByte (w : Word) : ofBytes w.lowByte w.highByte = w :=
  @BitVec.extractLsb'_append_extractLsb' 8 8 w

/-- The bytes of a word, the low byte first. -/
def bytes (w : Word) : List UInt8 :=
  [w.lowByte, w.highByte]

end Word

end PioKit
