import Mathlib.Algebra.Ring.Int.Defs

/-!
# Numbers as 32-bit words

The bitwise operators of a script take numbers for words of 32 bits. What they give is a signed
number, but for the shift that fills with zeros, whose result has no sign. Any of them goes through
the word (`word_xor` and so on), so that a sign never shows in the end.
-/

namespace Word

/-- The word of a number: its lowest 32 bits. -/
def word (n : ℤ) : BitVec 32 := BitVec.ofInt 32 n

/-- `a ^ b`. -/
def xor (a b : ℤ) : ℤ := (word a ^^^ word b).toInt

/-- `a & b`. -/
def and (a b : ℤ) : ℤ := (word a &&& word b).toInt

/-- `~a`. -/
def not (a : ℤ) : ℤ := (~~~word a).toInt

/-- `a >>> k`. -/
def unsignedShift (a : ℤ) (k : ℕ) : ℤ := (word a >>> k).toNat

@[simp] theorem word_toInt (x : BitVec 32) : word x.toInt = x := BitVec.ofInt_toInt

@[simp] theorem word_toNat (x : BitVec 32) : word x.toNat = x := by
  unfold word
  rw [BitVec.ofInt_natCast, BitVec.ofNat_toNat, BitVec.setWidth_eq]

@[simp] theorem word_xor (a b : ℤ) : word (xor a b) = word a ^^^ word b := word_toInt _

@[simp] theorem word_not (a : ℤ) : word (not a) = ~~~word a := word_toInt _

@[simp] theorem word_unsignedShift (a : ℤ) (k : ℕ) : word (unsignedShift a k) = word a >>> k :=
  word_toNat _

/-- `a >>> 0` is the word of `a` without a sign. -/
theorem unsignedShift_zero (a : ℤ) : unsignedShift a 0 = (word a).toNat := by
  unfold unsignedShift
  rw [BitVec.ushiftRight_zero]

theorem unsignedShift_range (a : ℤ) (k : ℕ) :
    0 ≤ unsignedShift a k ∧ unsignedShift a k < 2 ^ 32 := by
  unfold unsignedShift
  omega

/-- The lowest bit decides, whatever the sign. -/
theorem and_one_ne_zero (a : ℤ) : Word.and a 1 ≠ 0 ↔ (word a).getLsbD 0 = true := by
  have hone : word 1 = 1#32 := rfl
  have hbit : word a &&& 1#32 = if (word a).getLsbD 0 then 1#32 else 0#32 := by
    rw [BitVec.and_one_eq_setWidth_ofBool_getLsbD]
    cases (word a).getLsbD 0 <;> rfl
  unfold Word.and
  rw [hone, hbit]
  cases (word a).getLsbD 0
  · simp
  · simp

end Word
