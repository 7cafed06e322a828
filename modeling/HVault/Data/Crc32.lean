import Mathlib.Data.List.Basic
import Mathlib.Logic.Function.Iterate

/-!
# CRC-32

The checksum of IEEE 802.3, bit by bit (`checksum`), and what a table of the 256 bytes makes of it:
eight bits at once are one look into the table (`shiftByte_eq`). A register is linear in its bits, so
its low byte and the rest of it can be shifted on their own.
-/

namespace Crc32

open List Function BitVec

/-- The polynomial, its bits the other way round. -/
def polynomial : BitVec 32 := 0xEDB88320

/-- One bit is shifted out. -/
def shiftBit (value : BitVec 32) : BitVec 32 :=
  if value.getLsbD 0 then polynomial ^^^ (value >>> 1) else value >>> 1

/-- A byte is shifted out. -/
def shiftByte (value : BitVec 32) : BitVec 32 := shiftBit^[8] value

/-- The register after some bytes. -/
def register (value : BitVec 32) (bytes : List UInt8) : BitVec 32 :=
  bytes.foldl (fun value byte => shiftByte (value ^^^ byte.toBitVec.setWidth 32)) value

/-- The checksum of some bytes. -/
def checksum (bytes : List UInt8) : BitVec 32 := ~~~register (~~~0) bytes

theorem register_append (value : BitVec 32) (bytes bytes' : List UInt8) :
    register value (bytes ++ bytes') = register (register value bytes) bytes' :=
  foldl_append

/-! ## Linearity -/

theorem shiftBit_xor (x y : BitVec 32) : shiftBit (x ^^^ y) = shiftBit x ^^^ shiftBit y := by
  unfold shiftBit
  rw [getLsbD_xor, ushiftRight_xor_distrib]
  cases x.getLsbD 0 <;> cases y.getLsbD 0
  · rfl
  · simp only [Bool.false_xor, if_true, Bool.false_eq_true, if_false]
    rw [← BitVec.xor_assoc, ← BitVec.xor_assoc, BitVec.xor_comm polynomial]
  · simp only [Bool.xor_false, if_true, Bool.false_eq_true, if_false]
    rw [BitVec.xor_assoc]
  · simp only [Bool.xor_self, if_true, Bool.false_eq_true, if_false]
    have hcancel : polynomial ^^^ x >>> 1 ^^^ (polynomial ^^^ y >>> 1) =
        (polynomial ^^^ polynomial) ^^^ (x >>> 1 ^^^ y >>> 1) := by
      rw [BitVec.xor_comm polynomial (x >>> 1), BitVec.xor_assoc, ← BitVec.xor_assoc polynomial,
        ← BitVec.xor_assoc (x >>> 1), BitVec.xor_comm (x >>> 1), BitVec.xor_assoc]
    rw [hcancel, BitVec.xor_self, BitVec.zero_xor]

theorem iterate_shiftBit_xor (n : ℕ) (x y : BitVec 32) :
    shiftBit^[n] (x ^^^ y) = shiftBit^[n] x ^^^ shiftBit^[n] y := by
  induction n generalizing x y with
  | zero => rfl
  | succ n ih => rw [iterate_succ_apply, iterate_succ_apply,
      iterate_succ_apply, shiftBit_xor, ih]

/-- Zeros are shifted out without the polynomial. -/
theorem iterate_shiftBit_of_zeros {n : ℕ} {x : BitVec 32} (h : ∀ i < n, x.getLsbD i = false) :
    shiftBit^[n] x = x >>> n := by
  induction n generalizing x with
  | zero => rw [ushiftRight_zero]; rfl
  | succ n ih =>
    have hbit : shiftBit x = x >>> 1 := by
      unfold shiftBit
      rw [h 0 (Nat.succ_pos n)]
      rfl
    rw [iterate_succ_apply, hbit, ih fun i hi => ?_, ← shiftRight_add,
      Nat.add_comm]
    rw [getLsbD_ushiftRight]
    exact h (1 + i) (by omega)

/-- The bits of a register that its low byte has. -/
theorem getElem_low {x : BitVec 32} {i : ℕ} (hi : i < 32) :
    (x &&& 0xFF#32)[i] = (x[i] && decide (i < 8)) := by
  have hmask : ∀ j : Fin 32, (0xFF#32).getLsbD j.val = decide (j.val < 8) := by decide
  rw [getElem_and, ← getLsbD_eq_getElem (x := 0xFF#32), hmask ⟨i, hi⟩]

/-- A register is its low byte and what is above it. -/
theorem low_xor_high (x : BitVec 32) : (x &&& 0xFF#32) ^^^ ((x >>> 8) <<< 8) = x := by
  ext i hi
  rw [getElem_xor, getElem_low hi, getElem_shiftLeft]
  by_cases hlow : i < 8
  · simp [hlow]
  · have hsum : 8 + (i - 8) = i := by omega
    simp [hlow, hsum, getLsbD_eq_getElem hi]

/-- Shifting a byte out is the shift of the low byte, and a plain shift of the rest. -/
theorem shiftByte_eq (x : BitVec 32) : shiftByte x = shiftByte (x &&& 0xFF#32) ^^^ (x >>> 8) := by
  have hzeros : ∀ i < 8, ((x >>> 8) <<< 8).getLsbD i = false := by
    intro i hi
    rw [getLsbD_shiftLeft]
    simp [hi]
  have hhigh : ((x >>> 8) <<< 8) >>> 8 = x >>> 8 := by
    ext i hi
    rw [getElem_ushiftRight, getLsbD_shiftLeft, getElem_ushiftRight,
      getLsbD_ushiftRight]
    by_cases htop : 8 + i < 32
    · simp [htop]
    · simp [htop, getLsbD_of_ge x (8 + i) (by omega)]
  unfold shiftByte
  conv_lhs => rw [← low_xor_high x]
  rw [iterate_shiftBit_xor, iterate_shiftBit_of_zeros hzeros, hhigh]

/-! ## One bit after another -/

/-- A bit of a message enters the register: the checksum as it is defined. -/
def enterBit (value : BitVec 32) (bit : Bool) : BitVec 32 :=
  if (value.getLsbD 0 ^^ bit) = true then polynomial ^^^ (value >>> 1) else value >>> 1

/-- The bits of a byte, the lowest first. -/
def bitsOf (byte : UInt8) : List Bool := (List.range 8).map byte.toBitVec.getLsbD

/-- The checksum of the bits of a message. -/
def bitwise (bytes : List UInt8) : BitVec 32 := ~~~(bytes.flatMap bitsOf).foldl enterBit (~~~0)

theorem getLsbD_shiftRight (x : BitVec 32) (n i : ℕ) : (x >>> n).getLsbD i = x.getLsbD (n + i) :=
  getLsbD_ushiftRight x n i

/-- A bit that enters is one that is shifted out. -/
theorem enterBit_eq (value message : BitVec 32) :
    shiftBit (value ^^^ message) = enterBit value (message.getLsbD 0) ^^^ (message >>> 1) := by
  unfold shiftBit enterBit
  rw [getLsbD_xor, ushiftRight_xor_distrib]
  cases value.getLsbD 0 ^^ message.getLsbD 0
  · rfl
  · simp only [if_true]
    exact (BitVec.xor_assoc ..).symm

/-- The lowest bits of a word enter one after the other, and what is left of it stays to be added. -/
theorem foldl_enterBit (n : ℕ) (value message : BitVec 32) :
    shiftBit^[n] (value ^^^ message) =
      ((List.range n).map message.getLsbD).foldl enterBit value ^^^ (message >>> n) := by
  induction n generalizing value message with
  | zero =>
    rw [ushiftRight_zero]
    rfl
  | succ n ih =>
    have hrest : (range n).map (message >>> 1).getLsbD =
        (range n).map (message.getLsbD ∘ Nat.succ) := by
      apply map_congr_left
      intro i _
      show (message >>> 1).getLsbD i = message.getLsbD (i + 1)
      rw [getLsbD_shiftRight, Nat.add_comm]
    rw [iterate_succ_apply, enterBit_eq, ih, range_succ_eq_map, map_cons,
      foldl_cons, map_map, hrest, ← shiftRight_add, Nat.add_comm 1 n]

/-- A byte is shifted out bit by bit. -/
theorem shiftByte_bits (value : BitVec 32) (byte : UInt8) :
    shiftByte (value ^^^ byte.toBitVec.setWidth 32) = (bitsOf byte).foldl enterBit value := by
  have hbits : (range 8).map (byte.toBitVec.setWidth 32 : BitVec 32).getLsbD = bitsOf byte := by
    apply map_congr_left
    intro i hi
    have hlt := mem_range.1 hi
    have hwide : i < 32 := by omega
    rw [getLsbD_setWidth, decide_eq_true hwide, Bool.true_and]
  have hnone : (byte.toBitVec.setWidth 32 : BitVec 32) >>> 8 = 0#32 := by
    apply eq_of_getLsbD_eq
    intro i _
    rw [getLsbD_shiftRight, getLsbD_setWidth,
      getLsbD_of_ge byte.toBitVec (8 + i) (by omega), Bool.and_false, getLsbD_zero]
  unfold shiftByte
  rw [foldl_enterBit, hbits, hnone, xor_zero]

/-- **Eight bits at once** come to the checksum of the bits. -/
theorem checksum_eq_bitwise (bytes : List UInt8) : checksum bytes = bitwise bytes := by
  unfold checksum bitwise register
  rw [foldl_flatMap]
  congr 1
  apply foldl_ext
  intro value byte _
  exact shiftByte_bits value byte

/-! ## What a checksum tells apart -/

/-- The polynomial has the highest bit, so no bit that is shifted out is forgotten. -/
theorem shiftBit_injective : Injective shiftBit := by
  intro x y h
  have hzero : shiftBit (x ^^^ y) = 0#32 := by rw [shiftBit_xor, h, BitVec.xor_self]
  unfold shiftBit at hzero
  split at hzero
  · have htop := congrArg (getLsbD · 31) hzero
    simp [polynomial] at htop
  · rename_i hlow
    refine BitVec.xor_eq_zero_iff.1 (eq_of_getLsbD_eq fun i _ => ?_)
    cases i with
    | zero => simpa using hlow
    | succ i =>
      simpa [Nat.add_comm 1] using congrArg (getLsbD · i) hzero

/-- What follows a difference does not hide it. -/
theorem register_injective (bytes : List UInt8) : Injective (register · bytes) := by
  induction bytes with
  | nil => exact injective_id
  | cons byte bytes ih =>
    intro value value' h
    exact (xor_left_inj _).1 (shiftBit_injective.iterate 8 (ih h))

/-- The bytes of a word, the lowest first. -/
def bytesOf (word : BitVec 32) : List UInt8 :=
  (List.range 4).map fun i => .ofBitVec ((word >>> (8 * i)).setWidth 8)

/-- Four bytes enter as one word. -/
theorem register_bytesOf (value word : BitVec 32) :
    register value (bytesOf word) = shiftBit^[32] (value ^^^ word) := by
  have hbits : (range 32).map word.getLsbD = (bytesOf word).flatMap bitsOf := by
    simp [bytesOf, bitsOf, range_succ]
  rw [foldl_enterBit, hbits, ushiftRight_eq_zero Nat.le.refl, xor_zero, foldl_flatMap]
  unfold register
  simp only [shiftByte_bits]

end Crc32
