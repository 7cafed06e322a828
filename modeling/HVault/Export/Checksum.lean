import HVault.Data.Word
import HVault.Export.ZipArchive

/-!
# The checksum of an entry

`crc32` in the numbers of a script: between two bytes the running value may have a sign, which the
next operator does not see, and the last shift takes it away. So the value is the checksum as it is
defined, bit by bit, and a file can be checksummed in segments, each one continuing from the value
of those before it.
-/

namespace HVault.Zip.Script

open Word Backup List Crc32 BitVec

/-! ## The code -/

/-- The polynomial, its bits the other way round. -/
def polynomial : ℤ := 0xedb88320

/-- One turn of the loop that builds an entry of the table. -/
def tableBit (value : ℤ) : ℤ :=
  if Word.and value 1 ≠ 0 then xor polynomial (unsignedShift value 1) else unsignedShift value 1

def buildCrcTable : List ℤ :=
  (List.range 256).map fun index : ℕ => unsignedShift (tableBit^[8] index) 0

/-- `table.getUint32(index * 4)`. -/
def tableAt (index : ℤ) : ℤ := buildCrcTable.getD index.toNat 0

/-- CRC-32 of some bytes, continuing from that of everything before them. -/
def crc32 (bytes : Bytes) (previous : ℤ := 0) : ℤ :=
  unsignedShift (not (bytes.foldl
    (fun crc byte => xor (tableAt (Word.and (xor crc byte.toNat) 0xff)) (unsignedShift crc 8))
    (unsignedShift (not previous) 0))) 0

/-! ## Its words -/

theorem word_tableBit (value : ℤ) : word (tableBit value) = shiftBit (word value) := by
  unfold tableBit shiftBit
  by_cases hbit : Word.and value 1 ≠ 0
  · rw [if_pos hbit, if_pos ((and_one_ne_zero value).1 hbit), word_xor, word_unsignedShift]
    rfl
  · rw [if_neg hbit, if_neg fun h => hbit ((and_one_ne_zero value).2 h), word_unsignedShift]

theorem word_iterate_tableBit (n : ℕ) (value : ℤ) :
    word (tableBit^[n] value) = shiftBit^[n] (word value) := by
  induction n generalizing value with
  | zero => rfl
  | succ n ih => rw [Function.iterate_succ_apply, Function.iterate_succ_apply, ih, word_tableBit]

/-- An entry of the table is its byte shifted out. -/
theorem word_tableAt {x : BitVec 32} (h : x.toNat < 256) :
    word (tableAt x.toNat) = shiftByte x := by
  have hentry : tableAt x.toNat = unsignedShift (tableBit^[8] x.toNat) 0 := by
    unfold tableAt buildCrcTable
    rw [Int.toNat_natCast, getD_eq_getElem?_getD, getElem?_map, getElem?_range h]
    rfl
  rw [hentry, word_unsignedShift, ushiftRight_zero, word_iterate_tableBit, word_toNat]
  rfl

/-- A look into the table is at a place it has. -/
theorem low_byte (x : BitVec 32) : (x &&& 0xFF#32).toInt = (x &&& 0xFF#32).toNat := by
  have hle : (x &&& 0xFF#32).toNat ≤ 0xFF := by
    rw [toNat_and]
    exact Nat.and_le_right
  apply toInt_eq_toNat_of_lt
  omega

theorem word_step (crc : ℤ) (byte : UInt8) :
    word (xor (tableAt (Word.and (xor crc byte.toNat) 0xff)) (unsignedShift crc 8)) =
      crcTable.getD ((word crc ^^^ byte.toBitVec.setWidth 32) &&& 0xFF#32).toNat 0 ^^^
        (word crc >>> 8) := by
  have hbyte : word byte.toNat = byte.toBitVec.setWidth 32 := by
    apply eq_of_toNat_eq
    unfold word
    rw [ofInt_natCast, toNat_ofNat, toNat_setWidth]
    rfl
  have hplace : Word.and (xor crc byte.toNat) 0xff =
      ((word crc ^^^ byte.toBitVec.setWidth 32) &&& 0xFF#32).toNat := by
    rw [← low_byte]
    unfold Word.and
    rw [word_xor, hbyte]
    rfl
  have hlow : ((word crc ^^^ byte.toBitVec.setWidth 32) &&& 0xFF#32).toNat < 256 := by
    rw [toNat_and]
    exact Nat.lt_of_le_of_lt Nat.and_le_right (by decide)
  rw [word_xor, word_unsignedShift, hplace, word_tableAt hlow, crcTable_getD hlow]

/-- Whatever number it continues from, the value is the checksum of its word. -/
theorem crc32_eq (bytes : Bytes) (previous : ℤ) :
    crc32 bytes previous = (Zip.crc32 bytes (word previous)).toNat := by
  have hloop : ∀ (bytes : Bytes) (crc : ℤ),
      word (bytes.foldl (fun crc byte =>
        xor (tableAt (Word.and (xor crc byte.toNat) 0xff)) (unsignedShift crc 8)) crc) =
      bytes.foldl (fun crc byte =>
        crcTable.getD ((crc ^^^ byte.toBitVec.setWidth 32) &&& 0xFF#32).toNat 0 ^^^ (crc >>> 8))
        (word crc) := by
    intro bytes
    induction bytes with
    | nil => exact fun _ => rfl
    | cons byte bytes ih =>
      intro crc
      rw [foldl_cons, foldl_cons, ih, word_step]
  unfold crc32 Zip.crc32
  rw [unsignedShift_zero, word_not, hloop, word_unsignedShift, word_not, ushiftRight_zero]

/-! ## The checksum -/

/-- **The checksum** of two byte strings side by side continues from that of the first, and that of
any bytes is the one of their bits, as an unsigned number of 32 bits. -/
theorem crc32_incremental (bytes bytes' : Bytes) :
    crc32 bytes' (crc32 bytes) = crc32 (bytes ++ bytes') ∧
      crc32 bytes = (Crc32.bitwise bytes).toNat ∧ 0 ≤ crc32 bytes ∧ crc32 bytes < 2 ^ 32 := by
  refine ⟨?_, ?_, unsignedShift_range _ 0⟩
  · rw [crc32_eq, crc32_eq, crc32_eq, word_toNat, crc32_append]
  · rw [crc32_eq, ← checksum_eq_bitwise, ← crc32_checksum]
    rfl

/-- The digits, whose checksum is the one that is published to check an implementation by. -/
example : (Crc32.bitwise [0x31, 0x32, 0x33, 0x34, 0x35, 0x36, 0x37, 0x38, 0x39]).toNat = 0xCBF43926 := by
  decide +kernel

/-- **A burst is seen**: bytes that differ in a word of four have different checksums. -/
theorem crc32_burst (before after : Bytes) :
    Function.Injective fun word => crc32 (before ++ Crc32.bytesOf word ++ after) := by
  intro word word' h
  simp only [crc32_eq, Nat.cast_inj, toNat_inj] at h
  have hsame : checksum (before ++ bytesOf word ++ after) =
      checksum (before ++ bytesOf word' ++ after) :=
    (crc32_checksum _).symm.trans (h.trans (crc32_checksum _))
  simp only [checksum, register_append, BitVec.not_inj] at hsame
  have hword := register_injective after hsame
  simp only [register_bytesOf] at hword
  exact (xor_right_inj _).1 (shiftBit_injective.iterate 32 hword)

end HVault.Zip.Script
