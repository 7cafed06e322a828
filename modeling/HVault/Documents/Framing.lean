import Mathlib.Algebra.GroupWithZero.Nat
import Mathlib.Data.List.Sort

/-!
# How a document is cut into parts

The sizes of a stored document follow from two numbers: how long the file is and how long a
segment of it is. Every segment is sealed, so it is stored with one authentication tag more.

* `documentChunkCountFor`, `documentPlaintextBytesFor`, `documentCiphertextBytesFor`: the sizes of
  the whole from each other;
* `segmentRange`, `expectedPartSize`: where a segment lies in the stored object, and the one size
  its part may have.
-/

namespace HVault.Documents

/-! ## Sizes -/

/-- The bytes a sealed segment is longer than its plaintext. -/
def documentTagBytes : ℕ := 16

def maxDocumentsPerUser : ℕ := 5000

def maxConcurrentDocumentUploadsPerUser : ℕ := 3

/-- The most rows a rotation re-seals: the stored documents and the open transfers. -/
def maxDocumentsPerRotation : ℕ := maxDocumentsPerUser + maxConcurrentDocumentUploadsPerUser

/-- The plaintext of a full segment. -/
def documentPlaintextChunkBytes : ℕ := 8388592

/-- `chunkCount = max(1, ceil(plaintextBytes / chunkPlaintextBytes))`. -/
def documentChunkCountFor (plaintextBytes chunkPlaintextBytes : ℕ) : ℕ :=
  max 1 ((plaintextBytes + chunkPlaintextBytes - 1) / chunkPlaintextBytes)

/-- `plaintextBytes = ciphertextBytes - DOCUMENT_TAG_BYTES * chunkCount`. -/
def documentPlaintextBytesFor (ciphertextBytes chunkCount : ℕ) : ℤ :=
  ciphertextBytes - documentTagBytes * chunkCount

/-- `ciphertextBytes = plaintextBytes + DOCUMENT_TAG_BYTES * chunkCount`. -/
def documentCiphertextBytesFor (plaintextBytes chunkCount : ℕ) : ℕ :=
  plaintextBytes + documentTagBytes * chunkCount

/-- All segments but the last are full, and together they hold the file. -/
theorem documentChunkCountFor_bounds {plaintextBytes chunkPlaintextBytes chunkCount : ℕ}
    (hpos : 0 < chunkPlaintextBytes)
    (h : chunkCount = documentChunkCountFor plaintextBytes chunkPlaintextBytes) :
    1 ≤ chunkCount ∧ (chunkCount - 1) * chunkPlaintextBytes ≤ plaintextBytes ∧
      plaintextBytes ≤ chunkCount * chunkPlaintextBytes := by
  unfold documentChunkCountFor at h
  have hdiv := Nat.div_add_mod (plaintextBytes + chunkPlaintextBytes - 1) chunkPlaintextBytes
  have hmod := Nat.mod_lt (plaintextBytes + chunkPlaintextBytes - 1) hpos
  generalize (plaintextBytes + chunkPlaintextBytes - 1) / chunkPlaintextBytes = q at h hdiv
  rw [Nat.mul_comm] at hdiv
  rcases Nat.eq_zero_or_pos q with rfl | hq
  · -- an empty file still has one segment
    have hone : chunkCount = 1 := h
    rw [hone]
    omega
  · have hcount : chunkCount = q := by omega
    obtain ⟨r, rfl⟩ : ∃ r, q = r + 1 := ⟨q - 1, by omega⟩
    rw [hcount, Nat.add_sub_cancel]
    rw [Nat.add_mul, Nat.one_mul] at hdiv ⊢
    omega

/-! ## Segments -/

/-- A byte range of the stored object; `last` is its last byte. -/
structure SegmentRange where
  start : ℕ
  last : ℕ
  length : ℕ
  deriving DecidableEq, Repr

/-- The range of one segment. Numbers that cannot describe an object have none. -/
def segmentRange (index chunkCount chunkPlaintextBytes ciphertextBytes : ℕ) :
    Option SegmentRange :=
  if chunkCount < 1 ∨ chunkPlaintextBytes < 1 ∨ ciphertextBytes < documentTagBytes then none
  else if chunkCount ≤ index then none
  else
    let segmentCiphertextBytes := chunkPlaintextBytes + documentTagBytes
    let fullSegments := chunkCount - 1
    let smallestObject := fullSegments * segmentCiphertextBytes + documentTagBytes
    let largestObject := chunkCount * segmentCiphertextBytes
    if ciphertextBytes < smallestObject ∨ largestObject < ciphertextBytes then none
    else
      let start := index * segmentCiphertextBytes
      let last := if index = fullSegments then ciphertextBytes - 1
        else start + segmentCiphertextBytes - 1
      some ⟨start, last, last - start + 1⟩

/-- The one size the part of this number may have. -/
def expectedPartSize (partNumber chunkCount chunkPlaintextBytes ciphertextBytes : ℕ) : Option ℕ :=
  if chunkCount < 1 ∨ partNumber < 1 ∨ chunkCount < partNumber then none
  else (segmentRange (partNumber - 1) chunkCount chunkPlaintextBytes ciphertextBytes).map (·.length)

/-- A part and how long it is. -/
structure PartSize where
  partNumber : ℕ
  bytes : ℕ
  deriving DecidableEq, Repr

/-- The bytes of several parts together. -/
def totalBytes (parts : List PartSize) : ℕ := (parts.map (·.bytes)).sum

/-- The parts in the order of their numbers; parts of one number keep theirs. -/
def sortedByNumber (parts : List PartSize) : List PartSize :=
  parts.insertionSort fun left right => left.partNumber ≤ right.partNumber

end HVault.Documents
