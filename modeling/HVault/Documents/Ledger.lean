import Mathlib.Algebra.BigOperators.Intervals
import HVault.Documents.Transfers

/-!
# What an accepted ledger says about the document

The part route accepts a part only at the one size its number may have. Where the engine holds
exactly the accepted parts, the sizes of the document therefore are the declared ones, and the
bytes a transfer reserved when it was opened are the bytes its document weighs.
-/

namespace HVault.Documents

open List

/-! ## The sizes of the segments -/

section Sizes

variable {plaintextBytes chunkPlaintextBytes chunkCount : ℕ}

/-- The stored size of the segment of this number. -/
def segmentBytes (plaintextBytes chunkPlaintextBytes chunkCount partNumber : ℕ) : ℕ :=
  if partNumber = chunkCount then
    documentCiphertextBytesFor plaintextBytes chunkCount
      - (chunkCount - 1) * (chunkPlaintextBytes + documentTagBytes)
  else chunkPlaintextBytes + documentTagBytes

theorem expectedPartSize_eq (hpos : 0 < chunkPlaintextBytes)
    (h : chunkCount = documentChunkCountFor plaintextBytes chunkPlaintextBytes) {partNumber : ℕ}
    (h₁ : 1 ≤ partNumber) (h₂ : partNumber ≤ chunkCount) :
    expectedPartSize partNumber chunkCount chunkPlaintextBytes
        (documentCiphertextBytesFor plaintextBytes chunkCount)
      = some (segmentBytes plaintextBytes chunkPlaintextBytes chunkCount partNumber) := by
  obtain ⟨hcount, hfull, hall⟩ := documentChunkCountFor_bounds hpos h
  obtain ⟨full, rfl⟩ : ∃ full, chunkCount = full + 1 := ⟨chunkCount - 1, by omega⟩
  rw [Nat.add_sub_cancel] at hfull
  have hsegments : (full + 1) * (chunkPlaintextBytes + documentTagBytes)
      = (full + 1) * chunkPlaintextBytes + (full + 1) * documentTagBytes := mul_add _ _ _
  have hfullSegments : full * (chunkPlaintextBytes + documentTagBytes)
      = full * chunkPlaintextBytes + full * documentTagBytes := mul_add _ _ _
  have htags : (full + 1) * documentTagBytes = full * documentTagBytes + documentTagBytes :=
    Nat.succ_mul _ _
  have htag : documentTagBytes = 16 := rfl
  unfold expectedPartSize segmentBytes segmentRange documentCiphertextBytesFor
  rw [Nat.add_sub_cancel, mul_comm documentTagBytes (full + 1)]
  rw [if_neg (by omega), if_neg (by omega), if_neg (by omega)]
  rw [if_neg (by omega), Option.map_some]
  by_cases hlast : partNumber = full + 1
  · subst hlast
    rw [if_pos rfl, Nat.add_sub_cancel, if_pos rfl]
    congr 1
    dsimp only
    omega
  · rw [if_neg hlast, if_neg (by omega)]
    congr 1
    dsimp only
    omega

/-- The segments together are the document. -/
theorem sum_segmentBytes (hpos : 0 < chunkPlaintextBytes)
    (h : chunkCount = documentChunkCountFor plaintextBytes chunkPlaintextBytes) :
    ∑ k ∈ Finset.range chunkCount,
        segmentBytes plaintextBytes chunkPlaintextBytes chunkCount (k + 1)
      = documentCiphertextBytesFor plaintextBytes chunkCount := by
  obtain ⟨hcount, hfull, hall⟩ := documentChunkCountFor_bounds hpos h
  obtain ⟨full, rfl⟩ : ∃ full, chunkCount = full + 1 := ⟨chunkCount - 1, by omega⟩
  rw [Nat.add_sub_cancel] at hfull
  have hbefore : ∀ k ∈ Finset.range full,
      segmentBytes plaintextBytes chunkPlaintextBytes (full + 1) (k + 1)
        = chunkPlaintextBytes + documentTagBytes := by
    intro k hk
    have hlt := Finset.mem_range.1 hk
    exact if_neg (by omega)
  rw [Finset.sum_range_succ, Finset.sum_const_nat hbefore, Finset.card_range, segmentBytes,
    if_pos rfl, Nat.add_sub_cancel]
  have hle : full * (chunkPlaintextBytes + documentTagBytes)
      ≤ documentCiphertextBytesFor plaintextBytes (full + 1) := by
    have hsegments : full * (chunkPlaintextBytes + documentTagBytes)
        = full * chunkPlaintextBytes + full * documentTagBytes := mul_add _ _ _
    have htags : documentTagBytes * (full + 1) = full * documentTagBytes + documentTagBytes := by
      rw [mul_comm, Nat.succ_mul]
    unfold documentCiphertextBytesFor
    omega
  exact Nat.add_sub_cancel' hle

end Sizes

/-! ## The ledger -/

/-- A staging row whose ledger holds parts of the required sizes only. -/
structure Upload.Exact (upload : Upload) : Prop where
  positive : 0 < upload.chunkPlaintextBytes
  consistent : upload.declaredChunkCount
    = documentChunkCountFor upload.declaredPlaintextBytes upload.chunkPlaintextBytes
  parts : ∀ part ∈ upload.parts, upload.requiredBytes part.partNumber = some part.bytes

/-- A staging row without its ledger. -/
def Upload.blank (upload : Upload) : Upload := { upload with parts := [], receivedBytes := 0 }

theorem Upload.requiredBytes_congr {upload upload' : Upload} (h : upload'.blank = upload.blank) :
    upload'.requiredBytes = upload.requiredBytes := by
  show upload'.blank.requiredBytes = upload.blank.requiredBytes
  rw [h]

theorem Upload.Exact.segmentBytes {upload : Upload} (h : upload.Exact) {partNumber bytes : ℕ}
    (hbytes : upload.requiredBytes partNumber = some bytes) :
    bytes = Documents.segmentBytes upload.declaredPlaintextBytes upload.chunkPlaintextBytes
      upload.declaredChunkCount partNumber := by
  have hrange : 1 ≤ partNumber ∧ partNumber ≤ upload.declaredChunkCount := by
    unfold Upload.requiredBytes expectedPartSize at hbytes
    split at hbytes
    · cases hbytes
    · omega
  have hsize := expectedPartSize_eq h.positive h.consistent hrange.1 hrange.2
  rw [Upload.requiredBytes, hsize] at hbytes
  exact (Option.some.inj hbytes).symm

/-- A part of its required size may be entered. -/
theorem Upload.Exact.withPart {upload : Upload} (h : upload.Exact) {entry : LedgerPart}
    (hentry : upload.requiredBytes entry.partNumber = some entry.bytes) :
    (upload.withPart entry).Exact := by
  refine ⟨h.positive, h.consistent, fun part hpart => ?_⟩
  show upload.requiredBytes part.partNumber = some part.bytes
  rcases mem_append.1 hpart with hpart | hpart
  · exact h.parts part (mem_of_mem_filter hpart)
  · rw [mem_singleton.1 hpart]
    exact hentry

/-- The engine's parts, in their order, are numbered from `index + 1` and are the staged ones. -/
theorem agreesFrom_total {size : ℕ → ℕ} {index : ℕ} {staged engine : List PartSize}
    (hstaged : ∀ part ∈ staged, part.bytes = size part.partNumber)
    (h : agreesFrom index staged engine = .ok ()) :
    totalBytes engine = ∑ k ∈ Finset.range engine.length, size (index + 1 + k) := by
  fun_induction agreesFrom index staged engine with
  | case1 => rfl
  | case2 | case3 | case4 | case5 | case6 => cases h
  | case7 index left restStaged right rest hnumber hleft hbytes ih =>
    have hright : right.bytes = size (index + 1) := by
      rw [← not_not.1 hbytes, hstaged left mem_cons_self, not_not.1 hleft, not_not.1 hnumber]
    have hrest := ih (fun part hpart => hstaged part (mem_cons_of_mem _ hpart)) h
    have htotal : totalBytes (right :: rest) = right.bytes + totalBytes rest := rfl
    rw [htotal, hrest, hright, length_cons, Finset.sum_range_succ', add_comm]
    refine congrArg₂ _ (Finset.sum_congr rfl fun k _ => ?_) rfl
    rw [show index + 1 + (k + 1) = index + 1 + 1 + k by omega]

/-- **What a transfer reserved is what its document weighs.** -/
theorem measureParts_plaintextBytes {upload : Upload} {engine : EngineLedger}
    {framing : DerivedFraming} (hexact : upload.Exact)
    (h : measureParts upload engine = .ok framing) :
    framing.plaintextBytes = upload.declaredPlaintextBytes := by
  have hconsistent := hexact.consistent
  obtain ⟨hcount, -, -⟩ := documentChunkCountFor_bounds hexact.positive hconsistent
  unfold measureParts at h
  split at h
  · cases h
  rename_i hagrees
  split at h
  · exact nomatch h
  rename_i hlength
  rw [not_not] at hlength
  unfold assertLedgerAgreesWithEngine at hagrees
  split at hagrees
  · cases hagrees
  have hstaged : ∀ part ∈ sortedByNumber (upload.parts.map (·.size)), part.bytes = segmentBytes
      upload.declaredPlaintextBytes upload.chunkPlaintextBytes upload.declaredChunkCount
      part.partNumber := by
    intro part hpart
    have hmem := (perm_insertionSort _ _).mem_iff.1 hpart
    obtain ⟨entry, hentry, rfl⟩ := mem_map.1 hmem
    exact hexact.segmentBytes (hexact.parts entry hentry)
  have htotal : totalBytes engine.sizes
      = documentCiphertextBytesFor upload.declaredPlaintextBytes upload.declaredChunkCount := by
    rw [agreesFrom_total hstaged hagrees, hlength,
      ← sum_segmentBytes hexact.positive hconsistent]
    refine Finset.sum_congr rfl fun k _ => ?_
    rw [show 0 + 1 + k = k + 1 by omega]
  have hplaintext : documentPlaintextBytesFor (totalBytes engine.sizes) engine.sizes.length
      = upload.declaredPlaintextBytes := by
    rw [htotal, hlength]
    unfold documentPlaintextBytesFor documentCiphertextBytesFor
    push_cast
    omega
  unfold deriveFraming at h
  dsimp only at h
  rw [hplaintext] at h
  split at h
  · cases h
  · split at h
    · exact nomatch h
    · cases h
      rfl

end HVault.Documents
