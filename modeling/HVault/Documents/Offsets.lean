import HVault.Documents.Budget
import HVault.Documents.Ledger

/-!
# Where the segments of a committed document lie

A committed document is read one segment at a time, from offsets computed out of its row. The row
was framed from the sizes the engine reported for the parts, and the offsets are those at which the
parts lie: `Document.Readable` says so, and `measureParts_readable` that the checks of a completion
establish it. `documents_readable` carries it through every run of the requests of an account.
-/

namespace HVault.Documents

open Interleave List Option Nat

/-! ## The ledger -/

/-- A ledger that names each part once, with the bytes of all of them. -/
structure Upload.Summed (upload : Upload) : Prop where
  once : (upload.parts.map (·.partNumber)).Nodup
  sum : upload.receivedBytes = totalBytes (upload.parts.map (·.size))

theorem nodup_replacePart {parts : List LedgerPart} (h : (parts.map (·.partNumber)).Nodup)
    (entry : LedgerPart) : ((replacePart entry parts).map (·.partNumber)).Nodup := by
  rw [replacePart, map_append, nodup_append]
  refine ⟨h.sublist (filter_sublist.map _), by simp, ?_⟩
  intro n hn m hm
  obtain ⟨part, hpart, rfl⟩ := mem_map.1 hn
  have hne : part.partNumber ≠ entry.partNumber := by simpa using (mem_filter.1 hpart).2
  rwa [mem_singleton.1 hm]

/-- A part that is sent again replaces itself. -/
theorem Upload.Summed.withPart {upload : Upload} (h : upload.Summed) (entry : LedgerPart) :
    (upload.withPart entry).Summed :=
  ⟨nodup_replacePart h.once entry, rfl⟩

theorem Upload.summed_blank (upload : Upload) : upload.blank.Summed := ⟨nodup_nil, rfl⟩

theorem Upload.Summed.foldl_withPart {upload : Upload} (h : upload.Summed)
    (entries : List LedgerPart) : (entries.foldl Upload.withPart upload).Summed := by
  induction entries generalizing upload with
  | nil => exact h
  | cons entry entries ih => exact ih (h.withPart entry)

/-! ## The segments of a framing -/

section Segments

variable {plaintextBytes chunkPlaintextBytes chunkCount index : ℕ}

/-- A segment of a consistent framing has a range, which begins at its multiple of the segment size
and ends where the next one begins, or with the object. -/
theorem exists_segmentRange (hpos : 0 < chunkPlaintextBytes)
    (h : chunkCount = documentChunkCountFor plaintextBytes chunkPlaintextBytes)
    (hindex : index < chunkCount) :
    let ciphertextBytes := documentCiphertextBytesFor plaintextBytes chunkCount
    let segmentBytes := chunkPlaintextBytes + documentTagBytes
    ∃ range, segmentRange index chunkCount chunkPlaintextBytes ciphertextBytes = some range ∧
      range.start = index * segmentBytes ∧ range.start ≤ range.last ∧
      range.length = range.last - range.start + 1 ∧ range.last < ciphertextBytes ∧
      range.last + 1 = if index + 1 = chunkCount then ciphertextBytes
        else (index + 1) * segmentBytes := by
  obtain ⟨hcount, hfull, hall⟩ := documentChunkCountFor_bounds hpos h
  obtain ⟨full, rfl⟩ : ∃ full, chunkCount = full + 1 := ⟨chunkCount - 1, by omega⟩
  rw [Nat.add_sub_cancel] at hfull
  have htag : documentTagBytes = 16 := rfl
  have hsegments : (full + 1) * (chunkPlaintextBytes + documentTagBytes)
      = (full + 1) * chunkPlaintextBytes + (full + 1) * documentTagBytes := mul_add _ _ _
  have hfullSegments : full * (chunkPlaintextBytes + documentTagBytes)
      = full * chunkPlaintextBytes + full * documentTagBytes := mul_add _ _ _
  have htags : (full + 1) * documentTagBytes = full * documentTagBytes + documentTagBytes :=
    succ_mul _ _
  have hnext : (index + 1) * (chunkPlaintextBytes + documentTagBytes)
      = index * (chunkPlaintextBytes + documentTagBytes)
        + (chunkPlaintextBytes + documentTagBytes) := succ_mul _ _
  have hcomm : documentTagBytes * (full + 1) = (full + 1) * documentTagBytes := mul_comm _ _
  unfold segmentRange documentCiphertextBytesFor
  dsimp only
  rw [if_neg (by omega), if_neg (by omega), Nat.add_sub_cancel, if_neg (by omega)]
  refine ⟨_, rfl, rfl, ?_⟩
  dsimp only
  by_cases hlast : index = full
  · subst hlast
    rw [if_pos rfl, if_pos rfl]
    refine ⟨?_, rfl, ?_, ?_⟩ <;> omega
  · have hbefore : (index + 1) * (chunkPlaintextBytes + documentTagBytes)
        ≤ full * (chunkPlaintextBytes + documentTagBytes) := mul_le_mul_right _ (by omega)
    rw [if_neg hlast, if_neg (by omega)]
    refine ⟨?_, rfl, ?_, ?_⟩ <;> omega

end Segments

/-! ## Reading a document -/

/-- The range of one segment of a document. -/
def Document.range (document : Document) (index : ℕ) : Option SegmentRange :=
  segmentRange index document.chunkCount document.chunkPlaintextBytes document.ciphertextBytes

/-- What a read of a segment is refused for. -/
inductive SegmentError where
  | outside (chunkCount index : ℕ)
  | rangeError
  deriving DecidableEq, Repr

/-- The range a read of one segment asks the engine for. -/
def Document.getSegment (document : Document) (index : ℕ) : Except SegmentError SegmentRange :=
  if document.chunkCount ≤ index then .error (.outside document.chunkCount index)
  else
    match document.range index with
    | none => .error .rangeError
    | some range => .ok range

/-- The sizes of a document agree, its segments tile the object, and each lies where the part of
its number was stored. -/
structure Document.Readable (document : Document) (stored : List PartSize) : Prop where
  plaintext : documentPlaintextBytesFor document.ciphertextBytes document.chunkCount
    = document.plaintextBytes
  count : document.chunkCount
    = documentChunkCountFor document.plaintextBytes document.chunkPlaintextBytes
  parts : stored.length = document.chunkCount
  segment : ∀ index < document.chunkCount, ∃ range part, document.range index = some range ∧
    stored[index]? = some part ∧ part.partNumber = index + 1 ∧ range.length = part.bytes ∧
    expectedPartSize (index + 1) document.chunkCount document.chunkPlaintextBytes
      document.ciphertextBytes = some part.bytes
  inside : ∀ index range, document.range index = some range →
    range.start + range.length = range.last + 1 ∧ range.last < document.ciphertextBytes
  tiles : ∀ byte < document.ciphertextBytes, ∃! index, index < document.chunkCount ∧
    ∃ range, document.range index = some range ∧ range.start ≤ byte ∧ byte ≤ range.last
  reads : ∀ index, document.getSegment index ≠ .error .rangeError

/-! ## What a completion checks -/

section Checks

variable {index : ℕ} {staged engine : List PartSize} {part : PartSize}
  {chunkCount chunkPlaintextBytes ciphertextBytes : ℕ}

/-- The engine's parts are numbered in a row. -/
theorem agreesFrom_number (h : agreesFrom index staged engine = .ok ()) {i : ℕ}
    (hpart : engine[i]? = some part) : part.partNumber = index + 1 + i := by
  fun_induction agreesFrom index staged engine generalizing i with
  | case1 => simp at hpart
  | case2 => cases h
  | case3 => cases h
  | case4 => cases h
  | case5 => cases h
  | case6 => cases h
  | case7 index left restStaged right rest hnumber hleft hbytes ih =>
    cases i with
    | zero =>
      rw [getElem?_cons_zero, some_inj] at hpart
      rw [← hpart, not_not.1 hnumber, add_zero]
    | succ i =>
      rw [getElem?_cons_succ] at hpart
      rw [ih h hpart]
      omega

/-- Every part has the one size of its number. -/
theorem checkSegments_ok
    (h : checkSegments chunkCount chunkPlaintextBytes ciphertextBytes engine = .ok ())
    (hpart : part ∈ engine) :
    expectedPartSize part.partNumber chunkCount chunkPlaintextBytes ciphertextBytes
      = some part.bytes := by
  induction engine with
  | nil => simp at hpart
  | cons head rest ih =>
    unfold checkSegments at h
    split at h
    · cases h
    · rename_i required hrequired
      split at h
      · cases h
      · rename_i hbytes
        rcases mem_cons.1 hpart with heq | hpart
        · rw [heq, hrequired, not_not.1 hbytes]
        · exact ih h hpart

theorem expectedPartSize_pos {bytes : ℕ}
    (h : expectedPartSize part.partNumber chunkCount chunkPlaintextBytes ciphertextBytes
      = some bytes) : 0 < chunkPlaintextBytes := by
  unfold expectedPartSize at h
  split at h
  · cases h
  obtain ⟨range, hrange, -⟩ := map_eq_some_iff.1 h
  unfold segmentRange at hrange
  split at hrange
  · cases hrange
  · omega

theorem lt_of_segmentRange {range : SegmentRange}
    (h : segmentRange index chunkCount chunkPlaintextBytes ciphertextBytes = some range) :
    index < chunkCount := by
  unfold segmentRange at h
  split at h
  · cases h
  split at h
  · cases h
  · omega

/-- A part has the size of its segment. -/
theorem length_of_expectedPartSize {bytes : ℕ} {range : SegmentRange}
    (h : expectedPartSize (index + 1) chunkCount chunkPlaintextBytes ciphertextBytes = some bytes)
    (hrange : segmentRange index chunkCount chunkPlaintextBytes ciphertextBytes = some range) :
    range.length = bytes := by
  unfold expectedPartSize at h
  split at h
  · cases h
  rw [Nat.add_sub_cancel, hrange, map_some, some_inj] at h
  exact h

/-- Ranges that begin at the multiples of a size and meet tile the object. -/
theorem tiles_of_segments {segmentBytes : ℕ} (hpos : 0 < segmentBytes)
    (hrange : ∀ index < chunkCount, ∃ range,
      segmentRange index chunkCount chunkPlaintextBytes ciphertextBytes = some range ∧
      range.start = index * segmentBytes ∧ range.last + 1 = if index + 1 = chunkCount
        then ciphertextBytes else (index + 1) * segmentBytes)
    (hsize : ciphertextBytes ≤ chunkCount * segmentBytes) {byte : ℕ}
    (hbyte : byte < ciphertextBytes) :
    ∃! index, index < chunkCount ∧ ∃ range,
      segmentRange index chunkCount chunkPlaintextBytes ciphertextBytes = some range ∧
      range.start ≤ byte ∧ byte ≤ range.last := by
  have hdiv := div_add_mod byte segmentBytes
  have hmod := mod_lt byte hpos
  have hlt : byte / segmentBytes < chunkCount :=
    (div_lt_iff_lt_mul hpos).2 (lt_of_lt_of_le hbyte hsize)
  have hnext : ∀ index, (index + 1) * segmentBytes = index * segmentBytes + segmentBytes :=
    fun index => succ_mul index segmentBytes
  rw [mul_comm] at hdiv
  refine ⟨byte / segmentBytes, ⟨hlt, ?_⟩, ?_⟩
  · obtain ⟨range, hsegment, hstart, hlast⟩ := hrange _ hlt
    refine ⟨range, hsegment, by omega, ?_⟩
    have := hnext (byte / segmentBytes)
    split at hlast <;> omega
  · rintro index ⟨hindex, range, hsegment, hle, hge⟩
    obtain ⟨range', hsegment', hstart, hlast⟩ := hrange index hindex
    cases hsegment.symm.trans hsegment'
    have hbefore : byte < (index + 1) * segmentBytes := by
      split at hlast
      · rename_i hend
        rw [hend]
        omega
      · omega
    -- `byte` lies between two multiples of the size that follow each other
    have hquotient := Nat.div_eq_of_lt_le (by omega) hbefore
    exact hquotient.symm

/-- What a completion has established of the parts it accepts. -/
theorem measureParts_ok {upload : Upload} {engine : EngineLedger} {framing : DerivedFraming}
    (h : measureParts upload engine = .ok framing) :
    agreesFrom 0 (sortedByNumber (upload.parts.map (·.size))) engine.sizes = .ok () ∧
    framing.chunkCount = engine.sizes.length ∧
    framing.chunkCount = upload.declaredChunkCount ∧
    framing.ciphertextBytes = totalBytes engine.sizes ∧
    documentPlaintextBytesFor framing.ciphertextBytes framing.chunkCount = framing.plaintextBytes ∧
    framing.chunkCount = documentChunkCountFor framing.plaintextBytes upload.chunkPlaintextBytes ∧
    checkSegments framing.chunkCount upload.chunkPlaintextBytes framing.ciphertextBytes
      engine.sizes = .ok () := by
  unfold measureParts assertLedgerAgreesWithEngine at h
  split at h
  · cases h
  rename_i hagrees
  split at hagrees
  · cases hagrees
  split at h
  · cases h
  rename_i hdeclared
  unfold deriveFraming at h
  dsimp only at h
  split at h
  · cases h
  rename_i hframes
  rw [not_or, not_not] at hframes
  split at h
  · cases h
  rename_i hsegments
  cases h
  have hplaintext := Int.toNat_of_nonneg (Int.not_lt.1 hframes.1)
  exact ⟨hagrees, rfl, not_not.1 hdeclared, rfl, hplaintext.symm, hframes.2, hsegments⟩

/-- **A document is readable at the offsets its parts were written at.** -/
theorem measureParts_readable {upload : Upload} {engine : EngineLedger} {framing : DerivedFraming}
    (h : measureParts upload engine = .ok framing) (body : CompleteDocumentUploadInput)
    (folderId : Option ℕ) :
    (Measured.document ⟨upload, engine, framing⟩ body folderId).Readable engine.sizes := by
  obtain ⟨hagrees, hlength, -, hcipher, hplaintext, hcount, hsegments⟩ := measureParts_ok h
  have hnonempty : 0 < engine.sizes.length := by
    rw [← hlength, hcount]
    exact lt_of_lt_of_le one_pos (le_max_left _ _)
  have hpos : 0 < upload.chunkPlaintextBytes :=
    expectedPartSize_pos (checkSegments_ok hsegments (getElem_mem hnonempty))
  have hobject : framing.ciphertextBytes =
      documentCiphertextBytesFor framing.plaintextBytes framing.chunkCount := by
    unfold documentPlaintextBytesFor at hplaintext
    unfold documentCiphertextBytesFor
    omega
  have hsegment : ∀ index < framing.chunkCount, ∃ range, segmentRange index framing.chunkCount
      upload.chunkPlaintextBytes framing.ciphertextBytes = some range ∧
      range.start = index * (upload.chunkPlaintextBytes + documentTagBytes) ∧
      range.start ≤ range.last ∧ range.length = range.last - range.start + 1 ∧
      range.last < framing.ciphertextBytes ∧
      range.last + 1 = if index + 1 = framing.chunkCount then framing.ciphertextBytes
        else (index + 1) * (upload.chunkPlaintextBytes + documentTagBytes) := by
    intro index hindex
    rw [hobject]
    exact exists_segmentRange hpos hcount hindex
  have hsize : framing.ciphertextBytes
      ≤ framing.chunkCount * (upload.chunkPlaintextBytes + documentTagBytes) := by
    have hall := (documentChunkCountFor_bounds hpos hcount).2.2
    rw [hobject, documentCiphertextBytesFor, mul_add, mul_comm documentTagBytes]
    omega
  refine ⟨hplaintext, hcount, hlength.symm, ?_, ?_, ?_, ?_⟩
  · intro index hindex
    have hlt : index < engine.sizes.length := hlength ▸ hindex
    obtain ⟨range, hrange, -⟩ := hsegment index hindex
    have hpart : engine.sizes[index]? = some engine.sizes[index] := getElem?_eq_getElem hlt
    have hnumber := agreesFrom_number hagrees hpart
    have hexpected := checkSegments_ok hsegments (getElem_mem hlt)
    rw [hnumber, zero_add, add_comm] at hexpected
    have hlen := length_of_expectedPartSize hexpected hrange
    exact ⟨range, _, hrange, hpart, by omega, hlen, hexpected⟩
  · intro index range hrange
    obtain ⟨range', hrange', -, hle, hlen, hinside, -⟩ := hsegment index (lt_of_segmentRange hrange)
    cases some_inj.1 (hrange'.symm.trans hrange)
    exact ⟨by omega, hinside⟩
  · intro byte hbyte
    refine tiles_of_segments (by omega) (fun index hindex => ?_) hsize hbyte
    obtain ⟨range, hrange, hstart, -, -, -, hlast⟩ := hsegment index hindex
    exact ⟨range, hrange, hstart, hlast⟩
  · intro index hread
    unfold Document.getSegment at hread
    split at hread
    · cases hread
    · rename_i hindex
      obtain ⟨range, hrange, -⟩ := hsegment index (not_le.1 hindex)
      have hfound : (Measured.document ⟨upload, engine, framing⟩ body folderId).range index
          = some range := hrange
      rw [hfound] at hread
      cases hread

/-! ## No range is asked for that is not there -/

theorem agreesFrom_ne_rangeError (index : ℕ) (staged engine : List PartSize) :
    agreesFrom index staged engine ≠ .error .rangeError := by
  fun_induction agreesFrom index staged engine with
  | case7 index left restStaged right rest h₁ h₂ h₃ ih => exact ih
  | _ => simp

theorem exists_of_checkSegments
    (h : checkSegments chunkCount chunkPlaintextBytes ciphertextBytes engine = .error .rangeError) :
    ∃ part ∈ engine,
      expectedPartSize part.partNumber chunkCount chunkPlaintextBytes ciphertextBytes = none := by
  induction engine with
  | nil => cases h
  | cons head rest ih =>
    unfold checkSegments at h
    split at h
    · rename_i hnone
      exact ⟨head, mem_cons_self, hnone⟩
    · split at h
      · cases h
      · obtain ⟨part, hpart, hnone⟩ := ih h
        exact ⟨part, mem_cons_of_mem _ hpart, hnone⟩

/-- The re-measuring of a completion never asks for a size that does not exist: what is checked
before it has made the numbers consistent. -/
theorem measureParts_ne_rangeError {upload : Upload} (hpos : 0 < upload.chunkPlaintextBytes)
    (engine : EngineLedger) : measureParts upload engine ≠ .error .rangeError := by
  intro h
  unfold measureParts assertLedgerAgreesWithEngine at h
  split at h
  · rename_i e hagrees
    cases h
    split at hagrees
    · cases hagrees
    · exact agreesFrom_ne_rangeError _ _ _ hagrees
  rename_i hagrees
  split at hagrees
  · cases hagrees
  split at h
  · cases h
  unfold deriveFraming at h
  dsimp only at h
  split at h
  · cases h
  rename_i hframes
  rw [not_or, not_not] at hframes
  have hplaintext := Int.toNat_of_nonneg (Int.not_lt.1 hframes.1)
  split at h
  · rename_i e hsegments
    cases h
    obtain ⟨part, hpart, hnone⟩ := exists_of_checkSegments hsegments
    obtain ⟨i, hi⟩ := List.getElem?_of_mem hpart
    have hlt : i < engine.sizes.length := (List.getElem?_eq_some_iff.1 hi).1
    have hnumber := agreesFrom_number hagrees hi
    have hobject : totalBytes engine.sizes = documentCiphertextBytesFor
        (documentPlaintextBytesFor (totalBytes engine.sizes) engine.sizes.length).toNat
        engine.sizes.length := by
      unfold documentPlaintextBytesFor at hplaintext ⊢
      unfold documentCiphertextBytesFor
      omega
    rw [hobject, expectedPartSize_eq hpos hframes.2 (by omega) (by omega)] at hnone
    cases hnone
  · cases h

/-- Nor does a part of a transfer that was opened here. -/
theorem checkPart_ne_rangeError (d : Deployment) (body : InitDocumentUploadInput)
    (now vaultKeyVersion : ℕ) (uploadId : ObjectId) (s3UploadId : Option ℕ) {request : PartRequest}
    (hnumber : 1 ≤ request.partNumber) (part : PartBody) :
    checkPart (body.staged d now vaultKeyVersion uploadId s3UploadId) request part
      ≠ .error .rangeError := by
  intro h
  unfold checkPart at h
  split at h
  · cases h
  rename_i hcount
  split at h
  · cases h
  split at h
  · rename_i hnone
    have hsize := expectedPartSize_eq (by decide) body.consistent hnumber (not_lt.1 hcount)
    exact absurd (hsize.symm.trans hnone) (by simp)
  · split at h
    · cases h
    split at h
    · cases h
    split at h <;> cases h

end Checks

end HVault.Documents
