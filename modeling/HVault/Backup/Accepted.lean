import HVault.Backup.FullBackup

/-!
# What the reader accepts

`Opens.tiled`: in a file that is opened, header, document region, manifest and footer lie end to end,
the documents tile their region in the order of the manifest, and the ranges that the segments are
read from tile each document.

The documents line up because the reader adds up their lengths (`lineUp_spec`), and the segments
because the two refinements of a row tie its four numbers together (`refineRow_spec`).
-/

namespace HVault.Backup

open Json Reader Documents Nat FullBackupEntry

/-! ## Rows -/

variable {α : Type} {schema : Value → Checked α}

/-- The numbers of a row fit each other. -/
structure Framed (row : DocumentResponse) : Prop where
  positive : 1 ≤ row.chunkPlaintextBytes
  count : row.chunkCount = documentChunkCountFor row.plaintextBytes row.chunkPlaintextBytes
  size : row.ciphertextBytes = documentCiphertextBytesFor row.plaintextBytes row.chunkCount

variable {row : DocumentResponse}

theorem refineRow_spec {row' : DocumentResponse} (h : refineRow row = .ok row')
    (hpos : 1 ≤ row.chunkPlaintextBytes) : row' = row ∧ Framed row := by
  unfold refineRow at h
  split_ifs at h with hframing hsize
  cases h
  rw [not_not] at hsize
  refine ⟨rfl, hpos, ?_, ?_⟩
  · unfold DocumentResponse.hasConsistentFraming at hframing
    exact (of_decide_eq_true hframing).resolve_left (by omega)
  · unfold documentPlaintextBytesFor at hsize
    unfold documentCiphertextBytesFor
    omega

variable {formats : Formats}

/-- What the schema has read of the numbers of a row, and that the row is refined. -/
theorem documentResponseSchema_ok (h : documentResponseSchema formats v = .ok row) :
    ∃ fields, object v = .ok fields ∧
      required "chunkPlaintextBytes" (atLeast 1) fields = .ok row.chunkPlaintextBytes ∧
      required "ciphertextBytes" (atLeast documentTagBytes) fields = .ok row.ciphertextBytes ∧
      Framed row := by
  obtain ⟨fields, hfields, h⟩ := bind_ok h
  obtain ⟨id, -, h⟩ := bind_ok h
  obtain ⟨folderId, -, h⟩ := bind_ok h
  obtain ⟨favorite, -, h⟩ := bind_ok h
  obtain ⟨encryptedDek, -, h⟩ := bind_ok h
  obtain ⟨dekIv, -, h⟩ := bind_ok h
  obtain ⟨dekTag, -, h⟩ := bind_ok h
  obtain ⟨streamSalt, -, h⟩ := bind_ok h
  obtain ⟨noncePrefix, -, h⟩ := bind_ok h
  obtain ⟨encryptedMeta, -, h⟩ := bind_ok h
  obtain ⟨metaIv, -, h⟩ := bind_ok h
  obtain ⟨metaTag, -, h⟩ := bind_ok h
  obtain ⟨chunkPlaintextBytes, hchunk, h⟩ := bind_ok h
  obtain ⟨chunkCount, -, h⟩ := bind_ok h
  obtain ⟨ciphertextBytes, hsize, h⟩ := bind_ok h
  obtain ⟨plaintextBytes, -, h⟩ := bind_ok h
  obtain ⟨purgePending, -, h⟩ := bind_ok h
  obtain ⟨deletedAt, -, h⟩ := bind_ok h
  obtain ⟨createdAt, -, h⟩ := bind_ok h
  obtain ⟨updatedAt, -, h⟩ := bind_ok h
  obtain ⟨v, -, hv⟩ := required_ok hchunk
  obtain ⟨rfl, hframed⟩ := refineRow_spec h (atLeast_ok hv)
  exact ⟨fields, hfields, hchunk, hsize, hframed⟩

theorem documentResponseSchema_framed (h : documentResponseSchema formats v = .ok row) :
    Framed row := by
  obtain ⟨-, -, -, -, hframed⟩ := documentResponseSchema_ok h
  exact hframed

variable {entry : FullBackupEntry}

theorem entrySchema_framed (h : entrySchema formats v = .ok entry) : Framed entry.row := by
  obtain ⟨fields, -, h⟩ := bind_ok h
  obtain ⟨row, hrow, h⟩ := bind_ok h
  obtain ⟨offset, -, h⟩ := bind_ok h
  obtain ⟨length, -, h⟩ := bind_ok h
  cases h
  obtain ⟨v, -, hv⟩ := required_ok hrow
  exact documentResponseSchema_framed hv

theorem manifestSchema_framed {manifest : FullBackupManifest} {integrity : Utf16}
    (h : manifestSchema formats v = .ok (manifest, integrity)) :
    ∀ entry ∈ manifest.documents, Framed entry.row := by
  obtain ⟨fields, -, h⟩ := bind_ok h
  obtain ⟨-, -, h⟩ := bind_ok h
  obtain ⟨-, -, h⟩ := bind_ok h
  obtain ⟨createdAt, -, h⟩ := bind_ok h
  obtain ⟨vault, -, h⟩ := bind_ok h
  obtain ⟨documents, hdocuments, h⟩ := bind_ok h
  obtain ⟨omitted, -, h⟩ := bind_ok h
  obtain ⟨unlisted, -, h⟩ := bind_ok h
  obtain ⟨integrity, -, h⟩ := bind_ok h
  cases h
  obtain ⟨v, -, hv⟩ := required_ok hdocuments
  obtain ⟨items, -, hall⟩ := array_ok hv
  exact forall_of_elements (fun _ _ => entrySchema_framed) hall

/-! ## Ranges -/

/-- Where a document's stored object sits in the file. -/
def FullBackupEntry.range (entry : FullBackupEntry) : Span :=
  ⟨entry.offset, entry.offset + entry.length⟩

/-- Documents that line up tile the region from where they are expected. -/
theorem lineUp_spec {documents : List FullBackupEntry} {seen seen' : List Utf16} {start stop : ℕ}
    (h : lineUp documents seen start = .ok (seen', stop)) :
    Tiles start stop (documents.map range) ∧
      ∀ entry ∈ documents, entry.length = entry.row.ciphertextBytes := by
  induction documents generalizing seen start with
  | nil =>
    cases h
    exact ⟨rfl, nofun⟩
  | cons entry documents ih =>
    unfold lineUp at h
    split at h
    · cases h
    · split_ifs at h with hseen hline
      rw [not_or, not_not, not_not] at hline
      obtain ⟨htiles, hlengths⟩ := ih h
      rw [← hline.1] at htiles
      refine ⟨⟨hline.1, le_add_right _ _, htiles⟩, ?_⟩
      exact List.forall_mem_cons.2 ⟨hline.2, hlengths⟩

theorem checkContents_spec {manifest : FullBackupManifest} {start : ℕ}
    (h : checkContents manifest start = .ok ()) :
    Tiles fullBackupHeaderBytes start (manifest.documents.map range) ∧
      ∀ entry ∈ manifest.documents, entry.length = entry.row.ciphertextBytes := by
  obtain ⟨-, h⟩ := guard_ok h
  obtain ⟨⟨seen, expectedOffset⟩, hline, h⟩ := bind_ok h
  obtain ⟨hstart, -⟩ := guard_ok h
  rw [not_not] at hstart
  rw [← hstart]
  exact lineUp_spec hline

/-- In a row whose numbers fit, all segments but the last are full and the last is no longer. -/
theorem Framed.strides (h : Framed row) :
    1 ≤ row.chunkCount ∧
      (row.chunkCount - 1) * (row.chunkPlaintextBytes + documentTagBytes) + documentTagBytes ≤
        row.ciphertextBytes ∧
      row.ciphertextBytes ≤ row.chunkCount * (row.chunkPlaintextBytes + documentTagBytes) := by
  obtain ⟨hone, hlow, hhigh⟩ := documentChunkCountFor_bounds h.positive h.count
  obtain ⟨n, hn⟩ := exists_eq_add_one_of_ne_zero (by omega : row.chunkCount ≠ 0)
  have hsize := h.size
  unfold documentCiphertextBytesFor at hsize
  rw [hn, Nat.add_sub_cancel] at hlow
  rw [hn] at hhigh hsize ⊢
  rw [Nat.add_sub_cancel]
  have hleft : n * (row.chunkPlaintextBytes + documentTagBytes) =
      n * row.chunkPlaintextBytes + documentTagBytes * n := by ring
  have hright : (n + 1) * (row.chunkPlaintextBytes + documentTagBytes) =
      (n + 1) * row.chunkPlaintextBytes + documentTagBytes * (n + 1) := by ring
  have htags : documentTagBytes * (n + 1) = documentTagBytes * n + documentTagBytes := by ring
  refine ⟨by omega, ?_, ?_⟩
  · omega
  · omega

theorem length_segmentSpan (entry : FullBackupEntry) (i : ℕ) :
    (segmentSpan entry i).length =
      min (entry.offset + entry.length)
        (entry.offset + i * (entry.row.chunkPlaintextBytes + documentTagBytes) +
          (entry.row.chunkPlaintextBytes + documentTagBytes)) -
        (entry.offset + i * (entry.row.chunkPlaintextBytes + documentTagBytes)) := rfl

/-- The segments of a document whose entry has the length of its row. -/
structure SegmentsTile (entry : FullBackupEntry) : Prop where
  tiles : Tiles entry.offset (entry.offset + entry.length)
    ((List.range entry.row.chunkCount).map (segmentSpan entry))
  full : ∀ i, i + 1 < entry.row.chunkCount →
    (segmentSpan entry i).length = entry.row.chunkPlaintextBytes + documentTagBytes
  last : ∀ i, i + 1 = entry.row.chunkCount → documentTagBytes ≤ (segmentSpan entry i).length ∧
    (segmentSpan entry i).length ≤ entry.row.chunkPlaintextBytes + documentTagBytes

theorem Framed.segmentsTile (h : Framed entry.row)
    (hlength : entry.length = entry.row.ciphertextBytes) : SegmentsTile entry := by
  obtain ⟨hone, hlow, hhigh⟩ := h.strides
  obtain ⟨n, hn⟩ := exists_eq_add_one_of_ne_zero (by omega : entry.row.chunkCount ≠ 0)
  rw [← hlength] at hlow hhigh
  rw [hn, Nat.add_sub_cancel] at hlow
  rw [hn] at hhigh
  refine ⟨?_, fun i hi => ?_, fun i hi => ?_⟩
  · rw [hn]
    exact tiles_strides (by omega) (by omega)
  · have hle : (i + 1) * (entry.row.chunkPlaintextBytes + documentTagBytes) ≤
        n * (entry.row.chunkPlaintextBytes + documentTagBytes) := mul_le_mul_right _ (by omega)
    rw [add_mul, one_mul] at hle
    rw [length_segmentSpan]
    omega
  · have hi : i = n := by omega
    subst hi
    rw [add_mul, one_mul] at hhigh
    rw [length_segmentSpan]
    omega

/-! ## Opened files -/

variable {file : Bytes}

theorem checkLayout_spec (h : checkLayout file = .ok ()) :
    fullBackupHeaderBytes + fullBackupFooterBytes ≤ file.length ∧
      declaredManifestBytes file ≤
        file.length - fullBackupHeaderBytes - fullBackupFooterBytes := by
  unfold checkLayout at h
  dsimp only at h
  split_ifs at h with hshort hmagic hnewer hheader hfooter hdeclared
  exact ⟨by omega, by omega⟩

/-- What an opened file was found to be. -/
structure Opens (formats : Formats) (file : Bytes) (opened : OpenedFullBackup)
    (raw : List (Utf16 × Value)) : Prop where
  layout : checkLayout file = .ok ()
  manifest : readManifest file = .ok (.object raw)
  schema : manifestSchema formats (.object raw) = .ok (opened.manifest, opened.signature)
  contents : checkContents opened.manifest (manifestStart file) = .ok ()
  payload : opened.signedPayload = canonicalManifest raw
  segments : opened.readSegment = readSegment file

variable {opened : OpenedFullBackup}

theorem openFullBackupFile_spec (h : openFullBackupFile formats file = .ok opened) :
    ∃ raw, Opens formats file opened raw := by
  obtain ⟨_, hlayout, h⟩ := bind_ok (mapError_ok h)
  obtain ⟨raw, hraw, h⟩ := bind_ok h
  obtain ⟨-, h⟩ := guard_ok h
  obtain ⟨⟨manifest, integrity⟩, hschema, h⟩ := bind_ok h
  obtain ⟨_, hcontents, h⟩ := bind_ok h
  obtain ⟨fields, hfields, h⟩ := bind_ok h
  cases h
  have hobject : raw = .object fields := by
    have hfields := mapError_ok hfields
    unfold object at hfields
    split at hfields
    · cases hfields
      rfl
    · cases hfields
  rw [hobject] at hraw hschema
  exact ⟨fields, hlayout, hraw, mapError_ok hschema, hcontents, rfl, rfl⟩

/-- The documents that an opened file lists, of both kinds, are as many as an account can hold. -/
theorem openFullBackupFile_few {raw : Value} (h : openFullBackupFile formats file = .ok opened)
    (hraw : readManifest file = .ok raw) :
    lengthOf "documents" raw + lengthOf "omitted" raw ≤ maxDocumentsPerRotation := by
  obtain ⟨_, -, h⟩ := bind_ok (mapError_ok h)
  obtain ⟨raw', hraw', h⟩ := bind_ok h
  obtain rfl : raw = raw' := Except.ok.inj (hraw.symm.trans hraw')
  exact not_lt.1 (guard_ok h).1

theorem readSegment_eq {i : ℕ} (hi : i < entry.row.chunkCount) :
    readSegment file entry i = .ok ((segmentSpan entry i).slice file) := by
  have hcount : ¬ (entry.row.chunkCount : ℚ) ≤ i := by
    rw [not_le]
    exact_mod_cast hi
  have hnonneg : ¬ (i : ℚ) < 0 := not_lt.2 (cast_nonneg i)
  unfold readSegment
  rw [if_neg (by simp [hcount, hnonneg])]
  rfl

/-- Header, document region, manifest and footer of an opened file, its documents and their
segments. -/
structure Tiled (file : Bytes) (opened : OpenedFullBackup) : Prop where
  whole : Tiles 0 file.length
    [⟨0, fullBackupHeaderBytes⟩, ⟨fullBackupHeaderBytes, manifestStart file⟩,
      ⟨manifestStart file, file.length - fullBackupFooterBytes⟩,
      ⟨file.length - fullBackupFooterBytes, file.length⟩]
  documents : Tiles fullBackupHeaderBytes (manifestStart file)
    (opened.manifest.documents.map FullBackupEntry.range)
  segments : ∀ entry ∈ opened.manifest.documents, SegmentsTile entry
  read : ∀ entry ∈ opened.manifest.documents, ∀ i < entry.row.chunkCount,
    opened.readSegment entry i = .ok ((segmentSpan entry i).slice file) ∧
      (segmentSpan entry i).start ≤ (segmentSpan entry i).stop ∧
        (segmentSpan entry i).stop ≤ file.length

theorem Opens.tiled {raw : List (Utf16 × Value)} (h : Opens formats file opened raw) :
    Tiled file opened := by
  obtain ⟨hsize, hdeclared⟩ := checkLayout_spec h.layout
  obtain ⟨hdocuments, hlengths⟩ := checkContents_spec h.contents
  have hframed := manifestSchema_framed h.schema
  have hmanifest : fullBackupHeaderBytes ≤ manifestStart file ∧
      manifestStart file ≤ file.length - fullBackupFooterBytes := by
    unfold manifestStart
    omega
  have hsegments : ∀ entry ∈ opened.manifest.documents, SegmentsTile entry :=
    fun entry hentry => (hframed entry hentry).segmentsTile (hlengths entry hentry)
  refine ⟨?_, hdocuments, hsegments, fun entry hentry i hi => ?_⟩
  · exact ⟨rfl, zero_le _, rfl, hmanifest.1, rfl, hmanifest.2, rfl, sub_le _ _, rfl⟩
  · have hspan := (hsegments entry hentry).tiles.bounds
      (List.mem_map_of_mem (List.mem_range.2 hi))
    have hrange := hdocuments.bounds (List.mem_map_of_mem hentry)
    have hstop : entry.offset + entry.length ≤ manifestStart file := hrange.2.2
    rw [h.segments]
    exact ⟨readSegment_eq hi, hspan.2.1, by omega⟩

end HVault.Backup
