import HVault.Backup.RoundTrip

/-!
# What holds of full backups

* `full_backup_tiled`: in every file that the reader accepts, the parts, the documents and their
  segments lie end to end;
* `full_backup_round_trip`: what was written and is accepted is read as it was written.
-/

namespace HVault.Backup

open Json Reader Documents List FullBackupWriter

variable {sign : List Char → Utf16} {fields : FullBackupWriter.Fields} {w w' : FullBackupWriter}
  {summary : WrittenFullBackup}

/-- A finished file is refused for what its manifest says, and for nothing else. -/
theorem openFullBackupFile_finished (formats : Formats) (hheader : fullBackupHeader <+: w.target)
    (hfinished : w.finish sign fields = .ok (w', summary)) :
    openFullBackupFile formats w'.target =
      (openManifest formats w'.target (.object (writtenFields (present
        (signedProperties (w.manifest fields) (sign (w.canonical fields))))))).mapError
          fullBackupFormatError := by
  obtain ⟨hlarge, hfile⟩ := finish_spec hfinished
  have hordered := ordered_manifest (w.manifest fields) (sign (w.canonical fields))
    fields.vault.ordered
  rw [hfile]
  exact openFullBackupFile_file formats rfl hordered rfl hheader hlarge

theorem lengthOf_written {properties : List (String × Option Value)} (name : String)
    (items : List Value) (hnodup : (properties.map (·.1)).Nodup)
    (hmem : (name, some (.array items)) ∈ properties) :
    lengthOf name (.object (writtenFields (present properties))) = items.length := by
  unfold lengthOf
  simp only [lookup_writtenFields, lookup_present hnodup hmem, Option.map_some, Value.written]
  rw [writtenItems_eq, length_map]

variable {formats : Formats}

theorem openManifest_ok {file : Bytes} {raw : List (Utf16 × Value)}
    {manifest : FullBackupManifest} {integrity : Utf16}
    (hfew : lengthOf "documents" (.object raw) + lengthOf "omitted" (.object raw) ≤
      maxDocumentsPerRotation)
    (hschema : manifestSchema formats (.object raw) = .ok (manifest, integrity))
    (hcontents : checkContents manifest (manifestStart file) = .ok ()) :
    openManifest formats file (.object raw) =
      .ok ⟨manifest, integrity, canonicalManifest raw, readSegment file⟩ := by
  unfold openManifest
  rw [if_neg (not_lt.2 hfew), hschema]
  show (do
    checkContents manifest (manifestStart file)
    _) = _
  rw [hcontents]
  rfl

/-- How many documents the manifest of a finished file lists. -/
theorem lengthOf_finished (sign : List Char → Utf16) (fields : FullBackupWriter.Fields)
    (w : FullBackupWriter) :
    lengthOf "documents" (.object (writtenFields (present
        (signedProperties (w.manifest fields) (sign (w.canonical fields)))))) +
      lengthOf "omitted" (.object (writtenFields (present
        (signedProperties (w.manifest fields) (sign (w.canonical fields)))))) =
      w.documents.length + fields.omitted.length := by
  have hnodup := nodup_signedProperties (w.manifest fields) (sign (w.canonical fields))
  rw [lengthOf_written "documents" (w.documents.map FullBackupEntry.json) hnodup (by
      simp [manifest]),
    lengthOf_written "omitted" (fields.omitted.map OmittedDocument.json) hnodup (by
      simp [manifest]),
    length_map, length_map]

/-- A finished file is accepted when its manifest is. -/
theorem accepted_of_finished (hheader : fullBackupHeader <+: w.target)
    (hfinished : w.finish sign fields = .ok (w', summary))
    (hfew : w.documents.length + fields.omitted.length ≤ maxDocumentsPerRotation)
    (hschema : (manifestSchema formats (.object (writtenFields (present
      (signedProperties (w.manifest fields) (sign (w.canonical fields))))))).isOk)
    (hcontents : checkContents (w.manifest fields) w.target.length = .ok ()) :
    ∃ opened, openFullBackupFile formats w'.target = .ok opened := by
  obtain ⟨hlarge, hfile⟩ := finish_spec hfinished
  have hstart : manifestStart w'.target = w.target.length := by
    rw [hfile]
    exact manifestStart_file hlarge
  rw [← hstart] at hcontents
  rw [openFullBackupFile_finished formats hheader hfinished]
  cases hread : manifestSchema formats (.object (writtenFields (present
      (signedProperties (w.manifest fields) (sign (w.canonical fields)))))) with
  | error path =>
    rw [hread] at hschema
    cases hschema
  | ok read =>
    obtain ⟨manifest, integrity⟩ := read
    obtain ⟨rfl, rfl⟩ := manifestSchema_written fields.vault.written hread
    rw [openManifest_ok (by rwa [lengthOf_finished]) hread hcontents]
    exact ⟨_, rfl⟩

/-- The manifest that is read of a finished file is the one that was written. -/
theorem Opens.raw {opened : OpenedFullBackup} {raw : List (Utf16 × Value)}
    (h : Opens formats w'.target opened raw)
    (hfinished : w.finish sign fields = .ok (w', summary)) :
    writtenFields (present (signedProperties (w.manifest fields) (sign (w.canonical fields)))) =
      raw := by
  obtain ⟨hlarge, hfile⟩ := finish_spec hfinished
  have hordered := ordered_manifest (w.manifest fields) (sign (w.canonical fields))
    fields.vault.ordered
  have hread := @readManifest_file w.target _ _ _ rfl hordered rfl hlarge
  have hmanifest := h.manifest
  rw [hfile] at hmanifest
  exact Value.object.inj (Except.ok.inj (hread.symm.trans hmanifest))

/-! ## A full backup of one document -/

/-- A document of two bytes, framed in segments of one. -/
def sampleRow : DocumentResponse where
  id := units "0123456789abcdef01234567"
  folderId := none
  favorite := false
  encryptedDek := units "AA=="
  dekIv := units "AA=="
  dekTag := units "AA=="
  streamSalt := units "AAAAAAAAAAAAAAAAAAAAAAAAAAAAAAAAAAAAAAAAAAA="
  noncePrefix := units "AAAAAAAAAA=="
  encryptedMeta := units "AA=="
  metaIv := units "AA=="
  metaTag := units "AA=="
  chunkPlaintextBytes := 1
  chunkCount := 2
  ciphertextBytes := 34
  plaintextBytes := 2
  purgePending := none
  deletedAt := none
  createdAt := units "2026-01-02T03:04:05.678Z"
  updatedAt := units "2026-01-02T03:04:05.678Z"

def sampleSegments : List Bytes := [List.replicate 17 7, List.replicate 17 9]

/-- A vault backup with nothing in it. -/
def sampleFields : FullBackupWriter.Fields where
  createdAt := units "2026-01-02T03:04:05.678Z"
  vault := ⟨[], .object .nil nofun, rfl⟩
  omitted := []
  unlisted := 0

def sampleFormats : Formats := ⟨fun s => s.length = 24, fun s => s.length % 4 = 0⟩

def sampleSign : List Char → Utf16 := fun _ => List.replicate 64 0x61

/-- The writer once the document has been added. -/
def sampleWriter : FullBackupWriter where
  target := fullBackupHeader ++ sampleSegments.flatten
  documents := [⟨sampleRow, 16, 34⟩]
  offset := 50

def sampleEncoded : Bytes :=
  sampleWriter.encoded (sampleSign (sampleWriter.canonical sampleFields)) sampleFields

/-- The writer of the finished file. -/
def sampleFinished : FullBackupWriter :=
  (sampleWriter.write sampleEncoded).write (fullBackupFooter sampleEncoded.length)

theorem sample_added :
    new.begin.addDocuments [(sampleRow, sampleSegments)] = .ok sampleWriter := by
  rfl

theorem sample_finished : sampleWriter.finish sampleSign sampleFields =
    .ok (sampleFinished, ⟨sampleWriter.sizeWith sampleEncoded.length, 1⟩) := by
  have hlarge : ¬ maxFullBackupManifestBytes < sampleEncoded.length := by decide +kernel
  unfold finish
  rw [if_neg (by decide)]
  exact if_neg hlarge

theorem sample_accepted :
    ∃ opened, openFullBackupFile sampleFormats sampleFinished.target = .ok opened := by
  refine accepted_of_finished (holds_begin.addDocuments sample_added).header sample_finished ?_ ?_ ?_
  · decide
  · decide +kernel
  · decide

theorem sample_framing : ∀ document ∈ [(sampleRow, sampleSegments)],
    RightFraming document.1 document.2 := by
  refine forall_mem_singleton.2 ⟨rfl, fun i hi hlast => ?_⟩
  obtain rfl : i = 0 := by
    change i + 1 < 2 at hlast
    omega
  rfl

/-! ## The laws -/

/-- **An accepted file is tiled**: header, document region, manifest and footer lie end to end, so do
the documents in their region, and the ranges that a document's segments are read from. -/
theorem full_backup_tiled {formats : Formats} {file : Bytes} {opened : OpenedFullBackup}
    (h : openFullBackupFile formats file = .ok opened) : Tiled file opened := by
  obtain ⟨raw, hopens⟩ := openFullBackupFile_spec h
  exact hopens.tiled

theorem full_backup_tiled_sample : ∃ opened,
    openFullBackupFile sampleFormats sampleFinished.target = .ok opened ∧
      Tiled sampleFinished.target opened := by
  obtain ⟨opened, hopened⟩ := sample_accepted
  exact ⟨opened, hopened, full_backup_tiled hopened⟩

/-- What the reader finds of what was written. -/
structure Reread (sign : List Char → Utf16) (fields : FullBackupWriter.Fields)
    (documents : List (DocumentResponse × List Bytes)) (w : FullBackupWriter)
    (opened : OpenedFullBackup) : Prop where
  manifest : opened.manifest = w.manifest fields
  payload : opened.signedPayload = w.canonical fields
  signature : opened.signature = sign (w.canonical fields)
  segments : List.Forall₂ (fun entry document => entry.row = document.1 ∧
    (List.range entry.row.chunkCount).map (fun i : ℕ => opened.readSegment entry i) =
      document.2.map Except.ok) opened.manifest.documents documents

/-- **A full backup that is written is read** as it was written, when it is opened: the manifest, the
signed text and the segments of all documents. -/
theorem full_backup_round_trip {formats : Formats} {sign : List Char → Utf16}
    {documents : List (DocumentResponse × List Bytes)} {fields : FullBackupWriter.Fields}
    {w w' : FullBackupWriter} {summary : WrittenFullBackup} {opened : OpenedFullBackup}
    (hframing : ∀ document ∈ documents, RightFraming document.1 document.2)
    (hadded : FullBackupWriter.new.begin.addDocuments documents = .ok w)
    (hfinished : w.finish sign fields = .ok (w', summary))
    (hopened : openFullBackupFile formats w'.target = .ok opened) :
    Reread sign fields documents w opened := by
  have hholds : Holds documents w := holds_begin.addDocuments hadded
  obtain ⟨-, hfile⟩ := finish_spec hfinished
  obtain ⟨raw, hopens⟩ := openFullBackupFile_spec hopened
  obtain rfl := hopens.raw hfinished
  obtain ⟨hsame, hsignature⟩ := @manifestSchema_written _ (w.manifest fields) _ _ _
    fields.vault.written hopens.schema
  have htiled := hopens.tiled
  refine ⟨hsame, ?_, hsignature, ?_⟩
  · rw [hopens.payload]
    exact canonicalManifest_written _ _
  · have hsegments := htiled.segments
    rw [hopens.segments]
    rw [hsame] at hsegments ⊢
    refine readAll_stored (hholds.stored.imp fun entry document hs => ?_) hsegments hframing
    rw [hfile]
    exact hs.append _

theorem full_backup_round_trip_sample : ∃ opened,
    openFullBackupFile sampleFormats sampleFinished.target = .ok opened ∧
      Reread sampleSign sampleFields [(sampleRow, sampleSegments)] sampleWriter opened := by
  obtain ⟨opened, hopened⟩ := sample_accepted
  exact ⟨opened, hopened,
    full_backup_round_trip sample_framing sample_added sample_finished hopened⟩

end HVault.Backup
