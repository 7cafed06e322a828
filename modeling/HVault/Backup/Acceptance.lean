import HVault.Backup.Reread

/-!
# When the schemas accept what is written

`manifestSchema_accepts`: a manifest that is written is accepted exactly when its rows are, its ids
and its signature are hexadecimal, its date is a date, and its numbers are within their bounds and
exact as doubles. Each property is one step (`required_step`).
-/

namespace HVault.Backup

open Json Reader Documents List Value

/-! ## Records -/

theorem entrySchema_accepts {formats : Formats} {entry : FullBackupEntry} :
    entrySchema formats entry.json.written = .ok entry ↔
      documentResponseSchema formats entry.row.json.written = .ok entry.row ∧
        (fullBackupHeaderBytes ≤ entry.offset ∧ entry.offset < 2 ^ 53) ∧
          documentTagBytes ≤ entry.length ∧ entry.length < 2 ^ 53 := by
  unfold FullBackupEntry.json entrySchema
  rw [written, object_step,
    required_step entry.row entry.nodup (documentResponseSchema_rereads formats) (by simp),
    required_step entry.offset entry.nodup (atLeast_rereads _) (by simp),
    required_step entry.length entry.nodup (atLeast_rereads _) (by simp),
    atLeast_written, atLeast_written]
  exact and_congr_right fun _ => and_congr_right fun _ => and_iff_left rfl

/-- The size of a row that is accepted is exact as a double, and holds a tag. -/
theorem ciphertextBytes_accepted {formats : Formats} {row : DocumentResponse}
    (h : documentResponseSchema formats row.json.written = .ok row) :
    documentTagBytes ≤ row.ciphertextBytes ∧ row.ciphertextBytes < 2 ^ 53 := by
  obtain ⟨fields, hfields, -, hsize, -⟩ := documentResponseSchema_ok h
  cases hfields
  have hmem : ("ciphertextBytes", some (number row.ciphertextBytes)) ∈ row.properties := by simp
  exact atLeast_written.1 (required_written row.nodup (atLeast_rereads _) hmem hsize)

theorem reason_written (r : OmittedReason) : reason (Value.string (units r.text)).written = .ok r := by
  cases r with
  | unreadable => rfl
  | deleted => rfl
  | contentsMissing => rfl

theorem omittedSchema_accepts {omitted : OmittedDocument} :
    omittedSchema omitted.json.written = .ok omitted ↔ isHex 24 omitted.id := by
  unfold OmittedDocument.json omittedSchema
  rw [Value.written, object_step,
    required_step omitted.id omitted.nodup (stringThat_rereads _) (by simp),
    required_step omitted.reason omitted.nodup reason_rereads (by simp), stringThat_written]
  exact and_iff_left ⟨reason_written _, rfl⟩

theorem literal_rereads (text : String) :
    Rereads (literal text) fun _ => .string (units text) := fun _ _ _ => rfl

/-- What the schema asks of a manifest that is written. -/
structure Accepts (formats : Formats) (manifest : FullBackupManifest) (integrity : Utf16) :
    Prop where
  createdAt : formats.datetime manifest.createdAt
  documents : ∀ entry ∈ manifest.documents,
    documentResponseSchema formats entry.row.json.written = .ok entry.row ∧
      (fullBackupHeaderBytes ≤ entry.offset ∧ entry.offset < 2 ^ 53) ∧
        documentTagBytes ≤ entry.length ∧ entry.length < 2 ^ 53
  omitted : ∀ omitted ∈ manifest.omitted, isHex 24 omitted.id
  unlisted : manifest.unlisted ≤ maxDocumentsPerRotation
  integrity : isHex 64 integrity

theorem manifestSchema_accepts {formats : Formats} {manifest : FullBackupManifest}
    {integrity : Utf16} (hvault : writtenFields manifest.vault = manifest.vault) :
    manifestSchema formats
        (.object (writtenFields (present (signedProperties manifest integrity)))) =
      .ok (manifest, integrity) ↔ Accepts formats manifest integrity := by
  have hnodup := nodup_signedProperties manifest integrity
  have hformat : literal fullBackupFormat (Value.string (units fullBackupFormat)).written =
      .ok () := rfl
  unfold manifestSchema
  rw [object_step, required_step () hnodup (literal_rereads fullBackupFormat) (by simp),
    required_step fullBackupFormatVersion hnodup (between_rereads _ _) (by simp),
    required_step manifest.createdAt hnodup (stringThat_rereads _) (by simp),
    object_required hnodup (by simp) hvault,
    required_step manifest.documents hnodup (array_rereads (entrySchema_rereads formats)) (by simp),
    required_step manifest.omitted hnodup (array_rereads omittedSchema_rereads) (by simp),
    required_step manifest.unlisted hnodup (between_rereads _ _) (by simp),
    required_step integrity hnodup (stringThat_rereads _) (by simp),
    stringThat_written, stringThat_written, between_written, between_written,
    @array_written _ _ FullBackupEntry.json, @array_written _ _ OmittedDocument.json]
  simp only [entrySchema_accepts, omittedSchema_accepts]
  constructor
  · rintro ⟨-, -, hcreated, hdocuments, homitted, ⟨-, hunlisted⟩, hintegrity, -⟩
    exact ⟨hcreated, hdocuments, homitted, hunlisted, hintegrity⟩
  · rintro ⟨hcreated, hdocuments, homitted, hunlisted, hintegrity⟩
    have hexact : manifest.unlisted < 2 ^ 53 := lt_of_le_of_lt hunlisted (by decide)
    exact ⟨hformat, by decide, hcreated, hdocuments, homitted, ⟨⟨Nat.zero_le _, hexact⟩, hunlisted⟩,
      hintegrity, rfl⟩

end HVault.Backup
