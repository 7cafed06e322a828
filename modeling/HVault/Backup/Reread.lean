import HVault.Backup.Accepted

/-!
# What the schemas make of a written manifest

Writing a manifest as JSON and checking it against the schema gives the manifest that was written,
where it is accepted at all (`manifestSchema_written`). Each property is looked up by its name in
what was written (`lookup_present`), and each kind of value is read as itself.
-/

namespace HVault.Backup

open Json Reader Documents

/-! ## Records -/

theorem DocumentResponse.nodup (row : DocumentResponse) : (row.properties.map (·.1)).Nodup := by
  show List.Nodup ["_id", "folderId", "favorite", "encryptedDek", "dekIv", "dekTag", "streamSalt",
    "noncePrefix", "encryptedMeta", "metaIv", "metaTag", "chunkPlaintextBytes", "chunkCount",
    "ciphertextBytes", "plaintextBytes", "purgePending", "deletedAt", "createdAt", "updatedAt"]
  decide

/-- Every property of a row is read back as it was written, in the order of the schema. -/
theorem documentResponseSchema_rereads (formats : Formats) :
    Rereads (documentResponseSchema formats) DocumentResponse.json := by
  intro row y h
  obtain ⟨fields, hfields, h⟩ := bind_ok h
  cases hfields
  replace h := required_bind row.id row.nodup (stringThat_rereads _) (by simp) h
  replace h := optional_bind row.folderId row.nodup string_rereads (by simp) h
  replace h := required_bind row.favorite row.nodup boolean_rereads (by simp) h
  replace h := required_bind row.encryptedDek row.nodup (stringThat_rereads _) (by simp) h
  replace h := required_bind row.dekIv row.nodup (stringThat_rereads _) (by simp) h
  replace h := required_bind row.dekTag row.nodup (stringThat_rereads _) (by simp) h
  replace h := required_bind row.streamSalt row.nodup (stringThat_rereads _) (by simp) h
  replace h := required_bind row.noncePrefix row.nodup (stringThat_rereads _) (by simp) h
  replace h := required_bind row.encryptedMeta row.nodup (stringThat_rereads _) (by simp) h
  replace h := required_bind row.metaIv row.nodup (stringThat_rereads _) (by simp) h
  replace h := required_bind row.metaTag row.nodup (stringThat_rereads _) (by simp) h
  replace h := required_bind row.chunkPlaintextBytes row.nodup (atLeast_rereads _) (by simp) h
  replace h := required_bind row.chunkCount row.nodup (between_rereads _ _) (by simp) h
  replace h := required_bind row.ciphertextBytes row.nodup (atLeast_rereads _) (by simp) h
  replace h := required_bind row.plaintextBytes row.nodup (atLeast_rereads _) (by simp) h
  replace h := optional_bind row.purgePending row.nodup boolean_rereads (by simp) h
  replace h := optional_bind row.deletedAt row.nodup string_rereads (by simp) h
  replace h := required_bind row.createdAt row.nodup (stringThat_rereads _) (by simp) h
  replace h := required_bind row.updatedAt row.nodup (stringThat_rereads _) (by simp) h
  unfold refineRow at h
  split_ifs at h
  cases h
  rfl

theorem FullBackupEntry.nodup (entry : FullBackupEntry) : (entry.properties.map (·.1)).Nodup := by
  show List.Nodup ["row", "offset", "length"]
  decide

theorem entrySchema_rereads (formats : Formats) :
    Rereads (entrySchema formats) FullBackupEntry.json := by
  intro entry y h
  obtain ⟨fields, hfields, h⟩ := bind_ok h
  cases hfields
  replace h :=
    required_bind entry.row entry.nodup (documentResponseSchema_rereads formats) (by simp) h
  replace h := required_bind entry.offset entry.nodup (atLeast_rereads _) (by simp) h
  replace h := required_bind entry.length entry.nodup (atLeast_rereads _) (by simp) h
  cases h
  rfl

theorem reason_rereads : Rereads reason fun reason => .string (units reason.text) := by
  intro x y h
  obtain ⟨s, hs, h⟩ := bind_ok h
  cases hs
  have hne : ∀ {a b : String}, a ≠ b → units a ≠ units b := fun hab heq => hab (units_injective heq)
  cases x with
  | unreadable =>
    rw [if_pos (show units OmittedReason.unreadable.text = units "unreadable" from rfl)] at h
    cases h
    rfl
  | deleted =>
    rw [if_neg (hne (by decide)),
      if_pos (show units OmittedReason.deleted.text = units "deleted" from rfl)] at h
    cases h
    rfl
  | contentsMissing =>
    rw [if_neg (hne (by decide)), if_neg (hne (by decide)), if_pos
      (show units OmittedReason.contentsMissing.text = units "contents-missing" from rfl)] at h
    cases h
    rfl

theorem OmittedDocument.nodup (omitted : OmittedDocument) :
    (omitted.properties.map (·.1)).Nodup := by
  show List.Nodup ["id", "reason"]
  decide

theorem omittedSchema_rereads : Rereads omittedSchema OmittedDocument.json := by
  intro omitted y h
  obtain ⟨fields, hfields, h⟩ := bind_ok h
  cases hfields
  replace h := required_bind omitted.id omitted.nodup (stringThat_rereads _) (by simp) h
  replace h := required_bind omitted.reason omitted.nodup reason_rereads (by simp) h
  cases h
  rfl

/-- The properties of a manifest with its signature. -/
@[simp] def signedProperties (manifest : FullBackupManifest) (integrity : Utf16) :
    List (String × Option Value) :=
  manifest.properties ++ [("integrity", some (.string integrity))]

theorem nodup_signedProperties (manifest : FullBackupManifest) (integrity : Utf16) :
    ((signedProperties manifest integrity).map (·.1)).Nodup := by
  show List.Nodup ["format", "formatVersion", "createdAt", "vault", "documents", "omitted",
    "unlisted", "integrity"]
  decide

/-- A manifest that is written and accepted is the one that was written. -/
theorem manifestSchema_written {formats : Formats} {manifest manifest' : FullBackupManifest}
    {integrity integrity' : Utf16} (hvault : writtenFields manifest.vault = manifest.vault)
    (h : manifestSchema formats
      (.object (writtenFields (present (signedProperties manifest integrity)))) =
        .ok (manifest', integrity')) : manifest' = manifest ∧ integrity' = integrity := by
  have hnodup := nodup_signedProperties manifest integrity
  obtain ⟨fields, hfields, h⟩ := bind_ok h
  cases hfields
  obtain ⟨-, -, h⟩ := bind_ok h
  obtain ⟨-, -, h⟩ := bind_ok h
  replace h := required_bind manifest.createdAt hnodup (stringThat_rereads _) (by simp) h
  obtain ⟨vault, hread, h⟩ := bind_ok h
  obtain rfl : vault = manifest.vault := by
    obtain ⟨v, hv, hobject⟩ := required_ok hread
    rw [lookup_writtenFields,
      lookup_present hnodup (v := some (.object manifest.vault)) (by simp)] at hv
    cases hv
    rw [Value.written, hvault] at hobject
    cases hobject
    rfl
  replace h := required_bind manifest.documents hnodup
    (array_rereads (entrySchema_rereads formats)) (by simp) h
  replace h :=
    required_bind manifest.omitted hnodup (array_rereads omittedSchema_rereads) (by simp) h
  replace h := required_bind manifest.unlisted hnodup (between_rereads _ _) (by simp) h
  obtain ⟨signature, hsignature, h⟩ := bind_ok h
  have hsame : signature = integrity :=
    required_rereads hnodup (stringThat_rereads _) (by simp) hsignature
  obtain ⟨rfl, rfl⟩ := Prod.mk.inj (Except.ok.inj h)
  exact ⟨rfl, hsame⟩

/-! ## Order -/

theorem ordered_number (n : ℕ) : Ordered (number n) := .number _

theorem ordered_row (row : DocumentResponse) : Ordered row.json := by
  refine ordered_present row.nodup ?_ ?_
  · show ∀ name ∈ ["_id", "folderId", "favorite", "encryptedDek", "dekIv", "dekTag", "streamSalt",
      "noncePrefix", "encryptedMeta", "metaIv", "metaTag", "chunkPlaintextBytes", "chunkCount",
      "ciphertextBytes", "plaintextBytes", "purgePending", "deletedAt", "createdAt", "updatedAt"],
      isName (units name)
    decide
  · simp [Ordered.string, Ordered.bool, ordered_number]
    rintro v (⟨-, rfl⟩ | ⟨-, rfl⟩)
    · exact .bool _
    · exact .bool _

theorem ordered_entry (entry : FullBackupEntry) : Ordered entry.json := by
  refine ordered_present entry.nodup ?_ ?_
  · show ∀ name ∈ ["row", "offset", "length"], isName (units name)
    decide
  · simp [ordered_row, ordered_number]

theorem ordered_omitted (omitted : OmittedDocument) : Ordered omitted.json := by
  refine ordered_present omitted.nodup ?_ ?_
  · show ∀ name ∈ ["id", "reason"], isName (units name)
    decide
  · simp [Ordered.string]

theorem ordered_manifest (manifest : FullBackupManifest) (integrity : Utf16)
    (hvault : Ordered (.object manifest.vault)) :
    Ordered (.object (present (signedProperties manifest integrity))) := by
  have hdocuments : Ordered (.array (manifest.documents.map FullBackupEntry.json)) := by
    refine .array fun v hv => ?_
    obtain ⟨entry, -, rfl⟩ := List.mem_map.1 hv
    exact ordered_entry entry
  have homitted : Ordered (.array (manifest.omitted.map OmittedDocument.json)) := by
    refine .array fun v hv => ?_
    obtain ⟨omitted, -, rfl⟩ := List.mem_map.1 hv
    exact ordered_omitted omitted
  refine ordered_present (nodup_signedProperties manifest integrity) ?_ ?_
  · show ∀ name ∈ ["format", "formatVersion", "createdAt", "vault", "documents", "omitted",
      "unlisted", "integrity"], isName (units name)
    decide
  · simp [Ordered.string, ordered_number, hvault,
      hdocuments, homitted]

end HVault.Backup
