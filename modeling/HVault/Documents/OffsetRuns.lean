import HVault.Documents.Count
import HVault.Documents.Offsets
import HVault.Interleave.Trace

/-!
# Committed documents stay readable

A completion heeds what it has read: a document it brings into the store is that of the staging row
it looked up and of the parts the engine answered with (`Measured.ReadIn`), and it has measured
these. `OnlyMeasured` is that law of its accesses, whatever the store and the engine answer.
`Store.Sound` is what follows for the rows of an account in every run: every document is readable at
the offsets of the parts that were stored for it.
-/

namespace HVault.Documents

open Interleave Option Prog Finmap Budget List

variable {α β : Type} {s s' : Store} {d : Deployment}

/-! ## What a completion reads -/

/-- The accesses a request has made, each with the store it found and the store it left. -/
abbrev Accesses := List (Site × Store × Store)

/-- What the engine has answered about the parts of a transfer: the object of a transfer of one
segment, the parts it lists of an open multipart upload or, where it no longer knows that upload, an
object as long as the ledger of the transfer. -/
inductive EngineLedger.Answered (ws : Accesses) (upload : Upload) : EngineLedger → Prop
  | object {s s' : Store} {object : StoredObject} (hone : upload.declaredChunkCount = 1)
      (hread : (.headObject, s, s') ∈ ws)
      (hobject : s.objects.lookup upload.objectKey = some object) :
      Answered ws upload (.object [⟨1, object.bytes⟩])
  | multipart {s s' : Store} {s3UploadId : ℕ} {multipart : Multipart}
      (hid : upload.s3UploadId = some s3UploadId) (hread : (.listParts, s, s') ∈ ws)
      (hmultipart : s.multiparts.lookup s3UploadId = some multipart) :
      Answered ws upload (.multipart s3UploadId multipart.parts)
  | assembled {s s' s₁ s₁' : Store} {s3UploadId : ℕ} {object : StoredObject}
      (hid : upload.s3UploadId = some s3UploadId) (hread : (.listParts, s, s') ∈ ws)
      (hgone : s.multiparts.lookup s3UploadId = none) (hread₁ : (.headObject, s₁, s₁') ∈ ws)
      (hobject : s₁.objects.lookup upload.objectKey = some object)
      (hbytes : object.bytes = totalBytes (upload.parts.map (·.size))) :
      Answered ws upload (.object (sortedByNumber (upload.parts.map (·.size))))

/-- The transfer is what a request has read and measured: the staging row it looked up under `id`,
with the parts the engine answered with. -/
structure Measured.ReadIn (ws : Accesses) (id : ObjectId) (transfer : Measured) : Prop where
  row : ∃ s s', (.readUpload, s, s') ∈ ws ∧ s.uploads.lookup id = some transfer.upload
  parts : transfer.engine.Answered ws transfer.upload
  measured : measureParts transfer.upload transfer.engine = .ok transfer.framing

variable {ws ws' : Accesses} {id : ObjectId} {transfer : Measured}
  {M : ObjectId → Measured → Prop}

/-- What was answered stays answered. -/
theorem EngineLedger.Answered.mono {upload : Upload} {engine : EngineLedger}
    (h : engine.Answered ws upload) (hws : ws ⊆ ws') : engine.Answered ws' upload := by
  cases h with
  | object hone hread hobject => exact .object hone (hws hread) hobject
  | multipart hid hread hmultipart => exact .multipart hid (hws hread) hmultipart
  | assembled hid hread hgone hread₁ hobject hbytes =>
    exact .assembled hid (hws hread) hgone (hws hread₁) hobject hbytes

/-- What was read stays read. -/
theorem Measured.ReadIn.mono (h : transfer.ReadIn ws id) (hws : ws ⊆ ws') :
    transfer.ReadIn ws' id where
  row := by
    obtain ⟨s, s', hread, hrow⟩ := h.row
    exact ⟨s, s', hws hread, hrow⟩
  parts := h.parts.mono hws
  measured := h.measured

/-! ## What a request commits -/

/-- Two rows that name the same object, framed in the same way. -/
structure Document.SameObject (document before : Document) : Prop where
  objectKey : document.objectKey = before.objectKey
  chunkPlaintextBytes : document.chunkPlaintextBytes = before.chunkPlaintextBytes
  chunkCount : document.chunkCount = before.chunkCount
  ciphertextBytes : document.ciphertextBytes = before.ciphertextBytes
  plaintextBytes : document.plaintextBytes = before.plaintextBytes

theorem Document.SameObject.refl (document : Document) : document.SameObject document :=
  ⟨rfl, rfl, rfl, rfl, rfl⟩

/-- What a read goes by is the object and its framing. -/
theorem Document.SameObject.readable {document before : Document}
    (h : document.SameObject before) {stored : List PartSize} (hread : before.Readable stored) :
    document.Readable stored := by
  obtain ⟨plaintext, count, parts, segment, inside, tiles, reads⟩ := hread
  refine ⟨?_, ?_, ?_, ?_, ?_, ?_, ?_⟩ <;>
    simp only [Document.getSegment, Document.range, h.chunkCount, h.chunkPlaintextBytes,
      h.ciphertextBytes, h.plaintextBytes]
  all_goals assumption

variable (M) in
/-- What every access of every request keeps of the rows: the ledgers add up, and a document is one
that was there or that of a transfer in `M`. -/
structure OnlyMeasured (s s' : Store) : Prop where
  uploads : (∀ id upload, s.uploads.lookup id = some upload → upload.Summed) →
    ∀ id upload, s'.uploads.lookup id = some upload → upload.Summed
  documents : ∀ id document, s'.documents.lookup id = some document →
    (∃ before, s.documents.lookup id = some before ∧ document.SameObject before) ∨
    ∃ (transfer : Measured) (body : CompleteDocumentUploadInput) (folderId : Option ℕ),
      M id transfer ∧ document = transfer.document body folderId

/-- No row is new or changed. -/
theorem OnlyMeasured.of_sub
    (huploads : ∀ id upload, s'.uploads.lookup id = some upload → s.uploads.lookup id = some upload)
    (hdocuments : ∀ id document, s'.documents.lookup id = some document →
      s.documents.lookup id = some document) : OnlyMeasured M s s' where
  uploads hs id upload h := hs id upload (huploads id upload h)
  documents id document h := .inl ⟨document, hdocuments id document h, .refl document⟩

theorem OnlyMeasured.of_eq (huploads : s'.uploads = s.uploads)
    (hdocuments : s'.documents = s.documents) : OnlyMeasured M s s' :=
  .of_sub (fun _ _ h => huploads ▸ h) fun _ _ h => hdocuments ▸ h

variable (M) in
/-- A program that commits transfers in `M` only. -/
abbrev CommitsMeasured (p : Req α) : Prop :=
  p.Each (fun _ => True) fun _ s s' => OnlyMeasured M s s'

theorem Budget.Calms.commitsMeasured {p : Req α} (hp : Budget.Calms p) : CommitsMeasured M p :=
  hp.each.mono fun _ _ _ _ h => .of_eq h.uploads h.documents

theorem commitsMeasured_read {l : Site} {f : Store → β} : CommitsMeasured M (.read l f : Req β) :=
  each_read fun _ _ => .of_eq rfl rfl

theorem lookup_of_erase {id id' : ObjectId} {m : Finmap fun _ : ObjectId => β} {v : β}
    (h : (m.erase id).lookup id' = some v) : m.lookup id' = some v := by
  by_cases hid : id' = id
  · subst hid
    rw [lookup_erase] at h
    cases h
  · rwa [lookup_erase_ne hid] at h

variable (id)

theorem onlyMeasured_eraseUpload (s : Store) : OnlyMeasured M s (s.eraseUpload id) :=
  .of_sub (fun _ _ h => lookup_of_erase h) fun _ _ h => h

theorem onlyMeasured_claimUpload (filter : Upload → Bool) (s : Store) :
    OnlyMeasured M s (s.claimUpload id filter).2 := by
  rcases s.claimUpload_cases id filter with h | ⟨upload, -, -, h⟩
  · rw [h]
    exact .of_eq rfl rfl
  · rw [h]
    exact onlyMeasured_eraseUpload id s

theorem onlyMeasured_eraseDocument (s : Store) : OnlyMeasured M s (s.eraseDocument id) :=
  .of_sub (fun _ _ h => h) fun _ _ h => lookup_of_erase h

theorem commitsMeasured_eraseDocument {l : Site} :
    CommitsMeasured M (.db l fun s => ((), s.eraseDocument id) : Req Unit) :=
  each_db fun s _ => onlyMeasured_eraseDocument id s

theorem commitsMeasured_acquire (name : LockName) (ttl : ℕ) :
    CommitsMeasured M (acquireJobLock name ttl) :=
  each_db fun s _ =>
    have hrows := acquireStatement_rows name ttl s
    .of_eq hrows.1 hrows.2.1

theorem commitsMeasured_release (name : LockName) (lockId : ℕ) :
    CommitsMeasured M (releaseJobLock name lockId) :=
  each_db fun s _ =>
    have hrows := releaseStatement_rows name lockId s
    .of_eq hrows.1 hrows.2.1

theorem commitsMeasured_releaseTransfer (transfer : Measured) :
    CommitsMeasured M (releaseTransfer id transfer) := by
  refine .bind (calms_releaseStorage id transfer).commitsMeasured.attempt ?_
  exact fun _ => each_db fun s _ => onlyMeasured_eraseUpload id s

theorem commitsMeasured_claimTransfer (transfer : Measured) :
    CommitsMeasured M (claimTransfer id transfer) := by
  unfold claimTransfer
  cases transfer.engine with
  | object parts =>
    refine .bind (each_db fun s _ => onlyMeasured_claimUpload id _ s) ?_
    intro claimed
    cases claimed <;> exact trivial
  | multipart s3UploadId parts => exact each_db fun s _ => onlyMeasured_eraseUpload id s

theorem commitsMeasured_confirmAccount (document : Document) :
    CommitsMeasured M (confirmAccount id document) := by
  refine .bind commitsMeasured_read fun live => ?_
  split
  · exact trivial
  · refine .bind (commitsMeasured_eraseDocument id) fun _ => ?_
    exact .bind (calms_discardUnnamedObject id _).commitsMeasured fun _ => trivial

theorem commitsMeasured_compensateInsert (document : Document) (e : DocumentError) :
    CommitsMeasured M (compensateInsert id document e) :=
  .bind (calms_discardUnnamedObject id _).commitsMeasured fun _ => trivial

/-- The one insert of a document row, with the row of a transfer in `M`. -/
theorem commitsMeasured_insertDocumentRow (hM : M id transfer)
    (body : CompleteDocumentUploadInput) (folderId : Option ℕ) :
    CommitsMeasured M (insertDocumentRow id (transfer.document body folderId)) := by
  have hinsert : ∀ s : Store,
      OnlyMeasured M s (s.insertDocument id (transfer.document body folderId)).2 := by
    intro s
    rcases s.insertDocument_cases id (transfer.document body folderId) with h | ⟨-, h⟩
    · rw [h]
      exact .of_eq rfl rfl
    · rw [h]
      refine ⟨fun hs => hs, fun id' document hlookup => ?_⟩
      by_cases hid : id' = id
      · subst hid
        rw [lookup_insert, some_inj] at hlookup
        exact .inr ⟨transfer, body, folderId, hM, hlookup.symm⟩
      · rw [lookup_insert_of_ne _ hid] at hlookup
        exact .inl ⟨document, hlookup, .refl document⟩
  refine .bind (.attempt (each_db fun s _ => hinsert s)) fun created => ?_
  split
  · exact commitsMeasured_confirmAccount id _
  · refine .bind commitsMeasured_read fun existing => ?_
    cases existing with
    | none => exact commitsMeasured_compensateInsert id _ _
    | some existing => exact trivial
  · exact commitsMeasured_compensateInsert id _ _

theorem commitsMeasured_commitTransfer (body : CompleteDocumentUploadInput)
    (hM : M id transfer) : CommitsMeasured M (commitTransfer d id body transfer) := by
  refine .bind commitsMeasured_read fun committedBytes => ?_
  split
  · exact .bind (commitsMeasured_releaseTransfer id transfer) fun _ => trivial
  refine .bind calms_assertVaultNotRotating.commitsMeasured fun _ => ?_
  refine .bind commitsMeasured_read fun account => ?_
  dsimp only
  split
  · exact trivial
  split
  · exact trivial
  refine .bind (calms_stillOwned _).commitsMeasured fun folderId => ?_
  refine .bind (calms_finaliseObject id transfer).commitsMeasured fun _ => ?_
  refine .bind (commitsMeasured_claimTransfer id transfer) fun _ => ?_
  exact commitsMeasured_insertDocumentRow id hM body folderId

/-- What a completion does with a transfer it has measured. -/
theorem commitsMeasured_rest (body : CompleteDocumentUploadInput) (hM : M id transfer) :
    CommitsMeasured M (if d.maxDocumentBytes < transfer.framing.plaintextBytes then
      (releaseTransfer id transfer).bind fun _ => .raise .documentTooLarge
    else acquireVaultRotationLock.bind fun lockId =>
      (commitTransfer d id body transfer).andFinally (releaseJobLock .rotation lockId)) := by
  split
  · exact .bind (commitsMeasured_releaseTransfer id transfer) fun _ => trivial
  · refine .bind ?_ fun lockId => ?_
    · refine .bind (commitsMeasured_acquire _ _) fun lockId => ?_
      cases lockId <;> exact trivial
    · exact .bind (commitsMeasured_commitTransfer id body hM).attempt fun r =>
        .bind (commitsMeasured_release _ _) fun _ => each_ofExcept r

/-! ### A completion heeds what it has read -/

section Heeds

variable {faults : Site → DocumentError → Bool → Prop}

/-- The law of a request: the ledgers add up, and the documents it commits are those of transfers it
has read. -/
def CommitsRead (ws : Accesses) (_ : Site) (s s' : Store) : Prop :=
  OnlyMeasured (fun id transfer => transfer.ReadIn ws id) s s'

theorem CommitsRead.same (ws : Accesses) (l : Site) (s : Store) : CommitsRead ws l s s :=
  .of_eq rfl rfl

/-- A part that commits no more than the transfers read before it. -/
theorem CommitsMeasured.heeds {p : Req α}
    (hp : CommitsMeasured (fun id transfer => transfer.ReadIn ws id) p) :
    p.Heeds faults CommitsRead (fun _ _ => True) ws := by
  refine (Prog.Each.heeds hp fun more l s s₁ s' h hs' => ?_).mono fun _ _ _ => trivial
  rcases hs' with rfl | rfl
  · exact .same _ l _
  · refine ⟨h.uploads, fun id document hdocument => (h.documents id document hdocument).imp_right ?_⟩
    rintro ⟨transfer, body, folderId, hread, rfl⟩
    exact ⟨transfer, body, folderId, hread.mono (subset_append_left _ _), rfl⟩

/-- What the engine answers a completion with is among the accesses of the completion. -/
theorem heeds_readEngineLedger (upload : Upload) (ws : Accesses) :
    (readEngineLedger upload).Heeds faults CommitsRead (fun r ws' => ws ⊆ ws' ∧
      ∀ engine, r = .ok engine → engine.Answered ws' upload) ws := by
  have hfail : ∀ {e : DocumentError} {ws' : Accesses}, ws ⊆ ws' → ws ⊆ ws' ∧
      ∀ engine, (.error e : Except DocumentError EngineLedger) = .ok engine →
        engine.Answered ws' upload :=
    fun hws => ⟨hws, nofun⟩
  have hone : ∀ w : Site × Store × Store, ws ⊆ ws ++ [w] := fun w => subset_append_left _ _
  unfold readEngineLedger
  split
  · rename_i hsingle
    refine heeds_read_bind (.same _ _) (fun s => ?_) fun e s => hfail (hone _)
    cases hobject : s.objects.lookup upload.objectKey with
    | none => exact hfail (hone _)
    | some object =>
      refine ⟨hone _, fun engine h => ?_⟩
      cases h
      exact .object hsingle mem_concat_self hobject
  · cases hid : upload.s3UploadId with
    | none => exact hfail (List.Subset.refl ws)
    | some s3UploadId =>
      refine heeds_read_bind (.same _ _) (fun s => ?_) fun e s => hfail (hone _)
      cases hmultipart : s.multiparts.lookup s3UploadId with
      | some multipart =>
        refine ⟨hone _, fun engine h => ?_⟩
        cases h
        exact .multipart hid mem_concat_self hmultipart
      | none =>
        -- the multipart upload is over: the object it left is asked for
        have htwo : ∀ w w' : Site × Store × Store, ws ⊆ (ws ++ [w]) ++ [w'] :=
          fun w w' => List.Subset.trans (hone w) (subset_append_left _ _)
        refine heeds_read_bind (.same _ _) (fun s₁ => ?_) fun e s₁ => hfail (htwo _ _)
        cases hobject : s₁.objects.lookup upload.objectKey with
        | none => exact hfail (htwo _ _)
        | some object =>
          dsimp only
          split
          · exact hfail (htwo _ _)
          · rename_i hbytes
            refine ⟨htwo _ _, fun engine h => ?_⟩
            cases h
            exact .assembled hid (mem_append_left _ mem_concat_self) hmultipart
              mem_concat_self hobject (not_not.1 hbytes)

/-- The transfer that a completion measures is one it has read. -/
theorem heeds_measureTransfer (ws : Accesses) :
    (measureTransfer id).Heeds faults CommitsRead
      (fun r ws' => ∀ transfer, r = .ok transfer → transfer.ReadIn ws' id) ws := by
  refine heeds_read_bind (.same _ _) (fun s => ?_) fun _ _ => nofun
  cases hrow : s.uploads.lookup id with
  | none => exact nofun
  | some upload =>
    refine heeds_read_bind (.same _ _) (fun s₁ => ?_) fun _ _ => nofun
    split
    · exact nofun
    split
    · exact nofun
    refine (heeds_readEngineLedger upload _).bind (fun engine ws' h => ?_) fun _ _ _ => nofun
    cases hmeasured : measureParts upload engine with
    | error e => exact nofun
    | ok framing =>
      intro transfer htransfer
      cases htransfer
      -- the look-up came before what the engine was asked
      have hread : (Site.readUpload, s, s) ∈ ws' :=
        h.1 (mem_append_left _ mem_concat_self)
      exact ⟨⟨s, s, hread, hrow⟩, h.2 engine rfl, hmeasured⟩

/-- **A completion commits what it has read and measured**, whatever the store and the engine
answer. -/
theorem heeds_completeUnderLock (d : Deployment) (id : ObjectId)
    (body : CompleteDocumentUploadInput) (ws : Accesses) :
    (completeUnderLock d id body).Heeds faults CommitsRead (fun _ _ => True) ws := by
  refine heeds_read_bind (.same _ _) (fun s => ?_) fun _ _ => trivial
  cases s.documents.lookup id with
  | some document => exact trivial
  | none =>
    refine (heeds_measureTransfer id _).bind (fun transfer ws' h => ?_) fun _ _ _ => trivial
    exact (commitsMeasured_rest id body (h transfer rfl)).heeds

theorem heeds_completeUpload (body : CompleteDocumentUploadInput) (ws : Accesses) :
    (completeUpload d id body).Heeds faults CommitsRead (fun _ _ => True) ws := by
  refine calms_assertVaultNotRotating.commitsMeasured.heeds.bind (fun _ ws _ => ?_)
    fun _ _ _ => trivial
  refine (commitsMeasured_acquire _ _).heeds.bind (fun lockId ws _ => ?_) fun _ _ _ => trivial
  cases lockId with
  | none =>
    refine CommitsMeasured.heeds (.bind commitsMeasured_read fun committed => ?_)
    cases committed <;> exact trivial
  | some lockId =>
    refine (heeds_completeUnderLock d id body ws).andFinally fun r ws _ => ?_
    exact (commitsMeasured_release _ _).heeds.mono fun _ _ _ =>
      ⟨fun _ _ => trivial, fun _ _ => trivial⟩

end Heeds

/-! ### Opening -/

theorem onlyMeasured_insertUpload {upload : Upload} (hupload : upload.Summed) (id : ObjectId)
    (s : Store) : OnlyMeasured M s (s.insertUpload id upload).2 := by
  rcases s.insertUpload_cases id upload with h | ⟨-, h⟩
  · rw [h]
    exact .of_eq rfl rfl
  · rw [h]
    refine ⟨fun hs id' upload' hlookup => ?_, (OnlyMeasured.of_eq rfl rfl).documents⟩
    by_cases hid : id' = id
    · subst hid
      rw [lookup_insert, some_inj] at hlookup
      exact hlookup ▸ hupload
    · rw [lookup_insert_of_ne _ hid] at hlookup
      exact hs id' upload' hlookup

theorem commitsMeasured_stageTransfer (body : InitDocumentUploadInput) (now vaultKeyVersion : ℕ)
    (uploadId : ObjectId) : CommitsMeasured M (stageTransfer d body now vaultKeyVersion uploadId) := by
  refine .bind (calms_openMultipart body uploadId).commitsMeasured ?_
  intro s3UploadId
  have hstaged : (body.staged d now vaultKeyVersion uploadId s3UploadId).Summed :=
    ⟨nodup_nil, rfl⟩
  refine .bind (.attempt (each_db fun s _ => onlyMeasured_insertUpload hstaged _ s)) ?_
  intro created
  have habandon : CommitsMeasured M (abandonMultipart uploadId s3UploadId) :=
    (calms_abandonMultipart uploadId s3UploadId).commitsMeasured
  split
  · exact trivial
  · exact .bind habandon fun _ => trivial
  · exact .bind habandon fun _ => trivial

theorem commitsMeasured_openTransferUnderLock (body : InitDocumentUploadInput) :
    CommitsMeasured M (openTransferUnderLock d body) := by
  refine .bind commitsMeasured_read fun now => ?_
  refine .bind commitsMeasured_read fun openUploads => ?_
  split
  · exact trivial
  refine .bind commitsMeasured_read fun documentCount => ?_
  split
  · exact trivial
  refine .bind commitsMeasured_read fun inFlightBytes => ?_
  refine .bind commitsMeasured_read fun committedBytes => ?_
  split
  · exact trivial
  refine .bind (calms_assertFolderExists _).commitsMeasured fun _ => ?_
  refine .bind commitsMeasured_read fun account => ?_
  refine .bind ?_ fun uploadId => commitsMeasured_stageTransfer body now _ uploadId
  exact each_db fun s _ => .of_eq rfl rfl

theorem commitsMeasured_initUpload (body : InitDocumentUploadInput) :
    CommitsMeasured M (initUpload d body) := by
  refine .bind calms_assertVaultNotRotating.commitsMeasured fun _ => ?_
  split
  · exact trivial
  refine .bind (commitsMeasured_acquire _ _) fun lockId => ?_
  cases lockId with
  | none => exact trivial
  | some lockId =>
    exact .bind (commitsMeasured_openTransferUnderLock body).attempt fun r =>
      .bind (commitsMeasured_release _ _) fun _ => each_ofExcept r

/-! ### Parts and cancels -/

/-- A part that is entered keeps the ledgers adding up. -/
theorem onlyMeasured_writeLedger (entry : LedgerPart) (s : Store) :
    OnlyMeasured M s (s.writeLedger id entry).2 := by
  rcases s.writeLedger_cases id entry with h | ⟨upload, hupload, h⟩
  · rw [h]
    exact .of_eq rfl rfl
  · rw [h]
    refine ⟨fun hs id' upload' hlookup => ?_, (OnlyMeasured.of_eq rfl rfl).documents⟩
    by_cases hid : id' = id
    · subst hid
      rw [lookup_insert, some_inj] at hlookup
      exact hlookup ▸ (hs id' upload hupload).withPart entry
    · rw [lookup_insert_of_ne _ hid] at hlookup
      exact hs id' upload' hlookup

theorem commitsMeasured_uploadPart (request : PartRequest) : CommitsMeasured M (uploadPart d id request) := by
  unfold uploadPart
  split
  · exact trivial
  rename_i body _
  refine .bind commitsMeasured_read fun found => ?_
  cases found with
  | none => exact trivial
  | some upload =>
    refine .bind commitsMeasured_read fun now => ?_
    split
    · exact trivial
    refine .bind (each_ofExcept _) fun _ => ?_
    refine .bind
      (calms_storePartBody id upload _ body).commitsMeasured fun etag => ?_
    refine .bind (each_db fun s _ => onlyMeasured_writeLedger id _ s) fun updated => ?_
    cases updated with
    | some receivedBytes => exact trivial
    | none =>
      have hreclaim : CommitsMeasured M (reclaimUnownedPartObject id upload.objectKey) :=
        (calms_reclaimUnownedPartObject id upload.objectKey).commitsMeasured
      dsimp only
      split
      · exact .bind hreclaim fun _ => trivial
      · exact trivial

theorem commitsMeasured_abortUpload : CommitsMeasured M (abortUpload id) := by
  refine .bind commitsMeasured_read fun found => ?_
  cases found with
  | none => exact trivial
  | some upload =>
    dsimp only
    cases upload.s3UploadId with
    | none =>
      refine .bind (each_db fun s _ => onlyMeasured_claimUpload id _ s) ?_
      intro claimed
      cases claimed with
      | none => exact trivial
      | some claimed =>
        refine .bind (calms_eraseObject id _).commitsMeasured.attempt fun _ => ?_
        exact trivial
    | some s3UploadId =>
      have habort := calms_db (l := .abortMultipart id)
        fun s => calm_abortMultipart s3UploadId s
      refine .bind habort.commitsMeasured fun _ => ?_
      exact each_db fun s _ => onlyMeasured_eraseUpload id s

/-! ### The committed documents -/

/-- A write that changes neither the object of a document nor its framing. -/
theorem onlyMeasured_updateDocument (filter : Document → Bool) {update : ℕ → Document → Document}
    (hupdate : ∀ now document, (update now document).SameObject document) (s : Store) :
    OnlyMeasured M s (s.updateDocument id filter update).2 := by
  rcases s.updateDocument_cases id filter update with h | ⟨document, hdocument, -, h⟩
  · rw [h]
    exact .of_eq rfl rfl
  · rw [h]
    refine ⟨fun hs => hs, fun id' document' hlookup => .inl ?_⟩
    by_cases hid : id' = id
    · subst hid
      rw [lookup_insert, some_inj] at hlookup
      exact ⟨document, hdocument, hlookup ▸ hupdate _ document⟩
    · rw [lookup_insert_of_ne _ hid] at hlookup
      exact ⟨document', hlookup, .refl document'⟩

theorem commitsMeasured_deleteDocument : CommitsMeasured M (deleteDocument id) := by
  refine .bind (each_db fun s _ => onlyMeasured_updateDocument id _ ?_ s) fun document => ?_
  · exact fun now document => ⟨rfl, rfl, rfl, rfl, rfl⟩
  · cases document <;> exact trivial

theorem commitsMeasured_restoreDocument : CommitsMeasured M (restoreDocument id) := by
  refine .bind (each_db fun s _ => onlyMeasured_updateDocument id _ ?_ s) fun document => ?_
  · exact fun now document => ⟨rfl, rfl, rfl, rfl, rfl⟩
  · cases document <;> exact trivial

theorem commitsMeasured_markPurge (filter : Document → Bool) : CommitsMeasured M (markPurge id filter) := by
  refine each_db fun s _ => onlyMeasured_updateDocument id _ ?_ s
  exact fun now document => ⟨rfl, rfl, rfl, rfl, rfl⟩

theorem commitsMeasured_purgeDocument : CommitsMeasured M (purgeDocument id) := by
  refine .bind (commitsMeasured_markPurge id _) fun document => ?_
  cases document with
  | none => exact trivial
  | some document =>
    refine .bind (calms_eraseObject id _).commitsMeasured fun _ => ?_
    exact commitsMeasured_eraseDocument id

theorem commitsMeasured_purgeMarked (row : DocumentRef) (breaker : Breaker) :
    CommitsMeasured M (purgeMarked row breaker) := by
  refine .bind
    (calms_eraseObject row.id row.objectKey).commitsMeasured.attempt ?_
  intro deleted
  cases deleted with
  | error e => exact trivial
  | ok _ =>
    have herase : CommitsMeasured M (.db (.deleteDocument row.id) fun s => ((), s.eraseDocument row.id)) :=
      commitsMeasured_eraseDocument row.id
    refine .bind herase.attempt fun removed => ?_
    cases removed <;> exact trivial

theorem commitsMeasured_emptyTrashRows (trashed : Document → Bool) (rows : List DocumentRef)
    (breaker : Breaker) (lastId : Option ObjectId) :
    CommitsMeasured M (emptyTrashRows trashed rows breaker lastId) := by
  induction rows generalizing breaker lastId with
  | nil => exact trivial
  | cons row rest ih =>
    unfold emptyTrashRows
    split
    · exact trivial
    refine .bind (commitsMeasured_markPurge row.id trashed).attempt fun claim => ?_
    split
    · exact ih _ _
    · exact ih _ _
    · exact .bind (commitsMeasured_purgeMarked row breaker) fun breaker => ih breaker _

theorem commitsMeasured_emptyTrashPages (trashed : Document → Bool) (rounds : ℕ) (breaker : Breaker)
    (lastId : Option ObjectId) : CommitsMeasured M (emptyTrashPages trashed rounds breaker lastId) := by
  induction rounds generalizing breaker lastId with
  | zero => exact trivial
  | succ rounds ih =>
    unfold emptyTrashPages
    split
    · exact trivial
    refine .bind commitsMeasured_read fun page => ?_
    cases page with
    | nil => exact trivial
    | cons row rest =>
      exact .bind (commitsMeasured_emptyTrashRows trashed _ breaker lastId) fun _ => ih _ _

/-! ### Every request -/

/-- Every request heeds what it has read. -/
theorem heeds_request {faults : Site → DocumentError → Bool → Prop} (r : Request) :
    (r.prog d).Heeds faults CommitsRead (fun _ _ => True) [] := by
  cases r with
  | complete id body =>
    exact (heeds_completeUpload id body []).bind (fun _ _ _ => trivial) fun _ _ _ => trivial
  | init body =>
    exact CommitsMeasured.heeds (.bind (commitsMeasured_initUpload body) fun _ => trivial)
  | part id request =>
    exact CommitsMeasured.heeds (.bind (commitsMeasured_uploadPart id request) fun _ => trivial)
  | cancel id =>
    exact CommitsMeasured.heeds (.bind (commitsMeasured_abortUpload id) fun _ => trivial)
  | trash id =>
    exact CommitsMeasured.heeds (.bind (commitsMeasured_deleteDocument id) fun _ => trivial)
  | restore id =>
    exact CommitsMeasured.heeds (.bind (commitsMeasured_restoreDocument id) fun _ => trivial)
  | purge id =>
    exact CommitsMeasured.heeds (.bind (commitsMeasured_purgeDocument id) fun _ => trivial)
  | emptyTrash rounds =>
    refine CommitsMeasured.heeds (.bind ?_ fun _ => trivial)
    exact .bind commitsMeasured_read fun _ => commitsMeasured_emptyTrashPages _ rounds _ _
  | tick milliseconds =>
    refine CommitsMeasured.heeds (.bind (each_db fun s _ => ?_) fun _ => trivial)
    exact .of_eq rfl rfl
  | expire id =>
    refine CommitsMeasured.heeds (.bind ?_ fun _ => trivial)
    exact .bind (each_db fun s _ => onlyMeasured_claimUpload id _ s)
      fun _ => trivial

/-! ## Runs -/

section Runs

variable {ι : Type} [DecidableEq ι]

/-- The parts that were stored for a document: what the engine answered to the request that
committed it, for the staging row of its id. A document that was there when the run began has the
parts it had then. -/
inductive StoredFor (s₀ : Store) (parts₀ : ObjectId → List PartSize) (ms : List (Move ι Site Store))
    (id : ObjectId) (document : Document) : List PartSize → Prop
  | before (document₀ : Document) (h : s₀.documents.lookup id = some document₀)
      (hsame : document.SameObject document₀) : StoredFor s₀ parts₀ ms id document (parts₀ id)
  | committed (i : ι) (transfer : Measured) (h : transfer.ReadIn (accessesOf i ms) id)
      (hkey : document.objectKey = transfer.upload.objectKey) :
      StoredFor s₀ parts₀ ms id document transfer.engine.sizes

/-- Every ledger names each part once, and every document can be read where the parts that were
stored for it lie. -/
structure Store.Sound (s s₀ : Store) (parts₀ : ObjectId → List PartSize)
    (ms : List (Move ι Site Store)) : Prop where
  uploads : ∀ id upload, s.uploads.lookup id = some upload → upload.Summed
  documents : ∀ id document, s.documents.lookup id = some document →
    ∃ stored, StoredFor s₀ parts₀ ms id document stored ∧ document.Readable stored

variable {s₀ : Store} {parts₀ : ObjectId → List PartSize} {ms : List (Move ι Site Store)}

/-- The parts of a document do not change with its marks, nor with what others do. -/
theorem StoredFor.next {document before : Document} {stored : List PartSize}
    (h : StoredFor s₀ parts₀ ms id before stored) (hsame : document.SameObject before)
    (m : Move ι Site Store) : StoredFor s₀ parts₀ (ms ++ [m]) id document stored := by
  cases h with
  | before document₀ h₀ hsame₀ =>
    refine .before document₀ h₀ ⟨?_, ?_, ?_, ?_, ?_⟩
    · exact hsame.objectKey.trans hsame₀.objectKey
    · exact hsame.chunkPlaintextBytes.trans hsame₀.chunkPlaintextBytes
    · exact hsame.chunkCount.trans hsame₀.chunkCount
    · exact hsame.ciphertextBytes.trans hsame₀.ciphertextBytes
    · exact hsame.plaintextBytes.trans hsame₀.plaintextBytes
  | committed i transfer hread hkey =>
    exact .committed i transfer (hread.mono (accessesOf_subset i ms [m]))
      (hsame.objectKey.trans hkey)

/-- An access that heeds what its request has read keeps the rows of the account. -/
theorem Store.Sound.step (hs : s.Sound s₀ parts₀ ms) {i : ι} {l : Site}
    (h : CommitsRead (accessesOf i ms) l s s') :
    s'.Sound s₀ parts₀ (ms ++ [⟨i, l, s, s'⟩]) where
  uploads := h.uploads hs.uploads
  documents id document hid := by
    rcases h.documents id document hid with ⟨before, hbefore, hsame⟩ |
      ⟨transfer, body, folderId, hread, rfl⟩
    · obtain ⟨stored, hstored, hreadable⟩ := hs.documents id before hbefore
      exact ⟨stored, hstored.next id hsame _, hsame.readable hreadable⟩
    · refine ⟨_, .committed i transfer ?_ rfl, measureParts_readable hread.measured body folderId⟩
      exact hread.mono (accessesOf_subset i ms _)

/-- **In every run of the requests of an account**, whichever accesses fail, the ledgers add up and
the documents are readable at the offsets of the parts that were stored for them. -/
theorem documents_readable (d : Deployment) (requests : ι → Request)
    (faults : Site → DocumentError → Bool → Prop)
    (h₀ : s₀.Sound s₀ parts₀ ([] : List (Move ι Site Store)))
    {c : Config ι Store Site DocumentError Answer}
    (h : Traced { documentSystem d requests with faults } (Config.start s₀) ms c) :
    c.store.Sound s₀ parts₀ ms := by
  have hkeep : ∀ ms i l s s', Store.Sound s s₀ parts₀ ms → CommitsRead (accessesOf i ms) l s s' →
      s'.Sound s₀ parts₀ (ms ++ [(⟨i, l, s, s'⟩ : Move ι Site Store)]) :=
    fun ms i l s s' hs hstep => hs.step hstep
  refine Traced.heeds ?_ hkeep h₀ h
  rintro i p rfl
  exact heeds_request (requests i)

end Runs

/-- A file of six bytes is uploaded, and is there. -/
theorem documents_readable_alone :
    (Budget.sixAndTenArrived.follow Budget.sixAlone).store.Sound emptyAccount (fun _ => [])
        (Budget.sixAndTenArrived.moves Budget.sixAlone) ∧
      ⟨0, 1⟩ ∈ (Budget.sixAndTenArrived.follow Budget.sixAlone).store.documents := by
  have harrived : Traced (documentSystem tenBytes sixAndTen)
      (Config.start emptyAccount) [] sixAndTenArrived :=
    reaches_sixAndTenArrived.arrivals
  have hempty : emptyAccount.Sound emptyAccount (fun _ => []) ([] : List (Move (Fin 6) Site Store)) :=
    ⟨nofun, nofun⟩
  exact ⟨documents_readable tenBytes sixAndTen noFaults hempty
    (harrived.follow sixAlone), by decide⟩

/-- Whatever parts a transfer accepts, in any order and with any repeats, its ledger names each once
and counts their bytes. In every run of a completion among others, whatever store and engine answer,
an access that brings a document into the store brings that of the staging row the completion has
looked up and of the parts the engine has answered with. Such a document is readable at the offsets
these parts lie at. And neither a completion nor a part of an opened transfer asks for a range that
is not there. -/
theorem committed_documents_readable :
    (∀ (upload : Upload) (entries : List LedgerPart),
      (entries.foldl Upload.withPart upload.blank).Summed) ∧
    (∀ (d : Deployment) (id : ObjectId) (body : CompleteDocumentUploadInput)
      (faults : Site → DocumentError → Bool → Prop) (made : Accesses)
      (r : Except DocumentError CompletionOutcome), Own faults (completeUnderLock d id body) made r →
      ∀ (earlier later : Accesses) (l : Site) (s s' : Store), made = earlier ++ (l, s, s') :: later →
        OnlyMeasured (fun id transfer => transfer.ReadIn earlier id) s s') ∧
    (∀ (earlier : Accesses) (id : ObjectId) (transfer : Measured)
      (body : CompleteDocumentUploadInput) (folderId : Option ℕ), transfer.ReadIn earlier id →
        (transfer.document body folderId).Readable transfer.engine.sizes) ∧
    (∀ (upload : Upload) (engine : EngineLedger), 0 < upload.chunkPlaintextBytes →
      measureParts upload engine ≠ .error .rangeError) ∧
    (∀ (d : Deployment) (body : InitDocumentUploadInput) (now vaultKeyVersion : ℕ)
      (uploadId : ObjectId) (s3UploadId : Option ℕ) (request : PartRequest) (part : PartBody),
      1 ≤ request.partNumber →
        checkPart (body.staged d now vaultKeyVersion uploadId s3UploadId) request part
          ≠ .error .rangeError) := by
  refine ⟨?_, ?_, ?_, ?_, ?_⟩
  · exact fun upload entries => upload.summed_blank.foldl_withPart entries
  · intro d id body faults made r hrun earlier later l s s' hmade
    exact (heeds_completeUnderLock d id body []).own hrun hmade
  · exact fun earlier id transfer body folderId h => measureParts_readable h.measured body folderId
  · exact fun upload engine hpos => measureParts_ne_rangeError hpos engine
  · exact fun d body now version id s3UploadId request part hnumber =>
      checkPart_ne_rangeError d body now version id s3UploadId hnumber part

theorem smallFile_empty : 1 = documentChunkCountFor 0 documentPlaintextChunkBytes := by
  decide +kernel

/-- A transfer of two segments whose parts arrive last first, one of them twice. -/
def twoSegments : Upload :=
  [⟨2, some "b", 17⟩, ⟨1, some "a", 20⟩, ⟨2, some "b", 17⟩].foldl Upload.withPart
    { (smallFile 0 smallFile_empty).staged tenBytes 0 0 ⟨0, 0⟩ none with
      s3UploadId := some 0
      declaredPlaintextBytes := 5
      declaredChunkCount := 2
      chunkPlaintextBytes := 4 }

/-- What the engine lists for it. -/
def twoParts : Multipart := ⟨twoSegments.objectKey, none, [⟨1, "a", 20⟩, ⟨2, "b", 17⟩]⟩

def twoSegmentsStored : Store :=
  { emptyAccount with
    uploads := singleton ⟨0, 0⟩ twoSegments
    multiparts := singleton 0 twoParts }

/-- The transfer as it is measured. -/
def twoMeasured : Measured := ⟨twoSegments, .multipart 0 twoParts.parts, ⟨2, 37, 5⟩⟩

/-- Its document is read from byte 0 and from byte 20. -/
theorem committed_documents_readable_sample :
    twoMeasured.ReadIn [(.readUpload, twoSegmentsStored, twoSegmentsStored),
      (.listParts, twoSegmentsStored, twoSegmentsStored)] ⟨0, 0⟩ ∧
    (twoMeasured.document smallCompletion none).Readable [⟨1, 20⟩, ⟨2, 17⟩] ∧
    (twoMeasured.document smallCompletion none).getSegment 1 = .ok ⟨20, 36, 17⟩ := by
  have hread : twoMeasured.ReadIn [(.readUpload, twoSegmentsStored, twoSegmentsStored),
      (.listParts, twoSegmentsStored, twoSegmentsStored)] ⟨0, 0⟩ := by
    refine ⟨⟨_, _, mem_cons_self, lookup_singleton_eq⟩, ?_, by decide⟩
    have hlisted : twoSegmentsStored.multiparts.lookup 0 = some twoParts := lookup_singleton_eq
    exact .multipart rfl (mem_cons_of_mem _ mem_cons_self) hlisted
  refine ⟨hread, ?_, by decide⟩
  exact committed_documents_readable.2.2.1 _ _ twoMeasured smallCompletion none hread

end HVault.Documents
