import HVault.Documents.Store

/-!
# The transfer requests

The four requests that open, fill, cancel and complete a transfer, as the document controller
orders their statements and storage calls:

* `initUpload`: three budgets and the staging row that spends them, under the account's init lock;
* `uploadPart`: a part is stored first and entered in the ledger second;
* `abortUpload`: a single segment is claimed before its object is deleted, a multipart upload is
  aborted before its row is;
* `completeUpload`: the parts are measured, the object is finalised, the staging row is claimed and
  the document row is inserted, under the lock of the upload and the account's exclusion lock.

Audit entries and log lines, which change none of these stores, are left out.
-/

namespace HVault.Documents

open Interleave

/-! ## Opening -/

/-- The body of an open. The request schema has checked that the declared sizes agree. -/
structure InitDocumentUploadInput where
  dek : WrappedDek
  framing : StreamFraming
  declaredPlaintextBytes : ℕ
  declaredChunkCount : ℕ
  folderId : Option ℕ
  consistent : declaredChunkCount =
    documentChunkCountFor declaredPlaintextBytes documentPlaintextChunkBytes

structure OpenedTransfer where
  uploadId : ObjectId
  vaultKeyVersion : ℕ
  deriving DecidableEq, Repr

/-- The staging row of an open. -/
def InitDocumentUploadInput.staged (d : Deployment) (body : InitDocumentUploadInput) (now : ℕ)
    (vaultKeyVersion : ℕ) (uploadId : ObjectId) (s3UploadId : Option ℕ) : Upload where
  objectKey := buildObjectKey uploadId
  s3UploadId := s3UploadId
  dek := body.dek
  framing := body.framing
  declaredPlaintextBytes := body.declaredPlaintextBytes
  declaredChunkCount := body.declaredChunkCount
  chunkPlaintextBytes := documentPlaintextChunkBytes
  vaultKeyVersion := vaultKeyVersion
  parts := []
  receivedBytes := 0
  folderId := body.folderId
  expiresAt := now + d.uploadTtl

/-- Inserts a staging row unless its id is taken, and says whether it did. -/
def Store.insertUpload (id : ObjectId) (upload : Upload) (s : Store) : Bool × Store :=
  if id ∈ s.uploads then (false, s)
  else (true, { s with uploads := s.uploads.insert id upload })

theorem Store.insertUpload_cases (id : ObjectId) (upload : Upload) (s : Store) :
    s.insertUpload id upload = (false, s) ∨ id ∉ s.uploads ∧
      s.insertUpload id upload = (true, { s with uploads := s.uploads.insert id upload }) := by
  unfold Store.insertUpload
  split
  · exact .inl rfl
  · rename_i hid
    exact .inr ⟨hid, rfl⟩

/-- A statement on the staging rows changes nothing else. -/
theorem Store.insertUpload_frame (id : ObjectId) (upload : Upload) (s : Store) :
    (s.insertUpload id upload).2.documents = s.documents ∧
      (s.insertUpload id upload).2.locks = s.locks ∧
      (s.insertUpload id upload).2.clock = s.clock ∧
      (s.insertUpload id upload).2.minted = s.minted := by
  rcases s.insertUpload_cases id upload with h | ⟨-, h⟩
  · rw [h]
    exact ⟨rfl, rfl, rfl, rfl⟩
  · rw [h]
    exact ⟨rfl, rfl, rfl, rfl⟩

/-- An engine-side upload for a transfer of several segments. -/
def openMultipart (d : Deployment) (body : InitDocumentUploadInput) (uploadId : ObjectId) :
    Req (Option ℕ) :=
  if 1 < body.declaredChunkCount then do
    let s3UploadId ← .db .createMultipart fun s => s.createMultipart d (buildObjectKey uploadId)
    pure (some s3UploadId)
  else pure none

/-- Gives up the engine-side upload of a staging row that was not written. -/
def abandonMultipart (uploadId : ObjectId) : Option ℕ → Req Unit
  | none => pure ()
  | some s3UploadId => do
    let _ ← (Prog.db (.abortMultipart uploadId) (Store.abortMultipart s3UploadId)).attempt
    pure ()

/-- Writes the staging row, with the engine-side upload it names. -/
def stageTransfer (d : Deployment) (body : InitDocumentUploadInput) (now vaultKeyVersion : ℕ)
    (uploadId : ObjectId) : Req OpenedTransfer := do
  let s3UploadId ← openMultipart d body uploadId
  let created ← (Prog.db .insertUpload (Store.insertUpload uploadId
    (body.staged d now vaultKeyVersion uploadId s3UploadId))).attempt
  match created with
  | .ok true => pure ⟨uploadId, vaultKeyVersion⟩
  | .ok false => do
    abandonMultipart uploadId s3UploadId
    .raise .duplicateId
  | .error e => do
    abandonMultipart uploadId s3UploadId
    .raise e

/-- Refuses a folder the account does not have. -/
def assertFolderExists : Option ℕ → Req Unit
  | none => pure ()
  | some folderId => do
    let folderExists ← .read .readFolder fun s => decide (folderId ∈ s.folders)
    if folderExists then pure () else .raise .folderNotFound

/-- Every per-user budget, and the staging row that spends them. -/
def openTransferUnderLock (d : Deployment) (body : InitDocumentUploadInput) :
    Req OpenedTransfer := do
  let now ← readClock
  let openUploads ← .read .countUploads (openUploadsFor now)
  if (maxConcurrentDocumentUploadsPerUser : ℤ) ≤ openUploads then .raise .tooManyUploads
  else do
    let documentCount ← .read .countDocuments documentCountFor
    if (maxDocumentsPerUser : ℤ) ≤ documentCount then .raise .documentLimit
    else do
      let inFlightBytes ← .read .inFlightBytes (inFlightBytesFor now)
      let committedBytes ← .read .committedBytes committedBytesFor
      if (d.storageQuotaBytes : ℤ) < committedBytes + inFlightBytes + body.declaredPlaintextBytes
      then .raise .quotaExceeded
      else do
        assertFolderExists body.folderId
        let account ← .read .readAccount (·.account)
        let uploadId ← mintObjectId
        stageTransfer d body now (vaultKeyVersionOf account) uploadId

def initUpload (d : Deployment) (body : InitDocumentUploadInput) : Req OpenedTransfer := do
  assertVaultNotRotating
  if d.maxDocumentBytes < body.declaredPlaintextBytes then .raise .documentTooLarge
  else do
    let lockId ← acquireJobLock .init initLockTtl
    match lockId with
    | none => .raise .openBusy
    | some lockId => (openTransferUnderLock d body).andFinally (releaseJobLock .init lockId)

/-! ## Cancelling -/

def abortUpload (id : ObjectId) : Req Unit := do
  let found ← .read .readUpload (·.uploads.lookup id)
  match found with
  | none => .raise .uploadNotFound
  | some upload =>
    match upload.s3UploadId with
    | none => do
      -- whether this request still owns the transfer is decided by the claim
      let claimed ← .db (.cancelUpload id) (Store.claimUpload id fun _ => true)
      match claimed with
      | none => .raise .uploadNotFound
      | some claimed => do
        let _ ← (Prog.db (.deleteObject id) fun s => ((), s.eraseObject claimed.objectKey)).attempt
        pure ()
    | some s3UploadId => do
      -- an engine that does not know the upload has already done what was asked
      let _ ← .db (.abortMultipart id) (Store.abortMultipart s3UploadId)
      .db (.deleteUpload id) fun s => ((), s.eraseUpload id)

/-! ## Parts -/

/-- The bytes of a part, with the digest the server computes over them. -/
structure PartBody where
  bytes : ℕ
  digest : String
  deriving DecidableEq, Repr

/-- A part as it arrives; a body that is no raw bytes is none. -/
structure PartRequest where
  partNumber : ℕ
  body : Option PartBody
  contentLength : Option ℕ
  declaredDigest : Option String
  deriving DecidableEq, Repr

/-- 64 lowercase hexadecimal characters. -/
def isPartDigest (text : String) : Bool :=
  decide (text.length = 64) && text.toList.all fun c => c.isDigit || ('a' ≤ c && c ≤ 'f')

/-- The size the declaration of a transfer frames for one of its parts. -/
def Upload.requiredBytes (upload : Upload) (partNumber : ℕ) : Option ℕ :=
  expectedPartSize partNumber upload.declaredChunkCount upload.chunkPlaintextBytes
    (documentCiphertextBytesFor upload.declaredPlaintextBytes upload.declaredChunkCount)

/-- The checks of a part before a byte of it is stored. -/
def checkPart (upload : Upload) (request : PartRequest) (body : PartBody) :
    Except DocumentError Unit :=
  if upload.declaredChunkCount < request.partNumber then
    .error (.partOutside request.partNumber upload.declaredChunkCount)
  else if request.contentLength ≠ some body.bytes then
    .error (.partLength request.partNumber request.contentLength body.bytes)
  else
    match upload.requiredBytes request.partNumber with
    | none => .error .rangeError
    | some required =>
      if body.bytes ≠ required then .error (.partSize request.partNumber required body.bytes)
      else if ¬ request.declaredDigest.any isPartDigest then .error .partDigestMalformed
      else if request.declaredDigest ≠ some body.digest then
        .error (.partDigestMismatch request.partNumber)
      else .ok ()

/-- The ledger after one more part is accepted: an entry of the same number is replaced. -/
def replacePart (entry : LedgerPart) (parts : List LedgerPart) : List LedgerPart :=
  (parts.filter fun part => part.partNumber ≠ entry.partNumber) ++ [entry]

/-- The staging row after one more part is accepted; its bytes are summed over the ledger. -/
def Upload.withPart (upload : Upload) (entry : LedgerPart) : Upload :=
  { upload with
    parts := replacePart entry upload.parts
    receivedBytes := totalBytes ((replacePart entry upload.parts).map (·.size)) }

/-- Enters a part in the ledger of a staging row that is still there. -/
def Store.writeLedger (id : ObjectId) (entry : LedgerPart) (s : Store) : Option ℕ × Store :=
  match s.uploads.lookup id with
  | some upload =>
    (some (upload.withPart entry).receivedBytes,
      { s with uploads := s.uploads.insert id (upload.withPart entry) })
  | none => (none, s)

theorem Store.writeLedger_cases (id : ObjectId) (entry : LedgerPart) (s : Store) :
    s.writeLedger id entry = (none, s) ∨ ∃ upload, s.uploads.lookup id = some upload ∧
      s.writeLedger id entry = (some (upload.withPart entry).receivedBytes,
        { s with uploads := s.uploads.insert id (upload.withPart entry) }) := by
  unfold Store.writeLedger
  split
  · rename_i upload hupload
    exact .inr ⟨upload, hupload, rfl⟩
  · exact .inl rfl

theorem Store.writeLedger_frame (id : ObjectId) (entry : LedgerPart) (s : Store) :
    (s.writeLedger id entry).2.documents = s.documents ∧
      (s.writeLedger id entry).2.locks = s.locks ∧
      (s.writeLedger id entry).2.clock = s.clock ∧
      (s.writeLedger id entry).2.minted = s.minted := by
  rcases s.writeLedger_cases id entry with h | ⟨upload, -, h⟩
  · rw [h]
    exact ⟨rfl, rfl, rfl, rfl⟩
  · rw [h]
    exact ⟨rfl, rfl, rfl, rfl⟩

/-- Whether a document names the key, in any state. -/
def Store.documentNames (key : ObjectKey) (s : Store) : Bool :=
  decide (∃ id ∈ s.documents.keys, ∃ document ∈ s.documents.lookup id, document.objectKey = key)

/-- Deletes an object unless a document names it. -/
def deleteUnlessOwned (id : ObjectId) (objectKey : ObjectKey) : Req Unit := do
  let owned ← .read .findDocuments (Store.documentNames objectKey)
  if owned then pure () else .db (.deleteObject id) fun s => ((), s.eraseObject objectKey)

/-- Deletes the object a single-segment part stored after its staging row had gone, unless a
completion holds the lock of the upload or a document owns the object. -/
def reclaimUnownedPartObject (id : ObjectId) (objectKey : ObjectKey) : Req Unit := do
  let acquired ← (acquireJobLock (.complete id) completeLockTtl).attempt
  match acquired with
  | .error _ => pure ()
  | .ok none => pure ()
  | .ok (some lockId) => do
    let _ ← (deleteUnlessOwned id objectKey).attempt
    releaseJobLock (.complete id) lockId

/-- Stores the bytes of a part, and answers with the engine's receipt where there is one. -/
def storePartBody (d : Deployment) (id : ObjectId) (upload : Upload) (partNumber : ℕ)
    (body : PartBody) : Req (Option String) :=
  if upload.declaredChunkCount = 1 then do
    .db (.putObject id) fun s => ((), s.putObject d upload.objectKey body.bytes)
    pure none
  else
    match upload.s3UploadId with
    | none => .raise .unusableTransfer
    | some s3UploadId => do
      let receipt ← .db .storePart (Store.storePart s3UploadId partNumber body.bytes body.digest)
      match receipt with
      | none => .raise .storageNotFound
      | some etag => pure (some etag)

structure PartAnswer where
  partNumber : ℕ
  bytes : ℕ
  receivedBytes : ℕ
  deriving DecidableEq, Repr

/-- Enters a stored part in the ledger, or takes back what was stored for a row that is gone. -/
def recordPart (id : ObjectId) (upload : Upload) (entry : LedgerPart) : Req PartAnswer := do
  let updated ← .db (.writeLedger id) (Store.writeLedger id entry)
  match updated with
  | some receivedBytes => pure ⟨entry.partNumber, entry.bytes, receivedBytes⟩
  | none => do
    if upload.declaredChunkCount = 1 then reclaimUnownedPartObject id upload.objectKey
    else pure ()
    .raise .uploadNotFound

def uploadPart (d : Deployment) (id : ObjectId) (request : PartRequest) : Req PartAnswer :=
  match request.body with
  | none => .raise .unsupportedMediaType
  | some body => do
    let found ← .read .readUpload (·.uploads.lookup id)
    match found with
    | none => .raise .uploadNotFound
    | some upload => do
      let now ← readClock
      if upload.expiresAt ≤ now then .raise .uploadNotFound
      else do
        .ofExcept (checkPart upload request body)
        let etag ← storePartBody d id upload request.partNumber body
        recordPart id upload ⟨request.partNumber, etag, body.bytes⟩

/-! ## Completing: the parts -/

/-- What the engine says it holds for a transfer: a finished object, or an open upload whose parts
can still be completed. -/
inductive EngineLedger where
  | object (parts : List PartSize)
  | multipart (s3UploadId : ℕ) (parts : List StoragePart)
  deriving DecidableEq, Repr

def EngineLedger.sizes : EngineLedger → List PartSize
  | object parts => parts
  | multipart _ parts => parts.map (·.size)

/-- The engine's account of a multipart transfer whose upload it no longer knows: believed when
the object is as long as the ledger. -/
def readAssembledLedger (upload : Upload) : Req EngineLedger := do
  let stat ← .read .headObject (·.objects.lookup upload.objectKey)
  match stat with
  | none => .raise .storageNotFound
  | some object =>
    if object.bytes ≠ totalBytes (upload.parts.map (·.size)) then .raise .storageNotFound
    else pure (.object (sortedByNumber (upload.parts.map (·.size))))

def readEngineLedger (upload : Upload) : Req EngineLedger :=
  if upload.declaredChunkCount = 1 then do
    let stat ← .read .headObject (·.objects.lookup upload.objectKey)
    match stat with
    | none => .raise .storageNotFound
    | some object => pure (.object [⟨1, object.bytes⟩])
  else
    match upload.s3UploadId with
    | none => .raise .unusableTransfer
    | some s3UploadId => do
      let parts ← .read .listParts fun s => (s.multiparts.lookup s3UploadId).map (·.parts)
      match parts with
      | some parts => pure (.multipart s3UploadId parts)
      | none => readAssembledLedger upload

/-- Compares the two ledgers position by position; `index` parts have been compared. -/
def agreesFrom (index : ℕ) : List PartSize → List PartSize → Except DocumentError Unit
  | _, [] => .ok ()
  | [], part :: _ =>
    if part.partNumber ≠ index + 1 then .error (.missingPart (index + 1) part.partNumber)
    else .error (.partNotAccepted part.partNumber)
  | staged :: restStaged, part :: rest =>
    if part.partNumber ≠ index + 1 then .error (.missingPart (index + 1) part.partNumber)
    else if staged.partNumber ≠ part.partNumber then .error (.partNotAccepted part.partNumber)
    else if staged.bytes ≠ part.bytes then
      .error (.partDiffers part.partNumber part.bytes staged.bytes)
    else agreesFrom (index + 1) restStaged rest

/-- Refuses unless the staging ledger and the engine describe the same parts. -/
def assertLedgerAgreesWithEngine (staged engine : List PartSize) : Except DocumentError Unit :=
  if staged.length ≠ engine.length then .error (.partCount engine.length staged.length)
  else agreesFrom 0 (sortedByNumber staged) engine

/-- The sizes a committed document carries. -/
structure DerivedFraming where
  chunkCount : ℕ
  ciphertextBytes : ℕ
  plaintextBytes : ℕ
  deriving DecidableEq, Repr

/-- Re-measures every part against the framing. -/
def checkSegments (chunkCount chunkPlaintextBytes ciphertextBytes : ℕ) :
    List PartSize → Except DocumentError Unit
  | [] => .ok ()
  | part :: rest =>
    match expectedPartSize part.partNumber chunkCount chunkPlaintextBytes ciphertextBytes with
    | none => .error .rangeError
    | some required =>
      if part.bytes ≠ required then .error (.segmentSize part.partNumber required part.bytes)
      else checkSegments chunkCount chunkPlaintextBytes ciphertextBytes rest

/-- The sizes of a document, derived from the parts alone and checked against each other. -/
def deriveFraming (upload : Upload) (engine : List PartSize) :
    Except DocumentError DerivedFraming :=
  let chunkCount := engine.length
  let ciphertextBytes := totalBytes engine
  let plaintextBytes := documentPlaintextBytesFor ciphertextBytes chunkCount
  if plaintextBytes < 0 ∨
      chunkCount ≠ documentChunkCountFor plaintextBytes.toNat upload.chunkPlaintextBytes then
    .error .framingMismatch
  else
    match checkSegments chunkCount upload.chunkPlaintextBytes ciphertextBytes engine with
    | .error e => .error e
    | .ok () => .ok ⟨chunkCount, ciphertextBytes, plaintextBytes.toNat⟩

/-- Every check of the parts of a transfer. -/
def measureParts (upload : Upload) (engine : EngineLedger) : Except DocumentError DerivedFraming :=
  match assertLedgerAgreesWithEngine (upload.parts.map (·.size)) engine.sizes with
  | .error e => .error e
  | .ok () =>
    if engine.sizes.length ≠ upload.declaredChunkCount then
      .error (.partsMissing upload.declaredChunkCount engine.sizes.length)
    else deriveFraming upload engine.sizes

/-! ## Completing: the commit -/

/-- The body of a completion. -/
structure CompleteDocumentUploadInput where
  dek : WrappedDek
  sealedMeta : SealedMeta
  vaultKeyVersion : ℕ
  deriving DecidableEq, Repr

/-- What a completion decided. -/
inductive CompletionOutcome where
  | document (id : ObjectId) (document : Document)
  | staleVaultKey (vaultKeyVersion : ℕ) (reason : StaleVaultKeyReason)

/-- A transfer whose parts have been measured. -/
structure Measured where
  upload : Upload
  engine : EngineLedger
  framing : DerivedFraming

/-- Gives up what the engine holds for a transfer. -/
def releaseStorage (id : ObjectId) (transfer : Measured) : Req Unit :=
  match transfer.engine with
  | .object _ => .db (.deleteObject id) fun s => ((), s.eraseObject transfer.upload.objectKey)
  | .multipart s3UploadId _ => do
    let _ ← .db (.abortMultipart id) (Store.abortMultipart s3UploadId)
    pure ()

/-- Releases everything a transfer is holding; the engine's part is best-effort. -/
def releaseTransfer (id : ObjectId) (transfer : Measured) : Req Unit := do
  let _ ← (releaseStorage id transfer).attempt
  .db (.releaseUpload id) fun s => ((), s.eraseUpload id)

/-- Deletes a stored object no row names; a failure is logged. -/
def discardUnnamedObject (id : ObjectId) (objectKey : ObjectKey) : Req Unit := do
  let _ ← (Prog.db (.deleteObject id) fun s => ((), s.eraseObject objectKey)).attempt
  pure ()

/-- Has the engine assemble the object of a multipart transfer. -/
def finaliseObject (d : Deployment) (id : ObjectId) (transfer : Measured) : Req Unit :=
  match transfer.engine with
  | .object _ => pure ()
  | .multipart s3UploadId parts => do
    let answer ← .db (.completeMultipart id) (Store.completeMultipart d transfer.upload.objectKey
      s3UploadId (parts.map fun part => (part.partNumber, part.etag)))
    match answer with
    | .completed => pure ()
    | .notFound => .raise .storageNotFound
    | .invalidPart => .raise .storageRefused

/-- Claims the transfer: a finished object only while its ledger still adds up to what was
measured, a multipart upload without condition. -/
def claimTransfer (id : ObjectId) (transfer : Measured) : Req Unit :=
  match transfer.engine with
  | .object _ => do
    let claimed ← .db (.claimUpload id) (Store.claimUpload id fun upload =>
      decide (upload.receivedBytes = transfer.framing.ciphertextBytes))
    match claimed with
    | none => .raise .transferChanged
    | some _ => pure ()
  | .multipart _ _ => .db (.claimMultipart id) fun s => ((), s.eraseUpload id)

/-- The document row of a completion. -/
def Measured.document (transfer : Measured) (body : CompleteDocumentUploadInput)
    (folderId : Option ℕ) : Document where
  folderId := folderId
  objectKey := transfer.upload.objectKey
  dek := body.dek
  framing := transfer.upload.framing
  sealedMeta := body.sealedMeta
  chunkPlaintextBytes := transfer.upload.chunkPlaintextBytes
  chunkCount := transfer.framing.chunkCount
  ciphertextBytes := transfer.framing.ciphertextBytes
  plaintextBytes := transfer.framing.plaintextBytes
  deletedAt := none
  purgePending := false

/-- Takes back the document of an account that was erased while its completion ran. -/
def confirmAccount (id : ObjectId) (document : Document) : Req CompletionOutcome := do
  let live ← .read .readAccount fun s => s.account.any fun a => !a.deletionPending
  if live then pure (.document id document)
  else do
    .db (.deleteDocument id) fun s => ((), s.eraseDocument id)
    discardUnnamedObject id document.objectKey
    .raise .sessionInvalid

/-- The answer to a document row that was not written: the row of another attempt if there is one,
else the object is deleted and the failure answered. -/
def compensateInsert (id : ObjectId) (document : Document) (e : DocumentError) :
    Req CompletionOutcome := do
  discardUnnamedObject id document.objectKey
  .raise e

/-- Inserts the document row. -/
def insertDocumentRow (id : ObjectId) (document : Document) : Req CompletionOutcome := do
  let created ← (Prog.db (.insertDocument id) (Store.insertDocument id document)).attempt
  match created with
  | .ok true => confirmAccount id document
  | .ok false => do
    let existing ← .read .readDocument (·.documents.lookup id)
    match existing with
    | some existing => pure (.document id existing)
    | none => compensateInsert id document .duplicateId
  | .error e => compensateInsert id document e

/-- The folder a transfer named, unless it has gone since. -/
def stillOwned : Option ℕ → Req (Option ℕ)
  | none => pure none
  | some folderId => do
    let folderExists ← .read .readFolder fun s => decide (folderId ∈ s.folders)
    pure (if folderExists then some folderId else none)

/-- The commit of a measured transfer, under the exclusion lock. -/
def commitTransfer (d : Deployment) (id : ObjectId) (body : CompleteDocumentUploadInput)
    (transfer : Measured) : Req CompletionOutcome := do
  let committedBytes ← .read (.remeasureQuota id) committedBytesFor
  if (d.storageQuotaBytes : ℤ) < committedBytes + transfer.framing.plaintextBytes then do
    releaseTransfer id transfer
    .raise .quotaExceeded
  else do
    assertVaultNotRotating
    let account ← .read .readAccount (·.account)
    let current := vaultKeyVersionOf account
    if current < body.vaultKeyVersion then pure (.staleVaultKey current .unreached)
    else if body.vaultKeyVersion ≠ current then pure (.staleVaultKey current .rotated)
    else do
      let folderId ← stillOwned transfer.upload.folderId
      finaliseObject d id transfer
      claimTransfer id transfer
      insertDocumentRow id (transfer.document body folderId)

/-- The staging row of a transfer that can still be completed, with its parts measured. -/
def measureTransfer (id : ObjectId) : Req Measured := do
  let found ← .read .readUpload (·.uploads.lookup id)
  match found with
  | none => .raise .uploadNotFound
  | some upload => do
    let now ← readClock
    if upload.expiresAt ≤ now then .raise .uploadNotFound
    else if upload.parts = [] then .raise .noParts
    else do
      let engine ← readEngineLedger upload
      let framing ← .ofExcept (measureParts upload engine)
      pure ⟨upload, engine, framing⟩

def completeUnderLock (d : Deployment) (id : ObjectId) (body : CompleteDocumentUploadInput) :
    Req CompletionOutcome := do
  let committed ← .read .readDocument (·.documents.lookup id)
  match committed with
  | some document => pure (.document id document)
  | none => do
    let transfer ← measureTransfer id
    if d.maxDocumentBytes < transfer.framing.plaintextBytes then do
      releaseTransfer id transfer
      .raise .documentTooLarge
    else do
      let lockId ← acquireVaultRotationLock
      (commitTransfer d id body transfer).andFinally (releaseJobLock .rotation lockId)

def completeUpload (d : Deployment) (id : ObjectId) (body : CompleteDocumentUploadInput) :
    Req CompletionOutcome := do
  assertVaultNotRotating
  let lockId ← acquireJobLock (.complete id) completeLockTtl
  match lockId with
  | none => do
    let committed ← .read .readDocument (·.documents.lookup id)
    match committed with
    | some document => pure (.document id document)
    | none => .raise .beingCompleted
  | some lockId =>
    (completeUnderLock d id body).andFinally (releaseJobLock (.complete id) lockId)

end HVault.Documents
