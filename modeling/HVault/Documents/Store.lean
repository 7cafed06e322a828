import HVault.Data.Tally
import HVault.Documents.Framing
import HVault.Interleave.Prog

/-!
# The account a document request works on

One account's transfers and documents, the bucket they are stored in, the locks their requests
take, and the clock. A staging row is an open transfer; a document row is a committed one; both
are stored under the id minted when the transfer was opened, and the object key is built from that
id alone. The storage engine is a third store beside the two collections: every call to it is an
access of its own, like every database statement, and an object or an upload it does not know is
an answer (`none`), not a failure.

A request is a `Req`. Reading the clock is an access too, so that time may pass between any two
lines of a handler.
-/

namespace HVault.Documents

open Interleave

/-! ## Rows -/

/-- An id the server mints: the time it was minted at, and a counter. -/
structure ObjectId where
  timestamp : ℕ
  counter : ℕ
  deriving DecidableEq, Repr

/-- The key of a stored object: one this code built, or another. -/
inductive ObjectKey where
  | ofDocument (documentId : ObjectId)
  | foreign (name : ℕ)
  deriving DecidableEq, Repr

def buildObjectKey (documentId : ObjectId) : ObjectKey := .ofDocument documentId

/-- The document a well-formed key names. -/
def parseObjectKey : ObjectKey → Option ObjectId
  | .ofDocument documentId => some documentId
  | .foreign _ => none

/-- The document key, wrapped under the vault key. -/
structure WrappedDek where
  encryptedDek : String
  dekIv : String
  dekTag : String
  deriving DecidableEq, Repr

/-- The framing a browser chose for the segments of a file. -/
structure StreamFraming where
  streamSalt : String
  noncePrefix : String
  deriving DecidableEq, Repr

/-- The sealed description of a document. -/
structure SealedMeta where
  encryptedMeta : String
  metaIv : String
  metaTag : String
  deriving DecidableEq, Repr

/-- An accepted part, with the receipt of the engine where it gives one. -/
structure LedgerPart where
  partNumber : ℕ
  etag : Option String
  bytes : ℕ
  deriving DecidableEq, Repr

def LedgerPart.size (part : LedgerPart) : PartSize := ⟨part.partNumber, part.bytes⟩

/-- A staging row. -/
structure Upload where
  objectKey : ObjectKey
  /-- Present exactly where the transfer has several segments. -/
  s3UploadId : Option ℕ
  dek : WrappedDek
  framing : StreamFraming
  declaredPlaintextBytes : ℕ
  declaredChunkCount : ℕ
  chunkPlaintextBytes : ℕ
  vaultKeyVersion : ℕ
  parts : List LedgerPart
  receivedBytes : ℕ
  folderId : Option ℕ
  expiresAt : ℕ

/-- A document row. -/
structure Document where
  folderId : Option ℕ
  objectKey : ObjectKey
  dek : WrappedDek
  framing : StreamFraming
  sealedMeta : SealedMeta
  chunkPlaintextBytes : ℕ
  chunkCount : ℕ
  ciphertextBytes : ℕ
  plaintextBytes : ℕ
  deletedAt : Option ℕ
  purgePending : Bool

/-! ## The engine -/

/-- A stored object. An engine need not say when it was stored. -/
structure StoredObject where
  bytes : ℕ
  lastModified : Option ℕ
  deriving DecidableEq, Repr

/-- A part the engine holds. -/
structure StoragePart where
  partNumber : ℕ
  etag : String
  bytes : ℕ
  deriving DecidableEq, Repr

def StoragePart.size (part : StoragePart) : PartSize := ⟨part.partNumber, part.bytes⟩

/-- A multipart upload the engine still holds; its parts stand in the order of their numbers. An
engine need not say when it was opened. -/
structure Multipart where
  key : ObjectKey
  initiated : Option ℕ
  parts : List StoragePart
  deriving DecidableEq, Repr

/-! ## The store -/

/-- The user document, as far as a transfer reads it. -/
structure Account where
  rotationInProgress : Bool
  deletionPending : Bool
  /-- Absent on an account that never rotated. -/
  vaultKeyVersion : Option ℕ
  deriving DecidableEq, Repr

/-- The locks of the document code. -/
inductive LockName where
  | init
  | complete (uploadId : ObjectId)
  | rotation
  | cleanup
  deriving DecidableEq, Repr

/-- A lock that is held, at the latest until it expires. -/
structure JobLock where
  lockedBy : ℕ
  expiresAt : ℕ
  deriving DecidableEq, Repr

/-- One account, its bucket and the clock. `minted` counts what has been given a fresh id. -/
structure Store where
  account : Option Account
  folders : Finset ℕ
  uploads : Finmap fun _ : ObjectId => Upload
  documents : Finmap fun _ : ObjectId => Document
  objects : Finmap fun _ : ObjectKey => StoredObject
  multiparts : Finmap fun _ : ℕ => Multipart
  locks : LockName → Option JobLock
  minted : ℕ
  clock : ℕ

/-- What an operator sets. -/
structure Deployment where
  storageQuotaBytes : ℕ
  maxDocumentBytes : ℕ
  /-- `DOCUMENT_UPLOAD_TTL_HOURS`, in milliseconds. -/
  uploadTtl : ℕ
  /-- Whether the engine says when it stored or opened something. -/
  reportsAge : Bool

/-! ## Errors -/

/-- Why a completion was asked to rewrap its key. -/
inductive StaleVaultKeyReason where
  | rotated
  | unreached
  deriving DecidableEq, Repr

/-- What a request may end with besides its answer. -/
inductive DocumentError where
  /-- A failed database or storage call. -/
  | unavailable
  | sessionInvalid
  | rotationInProgress
  | rotationLockBusy
  | documentTooLarge
  | openBusy
  | tooManyUploads
  | documentLimit
  | quotaExceeded
  | folderNotFound
  | uploadNotFound
  | documentNotFound
  | notInTrash
  | notRestorable
  | unsupportedMediaType
  | partOutside (partNumber declared : ℕ)
  | partLength (partNumber : ℕ) (declared : Option ℕ) (delivered : ℕ)
  | partSize (partNumber required delivered : ℕ)
  | partDigestMalformed
  | partDigestMismatch (partNumber : ℕ)
  | rangeError
  | unusableTransfer
  | storageNotFound
  | storageRefused
  | beingCompleted
  | noParts
  | partCount (held accepted : ℕ)
  | missingPart (expected next : ℕ)
  | partNotAccepted (partNumber : ℕ)
  | partDiffers (partNumber stored accepted : ℕ)
  | partsMissing (declared arrived : ℕ)
  | framingMismatch
  | segmentSize (partNumber required stored : ℕ)
  | transferChanged
  | duplicateId
  deriving DecidableEq, Repr

/-! ## Statements -/

/-- The accesses of the document code. -/
inductive Site where
  | clock | mint
  | acquireLock (name : LockName) | releaseLock (name : LockName)
  | readAccount | readFolder
  | countUploads | countDocuments | inFlightBytes | committedBytes
  | remeasureQuota (id : ObjectId)
  | readUpload | insertUpload | writeLedger (id : ObjectId)
  | claimUpload (id : ObjectId) | claimMultipart (id : ObjectId) | cancelUpload (id : ObjectId)
  | deleteUpload (id : ObjectId) | releaseUpload (id : ObjectId)
  | readDocument | insertDocument (id : ObjectId) | deleteDocument (id : ObjectId)
  | trashDocument | restoreDocument | markPurge | findPending | findDocuments | findUploads
  | createMultipart | abortMultipart (id : ObjectId) | completeMultipart (id : ObjectId)
  | listParts | storePart | listMultiparts
  | headObject | putObject (id : ObjectId) | deleteObject (id : ObjectId) | listObjects
  | tick | expire
  deriving DecidableEq, Repr

/-- A document request with answer `α`. -/
abbrev Req (α : Type) := Prog Store Site DocumentError α

/-- `Date.now()`. -/
def readClock : Req ℕ := .read .clock (·.clock)

/-- A new id, carrying the time. -/
def mintObjectId : Req ObjectId :=
  .db .mint fun s => (⟨s.clock, s.minted⟩, { s with minted := s.minted + 1 })

/-! ### Locks -/

/-- The conditional upsert of an acquisition: it takes a lock nobody holds or that has expired. -/
def acquireStatement (name : LockName) (ttl : ℕ) (s : Store) : Option ℕ × Store :=
  if (s.locks name).all fun lock => decide (lock.expiresAt ≤ s.clock) then
    (some s.minted, { s with
      locks := Function.update s.locks name (some ⟨s.minted, s.clock + ttl⟩)
      minted := s.minted + 1 })
  else (none, s)

def acquireJobLock (name : LockName) (ttl : ℕ) : Req (Option ℕ) :=
  .db (.acquireLock name) (acquireStatement name ttl)

/-- The release of one acquisition: a lock somebody else holds by now stays. -/
def releaseStatement (name : LockName) (lockId : ℕ) (s : Store) : Store :=
  if (s.locks name).any fun lock => decide (lock.lockedBy = lockId) then
    { s with locks := Function.update s.locks name none }
  else s

def releaseJobLock (name : LockName) (lockId : ℕ) : Req Unit :=
  .db (.releaseLock name) fun s => ((), releaseStatement name lockId s)

def initLockTtl : ℕ := 2 * 60 * 1000

def completeLockTtl : ℕ := 2 * 60 * 1000

def vaultRotationLockTtl : ℕ := 5 * 60 * 1000

theorem initLockTtl_pos : 0 < initLockTtl := by decide

theorem vaultRotationLockTtl_pos : 0 < vaultRotationLockTtl := by decide

/-! ### The account -/

/-- The account's vault-key generation: absent means it never rotated. -/
def vaultKeyVersionOf (account : Option Account) : ℕ := (account.bind (·.vaultKeyVersion)).getD 0

/-- The account, refused when it is gone or being erased. -/
def readTenantRow : Req Account := do
  let found ← .read .readAccount fun s => s.account.filter fun a => !a.deletionPending
  match found with
  | none => .raise .sessionInvalid
  | some account => pure account

/-- Refuses while a rotation is in progress. -/
def assertVaultNotRotating : Req Unit := do
  let account ← readTenantRow
  if account.rotationInProgress then .raise .rotationInProgress else pure ()

/-- The vault-key exclusion lock, refused when it is held. -/
def acquireVaultRotationLock : Req ℕ := do
  let lockId ← acquireJobLock .rotation vaultRotationLockTtl
  match lockId with
  | none => .raise .rotationLockBusy
  | some lockId => pure lockId

/-! ### Totals -/

/-- The bytes of every document row, the trashed ones included. -/
def committedBytesFor (s : Store) : ℤ := s.documents.tally fun _ document => document.plaintextBytes

/-- The declared bytes of the staging rows that are live at `now`. -/
def inFlightBytesFor (now : ℕ) (s : Store) : ℤ :=
  s.uploads.tally fun _ upload => if now < upload.expiresAt then upload.declaredPlaintextBytes else 0

/-- The staging rows that are live at `now`. -/
def openUploadsFor (now : ℕ) (s : Store) : ℤ :=
  s.uploads.tally fun _ upload => if now < upload.expiresAt then 1 else 0

/-- The document rows. -/
def documentCountFor (s : Store) : ℤ := s.documents.tally fun _ _ => 1

/-! ### Rows -/

/-- Removes a staging row that passes `filter`, and returns it. -/
def Store.claimUpload (id : ObjectId) (filter : Upload → Bool) (s : Store) :
    Option Upload × Store :=
  match s.uploads.lookup id with
  | some upload =>
    if filter upload then (some upload, { s with uploads := s.uploads.erase id }) else (none, s)
  | none => (none, s)

variable (id : ObjectId)

theorem Store.claimUpload_cases (filter : Upload → Bool) (s : Store) :
    s.claimUpload id filter = (none, s) ∨ ∃ upload, s.uploads.lookup id = some upload ∧
      filter upload ∧ s.claimUpload id filter
        = (some upload, { s with uploads := s.uploads.erase id }) := by
  unfold Store.claimUpload
  split
  · rename_i upload hupload
    split
    · rename_i hfilter
      exact .inr ⟨upload, hupload, hfilter, rfl⟩
    · exact .inl rfl
  · exact .inl rfl

/-- Inserts a document row unless its id is taken, and says whether it did. -/
def Store.insertDocument (id : ObjectId) (document : Document) (s : Store) : Bool × Store :=
  if id ∈ s.documents then (false, s)
  else (true, { s with documents := s.documents.insert id document })

/-- Rewrites a document row that passes `filter`, and returns it as written. -/
def Store.updateDocument (id : ObjectId) (filter : Document → Bool)
    (update : ℕ → Document → Document) (s : Store) : Option Document × Store :=
  match s.documents.lookup id with
  | some document =>
    if filter document then
      (some (update s.clock document),
        { s with documents := s.documents.insert id (update s.clock document) })
    else (none, s)
  | none => (none, s)

theorem Store.insertDocument_cases (document : Document) (s : Store) :
    s.insertDocument id document = (false, s) ∨ id ∉ s.documents ∧
      s.insertDocument id document
        = (true, { s with documents := s.documents.insert id document }) := by
  unfold Store.insertDocument
  split
  · exact .inl rfl
  · rename_i hid
    exact .inr ⟨hid, rfl⟩

theorem Store.updateDocument_cases (filter : Document → Bool) (update : ℕ → Document → Document)
    (s : Store) :
    s.updateDocument id filter update = (none, s) ∨ ∃ document,
      s.documents.lookup id = some document ∧ filter document ∧
      s.updateDocument id filter update = (some (update s.clock document),
        { s with documents := s.documents.insert id (update s.clock document) }) := by
  unfold Store.updateDocument
  split
  · rename_i document hdocument
    split
    · rename_i hfilter
      exact .inr ⟨document, hdocument, hfilter, rfl⟩
    · exact .inl rfl
  · exact .inl rfl

/-- A statement on the document rows changes nothing else. -/
theorem Store.insertDocument_frame (document : Document) (s : Store) :
    (s.insertDocument id document).2.uploads = s.uploads ∧
      (s.insertDocument id document).2.locks = s.locks ∧
      (s.insertDocument id document).2.clock = s.clock ∧
      (s.insertDocument id document).2.minted = s.minted := by
  rcases s.insertDocument_cases id document with h | ⟨-, h⟩
  · rw [h]
    exact ⟨rfl, rfl, rfl, rfl⟩
  · rw [h]
    exact ⟨rfl, rfl, rfl, rfl⟩

theorem Store.updateDocument_frame (filter : Document → Bool) (update : ℕ → Document → Document)
    (s : Store) :
    (s.updateDocument id filter update).2.uploads = s.uploads ∧
      (s.updateDocument id filter update).2.locks = s.locks ∧
      (s.updateDocument id filter update).2.clock = s.clock ∧
      (s.updateDocument id filter update).2.minted = s.minted := by
  rcases s.updateDocument_cases id filter update with h | ⟨document, -, -, h⟩
  · rw [h]
    exact ⟨rfl, rfl, rfl, rfl⟩
  · rw [h]
    exact ⟨rfl, rfl, rfl, rfl⟩

def Store.eraseUpload (id : ObjectId) (s : Store) : Store :=
  { s with uploads := s.uploads.erase id }

def Store.eraseDocument (id : ObjectId) (s : Store) : Store :=
  { s with documents := s.documents.erase id }

def Store.eraseObject (key : ObjectKey) (s : Store) : Store :=
  { s with objects := s.objects.erase key }

/-! ### The engine's calls -/

/-- The age an engine reports of what it stores now. -/
def Deployment.stamp (d : Deployment) (s : Store) : Option ℕ :=
  if d.reportsAge then some s.clock else none

/-- Stores a whole object in one request. -/
def Store.putObject (d : Deployment) (key : ObjectKey) (bytes : ℕ) (s : Store) : Store :=
  { s with objects := s.objects.insert key ⟨bytes, d.stamp s⟩ }

/-- Opens a multipart upload. -/
def Store.createMultipart (d : Deployment) (key : ObjectKey) (s : Store) : ℕ × Store :=
  (s.minted, { s with
    multiparts := s.multiparts.insert s.minted ⟨key, d.stamp s, []⟩
    minted := s.minted + 1 })

/-- The parts of an upload after one more is stored; a part of the same number is replaced. -/
def insertPart (part : StoragePart) (parts : List StoragePart) : List StoragePart :=
  (part :: parts.filter fun p => p.partNumber ≠ part.partNumber).insertionSort
    fun left right => left.partNumber ≤ right.partNumber

/-- Stores one part and answers with its receipt, which the engine makes from the bytes; an upload
it does not know has none. -/
def Store.storePart (s3UploadId partNumber bytes : ℕ) (etag : String) (s : Store) :
    Option String × Store :=
  match s.multiparts.lookup s3UploadId with
  | none => (none, s)
  | some multipart =>
    (some etag, { s with
      multiparts := s.multiparts.insert s3UploadId { multipart with
        parts := insertPart ⟨partNumber, etag, bytes⟩ multipart.parts } })

/-- Whether the engine holds exactly the parts a completion names. -/
def holdsParts (named : List (ℕ × String)) (parts : List StoragePart) : Bool :=
  named.all fun p => parts.any fun part => part.partNumber = p.1 ∧ part.etag = p.2

/-- How the engine answers a completion. -/
inductive CompletionAnswer where
  | completed
  | notFound
  | invalidPart
  deriving DecidableEq, Repr

/-- Assembles the object of an upload from the parts named, and forgets the upload. -/
def Store.completeMultipart (d : Deployment) (key : ObjectKey) (s3UploadId : ℕ)
    (named : List (ℕ × String)) (s : Store) : CompletionAnswer × Store :=
  match s.multiparts.lookup s3UploadId with
  | none => (.notFound, s)
  | some multipart =>
    if holdsParts named multipart.parts then
      let assembled := multipart.parts.filter fun part =>
        named.any fun p => part.partNumber = p.1
      (.completed, { s with
        multiparts := s.multiparts.erase s3UploadId
        objects := s.objects.insert key ⟨totalBytes (assembled.map (·.size)), d.stamp s⟩ })
    else (.invalidPart, s)

/-- Gives up an upload, and says whether the engine knew it. -/
def Store.abortMultipart (s3UploadId : ℕ) (s : Store) : Bool × Store :=
  if s3UploadId ∈ s.multiparts then
    (true, { s with multiparts := s.multiparts.erase s3UploadId })
  else (false, s)

end HVault.Documents
