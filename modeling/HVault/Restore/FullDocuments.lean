import HVault.Documents.Transfers
import HVault.Export.ArchiveNames
import HVault.Restore.DocumentJob

/-!
# Restoring the documents of a full backup

Each document of the backup is matched with one the account holds, by its id and then by the id it
was restored from (`Plan.matching`), and is restored from the trash, left alone, given the backup's
details, or uploaded again. A refusal about one document is recorded and the run goes on; one that
would refuse every document after it stops the run.
-/

namespace HVault.FullRestore

open Base64 (base64ToBytes base64ToBytes_btoa)
open Json Backup Documents DocumentCrypto
open Archive (decimal)
open Restore (ConflictStrategy)

/-! ## One document's upload -/

def initLockBusyMessage : String :=
  "Another transfer is already being opened for this account. Please wait a moment and retry."

def initLockBusyWaitMs : ℕ := 2000

def initLockBusyRetries : ℕ := 5

def folderNotFoundMessage : String := "Target folder not found"

/-- The refusals at the start of an upload that would meet every document after it. -/
def isAccountLimit (message : Utf16) : Bool :=
  units "Too many uploads in progress" <+: message ∨ units "Document limit reached" <+: message ∨
    units "Storage quota exceeded" <+: message

def messageOf (refusal : Refusal) : Utf16 := getApiErrorMessage refusal []

/-- What one upload has waited for so far. -/
structure Attempts where
  rateLimitWaits : ℕ := 0
  lockWaits : ℕ := 0
  movedToTopLevel : Bool := false

/-- How many more attempts there can be. -/
def Attempts.left (attempts : Attempts) : ℕ :=
  (maxRateLimitWaits - attempts.rateLimitWaits) + (initLockBusyRetries - attempts.lockWaits) +
    (if attempts.movedToTopLevel then 0 else 1)

/-- What a failed attempt at an upload means. -/
inductive Verdict where
  | stop (stop : JobStopKind) (message : Utf16)
  | again (ms : ℕ) (attempts : Attempts)
  | toTopLevel (attempts : Attempts)
  /-- The server refuses this document, and its transfer is dropped. -/
  | refuse (reason : Utf16)
  /-- The document's details are refused before there is a transfer. -/
  | refuseDetails (reason : Utf16)

/-- What was refused: a transfer that stopped is told by its cause. -/
def Thrown.raw : Thrown → Refusal
  | .refused refusal => refusal
  | .uploadStopped _ cause => cause
  | .jobStop _ _ | .notRestored _ => .unknown

def Thrown.isWrapped : Thrown → Bool
  | .uploadStopped _ _ => true
  | _ => false

/-- The message of the error itself. -/
def Thrown.message : Thrown → Utf16
  | .uploadStopped message _ => units message
  | .refused refusal => messageOf refusal
  | .jobStop _ message | .notRestored message => message

def Attempts.judge (attempts : Attempts) (filed : Bool) (thrown : Thrown) : Verdict :=
  let wrapped := thrown.isWrapped
  let raw := thrown.raw
  let status := raw.status
  let message := messageOf raw
  let sentence (fallback : String) := getApiErrorMessage raw (units fallback)
  if raw.failure.isSessionGone then .stop .vaultLocked (units "Your session ended.")
  else if wrapped ∧ raw.isRateLimited then
    let ms := raw.retryAfterSeconds.getD 60 * 1000
    if maxRateLimitWaitMs < ms ∨ maxRateLimitWaits ≤ attempts.rateLimitWaits then
      .stop .rateLimited (units rateLimitStopMessage)
    else .again ms { attempts with rateLimitWaits := attempts.rateLimitWaits + 1 }
  else if wrapped = false ∧ status = some 409 ∧ message = units initLockBusyMessage then
    if initLockBusyRetries ≤ attempts.lockWaits then .stop .failed message
    else .again initLockBusyWaitMs { attempts with lockWaits := attempts.lockWaits + 1 }
  else if status = some 409 then
    let refusal := sentence "The server refused the upload."
    .stop .failed (if raw.isStaleVaultKey then refusal ++ units " Reload the page." else refusal)
  else if status = some 400 ∧ isAccountLimit message then .stop .failed message
  else if wrapped = false ∧ status = some 404 ∧ message = units folderNotFoundMessage ∧ filed ∧
      attempts.movedToTopLevel = false then
    .toTopLevel { attempts with movedToTopLevel := true }
  else if status = some 403 then .stop .failed (sentence "The server refused the request.")
  else if wrapped ∧ (status = none ∨ status = some 408 ∨ 500 ≤ status.getD 0) then
    .stop .serverUnavailable thrown.message
  else if 500 ≤ status.getD 0 then
    .stop .serverUnavailable (sentence "The server is temporarily unavailable.")
  else if status.isSome then .refuse (sentence "The server refused it.")
  else
    match raw with
    | .detailsRefused text => .refuseDetails (units text)
    | _ => .stop .failed (sentence "The upload could not be started.")

/-- Where a verdict goes on, fewer than `n` attempts are left. -/
def Verdict.Lowers (n : ℕ) : Verdict → Prop
  | .again _ attempts | .toTopLevel attempts => attempts.left < n
  | .stop _ _ | .refuse _ | .refuseDetails _ => True

theorem Attempts.judge_lowers (attempts : Attempts) (filed : Bool) (thrown : Thrown) :
    (attempts.judge filed thrown).Lowers attempts.left := by
  unfold Attempts.judge
  dsimp only
  split_ifs with _ _ hrate _ hlock _ _ _ hfolder
  any_goals exact trivial
  · show Attempts.left _ < _
    simp only [Attempts.left]
    omega
  · show Attempts.left _ < _
    simp only [Attempts.left]
    omega
  · show Attempts.left _ < _
    simp only [Attempts.left, hfolder.2.2.2.2]
    simp
  · split
    · exact trivial
    · exact trivial

section

variable (env : Surroundings)

def note (text : Utf16) : Step Unit :=
  modify fun w => { w with report := { w.report with notes := w.report.notes ++ [text] } }

/-- No transfer is in flight any more. -/
def forgetTransfer : Step Unit := modify fun w => { w with current := none }

def dropTransfer : Step Unit := do
  Job.when (← get).current.isSome cancelUpload
  forgetTransfer

/-- The upload is started, or the transfer that was registered is taken up again. -/
def sendUpload (input : StartUploadInput) : Option Transfer → Step Utf16
  | none => startUpload env input
  | some registered => retryUpload env registered.id

def folderGoneNote (name : Utf16) : Utf16 :=
  name ++ units ": its folder no longer exists, so it was restored outside any folder."

def uploadAttempts (input : StartUploadInput) (name : Utf16) (attempts : Attempts) :
    Step Utf16 := do
  let registered := (← get).current
  tryCatch
    (do
      let id ← sendWithRetries env (sendUpload env input registered)
      forgetTransfer
      return id)
    fun thrown =>
      match thrown with
      | .jobStop stop message => throw (.jobStop stop message)
      | thrown =>
        match _hjudge : attempts.judge input.folderId.isSome thrown with
        | .stop stop message => throw (.jobStop stop message)
        | .again ms next => do
          pause ms
          uploadAttempts input name next
        | .toTopLevel next => do
          note (folderGoneNote name)
          uploadAttempts { input with folderId := none } name next
        | .refuse reason => do
          dropTransfer
          throw (.notRestored reason)
        | .refuseDetails reason => throw (.notRestored reason)
termination_by attempts.left
decreasing_by
  all_goals
    have hlowers := attempts.judge_lowers input.folderId.isSome thrown
    rw [_hjudge] at hlowers
    exact hlowers

def uploadOnce (input : StartUploadInput) (name : Utf16) : Step Utf16 := do
  forgetTransfer
  uploadAttempts env input name {}

/-! ## Changes of a document -/

/-- What is said of a write that was refused for its document alone, or what the job stops with. -/
def refusedWrite : Thrown → Except Thrown Utf16
  | .jobStop stop message => .error (.jobStop stop message)
  | .refused refusal =>
    let status := refusal.status
    if refusal.failure.isSessionGone then
      .error (.jobStop .vaultLocked (units "Your session ended."))
    else if status = some 403 ∨ status = some 409 then .error (.jobStop .failed
      (getApiErrorMessage refusal (units "The server refused a change.")))
    else if 500 ≤ status.getD 0 then .error (.jobStop .serverUnavailable
      (getApiErrorMessage refusal (units "The server is temporarily unavailable.")))
    else if refusal = .error documentTypeLockedMessage then
      .ok (units "its file type differs here, so its name, tags and note were not replaced")
    else if status = some 404 ∧ messageOf refusal = units folderNotFoundMessage then
      .ok (units "its folder no longer exists, so it was left where it is")
    else .ok (getApiErrorMessage refusal (units "a change to it was refused"))
  -- a write has no transfer, and refuses nothing by itself
  | thrown => .ok thrown.message

/-- One write. What comes back is why it was refused. -/
def sendWrite (send : Step Unit) : Step (Option Utf16) :=
  tryCatch
    (do
      sendWithRetries env send
      return none)
    fun thrown =>
      match refusedWrite thrown with
      | .error thrown => throw thrown
      | .ok refusal => return some refusal

/-- The fields in which two documents' metadata differ. -/
def DocumentMetaUpdate.between (here wanted : DocumentMeta) : DocumentMetaUpdate where
  name := if here.name ≠ wanted.name then some wanted.name else none
  tags := if here.tags ≠ wanted.tags then some wanted.tags else none
  note := if here.note ≠ wanted.note then some wanted.note else none

def DocumentMetaUpdate.isEmpty (changes : DocumentMetaUpdate) : Bool :=
  changes.name.isNone && changes.tags.isNone && changes.note.isNone

def metaWrites (doc : DecryptedDocument) (documentMeta : DocumentMeta) : List (Step Unit) :=
  match doc.documentMeta with
  | none => []
  | some here =>
    let changes := DocumentMetaUpdate.between here documentMeta
    if changes.isEmpty then [] else [updateDocumentMeta env doc.id changes]

/-- `mapped` is the folder that the backup's became, or `none` where that is not known. -/
def folderWrites (doc : DecryptedDocument) : Option (Option Utf16) → List (Step Unit)
  | none => []
  | some folderId => if doc.folderId ≠ folderId then [moveToFolder env doc.id folderId] else []

def favoriteWrites (doc : DecryptedDocument) (row : DocumentResponse) : List (Step Unit) :=
  if doc.favorite ≠ row.favorite then [setFavorite env doc.id row.favorite] else []

def noteRefusal (name refusal : Utf16) : Step Unit :=
  note (name ++ units ": " ++ refusal ++ units ".")

def applyWrite (name : Utf16) (changed : Bool) (write : Step Unit) : Step Bool := do
  match ← sendWrite env write with
  | none => return true
  | some refusal =>
    noteRefusal name refusal
    return changed

/-- A document is given the backup's details where they differ. What comes back is whether anything
changed. -/
def applyDetails (doc : DecryptedDocument) (documentMeta : DocumentMeta) (row : DocumentResponse)
    (mapped : Option (Option Utf16)) (name : Utf16) : Step Bool := do
  Job.when doc.documentMeta.isNone
    (note (name ++ units ": its details here could not be opened, so they were not replaced."))
  let writes := metaWrites env doc documentMeta ++ folderWrites env doc mapped
    ++ favoriteWrites env doc row
  writes.foldlM (applyWrite env name) false

/-! ## One document of the backup -/

/-- The document that one of the backup is matched with: by its id, and else by the id it was
restored from. Of two with one id the later counts. -/
def matching (docs : List DecryptedDocument) (id : Utf16) : Option DecryptedDocument :=
  (docs.reverse.find? fun doc => doc.id = id).or
    (docs.find? fun doc => doc.documentMeta.bind (·.restoredFrom) = some id)

/-- The folder that the backup's became. -/
def mappedFolder (folders : List (Utf16 × Utf16)) (row : DocumentResponse) :
    Option (Option Utf16) :=
  match row.folderId with
  | none => some none
  | some backupId => (folders.reverse.find? fun pair => pair.1 = backupId).map fun pair => some pair.2

def readFromBackup : Step Blob := do
  let now ← tick
  match env.read now with
  | .ok blob => return blob
  | .error refusal =>
    throwIfAborted env
    match refusal with
    | .integrity _ | .authentication _ => throw (.notRestored
        (units "It could not be read from the backup and verified, so it was not restored."))
    | .notReadable _ => throw (.jobStop .failed
        (units "The backup file could not be read. Was it moved or changed?"))
    | _ => throw (.refused refusal)

/-- Why there is no room for a document. -/
def noRoom (config : DocumentsConfig) (usage : DocumentUsage) (documentMeta : DocumentMeta) :
    Option Thrown :=
  let allowed := config.allowedExtensions.getD []
  if ∃ mb ∈ config.maxSizeMB, mb * 1024 * 1024 < documentMeta.plaintextBytes then
    some (.notRestored (units "It is larger than this server accepts ("
      ++ decimal (config.maxSizeMB.getD 0) ++ units " MB)."))
  else if allowed ≠ [] ∧ documentExtension env documentMeta.name ∉ allowed then
    some (.notRestored (units "This server asks for these file types only: "
      ++ (units ", ").intercalate allowed ++ units "."))
  else if maxDocumentsPerUser ≤ usage.documentCount then
    some (.jobStop .failed (units "Document limit reached: an account can hold "
      ++ decimal maxDocumentsPerUser ++ units " documents."))
  else if usage.quotaBytes < usage.usedBytes + documentMeta.plaintextBytes then
    some (.notRestored (units "There is not enough storage left for it."))
  else none

def uploadInput (documentMeta : DocumentMeta) (row : DocumentResponse)
    (mapped : Option (Option Utf16)) (source : Blob) : StartUploadInput where
  source := source
  name := documentMeta.name
  originalName := documentMeta.originalName
  mime := documentMeta.mime
  folderId := mapped.getD none
  tags := documentMeta.tags
  note := documentMeta.note
  transform := documentMeta.transform
  restored := ⟨row.id, documentMeta.capturedAt⟩

def throwAny : Option Thrown → Step Unit
  | some thrown => throw thrown
  | none => return ()

def noteAny (name : Utf16) : Option Utf16 → Step Unit
  | some refusal => noteRefusal name refusal
  | none => return ()

def countUploaded (id : Utf16) : Step Unit := modify fun w => { w with
  report := { w.report with uploaded := w.report.uploaded + 1 }
  settled := true
  completed := w.completed ++ [id] }

/-- The document is one the account does not have, or gets a second time. -/
def uploadEntry (config : DocumentsConfig) (usage : DocumentUsage) (documentMeta : DocumentMeta)
    (row : DocumentResponse) (mapped : Option (Option Utf16)) (name : Utf16) :
    Step DocumentUsage := do
  throwAny (noRoom env config usage documentMeta)
  let source ← readFromBackup env
  let id ← uploadOnce env (uploadInput documentMeta row mapped source) name
  countUploaded row.id
  Job.when row.favorite do
    noteAny name (← sendWrite env (setFavorite env id true))
  return { usage with
    documentCount := usage.documentCount + 1
    usedBytes := usage.usedBytes + documentMeta.plaintextBytes }

def countRestoredFromTrash : Step Unit := modify fun w => { w with
  report := { w.report with restoredFromTrash := w.report.restoredFromTrash + 1 }
  settled := true }

def countAlreadyPresent : Step Unit := modify fun w => { w with
  report := { w.report with alreadyPresent := w.report.alreadyPresent + 1 } }

def countUpdated : Step Unit := modify fun w => { w with
  report := { w.report with updated := w.report.updated + 1 } }

def countNotRestored (name reason : Utf16) : Step Unit := modify fun w => { w with
  report := { w.report with notRestored := w.report.notRestored ++ [⟨name, reason⟩] } }

def restoreTrashed (doc : DecryptedDocument) (documentMeta : DocumentMeta) (row : DocumentResponse)
    (mapped : Option (Option Utf16)) (name : Utf16) : Step Unit := do
  let refusal ← sendWrite env (restoreDocument env doc.id)
  throwAny (refusal.map fun refusal => .notRestored
    (units "It could not be taken out of the trash: " ++ refusal ++ units "."))
  countRestoredFromTrash
  let _ ← applyDetails env doc documentMeta row mapped name

def overwriteEntry (doc : DecryptedDocument) (documentMeta : DocumentMeta) (row : DocumentResponse)
    (mapped : Option (Option Utf16)) (name : Utf16) : Step Unit := do
  if ← applyDetails env doc documentMeta row mapped name then countUpdated
  else countAlreadyPresent

/-- What a run knows before the first document: what it was asked for, and what the account holds. -/
structure Plan where
  conflictStrategy : ConflictStrategy
  config : DocumentsConfig
  docs : List DecryptedDocument
  folders : List (Utf16 × Utf16)

def restoreMatched (plan : Plan) (usage : DocumentUsage) (documentMeta : DocumentMeta)
    (row : DocumentResponse) (name : Utf16) : Step DocumentUsage := do
  let mapped := mappedFolder plan.folders row
  match matching plan.docs row.id with
  | none => uploadEntry env plan.config usage documentMeta row mapped name
  | some doc =>
    if doc.deletedAt.isSome then
      restoreTrashed env doc documentMeta row mapped name
      return usage
    else match plan.conflictStrategy with
      | .skip =>
        countAlreadyPresent
        return usage
      | .overwrite =>
        overwriteEntry env doc documentMeta row mapped name
        return usage
      | .keepBoth => uploadEntry env plan.config usage documentMeta row mapped name

/-- The entry was not counted, and is as good as not attempted. -/
def countStopped : Step Unit := modify fun w =>
  if w.settled then w
  else { w with report := { w.report with notAttempted := w.report.notAttempted + 1 } }

def attemptEntry : Step Unit := modify fun w => { w with
  report := { w.report with notAttempted := w.report.notAttempted - 1 }
  settled := false }

def unopenableDocumentName : String := "Unopenable document"

/-- One entry of the backup, with its metadata as it opened. -/
def restoreEntry (plan : Plan) (usage : DocumentUsage)
    (entry : DocumentResponse × Option DocumentMeta) : Step DocumentUsage := do
  throwIfInterrupted env
  attemptEntry
  match entry.2 with
  | none =>
    countNotRestored (units unopenableDocumentName)
      (units "Its details could not be opened with the backup's key, so it was not restored.")
    return usage
  | some documentMeta =>
    tryCatch (restoreMatched env plan usage documentMeta entry.1 documentMeta.name) fun thrown =>
      match thrown with
      | .notRestored reason => do
        countNotRestored documentMeta.name reason
        return usage
      | thrown => do
        countStopped
        throw thrown

end

/-! ## The run -/

section

variable {Key : Type} (p : Primitives Key) (formats : Formats)

/-- The sealed metadata of an entry, opened under the key of the backup. -/
def openEntryMeta (row : DocumentResponse) (key : Bytes) : Option DocumentMeta :=
  (do
    let wrapKey ← deriveWrapKey p key row.id
    let dek ← unwrapDek p row wrapKey
    let salt ← base64ToBytes Fault.invalidCharacter row.streamSalt
    let metaKey ← deriveMetaKey p dek salt row.id
    decryptMeta p formats metaKey row : Except Fault DocumentMeta).toOption

structure RestoreDocumentsOptions where
  backup : OpenedFullBackup
  backupVaultKey : Bytes
  folderIdMap : Option (List (Utf16 × Utf16))
  conflictStrategy : ConflictStrategy

def RestoreDocumentsOptions.entries (options : RestoreDocumentsOptions) :
    List (DocumentResponse × Option DocumentMeta) :=
  options.backup.manifest.documents.map fun entry =>
    (entry.row, openEntryMeta p formats entry.row options.backupVaultKey)

variable (env : Surroundings)

def run (options : RestoreDocumentsOptions) : Step Unit := do
  let entries := options.entries p formats
  if entries.isEmpty then return ()
  match env.config with
  | none => throw (.jobStop .failed (units
      "Could not confirm this server's document storage. Documents were not restored; run the same restore again with Skip."))
  | some config =>
    Job.when (!config.enabled) (throw (.jobStop .failed (units
      "This server does not store documents, so the backup's documents were not restored.")))
    let documents ← sendWithRetries env (fetchDocuments env)
    let trash ← sendWithRetries env (fetchTrash env)
    let usage ← sendWithRetries env (getDocumentUsage env)
    throwIfInterrupted env
    Job.when (options.folderIdMap.isNone && entries.any fun entry => entry.1.folderId.isSome)
      (note (units
        "This server did not say which folders the backup's folders became, so documents were restored outside any folder."))
    loadUploadRecovery env
    let plan : Plan := {
      conflictStrategy := options.conflictStrategy
      config
      docs := (documents ++ trash).filter fun doc => doc.purgePending ≠ some true
      folders := options.folderIdMap.getD [] }
    let _ ← entries.foldlM (restoreEntry env plan) usage

/-- What the summary says of a run that ended early. -/
def Thrown.stopped : Thrown → JobStopKind × Utf16
  | .jobStop stop message => (stop, message)
  | .refused refusal =>
    (.failed, getApiErrorMessage refusal (units "The documents could not be restored."))
  | .notRestored message => (.failed, message.take maxErrorMessageLength)
  | .uploadStopped message _ => (.failed, (units message).take maxErrorMessageLength)

def restoreFullBackupDocuments (options : RestoreDocumentsOptions) : Step Unit :=
  tryCatch (run p formats env options) fun thrown => do
    Job.when (← get).current.isSome cancelUpload
    modify fun w => { w with report := { w.report with stopped := some thrown.stopped } }

end

/-! ## The report -/

def minus : Number → ℕ → Number
  | .finite x _, n => .ofRat (x - n)
  | .infinite negative, _ => .infinite negative

/-- `Math.max(0, x)`. -/
def atLeastZero : Number → Number
  | .finite x _ => .ofRat (max 0 x)
  | .infinite negative => if negative then .ofRat 0 else .infinite false

/-- How many documents the account held that the backup says nothing about. -/
def missingFromBackup (manifest : FullBackupManifest) : Number :=
  match lookup (units "documentSummary") manifest.vault with
  | some (.object summary) =>
    match lookup (units "count") summary with
    | some (.number count) => atLeastZero
      (minus (minus (minus count manifest.documents.length) manifest.omitted.length)
        manifest.unlisted)
    | _ => .ofRat 0
  | _ => .ofRat 0

def reportFor (manifest : FullBackupManifest) : DocumentRestoreReport where
  total := manifest.documents.length
  notAttempted := manifest.documents.length
  missingFromBackup := missingFromBackup manifest
  leftOutOfBackup := manifest.omitted.length + manifest.unlisted

/-- What a restore leaves behind that works on `account`. -/
def restored {Key : Type} (p : Primitives Key) (formats : Formats) (env : Surroundings)
    (options : RestoreDocumentsOptions) (account : List DecryptedDocument) : World :=
  ((restoreFullBackupDocuments p formats env options).runFrom
    { report := reportFor options.backup.manifest, account }).2

end HVault.FullRestore
