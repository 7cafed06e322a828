import HVault.Client.SessionFailure
import HVault.Crypto.DocumentCrypto
import HVault.Data.Job

/-!
# Requests of a long job

What a restore of documents works on (`World`): its report, the documents of the account, and the
upload in flight. What it meets with is in `Surroundings`, and may be anything at each moment: the
signal of the job, how a request comes out, and whether one that failed was carried out all the same.
`sendWithRetries` repeats a request on the ladders of the job.
-/

namespace HVault.FullRestore

open Json Backup Documents DocumentCrypto

/-! ## What goes wrong -/

inductive JobStopKind where
  | stopped
  | vaultLocked
  | left
  | rateLimited
  | serverUnavailable
  | failed
  deriving DecidableEq

inductive JobAbortReason where
  | stopped
  | vaultLocked
  | left
  deriving DecidableEq

/-- An error other than the ones a job stops itself with. `text` is its own message. -/
inductive Refusal where
  /-- The server answered. `stale` is set where a 409 names a generation of the vault key. -/
  | answered (status : ℕ) (message : Option String) (retryAfter : Option ℕ) (stale : Bool)
    (text : String)
  | unanswered (text : String)
  /-- The sealed details of a document break a bound. -/
  | detailsRefused (text : String)
  | integrity (text : String)
  | authentication (text : String)
  | notReadable (text : String)
  | error (text : String)
  /-- What was thrown is not an error. -/
  | unknown
  deriving DecidableEq

namespace Refusal

/-- The error as a failed request. -/
def failure : Refusal → Client.Failure
  | answered status message _ _ _ => .response status message
  | unanswered _ => .noResponse
  | _ => .other

def status (refusal : Refusal) : Option ℕ := refusal.failure.status

def isRateLimited (refusal : Refusal) : Bool := refusal.status = some 429

def retryAfterSeconds : Refusal → Option ℕ
  | answered _ _ retryAfter _ _ => retryAfter
  | _ => none

def isStaleVaultKey : Refusal → Bool
  | answered _ _ _ stale _ => stale
  | _ => false

end Refusal

def accountLockedMessage : String :=
  "Too many wrong two-factor codes, so two-factor verification is locked for now. Use the unlock link we emailed you, or try again later."

def maxErrorMessageLength : ℕ := 200

def getApiErrorMessage (refusal : Refusal) (fallback : Utf16) : Utf16 :=
  if refusal.failure.isAccountLocked then units accountLockedMessage
  else
    let message := match refusal with
      | .answered _ (some message) _ _ text => if message = "" then units text else units message
      | .answered _ none _ _ text | .unanswered text | .detailsRefused text | .integrity text
      | .authentication text | .notReadable text | .error text => units text
      | .unknown => fallback
    message.take maxErrorMessageLength

/-- What ends a step of the job. -/
inductive Thrown where
  /-- The job stops, with the one sentence its summary shows. -/
  | jobStop (stop : JobStopKind) (message : Utf16)
  /-- One document is not restored, and the job goes on. -/
  | notRestored (reason : Utf16)
  | refused (refusal : Refusal)
  /-- A transfer that had been registered stopped; `cause` is what stopped it. -/
  | uploadStopped (message : String) (cause : Refusal)
  deriving DecidableEq

/-! ## What a job works on -/

/-- A document that was not restored, by the name the backup gives it, and why. -/
structure UnrestoredDocument where
  name : Utf16
  reason : Utf16

structure DocumentRestoreReport where
  total : ℕ
  uploaded : ℕ := 0
  restoredFromTrash : ℕ := 0
  updated : ℕ := 0
  alreadyPresent : ℕ := 0
  notRestored : List UnrestoredDocument := []
  notAttempted : ℕ
  notes : List Utf16 := []
  missingFromBackup : Number
  leftOutOfBackup : ℕ
  stopped : Option (JobStopKind × Utf16) := none

/-- A document of the account, as the store lists it: `documentMeta` is its sealed metadata, or
`none` where that cannot be opened. -/
structure DecryptedDocument where
  id : Utf16
  folderId : Option Utf16
  favorite : Bool
  deletedAt : Option Utf16
  purgePending : Option Bool
  documentMeta : Option DocumentMeta

/-- A file in memory. -/
structure Blob where
  size : ℕ
  sha256 : Utf16

/-- Where a document that is uploaded again came from. -/
structure RestoredDocument where
  fromId : Utf16
  capturedAt : Utf16

structure StartUploadInput where
  source : Blob
  name : Utf16
  originalName : Option Utf16
  mime : Utf16
  folderId : Option Utf16
  tags : List Utf16
  note : Option Utf16
  transform : Option DocumentTransform
  restored : RestoredDocument

/-- The transfer in flight. `committed` is set once the server holds its document, which takes the
id of the transfer; `cancelled` once the store has dropped it. -/
structure Transfer where
  id : Utf16
  input : StartUploadInput
  committed : Bool := false
  cancelled : Bool := false

/-- `settled` tells whether the entry at hand has been counted. `started` lists the documents of the
backup that an upload was started for, and `completed` those that were counted as uploaded. -/
structure World where
  report : DocumentRestoreReport
  account : List DecryptedDocument
  current : Option Transfer := none
  settled : Bool := false
  clock : ℕ := 0
  started : List Utf16 := []
  completed : List Utf16 := []

/-! ## What a job meets with -/

structure DocumentsConfig where
  enabled : Bool
  maxSizeMB : Option ℕ
  allowedExtensions : Option (List Utf16)

structure DocumentUsage where
  documentCount : ℕ
  usedBytes : ℕ
  quotaBytes : ℕ

/-- How a registered transfer goes on. -/
inductive TransferOutcome where
  | done
  | stopped (committed : Bool) (message : String) (cause : Refusal)
  | cancelled (committed : Bool)

/-- How the start of an upload comes out. -/
inductive StartOutcome where
  | refused (refusal : Refusal)
  | registered (uploadId : Utf16) (outcome : TransferOutcome)

/-- How taking up a transfer again comes out. -/
inductive RetryOutcome where
  | refused (refusal : Refusal)
  | resumed (outcome : TransferOutcome)

/-- What the job finds at each moment. A request that fails may have been carried out. -/
structure Surroundings where
  toLowerCase : Utf16 → Utf16
  aborted : ℕ → Option JobAbortReason
  interrupted : ℕ → Bool
  recovery : ℕ → Option Refusal
  config : Option DocumentsConfig
  usage : DocumentUsage
  request : ℕ → Option (Refusal × Bool)
  start : ℕ → StartOutcome
  retry : ℕ → RetryOutcome
  read : ℕ → Except Refusal Blob
  /-- The order the server lists documents in. -/
  order : List DecryptedDocument → List DecryptedDocument
  order_perm : ∀ docs, (order docs).Perm docs

abbrev Step (α : Type) := Job World Thrown α

/-- The moment, which then has passed. -/
def tick : Step ℕ := do
  let w ← get
  modify fun w => { w with clock := w.clock + 1 }
  return w.clock

/-! ## Stopping -/

def abortedStop : Option JobAbortReason → Thrown
  | some .vaultLocked => .jobStop .vaultLocked (units "The vault locked or you signed out.")
  | some .left => .jobStop .left (units "You left the page.")
  | some .stopped | none => .jobStop .stopped (units "You stopped it.")

section

variable (env : Surroundings)

def isAborted : Step (Option JobAbortReason) := do
  let now ← tick
  return env.aborted now

def throwIfAborted : Step Unit := do
  match ← isAborted env with
  | some reason => throw (abortedStop (some reason))
  | none => return ()

/-- The check between documents, which also asks whether the vault has locked. -/
def throwIfInterrupted : Step Unit := do
  let reason ← isAborted env
  let now ← tick
  if reason.isSome || env.interrupted now then throw (abortedStop reason)

/-- Waiting is all that is done for a while. -/
def pause (_ms : ℕ) : Step Unit := do
  let _ ← tick
  return ()

def loadUploadRecovery : Step Unit := do
  let now ← tick
  match env.recovery now with
  | some refusal => throw (.refused refusal)
  | none => return ()

end

/-! ## Retries -/

def maxRateLimitWaitMs : ℕ := 15 * 60 * 1000

def maxRateLimitWaits : ℕ := 6

def maxUnreachedWaitMs : ℕ := 10 * 60 * 1000

def rateLimitStopMessage : String :=
  "The server asked this account to pause for longer than this waits. Try again later."

def gatewayRetryDelaysMs : List ℕ := [1000, 2000, 4000, 8000, 16000, 30000]

def serverRetryDelaysMs : List ℕ := [1000, 2000, 4000]

def maxUnreachedDelayMs : ℕ := 30000

def unreachedDelayMs (waits : ℕ) : ℕ := Nat.min (1000 * 2 ^ waits) maxUnreachedDelayMs

/-- What one operation has waited so far. -/
structure Ladder where
  rateLimitWaits : ℕ := 0
  unreachedWaits : ℕ := 0
  unreachedWaited : ℕ := 0
  gatewayWaits : ℕ := 0
  serverWaits : ℕ := 0

/-- How much waiting is left. -/
def Ladder.left (ladder : Ladder) : ℕ :=
  (maxRateLimitWaits - ladder.rateLimitWaits) + (maxUnreachedWaitMs - ladder.unreachedWaited) +
    (gatewayRetryDelaysMs.length - ladder.gatewayWaits) +
    (serverRetryDelaysMs.length - ladder.serverWaits)

/-- The wait before a failed request is sent again, or what the operation fails with. -/
def Ladder.next (ladder : Ladder) : Thrown → Except Thrown (ℕ × Ladder)
  | .refused refusal =>
    let status := refusal.status.getD 0
    if refusal.isRateLimited then
      let ms := refusal.retryAfterSeconds.getD 60 * 1000
      if maxRateLimitWaitMs < ms ∨ maxRateLimitWaits ≤ ladder.rateLimitWaits then
        .error (.jobStop .rateLimited (units rateLimitStopMessage))
      else .ok (ms, { ladder with rateLimitWaits := ladder.rateLimitWaits + 1 })
    else if refusal.failure = .noResponse then
      let ms := unreachedDelayMs ladder.unreachedWaits
      if maxUnreachedWaitMs < ladder.unreachedWaited + ms then
        .error (.jobStop .serverUnavailable (units "Could not reach the server for ten minutes."))
      else .ok (ms, { ladder with
        unreachedWaits := ladder.unreachedWaits + 1
        unreachedWaited := ladder.unreachedWaited + ms })
    else if status = 502 ∨ status = 503 ∨ status = 504 then
      match gatewayRetryDelaysMs[ladder.gatewayWaits]? with
      | none => .error (.jobStop .serverUnavailable
        (getApiErrorMessage refusal (units "The server is temporarily unavailable.")))
      | some ms => .ok (ms, { ladder with gatewayWaits := ladder.gatewayWaits + 1 })
    else if 500 ≤ status then
      match serverRetryDelaysMs[ladder.serverWaits]? with
      | none => .error (.refused refusal)
      | some ms => .ok (ms, { ladder with serverWaits := ladder.serverWaits + 1 })
    else .error (.refused refusal)
  | thrown => .error thrown

theorem unreachedDelayMs_pos (waits : ℕ) : 0 < unreachedDelayMs waits :=
  Nat.lt_min.mpr ⟨Nat.mul_pos (by decide) (Nat.two_pow_pos waits), by decide⟩

theorem Ladder.next_left {ladder ladder' : Ladder} {thrown : Thrown} {ms : ℕ}
    (h : ladder.next thrown = .ok (ms, ladder')) : ladder'.left < ladder.left := by
  cases thrown with
  | refused refusal =>
    unfold Ladder.next at h
    simp only at h
    split_ifs at h with hrate hwaits hunanswered hwaited hgateway hserver
    · obtain ⟨-, rfl⟩ := Prod.mk.inj (Except.ok.inj h)
      simp only [Ladder.left]
      omega
    · obtain ⟨-, rfl⟩ := Prod.mk.inj (Except.ok.inj h)
      have hpos := unreachedDelayMs_pos ladder.unreachedWaits
      simp only [Ladder.left]
      omega
    all_goals
      split at h
      · cases h
      · next hget =>
        obtain ⟨-, rfl⟩ := Prod.mk.inj (Except.ok.inj h)
        have hlt := (List.getElem?_eq_some_iff.mp hget).1
        simp only [Ladder.left]
        omega
  | jobStop stop message => cases h
  | notRestored reason => cases h
  | uploadStopped message cause => cases h

/-- `send`, repeated on the ladder for as long as that waits. -/
def sendOnLadder {α : Type} (env : Surroundings) (send : Step α) (ladder : Ladder) : Step α := do
  throwIfAborted env
  tryCatch send fun thrown => do
    throwIfAborted env
    match _hnext : ladder.next thrown with
    | .error thrown => throw thrown
    | .ok (ms, next) =>
      pause ms
      sendOnLadder env send next
termination_by ladder.left
decreasing_by exact Ladder.next_left _hnext

def sendWithRetries {α : Type} (env : Surroundings) (send : Step α) : Step α := do
  loadUploadRecovery env
  sendOnLadder env send {}

/-! ## The store -/

section

variable (env : Surroundings)

/-- A request that changes the account as `apply` says, if it is carried out. -/
def request (apply : List DecryptedDocument → List DecryptedDocument) : Step Unit := do
  let now ← tick
  match env.request now with
  | none => modify fun w => { w with account := apply w.account }
  | some (refusal, applied) =>
    Job.when applied (modify fun w => { w with account := apply w.account })
    throw (.refused refusal)

/-- A change of the one document with an id. -/
def changing (id : Utf16) (change : DecryptedDocument → DecryptedDocument) :
    List DecryptedDocument → List DecryptedDocument :=
  List.map fun doc => if doc.id = id then change doc else doc

def fetchDocuments : Step (List DecryptedDocument) := do
  request env id
  return env.order ((← get).account.filter fun doc => doc.deletedAt.isNone)

def fetchTrash : Step (List DecryptedDocument) := do
  request env id
  return env.order ((← get).account.filter fun doc => doc.deletedAt.isSome)

def getDocumentUsage : Step DocumentUsage := do
  request env id
  return env.usage

def restoreDocument (id : Utf16) : Step Unit :=
  request env (changing id fun doc => { doc with deletedAt := none })

def setFavorite (id : Utf16) (favorite : Bool) : Step Unit :=
  request env (changing id fun doc => { doc with favorite })

def moveToFolder (id : Utf16) (folderId : Option Utf16) : Step Unit :=
  request env (changing id fun doc => { doc with folderId })

/-- The metadata fields a caller may rewrite. A `note` of `some none` takes the note away. -/
structure DocumentMetaUpdate where
  name : Option Utf16
  tags : Option (List Utf16)
  note : Option (Option Utf16)

def DocumentMetaUpdate.apply (changes : DocumentMetaUpdate) (documentMeta : DocumentMeta) :
    DocumentMeta :=
  { documentMeta with
    name := changes.name.getD documentMeta.name
    tags := changes.tags.getD documentMeta.tags
    note := changes.note.getD documentMeta.note }

def fullStop : UInt16 := 0x2E

/-- What stands behind the last dot of a name, unless the name begins with that. -/
def documentExtension (name : Utf16) : Utf16 :=
  let extension := (name.reverse.takeWhile (· ≠ fullStop)).reverse
  if name.length ≤ extension.length + 1 then [] else env.toLowerCase extension

def documentTypeLockedMessage : String :=
  "A document's file type is fixed when it is added: rename the part of the name before the extension."

def updateDocumentMeta (id : Utf16) (changes : DocumentMetaUpdate) : Step Unit := do
  match (← get).account.find? (fun doc => doc.id = id) with
  | none => throw (.refused (.error "Document not found"))
  | some current =>
    match current.documentMeta with
    | none => throw (.refused (.error
        "This document cannot be renamed: its metadata could not be opened."))
    | some documentMeta =>
      Job.when (changes.name.any fun name =>
          documentExtension env name ≠ documentExtension env documentMeta.name)
        (throw (.refused (.error documentTypeLockedMessage)))
      -- The restored provenance is among what a caller cannot change.
      request env (changing id fun doc =>
        { doc with documentMeta := doc.documentMeta.map changes.apply })

end

/-! ## Uploads -/

section

variable (env : Surroundings)

/-- The metadata that is sealed for a transfer. -/
def metaShapeFor (input : StartUploadInput) : DocumentMeta where
  name := input.name
  -- A name that was not recorded is not made up.
  originalName := input.originalName
  restoredFrom := some input.restored.fromId
  mime := input.mime
  ext := documentExtension env input.name
  plaintextBytes := input.source.size
  sha256 := input.source.sha256
  chunkPlaintextBytes := documentPlaintextChunkBytes
  chunkCount := documentChunkCountFor input.source.size documentPlaintextChunkBytes
  tags := input.tags
  note := input.note
  transform := input.transform
  capturedAt := input.restored.capturedAt

/-- The document that a transfer becomes. -/
def Transfer.document (transfer : Transfer) : DecryptedDocument where
  id := transfer.id
  folderId := transfer.input.folderId
  favorite := false
  deletedAt := none
  purgePending := none
  documentMeta := some (metaShapeFor env transfer.input)

/-- The server commits the transfer in flight, once. -/
def World.commit (w : World) : World :=
  match w.current with
  | some transfer =>
    if transfer.committed then w
    else { w with
      account := w.account ++ [transfer.document env]
      current := some { transfer with committed := true } }
  | none => w

def uploadCancelled : Thrown := .refused (.error "Upload cancelled")

def runTransfer (uploadId : Utf16) : TransferOutcome → Step Utf16
  | .done => do
    modify (World.commit env)
    return uploadId
  | .stopped committed message cause => do
    Job.when committed (modify (World.commit env))
    throw (.uploadStopped message cause)
  | .cancelled committed => do
    Job.when committed (modify (World.commit env))
    throw uploadCancelled

/-- The session of the transfer in flight ends. A document that was committed stays. -/
def cancelUpload : Step Unit :=
  modify fun w => { w with current := w.current.map fun transfer => { transfer with cancelled := true } }

/-- An upload, of which the caller is told as soon as it is registered. -/
def startUpload (input : StartUploadInput) : Step Utf16 := do
  modify fun w => { w with started := w.started ++ [input.restored.fromId] }
  let now ← tick
  match env.start now with
  | .refused refusal => throw (.refused refusal)
  | .registered uploadId outcome =>
    modify fun w => { w with current := some { id := uploadId, input } }
    Job.when (← isAborted env).isSome do
      cancelUpload
      throw uploadCancelled
    runTransfer env uploadId outcome

def retryUpload (uploadId : Utf16) : Step Utf16 := do
  let now ← tick
  match (← get).current with
  | none => throw (.refused (.error "That upload is no longer available to retry."))
  | some transfer =>
    Job.when transfer.cancelled
      (throw (.refused (.error "That upload is no longer available to retry.")))
    match env.retry now with
    | .refused refusal => throw (.refused refusal)
    | .resumed outcome => runTransfer env uploadId outcome

end

end HVault.FullRestore
