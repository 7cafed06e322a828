import Mathlib.Data.Finset.Sort
import Mathlib.Data.Prod.Lex
import HVault.Documents.Transfers
import HVault.Interleave.Pool

/-!
# Documents after their transfer

The three transitions of a committed document, the bulk purge of the trash, and the two things that
happen to an account without a request: the clock moves on, and the database drops staging rows
that have expired. `Request` lists everything that runs on behalf of a user.
-/

namespace HVault.Documents

open Interleave

/-! ## Trash, restore, purge -/

/-- Whether a document is in the trash. -/
def Document.trashed (document : Document) : Bool := document.deletedAt.isSome

def deleteDocument (id : ObjectId) : Req Unit := do
  let document ← .db .trashDocument (Store.updateDocument id (fun _ => true) fun now document =>
    { document with deletedAt := some now })
  match document with
  | none => .raise .documentNotFound
  | some _ => pure ()

/-- A document that is being purged can no longer be restored. -/
def restoreDocument (id : ObjectId) : Req Unit := do
  let document ← .db .restoreDocument (Store.updateDocument id
    (fun document => document.trashed && !document.purgePending) fun _ document =>
      { document with deletedAt := none })
  match document with
  | none => .raise .notRestorable
  | some _ => pure ()

/-- Marks a document for its purge: the marker is never taken back. -/
def markPurge (id : ObjectId) (filter : Document → Bool) : Req (Option Document) :=
  .db .markPurge (Store.updateDocument id filter fun _ document =>
    { document with purgePending := true })

def purgeDocument (id : ObjectId) : Req Unit := do
  let document ← markPurge id Document.trashed
  match document with
  | none => .raise .notInTrash
  | some document => do
    .db (.deleteObject id) fun s => ((), s.eraseObject document.objectKey)
    .db (.deleteDocument id) fun s => ((), s.eraseDocument id)

/-! ## Walks that stop when the engine refuses -/

/-- The failure bookkeeping of one walk. -/
structure Breaker where
  failures : ℕ
  consecutiveFailures : ℕ
  deriving DecidableEq, Repr

def maxConsecutiveStorageFailures : ℕ := 5

def Breaker.isRefusing (breaker : Breaker) : Bool :=
  decide (maxConsecutiveStorageFailures ≤ breaker.consecutiveFailures)

def Breaker.recordSuccess (breaker : Breaker) : Breaker := { breaker with consecutiveFailures := 0 }

def Breaker.recordFailure (breaker : Breaker) : Breaker :=
  ⟨breaker.failures + 1, breaker.consecutiveFailures + 1⟩

/-- Ids in the order a database sorts them. -/
instance : LinearOrder ObjectId :=
  LinearOrder.lift' (fun id => toLex (id.timestamp, id.counter)) fun a b h => by
    cases a
    cases b
    cases h
    rfl

/-- A document row as a page of one of the walks carries it. -/
structure DocumentRef where
  id : ObjectId
  objectKey : ObjectKey
  deriving DecidableEq, Repr

/-- The next rows past `lastId` that pass `filter`, by id, at most `size` of them. -/
def nextDocuments (filter : Document → Bool) (lastId : Option ObjectId) (size : ℕ) (s : Store) :
    List DocumentRef :=
  let matching := s.documents.keys.filter fun id =>
    (s.documents.lookup id).any filter ∧ ∀ last ∈ lastId, last < id
  ((matching.sort (· ≤ ·)).take size).filterMap fun id =>
    (s.documents.lookup id).map fun document => ⟨id, document.objectKey⟩

/-- Deletes the object of a row that is marked, then the row. -/
def purgeMarked (row : DocumentRef) (breaker : Breaker) : Req Breaker := do
  let deleted ← (Prog.db (.deleteObject row.id) fun s : Store =>
    ((), s.eraseObject row.objectKey)).attempt
  match deleted with
  | .error _ => pure breaker.recordFailure
  | .ok () => do
    let removed ← (Prog.db (.deleteDocument row.id) fun s : Store =>
      ((), s.eraseDocument row.id)).attempt
    match removed with
    | .error _ => pure breaker.recordSuccess.recordFailure
    | .ok () => pure breaker.recordSuccess

def emptyTrashPageSize : ℕ := 500

/-- The rows of one page of the trash, each claimed again before it is destroyed. -/
def emptyTrashRows (trashed : Document → Bool) :
    List DocumentRef → Breaker → Option ObjectId → Req (Breaker × Option ObjectId)
  | [], breaker, lastId => pure (breaker, lastId)
  | row :: rest, breaker, lastId =>
    if breaker.isRefusing then pure (breaker, lastId)
    else do
      let claim ← (markPurge row.id trashed).attempt
      match claim with
      | .error _ => emptyTrashRows trashed rest breaker.recordFailure (some row.id)
      | .ok none => emptyTrashRows trashed rest breaker (some row.id)
      | .ok (some _) => do
        let breaker ← purgeMarked row breaker
        emptyTrashRows trashed rest breaker (some row.id)

/-- The pages of the trash that are left; `rounds` bounds them. -/
def emptyTrashPages (trashed : Document → Bool) :
    ℕ → Breaker → Option ObjectId → Req Unit
  | 0, _, _ => pure ()
  | rounds + 1, breaker, lastId =>
    if breaker.isRefusing then pure ()
    else do
      let page ← .read .findDocuments (nextDocuments trashed lastId emptyTrashPageSize)
      match page with
      | [] => pure ()
      | _ :: _ => do
        let walked ← emptyTrashRows trashed page breaker lastId
        emptyTrashPages trashed rounds walked.1 walked.2

def emptyDocumentTrash (rounds : ℕ) : Req Unit := do
  let startTime ← readClock
  emptyTrashPages (fun document => document.deletedAt.any fun time => decide (time ≤ startTime))
    rounds ⟨0, 0⟩ none

/-! ## Requests -/

/-- What runs on behalf of a user, the passing of time, and the drop of one expired staging row. -/
inductive Request where
  | init (body : InitDocumentUploadInput)
  | part (id : ObjectId) (part : PartRequest)
  | cancel (id : ObjectId)
  | complete (id : ObjectId) (body : CompleteDocumentUploadInput)
  | trash (id : ObjectId)
  | restore (id : ObjectId)
  | purge (id : ObjectId)
  | emptyTrash (rounds : ℕ)
  | tick (milliseconds : ℕ)
  | expire (id : ObjectId)

/-- What a request answers. -/
inductive Answer where
  | opened (transfer : OpenedTransfer)
  | stored (part : PartAnswer)
  | cancelled
  | completed (outcome : CompletionOutcome)
  | done

/-- The clock moves on. -/
def tick (milliseconds : ℕ) : Req Unit :=
  .db .tick fun s => ((), { s with clock := s.clock + milliseconds })

/-- The database drops a staging row that has expired. -/
def expireUpload (id : ObjectId) : Req Unit := do
  let _ ← .db .expire fun s => s.claimUpload id fun upload => decide (upload.expiresAt ≤ s.clock)
  pure ()

/-- The program of a request. -/
def Request.prog (d : Deployment) : Request → Req Answer
  | init body => (initUpload d body).bind fun transfer => .ret (.opened transfer)
  | part id request => (uploadPart d id request).bind fun answer => .ret (.stored answer)
  | cancel id => (abortUpload id).bind fun _ => .ret .cancelled
  | complete id body => (completeUpload d id body).bind fun outcome => .ret (.completed outcome)
  | trash id => (deleteDocument id).bind fun _ => .ret .done
  | restore id => (restoreDocument id).bind fun _ => .ret .done
  | purge id => (purgeDocument id).bind fun _ => .ret .done
  | emptyTrash rounds => (emptyDocumentTrash rounds).bind fun _ => .ret .done
  | tick milliseconds => (Documents.tick milliseconds).bind fun _ => .ret .done
  | expire id => (expireUpload id).bind fun _ => .ret .done

/-- No access fails. -/
abbrev noFaults : Site → DocumentError → Bool → Prop := fun _ _ _ => False

theorem sure (l : Site) (e : DocumentError) (b : Bool) : ¬ noFaults l e b := id

/-- Any number of requests on one account. No access fails. -/
def documentSystem {ι : Type} (d : Deployment) (requests : ι → Request) :
    System ι Store Site DocumentError Answer where
  admits i p := p = (requests i).prog d
  faults := noFaults

/-! ## A small account -/

/-- An account without folders, uploads or documents. -/
def emptyAccount : Store where
  account := some ⟨false, false, none⟩
  folders := ∅
  uploads := ∅
  documents := ∅
  objects := ∅
  multiparts := ∅
  locks _ := none
  minted := 0
  clock := 0

/-- A quota of ten bytes. -/
def tenBytes : Deployment := ⟨10, 1000, 86400000, true⟩

/-- A file of one segment. -/
def smallFile (plaintextBytes : ℕ)
    (h : 1 = documentChunkCountFor plaintextBytes documentPlaintextChunkBytes) :
    InitDocumentUploadInput where
  dek := ⟨"", "", ""⟩
  framing := ⟨"", ""⟩
  declaredPlaintextBytes := plaintextBytes
  declaredChunkCount := 1
  folderId := none
  consistent := h

def smallDigest : String := "0000000000000000000000000000000000000000000000000000000000000000"

/-- The one part of a file of one segment. -/
def smallPart (plaintextBytes : ℕ) : PartRequest where
  partNumber := 1
  body := some ⟨plaintextBytes + documentTagBytes, smallDigest⟩
  contentLength := some (plaintextBytes + documentTagBytes)
  declaredDigest := some smallDigest

def smallCompletion : CompleteDocumentUploadInput where
  dek := ⟨"", "", ""⟩
  sealedMeta := ⟨"", "", ""⟩
  vaultKeyVersion := 0

end HVault.Documents
