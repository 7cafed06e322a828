import HVault.Documents.Lifecycle
import HVault.Documents.Locks
import HVault.Interleave.Phases

/-!
# What the requests do to the budgets of an account

An account may hold so many documents and so many bytes. An open measures both and writes the
staging row that spends them; a completion takes the staging row away and inserts the document.
This module says of every request, access by access, what it does to the rows, and what the program
has in hand in between: the numbers an open has read, the transfer a completion has measured, the
document it is about to insert. The bounds themselves are in `Bounds`.
-/

namespace HVault.Documents.Budget

open Interleave Prog Except

/-! ## Phases -/

/-- How far an open has come under the init lock. -/
inductive Opening where
  | locked
  | timed (now : ℕ)
  | counted (now : ℕ)
  | admitted (now : ℕ)
  | measured (now : ℕ) (inFlightBytes : ℤ)
  | priced (now : ℕ) (body : InitDocumentUploadInput)
  | minted (now : ℕ) (body : InitDocumentUploadInput) (id : ObjectId)

/-- What a program has in hand. -/
inductive Phase where
  | ticking
  | idle
  | opening (lockId : ℕ) (stage : Opening)
  /-- A part or a completion that has read its staging row. -/
  | reading (id : ObjectId) (upload : Upload)
  /-- A completion that has measured its parts, under the exclusion lock. -/
  | excluded (lockId : ℕ) (id : ObjectId) (transfer : Measured)
  /-- The quota has room for the document. -/
  | admitted (lockId : ℕ) (id : ObjectId) (transfer : Measured)
  /-- The staging row is gone and the document is not there yet. -/
  | transit (lockId : ℕ) (id : ObjectId) (document : Document)
  | leaving (lockId : ℕ)
  /-- A completion the quota has no room for. -/
  | refused (lockId : ℕ)
  | turnedAway

namespace Phase

/-- The document that is neither a staging row nor a document row. -/
def inTransit : Phase → Option (ObjectId × Document)
  | transit _ id document => some (id, document)
  | _ => none

/-- The acquisition of the init lock. -/
def initLock : Phase → Option ℕ
  | opening lockId _ => some lockId
  | _ => none

/-- The acquisition of the exclusion lock. -/
def rotationLock : Phase → Option ℕ
  | excluded lockId _ _ | admitted lockId _ _ | transit lockId _ _ | leaving lockId
  | refused lockId => some lockId
  | _ => none

/-- The staging row the program works on, as it read it. -/
def inHand : Phase → Option (ObjectId × Upload)
  | reading id upload => some (id, upload)
  | excluded _ id transfer | admitted _ id transfer => some (id, transfer.upload)
  | _ => none

end Phase

/-! ## Events -/

/-- No row, no lock of the budgets and not the clock changes. -/
structure Calm (s s' : Store) : Prop where
  uploads : s'.uploads = s.uploads
  documents : s'.documents = s.documents
  clock : s'.clock = s.clock
  minted : s.minted ≤ s'.minted
  init : s'.locks .init = s.locks .init
  rotation : s'.locks .rotation = s.locks .rotation

theorem Calm.refl (s : Store) : Calm s s := ⟨rfl, rfl, rfl, le_rfl, rfl, rfl⟩

/-- What an open reads of the budgets under the init lock. -/
inductive OpenStep (d : Deployment) : Site → Store → Opening → Opening → Prop
  | readClock (l : Site) (s : Store) : OpenStep d l s .locked (.timed s.clock)
  | countUploads {now : ℕ} {s : Store}
      (h : openUploadsFor now s < maxConcurrentDocumentUploadsPerUser) :
      OpenStep d .countUploads s (.timed now) (.counted now)
  | countDocuments {now : ℕ} {s : Store} (h : documentCountFor s < maxDocumentsPerUser) :
      OpenStep d .countDocuments s (.counted now) (.admitted now)
  | inFlightBytes (now : ℕ) (l : Site) (s : Store) :
      OpenStep d l s (.admitted now) (.measured now (inFlightBytesFor now s))
  | committedBytes {now : ℕ} {n : ℤ} {body : InitDocumentUploadInput} {s : Store}
      (h : committedBytesFor s + n + body.declaredPlaintextBytes ≤ d.storageQuotaBytes) :
      OpenStep d .committedBytes s (.measured now n) (.priced now body)

/-- What an access does in the phase it is made in, and where it leads. -/
inductive Event (d : Deployment) : Phase → Site → Store → Phase → Store → Prop
  | calm {x : Phase} {l : Site} {s s' : Store} (hx : x.inTransit = none) (h : Calm s s') :
      Event d x l s x s'
  | tick (milliseconds : ℕ) (s : Store) :
      Event d .ticking .tick s .idle { s with clock := s.clock + milliseconds }
  | dropUpload {x : Phase} {l : Site} (id : ObjectId) (s : Store) (hx : x.inTransit = none) :
      Event d x l s x (s.eraseUpload id)
  | dropDocument {x : Phase} {l : Site} (id : ObjectId) (s : Store) (hx : x.inTransit = none) :
      Event d x l s x (s.eraseDocument id)
  | updateDocument {l : Site} {id : ObjectId} {filter : Document → Bool}
      {update : ℕ → Document → Document} (s : Store)
      (h : ∀ now document, (update now document).plaintextBytes = document.plaintextBytes) :
      Event d .idle l s .idle (s.updateDocument id filter update).2
  | readUpload {l : Site} {s : Store} {id : ObjectId} {upload : Upload}
      (h : s.uploads.lookup id = some upload) : Event d .idle l s (.reading id upload) s
  | writeLedger {l : Site} {s : Store} {id : ObjectId} {upload : Upload} {entry : LedgerPart}
      (h : upload.requiredBytes entry.partNumber = some entry.bytes) :
      Event d (.reading id upload) l s .idle (s.writeLedger id entry).2
  -- opening
  | lockInit {s : Store}
      (h : ∀ lock, s.locks .init = some lock → lock.expiresAt ≤ s.clock) :
      Event d .idle (.acquireLock .init) s (.opening s.minted .locked)
        (acquireStatement .init initLockTtl s).2
  | progress {lockId : ℕ} {l : Site} {s : Store} {stage stage' : Opening}
      (h : OpenStep d l s stage stage') :
      Event d (.opening lockId stage) l s (.opening lockId stage') s
  | mint (lockId now : ℕ) {l : Site} (body : InitDocumentUploadInput) (s : Store) :
      Event d (.opening lockId (.priced now body)) l s
        (.opening lockId (.minted now body ⟨s.clock, s.minted⟩))
        { s with minted := s.minted + 1 }
  | stage (lockId now : ℕ) {l : Site} {body : InitDocumentUploadInput} {id : ObjectId} (s : Store)
      (vaultKeyVersion : ℕ) (s3UploadId : Option ℕ) :
      Event d (.opening lockId (.minted now body id)) l s (.opening lockId .locked)
        (s.insertUpload id (body.staged d now vaultKeyVersion id s3UploadId)).2
  | unlockInit {lockId : ℕ} {l : Site} {stage : Opening} (s : Store) :
      Event d (.opening lockId stage) l s .idle (releaseStatement .init lockId s)
  -- completing
  | lockRotation {s : Store} {id : ObjectId} {transfer : Measured}
      (h : ∀ lock, s.locks .rotation = some lock → lock.expiresAt ≤ s.clock)
      (hm : measureParts transfer.upload transfer.engine = .ok transfer.framing) :
      Event d (.reading id transfer.upload) (.acquireLock .rotation) s
        (.excluded s.minted id transfer) (acquireStatement .rotation vaultRotationLockTtl s).2
  | quotaHolds {lockId : ℕ} {id : ObjectId} {transfer : Measured} {s : Store}
      (h : committedBytesFor s + transfer.framing.plaintextBytes ≤ d.storageQuotaBytes) :
      Event d (.excluded lockId id transfer) (.remeasureQuota id) s (.admitted lockId id transfer) s
  | quotaExceeded {lockId : ℕ} {id : ObjectId} {transfer : Measured} {s : Store}
      (h : (d.storageQuotaBytes : ℤ) < committedBytesFor s + transfer.framing.plaintextBytes) :
      Event d (.excluded lockId id transfer) (.remeasureQuota id) s (.refused lockId) s
  | claim {lockId : ℕ} {id : ObjectId} {transfer : Measured} {l : Site} (s : Store)
      {document : Document}
      (hl : l = .claimUpload id ∧ id ∈ s.uploads ∨ l = .claimMultipart id)
      (hd : document.plaintextBytes = transfer.framing.plaintextBytes) :
      Event d (.admitted lockId id transfer) l s (.transit lockId id document) (s.eraseUpload id)
  | insert (lockId : ℕ) (id : ObjectId) (document : Document) (s : Store) :
      Event d (.transit lockId id document) (.insertDocument id) s (.leaving lockId)
        (s.insertDocument id document).2
  | unlockRotation {x : Phase} {lockId : ℕ} {l : Site} (s : Store) (hx : x.rotationLock = some lockId)
      (htransit : x.inTransit = none) :
      Event d x l s .idle (releaseStatement .rotation lockId s)
  | turnAway {lockId : ℕ} {l : Site} (s : Store) :
      Event d (.refused lockId) l s .turnedAway (releaseStatement .rotation lockId s)

/-! ## Parts that leave the rows alone -/

section Calms

variable {α β : Type}

theorem calm_createMultipart (d : Deployment) (key : ObjectKey) (s : Store) :
    Calm s (s.createMultipart d key).2 := ⟨rfl, rfl, rfl, Nat.le_succ _, rfl, rfl⟩

theorem calm_storePart (s3UploadId partNumber bytes : ℕ) (etag : String) (s : Store) :
    Calm s (s.storePart s3UploadId partNumber bytes etag).2 := by
  unfold Store.storePart
  split
  · exact .refl s
  · exact ⟨rfl, rfl, rfl, le_rfl, rfl, rfl⟩

theorem calm_completeMultipart (d : Deployment) (key : ObjectKey) (s3UploadId : ℕ)
    (named : List (ℕ × String)) (s : Store) :
    Calm s (s.completeMultipart d key s3UploadId named).2 := by
  unfold Store.completeMultipart
  split
  · exact .refl s
  · split
    · exact ⟨rfl, rfl, rfl, le_rfl, rfl, rfl⟩
    · exact .refl s

theorem calm_abortMultipart (s3UploadId : ℕ) (s : Store) :
    Calm s (s.abortMultipart s3UploadId).2 := by
  unfold Store.abortMultipart
  split
  · exact ⟨rfl, rfl, rfl, le_rfl, rfl, rfl⟩
  · exact .refl s

variable (id : ObjectId)

/-- The lock of one upload is none of the budgets'. -/
theorem calm_acquire (ttl : ℕ) (s : Store) : Calm s (acquireStatement (.complete id) ttl s).2 := by
  obtain ⟨huploads, hdocuments, hclock, hminted⟩ := acquireStatement_rows (.complete id) ttl s
  refine ⟨huploads, hdocuments, hclock, hminted, ?_, ?_⟩
  all_goals exact acquireStatement_locks_of_ne (by simp) ttl s

theorem calm_release (lockId : ℕ) (s : Store) :
    Calm s (releaseStatement (.complete id) lockId s) := by
  obtain ⟨huploads, hdocuments, hclock, hminted⟩ :=
    releaseStatement_rows (.complete id) lockId s
  refine ⟨huploads, hdocuments, hclock, hminted.ge, ?_, ?_⟩
  all_goals exact releaseStatement_locks_of_ne (by simp) lockId s

/-- A part of a program that leaves the rows alone and does not answer that the quota is spent. -/
structure Calms (p : Req α) : Prop where
  each : p.Each (fun _ => True) fun _ s s' => Calm s s'
  leaves : p.Leaves noFaults fun r => r ≠ .error .quotaExceeded

theorem calms_ret (a : α) : Calms (.ret a) := ⟨trivial, nofun⟩

theorem calms_raise {e : DocumentError} (he : e ≠ .quotaExceeded) :
    Calms (.raise e : Req α) := ⟨trivial, fun h => he (error.inj h)⟩

theorem Calms.bind {p : Req β} {h : β → Req α} (hp : Calms p) (hh : ∀ b, Calms (h b)) :
    Calms (p.bind h) where
  each := hp.each.bind fun b => (hh b).each
  leaves := hp.leaves.bind (fun b _ => (hh b).leaves) fun e he h => he (by rw [error.inj h])

theorem Calms.attempt {p : Req α} (hp : Calms p) : Calms p.attempt where
  each := hp.each.attempt
  leaves := by
    apply hp.leaves.attempt.mono
    rintro _ ⟨b, rfl, -⟩ h
    cases h

theorem calms_db {l : Site} {f : Store → β × Store} (hf : ∀ s, Calm s (f s).2) :
    Calms (.db l f : Req β) :=
  ⟨each_db fun s _ => hf s, leaves_db (fun _ => nofun) fun _ _ h => h.elim⟩

theorem calms_read {l : Site} {f : Store → β} : Calms (.read l f : Req β) :=
  calms_db fun s => .refl s

variable {d : Deployment} {x : Phase} {Q : Except DocumentError α → Phase → Prop}

/-- In any phase that has no document in transit. -/
theorem Calms.obeys {p : Req α} (hp : Calms p) (hx : x.inTransit = none) :
    p.Obeys noFaults (Event d) (fun r x' => x' = x ∧ r ≠ .error .quotaExceeded) x := by
  apply hp.each.obeys hp.leaves
  intro l s s₁ s' hcalm hs'
  rcases hs' with rfl | rfl
  · exact .calm hx (.refl _)
  · exact .calm hx hcalm

/-- A part that leaves the rows alone, then the rest. -/
theorem Calms.before {p : Req β} {h : β → Req α} (hp : Calms p) (hx : x.inTransit = none)
    (hh : ∀ b, (h b).Obeys noFaults (Event d) Q x)
    (he : ∀ e, e ≠ .quotaExceeded → Q (.error e) x) :
    (p.bind h).Obeys noFaults (Event d) Q x := by
  apply (hp.obeys hx).bind
  · rintro b _ ⟨rfl, -⟩
    exact hh b
  · rintro e _ ⟨rfl, hne⟩
    exact he e fun h => hne (by rw [h])

theorem calms_assertVaultNotRotating : Calms assertVaultNotRotating := by
  refine Calms.bind (Calms.bind calms_read fun found => ?_) fun account => ?_
  · cases found with
    | none => exact calms_raise (by simp)
    | some account => exact calms_ret account
  · split
    · exact calms_raise (by simp)
    · exact calms_ret ()

/-- The engine is only asked. -/
theorem calms_readEngineLedger (upload : Upload) : Calms (readEngineLedger upload) := by
  have hassembled : Calms (readAssembledLedger upload) := by
    refine Calms.bind calms_read fun stat => ?_
    cases stat with
    | none => exact calms_raise (by simp)
    | some object =>
      show Calms (ite _ _ _)
      split
      · exact calms_raise (by simp)
      · exact calms_ret _
  unfold readEngineLedger
  split
  · refine Calms.bind calms_read fun stat => ?_
    cases stat with
    | none => exact calms_raise (by simp)
    | some object => exact calms_ret _
  · cases upload.s3UploadId with
    | none => exact calms_raise (by simp)
    | some s3UploadId =>
      refine Calms.bind calms_read fun parts => ?_
      cases parts with
      | none => exact hassembled
      | some parts => exact calms_ret _

theorem calms_storePartBody (upload : Upload) (partNumber : ℕ) (body : PartBody) :
    Calms (storePartBody d id upload partNumber body) := by
  unfold storePartBody
  split
  · exact Calms.bind (calms_db fun s => ⟨rfl, rfl, rfl, le_rfl, rfl, rfl⟩) fun _ => calms_ret none
  · cases upload.s3UploadId with
    | none => exact calms_raise (by simp)
    | some s3UploadId =>
      refine Calms.bind (calms_db fun s => calm_storePart _ _ _ _ s) fun receipt => ?_
      cases receipt with
      | none => exact calms_raise (by simp)
      | some etag => exact calms_ret _

theorem calms_eraseObject (key : ObjectKey) :
    Calms (.db (.deleteObject id) fun s => ((), s.eraseObject key) : Req Unit) :=
  calms_db fun _ => ⟨rfl, rfl, rfl, le_rfl, rfl, rfl⟩

/-- An object may go, and no row goes with it. -/
theorem calms_reclaimUnownedPartObject (objectKey : ObjectKey) :
    Calms (reclaimUnownedPartObject id objectKey) := by
  have hdelete : Calms (deleteUnlessOwned id objectKey) := by
    refine Calms.bind calms_read fun owned => ?_
    show Calms (ite _ _ _)
    split
    · exact calms_ret ()
    · exact calms_eraseObject id objectKey
  refine Calms.bind (Calms.attempt (calms_db fun s => calm_acquire id _ s)) fun acquired => ?_
  match acquired with
  | .error _ | .ok none => exact calms_ret ()
  | .ok (some lockId) =>
    exact hdelete.attempt.bind fun _ => calms_db fun s => calm_release id lockId s

theorem calms_discardUnnamedObject (objectKey : ObjectKey) :
    Calms (discardUnnamedObject id objectKey) :=
  (calms_eraseObject id objectKey).attempt.bind fun _ => calms_ret ()

theorem calms_finaliseObject (transfer : Measured) : Calms (finaliseObject d id transfer) := by
  unfold finaliseObject
  cases transfer.engine with
  | object parts => exact calms_ret ()
  | multipart s3UploadId parts =>
    refine Calms.bind (calms_db fun s => calm_completeMultipart _ _ _ _ s) fun answer => ?_
    cases answer with
    | completed => exact calms_ret ()
    | notFound | invalidPart => exact calms_raise (by simp)

theorem calms_stillOwned (folderId : Option ℕ) : Calms (stillOwned folderId) := by
  cases folderId with
  | none => exact calms_ret none
  | some folderId => exact Calms.bind calms_read fun _ => calms_ret _

theorem calms_openMultipart (body : InitDocumentUploadInput) (uploadId : ObjectId) :
    Calms (openMultipart d body uploadId) := by
  unfold openMultipart
  split
  · exact Calms.bind (calms_db fun s => calm_createMultipart _ _ s) fun _ => calms_ret _
  · exact calms_ret none

theorem calms_abandonMultipart (uploadId : ObjectId) (s3UploadId : Option ℕ) :
    Calms (abandonMultipart uploadId s3UploadId) := by
  cases s3UploadId with
  | none => exact calms_ret ()
  | some s3UploadId =>
    refine Calms.bind (Calms.attempt ?_) fun _ => calms_ret ()
    exact calms_db fun s => calm_abortMultipart s3UploadId s

theorem calms_assertFolderExists (folderId : Option ℕ) : Calms (assertFolderExists folderId) := by
  cases folderId with
  | none => exact calms_ret ()
  | some folderId =>
    refine Calms.bind calms_read fun folderExists => ?_
    show Calms (ite _ _ _)
    split
    · exact calms_ret ()
    · exact calms_raise (by simp)

end Calms

/-! ## Opening -/

section Walks

variable {d : Deployment} {x : Phase}

/-- Still under the init lock. -/
abbrev Opened (lockId : ℕ) {α : Type} (_ : Except DocumentError α) (x : Phase) : Prop :=
  ∃ stage, x = .opening lockId stage

variable {lockId : ℕ} {id : ObjectId}

variable {body : InitDocumentUploadInput}

/-- The staging row spends what was measured before it. -/
theorem obeys_stageTransfer {now vaultKeyVersion : ℕ} :
    (stageTransfer d body now vaultKeyVersion id).Obeys noFaults (Event d)
      (Opened lockId) (.opening lockId (.minted now body id)) := by
  refine (calms_openMultipart body id).before rfl (fun s3UploadId => ?_) fun e _ => ⟨_, rfl⟩
  refine obeys_attempt_db_bind sure fun s => ?_
  refine ⟨_, .stage lockId now s vaultKeyVersion s3UploadId, ?_⟩
  have hrefused : ∀ e : DocumentError,
      ((abandonMultipart id s3UploadId).bind fun _ => (.raise e : Req OpenedTransfer)).Obeys noFaults
        (Event d) (Opened lockId) (.opening lockId .locked) := fun e =>
    (calms_abandonMultipart id s3UploadId).before rfl (fun _ => ⟨_, rfl⟩) fun e _ => ⟨_, rfl⟩
  generalize (Store.insertUpload id _ s).1 = created
  cases created with
  | true => exact ⟨_, rfl⟩
  | false => exact hrefused .duplicateId

/-- Each limit is read and judged before the row is staged. -/
theorem obeys_openTransferUnderLock :
    (openTransferUnderLock d body).Obeys noFaults (Event d) (Opened lockId)
      (.opening lockId .locked) := by
  refine obeys_read_event sure fun s => ⟨_, .progress (.readClock _ s), ?_⟩
  generalize s.clock = now
  refine obeys_read_event sure fun s => ?_
  -- the three refusals leave the program where the read found it
  by_cases hopen : (maxConcurrentDocumentUploadsPerUser : ℤ) ≤ openUploadsFor now s
  · refine ⟨_, .calm rfl (.refl s), ?_⟩
    rw [if_pos hopen]
    exact ⟨_, rfl⟩
  refine ⟨_, .progress (.countUploads (not_le.1 hopen)), ?_⟩
  rw [if_neg hopen]
  refine obeys_read_event sure fun s => ?_
  by_cases hcount : (maxDocumentsPerUser : ℤ) ≤ documentCountFor s
  · refine ⟨_, .calm rfl (.refl s), ?_⟩
    rw [if_pos hcount]
    exact ⟨_, rfl⟩
  refine ⟨_, .progress (.countDocuments (not_le.1 hcount)), ?_⟩
  rw [if_neg hcount]
  refine obeys_read_event sure fun s => ⟨_, .progress (.inFlightBytes now _ s), ?_⟩
  generalize inFlightBytesFor now s = inFlightBytes
  refine obeys_read_event sure fun s => ?_
  by_cases hquota : (d.storageQuotaBytes : ℤ) <
      committedBytesFor s + inFlightBytes + body.declaredPlaintextBytes
  · refine ⟨_, .calm rfl (.refl s), ?_⟩
    rw [if_pos hquota]
    exact ⟨_, rfl⟩
  refine ⟨_, .progress (.committedBytes (not_lt.1 hquota)), ?_⟩
  rw [if_neg hquota]
  refine (calms_assertFolderExists _).before rfl (fun _ => ?_) fun e _ => ⟨_, rfl⟩
  refine obeys_read_bind sure (fun s => .calm rfl (.refl s)) fun account => ?_
  refine obeys_db_bind sure fun s => ⟨_, .mint lockId now body s, ?_⟩
  exact obeys_stageTransfer

/-- Where a request may end: a completion says that the quota is spent only where it found it so. -/
def Ended (completes : Prop) {α : Type} (r : Except DocumentError α) (x : Phase) : Prop :=
  x.inTransit = none ∧ (completes → r = .error .quotaExceeded → x = .turnedAway)

variable {α : Type} {r : Except DocumentError α}

theorem Ended.of_ne {completes : Prop} (hx : x.inTransit = none) (hr : r ≠ .error .quotaExceeded) :
    Ended completes r x :=
  ⟨hx, fun _ h => (hr h).elim⟩

theorem Ended.other (hx : x.inTransit = none) : Ended False r x := ⟨hx, fun h => h.elim⟩

/-- An open works on the budgets under the init lock alone. -/
theorem obeys_initUpload : (initUpload d body).Obeys noFaults (Event d) (Ended False) .idle := by
  refine calms_assertVaultNotRotating.before rfl (fun _ => ?_) fun e _ => .other rfl
  show Prog.Obeys _ _ _ (ite _ _ _) _
  split
  · exact .other rfl
  refine obeys_db_bind sure fun s => ?_
  rcases acquireStatement_cases .init initLockTtl s with h | ⟨hfree, h⟩
  · rw [h]
    exact ⟨_, .calm rfl (.refl s), .other rfl⟩
  · refine ⟨_, .lockInit hfree, ?_⟩
    rw [h]
    apply obeys_openTransferUnderLock.andFinally
    rintro r _ ⟨stage, rfl⟩
    refine obeys_db sure fun s => ⟨_, .unlockInit s, fun _ _ => .other rfl, nofun⟩

/-! ## Parts and cancels -/

/-- A part that passes has the size its number asks for. -/
theorem checkPart_ok {upload : Upload} {request : PartRequest} {body : PartBody}
    (h : checkPart upload request body = .ok ()) :
    upload.requiredBytes request.partNumber = some body.bytes := by
  unfold checkPart at h
  split at h
  · cases h
  split at h
  · cases h
  split at h
  · cases h
  · rename_i required hrequired
    split at h
    · cases h
    · rename_i hbytes
      rw [hrequired, not_not.1 hbytes]

/-- A part writes the ledger of the row it has read. -/
theorem obeys_uploadPart {request : PartRequest} :
    (uploadPart d id request).Obeys noFaults (Event d) (Ended False) .idle := by
  unfold uploadPart
  split
  · exact .other rfl
  rename_i body _
  refine obeys_read_event sure fun s => ?_
  cases hfound : s.uploads.lookup id with
  | none => exact ⟨_, .calm rfl (.refl s), .other rfl⟩
  | some upload =>
    refine ⟨_, .readUpload hfound, ?_⟩
    refine obeys_read_bind sure (fun s => .calm rfl (.refl s)) fun now => ?_
    show Prog.Obeys _ _ _ (ite _ _ _) _
    split
    · exact .other rfl
    cases hcheck : checkPart upload request body with
    | error e => exact obeys_raise (.other rfl)
    | ok _ =>
      refine (calms_storePartBody id upload _ body).before rfl (fun etag => ?_) fun e _ => .other rfl
      have hrequired := checkPart_ok hcheck
      refine obeys_db_bind sure fun s => ?_
      refine ⟨_, .writeLedger hrequired, ?_⟩
      generalize (Store.writeLedger id _ s).1 = updated
      cases updated with
      | some receivedBytes => exact .other rfl
      | none =>
        dsimp only
        split
        · exact (calms_reclaimUnownedPartObject id upload.objectKey).before rfl
            (fun _ => obeys_raise (.other rfl)) fun e _ => .other rfl
        · exact obeys_raise (.other rfl)

/-- A claim of a staging row, or none. -/
theorem event_claimUpload {l : Site} (id : ObjectId) (filter : Upload → Bool) (s : Store)
    (hx : x.inTransit = none) : Event d x l s x (s.claimUpload id filter).2 := by
  rcases s.claimUpload_cases id filter with h | ⟨upload, -, -, h⟩
  · rw [h]
    exact .calm hx (.refl s)
  · rw [h]
    exact .dropUpload id s hx

/-- A cancel drops the row, if it is still there. -/
theorem obeys_abortUpload : (abortUpload id).Obeys noFaults (Event d) (Ended False) .idle := by
  refine obeys_read_bind sure (fun s => .calm rfl (.refl s)) fun found => ?_
  cases found with
  | none => exact obeys_raise (.other rfl)
  | some upload =>
    dsimp only
    cases upload.s3UploadId with
    | none =>
      refine obeys_db_bind sure fun s => ⟨_, event_claimUpload id _ s rfl, ?_⟩
      generalize (s.claimUpload id _).1 = claimed
      cases claimed with
      | none => exact obeys_raise (.other rfl)
      | some claimed =>
        exact (calms_eraseObject id _).attempt.before rfl (fun _ => .other rfl) fun e _ => .other rfl
    | some s3UploadId =>
      refine Calms.before (calms_db fun s => calm_abortMultipart s3UploadId s) rfl (fun _ => ?_)
        fun e _ => .other rfl
      exact obeys_db sure fun s => ⟨_, .dropUpload id s rfl, .other rfl⟩

/-! ## Completing -/

theorem agreesFrom_ne (index : ℕ) (staged engine : List PartSize) :
    agreesFrom index staged engine ≠ .error .quotaExceeded := by
  fun_induction agreesFrom index staged engine with
  | case7 index left restStaged right rest h₁ h₂ h₃ ih => exact ih
  | _ => exact nofun

theorem checkSegments_ne (chunkCount chunkPlaintextBytes ciphertextBytes : ℕ)
    (parts : List PartSize) :
    checkSegments chunkCount chunkPlaintextBytes ciphertextBytes parts ≠ .error .quotaExceeded := by
  induction parts with
  | nil => exact nofun
  | cons part rest ih =>
    unfold checkSegments
    split
    · exact nofun
    · split
      · exact nofun
      · exact ih

/-- Measuring never answers that the quota is spent. -/
theorem measureParts_ne (upload : Upload) (engine : EngineLedger) :
    measureParts upload engine ≠ .error .quotaExceeded := by
  unfold measureParts assertLedgerAgreesWithEngine deriveFraming
  intro h
  split at h
  · rename_i e heq
    cases h
    split at heq
    · cases heq
    · exact agreesFrom_ne _ _ _ heq
  · split at h
    · cases h
    · dsimp only at h
      split at h
      · cases h
      · split at h
        · rename_i e heq
          cases h
          exact checkSegments_ne _ _ _ _ heq
        · cases h

/-- What a completion has in hand after it measured its parts. -/
def MeasuredRow (id : ObjectId) : Except DocumentError Measured → Phase → Prop
  | .ok transfer, x => x = .reading id transfer.upload ∧
      measureParts transfer.upload transfer.engine = .ok transfer.framing
  | .error e, x => x.inTransit = none ∧ e ≠ .quotaExceeded

/-- A completion goes on with what its row and the engine's parts measure. -/
theorem obeys_measureTransfer :
    (measureTransfer id).Obeys noFaults (Event d) (MeasuredRow id) .idle := by
  refine obeys_read_event sure fun s => ?_
  cases hfound : s.uploads.lookup id with
  | none => exact ⟨_, .calm rfl (.refl s), rfl, nofun⟩
  | some upload =>
    refine ⟨_, .readUpload hfound, ?_⟩
    refine obeys_read_bind sure (fun s => .calm rfl (.refl s)) fun now => ?_
    show Prog.Obeys _ _ _ (ite _ _ _) _
    split
    · exact ⟨rfl, nofun⟩
    show Prog.Obeys _ _ _ (ite _ _ _) _
    split
    · exact ⟨rfl, nofun⟩
    refine (calms_readEngineLedger upload).before rfl (fun engine => ?_) fun e he => ⟨rfl, he⟩
    cases hmeasured : measureParts upload engine with
    | error e =>
      refine obeys_raise ⟨rfl, fun he => ?_⟩
      exact measureParts_ne upload engine (by rw [hmeasured, he])
    | ok framing => exact obeys_ret ⟨rfl, hmeasured⟩

theorem calms_releaseStorage (id : ObjectId) (transfer : Measured) :
    Calms (releaseStorage id transfer) := by
  unfold releaseStorage
  cases transfer.engine with
  | object parts => exact calms_eraseObject id _
  | multipart s3UploadId parts =>
    exact Calms.bind (calms_db fun s => calm_abortMultipart s3UploadId s) fun _ => calms_ret ()

variable {transfer : Measured}

/-- A transfer is released, and the failure answered. -/
theorem obeys_release {e : DocumentError} {Q : Except DocumentError α → Phase → Prop}
    (hx : x.inTransit = none) (he : Q (.error e) x)
    (hother : ∀ e, e ≠ .quotaExceeded → Q (.error e) x) :
    ((releaseTransfer id transfer).bind fun _ => (.raise e : Req α)).Obeys noFaults (Event d) Q x := by
  refine Prog.Obeys.bind (M := fun r x' => x' = x ∧ r ≠ .error .quotaExceeded) ?_ ?_ ?_
  · refine (calms_releaseStorage id transfer).attempt.before hx (fun _ => ?_)
      fun e he => ⟨rfl, fun h => he (error.inj h)⟩
    exact obeys_db sure fun s => ⟨_, .dropUpload id s hx, rfl, nofun⟩
  · rintro _ _ ⟨rfl, -⟩
    exact obeys_raise he
  · rintro e _ ⟨rfl, hne⟩
    exact hother e fun h => hne (by rw [h])

/-- Where a completion under the exclusion lock may end. -/
def Committed (lockId : ℕ) {α : Type} (r : Except DocumentError α) (x : Phase) : Prop :=
  x = .refused lockId ∨ x.rotationLock = some lockId ∧ x.inTransit = none ∧ r ≠ .error .quotaExceeded

theorem committed_leaving (hr : r ≠ .error .quotaExceeded) :
    Committed lockId r (.leaving lockId) := .inr ⟨rfl, rfl, hr⟩

variable {document : Document}

theorem obeys_compensateInsert {e : DocumentError} (he : e ≠ .quotaExceeded) :
    (compensateInsert id document e).Obeys noFaults (Event d) (Committed lockId)
      (.leaving lockId) := by
  refine (calms_discardUnnamedObject id _).before rfl (fun _ => ?_) fun e he => ?_
  · exact obeys_raise (committed_leaving fun h => he (error.inj h))
  · exact committed_leaving fun h => he (error.inj h)

/-- The document goes again where the account is gone. -/
theorem obeys_confirmAccount :
    (confirmAccount id document).Obeys noFaults (Event d) (Committed lockId)
      (.leaving lockId) := by
  refine obeys_read_bind sure (fun s => .calm rfl (.refl s)) fun live => ?_
  show Prog.Obeys _ _ _ (ite _ _ _) _
  split
  · exact obeys_ret (committed_leaving nofun)
  refine obeys_db_bind sure fun s => ⟨_, .dropDocument id s rfl, ?_⟩
  refine (calms_discardUnnamedObject id _).before rfl (fun _ => ?_) fun e he => ?_
  · exact obeys_raise (committed_leaving (by simp))
  · exact committed_leaving fun h => he (error.inj h)

/-- The transit ends, whatever the insert answers. -/
theorem obeys_insertDocumentRow :
    (insertDocumentRow id document).Obeys noFaults (Event d) (Committed lockId)
      (.transit lockId id document) := by
  refine obeys_attempt_db_bind sure fun s => ⟨_, .insert lockId id document s, ?_⟩
  generalize (s.insertDocument id document).1 = created
  cases created with
  | true => exact obeys_confirmAccount
  | false =>
    refine obeys_read_bind sure (fun s => .calm rfl (.refl s)) fun existing => ?_
    cases existing with
    | some existing => exact obeys_ret (committed_leaving nofun)
    | none => exact obeys_compensateInsert (by simp)

/-- The claim takes the row away or finds it changed. -/
theorem obeys_claimTransfer (hd : document.plaintextBytes = transfer.framing.plaintextBytes) :
    (claimTransfer id transfer).Obeys noFaults (Event d) (fun r x => match r with
      | .ok _ => x = .transit lockId id document
      | .error e => x = .admitted lockId id transfer ∧ e ≠ .quotaExceeded)
      (.admitted lockId id transfer) := by
  unfold claimTransfer
  cases transfer.engine with
  | object parts =>
    refine obeys_db_bind sure fun s => ?_
    rcases s.claimUpload_cases id fun upload =>
      decide (upload.receivedBytes = transfer.framing.ciphertextBytes) with h | ⟨upload, hfound, -, h⟩
    · rw [h]
      exact ⟨_, .calm rfl (.refl s), obeys_raise ⟨rfl, nofun⟩⟩
    · have hid : id ∈ s.uploads := Finmap.mem_of_lookup_eq_some hfound
      rw [h]
      exact ⟨_, .claim s (.inl ⟨rfl, hid⟩) hd, obeys_ret rfl⟩
  | multipart s3UploadId parts =>
    exact obeys_db sure fun s => ⟨_, .claim s (.inr rfl) hd, rfl⟩

variable {body : CompleteDocumentUploadInput}

/-- The quota is judged once more, under the exclusion lock. -/
theorem obeys_commitTransfer :
    (commitTransfer d id body transfer).Obeys noFaults (Event d) (Committed lockId)
      (.excluded lockId id transfer) := by
  have hadmitted : ∀ {α : Type} {r : Except DocumentError α}, r ≠ .error .quotaExceeded →
      Committed lockId r (.admitted lockId id transfer) := fun hr => .inr ⟨rfl, rfl, hr⟩
  refine obeys_read_event sure fun s => ?_
  by_cases hquota : (d.storageQuotaBytes : ℤ) <
      committedBytesFor s + transfer.framing.plaintextBytes
  · refine ⟨_, .quotaExceeded hquota, ?_⟩
    rw [if_pos hquota]
    exact obeys_release rfl (.inl rfl) fun _ _ => .inl rfl
  refine ⟨_, .quotaHolds (not_lt.1 hquota), ?_⟩
  rw [if_neg hquota]
  refine calms_assertVaultNotRotating.before rfl (fun _ => ?_)
    fun e he => hadmitted fun h => he (error.inj h)
  refine obeys_read_bind sure (fun s => .calm rfl (.refl s)) fun account => ?_
  show Prog.Obeys _ _ _ (ite _ _ _) _
  split
  · exact obeys_ret (hadmitted nofun)
  show Prog.Obeys _ _ _ (ite _ _ _) _
  split
  · exact obeys_ret (hadmitted nofun)
  refine (calms_stillOwned _).before rfl (fun folderId => ?_)
    fun e he => hadmitted fun h => he (error.inj h)
  refine (calms_finaliseObject id transfer).before rfl (fun _ => ?_)
    fun e he => hadmitted fun h => he (error.inj h)
  have hplain : (transfer.document body folderId).plaintextBytes
      = transfer.framing.plaintextBytes := rfl
  apply (obeys_claimTransfer hplain).bind
  · rintro _ _ rfl
    exact obeys_insertDocumentRow
  · rintro e _ ⟨rfl, he⟩
    exact hadmitted fun h => he (error.inj h)

theorem obeys_completeUnderLock :
    (completeUnderLock d id body).Obeys noFaults (Event d) (Ended True) .idle := by
  refine obeys_read_bind sure (fun s => .calm rfl (.refl s)) fun committed => ?_
  cases committed with
  | some document => exact obeys_ret (.of_ne rfl nofun)
  | none =>
    apply obeys_measureTransfer.bind
    · rintro transfer _ ⟨rfl, hmeasured⟩
      show Prog.Obeys _ _ _ (ite _ _ _) _
      split
      · exact obeys_release rfl (.of_ne rfl (by simp))
          fun e he => .of_ne rfl fun h => he (error.inj h)
      refine Prog.Obeys.bind (M := fun r x => match r with
        | .ok lockId => x = .excluded lockId id transfer
        | .error e => x.inTransit = none ∧ e ≠ .quotaExceeded) ?_ ?_ ?_
      · refine obeys_db_bind sure fun s => ?_
        rcases acquireStatement_cases .rotation vaultRotationLockTtl s with h | ⟨hfree, h⟩
        · rw [h]
          exact ⟨_, .calm rfl (.refl s), obeys_raise ⟨rfl, nofun⟩⟩
        · refine ⟨_, .lockRotation hfree hmeasured, ?_⟩
          rw [h]
          exact obeys_ret rfl
      · rintro lockId _ rfl
        apply obeys_commitTransfer.andFinally
        intro r x hx
        refine obeys_db sure fun s => ?_
        rcases hx with rfl | ⟨hlock, htransit, hr⟩
        · exact ⟨_, .turnAway s, fun _ _ => ⟨rfl, fun _ _ => rfl⟩, nofun⟩
        · exact ⟨_, .unlockRotation s hlock htransit, fun _ _ => .of_ne rfl hr, nofun⟩
      · rintro e x ⟨hx, he⟩
        exact .of_ne hx fun h => he (error.inj h)
    · rintro e x ⟨hx, he⟩
      exact .of_ne hx fun h => he (error.inj h)

/-- Of two completions of one upload one holds its lock. -/
theorem obeys_completeUpload :
    (completeUpload d id body).Obeys noFaults (Event d) (Ended True) .idle := by
  refine calms_assertVaultNotRotating.before rfl (fun _ => ?_)
    fun e he => .of_ne rfl fun h => he (error.inj h)
  refine Calms.before (calms_db fun s => calm_acquire id _ s) rfl (fun lockId => ?_)
    fun e he => .of_ne rfl fun h => he (error.inj h)
  cases lockId with
  | none =>
    refine obeys_read_bind sure (fun s => .calm rfl (.refl s)) fun committed => ?_
    cases committed with
    | some document => exact obeys_ret (.of_ne rfl nofun)
    | none => exact obeys_raise (.of_ne rfl (by simp))
  | some lockId =>
    apply obeys_completeUnderLock.andFinally
    intro r x hx
    exact obeys_db sure fun s =>
      ⟨_, .calm hx.1 (calm_release id lockId s), fun _ _ => hx, nofun⟩

/-! ## The other requests -/

theorem obeys_updateDocument {l : Site} {filter : Document → Bool}
    {update : ℕ → Document → Document} {h : Option Document → Req α}
    {Q : Except DocumentError α → Phase → Prop}
    (hupdate : ∀ now document, (update now document).plaintextBytes = document.plaintextBytes)
    (hh : ∀ document, (h document).Obeys noFaults (Event d) Q .idle) :
    ((Prog.db l (Store.updateDocument id filter update)).bind h).Obeys noFaults (Event d) Q .idle :=
  obeys_db_bind sure fun s => ⟨_, .updateDocument s hupdate, hh _⟩

theorem obeys_purgeMarked {row : DocumentRef} {breaker : Breaker} :
    (purgeMarked row breaker).Obeys noFaults (Event d) (fun _ x => x = .idle) .idle := by
  refine (calms_eraseObject row.id row.objectKey).attempt.before rfl (fun deleted => ?_)
    fun _ _ => rfl
  cases deleted with
  | error e => exact obeys_ret rfl
  | ok _ => exact obeys_attempt_db_bind sure fun s => ⟨_, .dropDocument row.id s rfl, rfl⟩

/-- A row is marked first, and dropped once its object is gone. -/
theorem obeys_emptyTrashRows {trashed : Document → Bool} (rows : List DocumentRef)
    (breaker : Breaker) (lastId : Option ObjectId) :
    (emptyTrashRows trashed rows breaker lastId).Obeys noFaults (Event d) (fun _ x => x = .idle)
      .idle := by
  induction rows generalizing breaker lastId with
  | nil => exact obeys_ret rfl
  | cons row rest ih =>
    unfold emptyTrashRows
    split
    · exact obeys_ret rfl
    refine obeys_attempt_db_bind sure fun s => ⟨_, .updateDocument s fun _ _ => rfl, ?_⟩
    generalize (s.updateDocument row.id trashed _).1 = claim
    cases claim with
    | none => exact ih _ _
    | some _ =>
      apply obeys_purgeMarked.bind
      · rintro breaker _ rfl
        exact ih breaker _
      · rintro _ _ rfl
        rfl

theorem obeys_emptyTrashPages {trashed : Document → Bool} (rounds : ℕ) (breaker : Breaker)
    (lastId : Option ObjectId) :
    (emptyTrashPages trashed rounds breaker lastId).Obeys noFaults (Event d) (fun _ x => x = .idle)
      .idle := by
  induction rounds generalizing breaker lastId with
  | zero => exact obeys_ret rfl
  | succ rounds ih =>
    unfold emptyTrashPages
    split
    · exact obeys_ret rfl
    refine obeys_read_bind sure (fun s => .calm rfl (.refl s)) fun page => ?_
    cases page with
    | nil => exact obeys_ret rfl
    | cons row rest =>
      apply (obeys_emptyTrashRows _ breaker lastId).bind
      · rintro walked _ rfl
        exact ih _ _
      · rintro _ _ rfl
        rfl

/-- An expiry drops a row that is past its time. -/
theorem obeys_expireUpload : (expireUpload id).Obeys noFaults (Event d) (Ended False) .idle :=
  obeys_db_bind sure fun s =>
    ⟨_, event_claimUpload id (fun upload => decide (upload.expiresAt ≤ s.clock)) s rfl, .other rfl⟩

/-- Whether a request is a completion. -/
def Completes : Request → Prop
  | .complete _ _ => True
  | _ => False

/-- The phase a request starts in: only the passing of time moves the clock. -/
def start : Request → Phase
  | .tick _ => .ticking
  | _ => .idle

theorem start_cases (r : Request) : start r = .ticking ∨ start r = .idle := by
  cases r with
  | tick _ => exact .inl rfl
  | _ => exact .inr rfl

/-- Every request goes from event to event. -/
theorem obeys_request (r : Request) :
    (r.prog d).Obeys noFaults (Event d) (Ended (Completes r)) (start r) := by
  have hbind : ∀ {α : Type} {p : Req α} {h : α → Answer} {completes : Prop} {x : Phase},
      p.Obeys noFaults (Event d) (Ended completes) x →
      (p.bind fun a => .ret (h a)).Obeys noFaults (Event d) (Ended completes) x := by
    intro α p h completes x hp
    apply hp.bind
    · intro a x hx
      exact ⟨hx.1, nofun⟩
    · intro e x hx
      exact ⟨hx.1, fun hc he => hx.2 hc (by rw [error.inj he])⟩
  cases r with
  | init body => exact hbind obeys_initUpload
  | part id request => exact hbind obeys_uploadPart
  | cancel id => exact hbind obeys_abortUpload
  | complete id body => exact hbind obeys_completeUpload
  | trash id | restore id =>
    apply hbind
    refine obeys_updateDocument (fun _ _ => rfl) fun document => ?_
    cases document with
    | none => exact obeys_raise (.other rfl)
    | some _ => exact obeys_ret (.other rfl)
  | purge id =>
    apply hbind
    refine obeys_updateDocument (fun _ _ => rfl) fun document => ?_
    cases document with
    | none => exact obeys_raise (.other rfl)
    | some document =>
      refine (calms_eraseObject id _).before rfl (fun _ => ?_) fun _ _ => .other rfl
      exact obeys_db sure fun s => ⟨_, .dropDocument id s rfl, .other rfl⟩
  | emptyTrash rounds =>
    apply hbind
    refine obeys_read_bind sure (fun s => .calm rfl (.refl s)) fun startTime => ?_
    apply (obeys_emptyTrashPages rounds _ none).mono
    rintro _ _ rfl
    exact .other rfl
  | tick milliseconds => exact hbind (obeys_db sure fun s => ⟨_, .tick milliseconds s, .other rfl⟩)
  | expire id => exact hbind obeys_expireUpload

end Walks

end HVault.Documents.Budget
