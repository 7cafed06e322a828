import HVault.Documents.Ledger
import HVault.Documents.Lifecycle
import HVault.Documents.Locks

/-!
# A transfer with no other request

What the transfer requests come to when nothing else runs: an open within its budgets writes a
staging row, a part that passes its checks is stored and entered in the ledger, and a completion of
a measured transfer commits the document. The completion is taken up to its insert first, so that
other requests may be put there.
-/

namespace HVault.Documents

open Interleave Function Prog

variable {d : Deployment} {s : Store}

/-! ## The account and the locks -/

/-- The account is there, and neither being erased nor rotating. -/
def Store.Settled (s : Store) : Prop :=
  ∃ account, s.account = some account ∧ account.deletionPending = false ∧
    account.rotationInProgress = false

theorem alone_assertVaultNotRotating (h : s.Settled) :
    assertVaultNotRotating.alone s = (.ok (), s) := by
  obtain ⟨account, haccount, hdeletion, hrotation⟩ := h
  have hread : readTenantRow.alone s = (.ok account, s) := by
    have hfound : (s.account.filter fun a => !a.deletionPending) = some account := by
      rw [haccount]
      simp [Option.filter, hdeletion]
    unfold readTenantRow
    simp only [bind_eq, alone_read_bind, hfound]
    rfl
  unfold assertVaultNotRotating
  rw [bind_eq, alone_bind_ok hread, hrotation]
  rfl

/-- The store after a free lock is taken. -/
def Store.withLock (name : LockName) (ttl : ℕ) (s : Store) : Store :=
  { s with
    locks := Function.update s.locks name (some ⟨s.minted, s.clock + ttl⟩)
    minted := s.minted + 1 }

theorem acquireStatement_of_none {name : LockName} (ttl : ℕ) (h : s.locks name = none) :
    acquireStatement name ttl s = (some s.minted, s.withLock name ttl) := by
  unfold acquireStatement
  rw [h]
  exact if_pos rfl

theorem releaseStatement_of_held {name : LockName} {lockId expiresAt : ℕ}
    (h : s.locks name = some ⟨lockId, expiresAt⟩) :
    releaseStatement name lockId s = { s with locks := Function.update s.locks name none } := by
  unfold releaseStatement
  rw [h, if_pos (by simp)]

/-! ## Opening -/

/-- The budgets have room for one more transfer. -/
structure HasRoom (d : Deployment) (s : Store) (body : InitDocumentUploadInput) : Prop where
  uploads : openUploadsFor s.clock s < maxConcurrentDocumentUploadsPerUser
  documents : documentCountFor s < maxDocumentsPerUser
  bytes : committedBytesFor s + inFlightBytesFor s.clock s + body.declaredPlaintextBytes
    ≤ d.storageQuotaBytes

/-- The store after a transfer of one segment is opened. -/
def Store.opened (d : Deployment) (body : InitDocumentUploadInput) (s : Store) : Store :=
  { s with
    uploads := s.uploads.insert ⟨s.clock, s.minted⟩ (body.staged d s.clock
      (vaultKeyVersionOf s.account) ⟨s.clock, s.minted⟩ none)
    minted := s.minted + 1 }

theorem alone_openTransferUnderLock {body : InitDocumentUploadInput} (hroom : HasRoom d s body)
    (hone : body.declaredChunkCount = 1) (hfolder : body.folderId = none)
    (hfresh : ⟨s.clock, s.minted⟩ ∉ s.uploads) :
    (openTransferUnderLock d body).alone s
      = (.ok ⟨⟨s.clock, s.minted⟩, vaultKeyVersionOf s.account⟩, s.opened d body) := by
  have hinsert : ∀ upload, Store.insertUpload ⟨s.clock, s.minted⟩ upload
      { s with minted := s.minted + 1 } = (true, { s with
        uploads := s.uploads.insert ⟨s.clock, s.minted⟩ upload
        minted := s.minted + 1 }) := fun upload => if_neg hfresh
  have hstage : (stageTransfer d body s.clock (vaultKeyVersionOf s.account)
      ⟨s.clock, s.minted⟩).alone { s with minted := s.minted + 1 }
        = (.ok ⟨⟨s.clock, s.minted⟩, vaultKeyVersionOf s.account⟩, s.opened d body) := by
    unfold stageTransfer openMultipart
    rw [if_neg (by omega), bind_eq, pure_eq, ret_bind, bind_eq,
      alone_attempt_db_bind, hinsert]
    rfl
  unfold openTransferUnderLock
  rw [readClock, bind_eq, alone_read_bind, bind_eq, alone_read_bind,
    if_neg (not_le.2 hroom.uploads), bind_eq, alone_read_bind,
    if_neg (not_le.2 hroom.documents), bind_eq, alone_read_bind, bind_eq,
    alone_read_bind, if_neg (not_lt.2 hroom.bytes), hfolder]
  exact hstage

/-- **An open within its budgets** writes the staging row. -/
theorem alone_initUpload {body : InitDocumentUploadInput} (hsettled : s.Settled)
    (hlock : s.locks .init = none) (hmax : body.declaredPlaintextBytes ≤ d.maxDocumentBytes)
    (hroom : HasRoom d s body) (hone : body.declaredChunkCount = 1) (hfolder : body.folderId = none)
    (hfresh : ⟨s.clock, s.minted + 1⟩ ∉ s.uploads) :
    (initUpload d body).alone s
      = (.ok ⟨⟨s.clock, s.minted + 1⟩, vaultKeyVersionOf s.account⟩,
        { s with minted := s.minted + 1 }.opened d body) := by
  have hopen : (openTransferUnderLock d body).alone (s.withLock .init initLockTtl)
      = (.ok ⟨⟨s.clock, s.minted + 1⟩, vaultKeyVersionOf s.account⟩,
        (s.withLock .init initLockTtl).opened d body) :=
    alone_openTransferUnderLock ⟨hroom.uploads, hroom.documents, hroom.bytes⟩ hone hfolder hfresh
  have hrelease : (releaseJobLock .init s.minted).alone ((s.withLock .init initLockTtl).opened d body)
      = (.ok (), { s with minted := s.minted + 1 }.opened d body) := by
    have hheld : ((s.withLock .init initLockTtl).opened d body).locks .init
        = some ⟨s.minted, s.clock + initLockTtl⟩ := by
      show update s.locks .init _ .init = _
      exact update_self ..
    unfold releaseJobLock
    rw [alone_db, releaseStatement_of_held hheld]
    have hlocks : update ((s.withLock .init initLockTtl).opened d body).locks .init none
        = s.locks := by
      show update (update s.locks .init _) .init none = s.locks
      rw [update_idem, ← hlock, update_eq_self]
    rw [hlocks]
    rfl
  unfold initUpload
  rw [bind_eq, alone_bind_ok (alone_assertVaultNotRotating hsettled),
    if_neg (not_lt.2 hmax), bind_eq, acquireJobLock, alone_db_bind,
    acquireStatement_of_none initLockTtl hlock]
  exact alone_andFinally_ok hopen hrelease

/-! ## Parts -/

variable {id : ObjectId}

/-- **A part that passes its checks** is stored and entered in the ledger. -/
theorem alone_uploadPart {upload : Upload} {request : PartRequest} {body : PartBody}
    (hupload : s.uploads.lookup id = some upload) (hlive : s.clock < upload.expiresAt)
    (hone : upload.declaredChunkCount = 1) (hbody : request.body = some body)
    (hcheck : checkPart upload request body = .ok ()) :
    ((uploadPart d id request).alone s).2 = { s with
      objects := s.objects.insert upload.objectKey ⟨body.bytes, d.stamp s⟩
      uploads := s.uploads.insert id (upload.withPart ⟨request.partNumber, none, body.bytes⟩) } := by
  have hwrite : (s.putObject d upload.objectKey body.bytes).writeLedger id
      ⟨request.partNumber, none, body.bytes⟩
        = (some (upload.withPart ⟨request.partNumber, none, body.bytes⟩).receivedBytes, { s with
          objects := s.objects.insert upload.objectKey ⟨body.bytes, d.stamp s⟩
          uploads := s.uploads.insert id
            (upload.withPart ⟨request.partNumber, none, body.bytes⟩) }) := by
    unfold Store.writeLedger
    have hfound : (s.putObject d upload.objectKey body.bytes).uploads.lookup id = some upload :=
      hupload
    rw [hfound]
    rfl
  have hstored : (storePartBody d id upload request.partNumber body).alone s
      = (.ok none, s.putObject d upload.objectKey body.bytes) := by
    unfold storePartBody
    rw [if_pos hone]
    rfl
  have hrecord : ((recordPart id upload ⟨request.partNumber, none, body.bytes⟩).alone
      (s.putObject d upload.objectKey body.bytes)).2 = { s with
        objects := s.objects.insert upload.objectKey ⟨body.bytes, d.stamp s⟩
        uploads := s.uploads.insert id
          (upload.withPart ⟨request.partNumber, none, body.bytes⟩) } := by
    unfold recordPart
    rw [bind_eq, alone_db_bind, hwrite]
    rfl
  unfold uploadPart
  rw [hbody]
  dsimp only
  rw [bind_eq, alone_read_bind, hupload]
  dsimp only
  rw [bind_eq, readClock, alone_read_bind, if_neg (not_le.2 hlive), hcheck]
  show ((Prog.bind (storePartBody d id upload request.partNumber body) _).alone s).2 = _
  rw [alone_bind_ok hstored]
  exact hrecord

/-! ## Completing -/

/-- A staging row of one segment whose part is stored and measured. -/
structure Complete (d : Deployment) (s : Store) (id : ObjectId) (transfer : Measured)
    (body : CompleteDocumentUploadInput) : Prop where
  uncommitted : s.documents.lookup id = none
  stored : s.uploads.lookup id = some transfer.upload
  live : s.clock < transfer.upload.expiresAt
  parts : transfer.upload.parts ≠ []
  one : transfer.upload.declaredChunkCount = 1
  folder : transfer.upload.folderId = none
  engine : ∃ object, s.objects.lookup transfer.upload.objectKey = some object ∧
    transfer.engine = .object [⟨1, object.bytes⟩]
  measured : measureParts transfer.upload transfer.engine = .ok transfer.framing
  received : transfer.upload.receivedBytes = transfer.framing.ciphertextBytes
  max : transfer.framing.plaintextBytes ≤ d.maxDocumentBytes
  quota : committedBytesFor s + transfer.framing.plaintextBytes ≤ d.storageQuotaBytes
  version : vaultKeyVersionOf s.account = body.vaultKeyVersion

variable {transfer : Measured} {body : CompleteDocumentUploadInput}

theorem alone_measureTransfer (h : Complete d s id transfer body) :
    (measureTransfer id).alone s = (.ok transfer, s) := by
  obtain ⟨object, hobject, hengine⟩ := h.engine
  have hledger : (readEngineLedger transfer.upload).alone s = (.ok transfer.engine, s) := by
    unfold readEngineLedger
    rw [if_pos h.one, bind_eq, alone_read_bind, hobject, hengine]
    rfl
  unfold measureTransfer
  rw [bind_eq, alone_read_bind, h.stored]
  dsimp only
  rw [bind_eq, readClock, alone_read_bind, if_neg (not_le.2 h.live), if_neg h.parts,
    bind_eq, alone_bind_ok hledger, h.measured]
  rfl

/-- Up to the insert, under the exclusion lock. -/
theorem goes_commitTransfer (hsettled : s.Settled) (h : Complete d s id transfer body) :
    (commitTransfer d id body transfer).Goes s
      (insertDocumentRow id (transfer.document body none)) (s.eraseUpload id) := by
  obtain ⟨object, -, hengine⟩ := h.engine
  have hfinalise : (finaliseObject d id transfer).alone s = (.ok (), s) := by
    unfold finaliseObject
    rw [hengine]
    rfl
  have hclaim : (claimTransfer id transfer).alone s = (.ok (), s.eraseUpload id) := by
    have hclaimed : s.claimUpload id (fun upload =>
        decide (upload.receivedBytes = transfer.framing.ciphertextBytes))
          = (some transfer.upload, s.eraseUpload id) := by
      unfold Store.claimUpload
      rw [h.stored]
      exact if_pos (decide_eq_true h.received)
    unfold claimTransfer
    rw [hengine]
    rw [bind_eq, alone_db_bind, hclaimed]
    rfl
  refine goes_read_bind.trans ?_
  rw [if_neg (not_lt.2 h.quota)]
  refine (goes_bind_ok (alone_assertVaultNotRotating hsettled)).trans ?_
  refine goes_read_bind.trans ?_
  dsimp only
  rw [h.version, if_neg (lt_irrefl _), if_neg (not_not.2 rfl), h.folder]
  show Prog.Goes (Prog.bind _ _) _ _ _
  refine (goes_bind_ok hfinalise).trans ?_
  exact goes_bind_ok hclaim

/-- What is left of a completion from its insert on. -/
def insertAndRelease (id : ObjectId) (document : Document) (rotationId completeId : ℕ) :
    Req CompletionOutcome :=
  ((insertDocumentRow id document).andFinally (releaseJobLock .rotation rotationId)).andFinally
    (releaseJobLock (.complete id) completeId)

/-- The store of a completion that has claimed its transfer: both locks are held. -/
def Store.claimedUnderLocks (id : ObjectId) (s : Store) : Store :=
  ((s.withLock (.complete id) completeLockTtl).withLock .rotation vaultRotationLockTtl).eraseUpload id

/-- **A completion of a measured transfer** comes to its insert. -/
theorem goes_completeUpload (hsettled : s.Settled) (hcomplete : s.locks (.complete id) = none)
    (hrotation : s.locks .rotation = none) (h : Complete d s id transfer body) :
    (completeUpload d id body).Goes s
      (insertAndRelease id (transfer.document body none) (s.minted + 1) s.minted)
      (s.claimedUnderLocks id) := by
  have hcompleteLock : Complete d (s.withLock (.complete id) completeLockTtl) id transfer body :=
    ⟨h.uncommitted, h.stored, h.live, h.parts, h.one, h.folder, h.engine, h.measured, h.received,
      h.max, h.quota, h.version⟩
  have hbothLocks : Complete d ((s.withLock (.complete id) completeLockTtl).withLock .rotation
      vaultRotationLockTtl) id transfer body :=
    ⟨h.uncommitted, h.stored, h.live, h.parts, h.one, h.folder, h.engine, h.measured, h.received,
      h.max, h.quota, h.version⟩
  have hsettledLocks : ((s.withLock (.complete id) completeLockTtl).withLock .rotation
      vaultRotationLockTtl).Settled := hsettled
  have hfree : (s.withLock (.complete id) completeLockTtl).locks .rotation = none := by
    show update s.locks (.complete id) (some ⟨s.minted, s.clock + completeLockTtl⟩)
      .rotation = none
    rw [update_of_ne (by simp)]
    exact hrotation
  refine (goes_bind_ok (alone_assertVaultNotRotating hsettled)).trans ?_
  refine goes_db_bind.trans ?_
  rw [acquireStatement_of_none completeLockTtl hcomplete]
  refine Prog.Goes.andFinally ?_ _
  refine goes_read_bind.trans ?_
  rw [show Finmap.lookup id (s.withLock (.complete id) completeLockTtl).documents = none from
    h.uncommitted]
  refine (goes_bind_ok (alone_measureTransfer hcompleteLock)).trans ?_
  rw [if_neg (not_lt.2 h.max)]
  have hexcluded : acquireVaultRotationLock.alone (s.withLock (.complete id) completeLockTtl)
      = (.ok (s.minted + 1), (s.withLock (.complete id) completeLockTtl).withLock .rotation
        vaultRotationLockTtl) := by
    unfold acquireVaultRotationLock acquireJobLock
    rw [bind_eq, alone_db_bind, acquireStatement_of_none vaultRotationLockTtl hfree]
    rfl
  refine (goes_bind_ok hexcluded).trans ?_
  exact (goes_commitTransfer hsettledLocks hbothLocks).andFinally _

/-- **The rest of a completion** commits the document and releases both locks. -/
theorem alone_insertAndRelease {document : Document} {rotationId completeId : ℕ}
    {rotationExpiry completeExpiry : ℕ} (hsettled : s.Settled) (hnew : id ∉ s.documents)
    (hrotation : s.locks .rotation = some ⟨rotationId, rotationExpiry⟩)
    (hcomplete : s.locks (.complete id) = some ⟨completeId, completeExpiry⟩) :
    (insertAndRelease id document rotationId completeId).alone s
      = (.ok (.document id document), { s with
        documents := s.documents.insert id document
        locks := Function.update (Function.update s.locks .rotation none) (.complete id) none }) := by
  obtain ⟨account, haccount, hdeletion, -⟩ := hsettled
  have hinsert : (insertDocumentRow id document).alone s
      = (.ok (.document id document), { s with documents := s.documents.insert id document }) := by
    have hinserted : s.insertDocument id document
        = (true, { s with documents := s.documents.insert id document }) := if_neg hnew
    have hlive : (s.account.any fun a => !a.deletionPending) = true := by
      rw [haccount]
      simp [hdeletion]
    unfold insertDocumentRow
    rw [bind_eq, alone_attempt_db_bind, hinserted]
    unfold confirmAccount
    rw [bind_eq, alone_read_bind]
    rw [show ({ s with documents := s.documents.insert id document } : Store).account.any
      (fun a => !a.deletionPending) = true from hlive, if_pos rfl]
    rfl
  have hfirst : (releaseJobLock .rotation rotationId).alone
      { s with documents := s.documents.insert id document } = (.ok (), { s with
        documents := s.documents.insert id document
        locks := update s.locks .rotation none }) := by
    unfold releaseJobLock
    rw [alone_db, releaseStatement_of_held (s := { s with
      documents := s.documents.insert id document }) hrotation]
  have hheld : update s.locks .rotation none (.complete id)
      = some ⟨completeId, completeExpiry⟩ := by
    rw [update_of_ne (by simp)]
    exact hcomplete
  have hsecond : (releaseJobLock (.complete id) completeId).alone { s with
      documents := s.documents.insert id document
      locks := update s.locks .rotation none } = (.ok (), { s with
        documents := s.documents.insert id document
        locks := update (update s.locks .rotation none) (.complete id) none }) := by
    unfold releaseJobLock
    rw [alone_db, releaseStatement_of_held (s := { s with
      documents := s.documents.insert id document
      locks := update s.locks .rotation none }) hheld]
  exact alone_andFinally_ok (alone_andFinally_ok hinsert hfirst) hsecond

end HVault.Documents
