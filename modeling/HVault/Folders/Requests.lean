import HVault.Folders.Graph
import HVault.Vault.Guards

/-!
# The folder requests

The requests that change which folder is under which, as the folder controller orders their
statements: `createFolder`, `updateFolder`, `deleteFolder` and `removeFolderIfUnchanged`.

A removal re-homes what the folder holds (`rehomeFolderContents`) and deletes the folder row.
Where transactions exist the two are one access; without them each statement is its own, and
the two removals order them differently. Stored documents, which a removal re-homes the way it
re-homes items, are not part of the account here: nothing about folders is read from them.
-/

namespace HVault

open Interleave

variable {K : Type}

/-! ## Bodies -/

/-- The fields of a folder a create or an update may carry. -/
def allowedFolderFields : Finset Field :=
  {.encryptedName, .nameIv, .nameTag, .parentId, .icon, .color, .sortOrder}

/-- The fields of `data` that are allowed. -/
def pickAllowedFields (data : Field → Option Bson) (allowedFields : Finset Field) :
    Field → Option Bson := fun f => if f ∈ allowedFields then data f else none

/-- The body of a create. `rowId` is the id the row is stored under, derived from the body's nonce
or minted by the server, and `sealedUnder` the key its name is sealed under. -/
structure CreateFolderInput (K : Type) where
  fields : Field → Option Bson
  rowId : ℕ
  vaultKeyVersion : Option ℕ
  sealedUnder : K

/-- The body of an update. A `parentId` of null asks for no parent. -/
structure UpdateFolderInput (K : Type) where
  fields : Field → Option Bson
  vaultKeyVersion : Option ℕ
  sealedUnder : Option K

def CreateFolderInput.parentId (body : CreateFolderInput K) : Option ℕ :=
  refOf (body.fields .parentId)

def UpdateFolderInput.parentId (body : UpdateFolderInput K) : Option ℕ :=
  refOf (body.fields .parentId)

/-- Whether the body asks for no parent. -/
def UpdateFolderInput.clearsParent (body : UpdateFolderInput K) : Bool :=
  match body.fields .parentId with
  | some .null => true
  | _ => false

/-- The write an update makes: a null parent is unset, never stored. -/
def UpdateFolderInput.updateOp (body : UpdateFolderInput K) : CountedUpdate K where
  set f :=
    if f = .parentId ∧ body.clearsParent then none
    else pickAllowedFields body.fields allowedFolderFields f
  unset f := decide (f = .parentId) && body.clearsParent
  sealedUnder := body.sealedUnder

/-! ## Statements -/

/-- Rewrites every row that passes `filter`. -/
def Store.updateRows (filter : RowKey → Row K → Bool) (update : ℕ → Row K → Row K)
    (s : Store K) : Store K :=
  { s with rows := s.rows.mapVal fun key row =>
      if filter key row then update s.clock row else row }

/-- Sets one field, or removes it. -/
def setOrUnset (f : Field) (value : Option Bson) : CountedUpdate K where
  set g := if g = f then value else none
  unset g := decide (g = f) && value.isNone
  sealedUnder := none

/-- Where a removed folder's members go: to the trash with it, or up to its parent. -/
inductive FolderRemovalAction where
  | delete
  | move
  deriving DecidableEq, Repr

/-- The members of a folder follow it to the trash, or move to its parent. -/
def rehomeItems (folderId : ℕ) (parentId : Option ℕ) (action : FolderRemovalAction)
    (s : Store K) : Store K :=
  match action with
  | .delete =>
    s.updateRows (fun key row => decide (key.kind = .item) && decide (row.folderId = some folderId)
      && !row.trashed) fun now row => row.placed (setOrUnset .deletedAt (some (.date now))) now
  | .move =>
    s.updateRows (fun key row => decide (key.kind = .item) && decide (row.folderId = some folderId))
      fun now row => row.placed (setOrUnset .folderId (parentId.map .objectId)) now

/-- The children of a folder move to its parent. -/
def rehomeFolders (folderId : ℕ) (parentId : Option ℕ) (s : Store K) : Store K :=
  s.updateRows (fun key row => decide (key.kind = .folder) && decide (row.parentId = some folderId))
    fun now row => row.placed (setOrUnset .parentId (parentId.map .objectId)) now

/-- Re-homes what a folder being removed holds, statement by statement. -/
def rehomeFolderContents (folderId : ℕ) (parentId : Option ℕ) (action : FolderRemovalAction) :
    Req K Unit := do
  .db .rehomeItems fun s => ((), rehomeItems folderId parentId action s)
  .db (.rehomeFolders folderId parentId) fun s => ((), rehomeFolders folderId parentId s)

/-- The same in a transaction. -/
def rehomedContents (folderId : ℕ) (parentId : Option ℕ) (action : FolderRemovalAction)
    (s : Store K) : Store K :=
  rehomeFolders folderId parentId (rehomeItems folderId parentId action s)

/-- Clears what still refers to a removed folder. A failure is logged and never fails the
removal. -/
def sweepOrphanedFolderReferences (folderId : ℕ) : Req K Unit := do
  let _ ← (Prog.db .rehomeItems fun s : Store K => ((), s.updateRows
    (fun key row => decide (key.kind = .item) && decide (row.folderId = some folderId)
      && !row.trashed) fun now row => row.placed (setOrUnset .folderId none) now)).attempt
  pure ()

/-! ## Requests -/

/-- What a folder request answers. -/
inductive FolderAnswer (K : Type) where
  | created (id : ℕ) (folder : Row K)
  | updated (folder : Row K)
  | deleted
  | removed (gone : Bool)

/-- Refuses a parent so deep that a child of it would pass the nesting depth. -/
def validateFolderDepth (parentId : ℕ) : Req K Unit := do
  let chain ← .read .readAncestors fun s => getAncestorChain (folderParents s.rows) parentId maxFolderNestingDepth
  if maxFolderNestingDepth ≤ chain.2 then .raise .folderTooDeep else pure ()

/-- Refuses a parent the account does not have. -/
def assertParentExists (parentId : ℕ) : Req K Unit := do
  let parentExists ← .read .readFolder fun s => decide ((⟨.folder, parentId⟩ : RowKey) ∈ s.rows)
  if parentExists then pure () else .raise .parentNotFound

/-- A check of the parent a body names, when it names one. -/
def whenNamed (parentId : Option ℕ) (check : ℕ → Req K Unit) : Req K Unit :=
  match parentId with
  | none => pure ()
  | some parentId => check parentId

/-- The fields a create stores. -/
def CreateFolderInput.folderData (body : CreateFolderInput K) (userId : ℕ) :
    Field → Option Bson := fun f =>
  if f = .userId then some (.objectId userId)
  else pickAllowedFields body.fields allowedFolderFields f

/-- The counted create of a folder: a taken id is a conflict. -/
def insertFolder (quota : ℤ) (userId : ℕ) (body : CreateFolderInput K) : Req K (Row K) :=
  (createCountedRow quota ⟨.folder, body.rowId⟩ (body.folderData userId) body.sealedUnder).orElse
    fun e => .raise (if e = .duplicateId then .rowIdTaken else e)

def createFolder (quota : ℤ) (userId : ℕ) (body : CreateFolderInput K) :
    Req K (FolderAnswer K) := do
  assertVaultNotRotating
  let _ ← assertVaultKeyVersion body.vaultKeyVersion
  whenNamed body.parentId fun parentId => do
    assertParentExists parentId
    validateFolderDepth parentId
  let folder ← insertFolder quota userId body
  confirmCreatedRow quota ⟨.folder, body.rowId⟩ folder body.vaultKeyVersion
  pure (.created body.rowId folder)

/-- The checks of a re-parent before its write. -/
def checkReparent (id parentId : ℕ) : Req K Unit :=
  if parentId = id then .raise .ownParent
  else do
    assertParentExists parentId
    let chain ← .read .readAncestors fun s => getAncestorChain (folderParents s.rows) parentId maxFolderNestingDepth
    let subtreeHeight ← .read .readSubtree fun s => getSubtreeHeight s.rows id
    if maxFolderNestingDepth < chain.2 + subtreeHeight then .raise .folderTooDeep
    else if id ∈ chain.1 then .raise (.circularReference false)
    else pure ()

/-- The check of a re-parent after its write: a loop is broken at the edge just added. -/
def checkCommittedParent (id : ℕ) : Req K Unit := do
  let cyclic ← .read .readAncestors fun s => hasCycle (folderParents s.rows) id
  if cyclic then do
    let _ ← .db .detachFolder fun s => s.updateRow ⟨.folder, id⟩ (fun _ => true)
      fun now row => row.placed (setOrUnset .parentId none) now
    .raise (.circularReference true)
  else pure ()

def updateFolder (quota : ℤ) (id : ℕ) (body : UpdateFolderInput K) : Req K (FolderAnswer K) := do
  assertVaultNotRotating
  let _ ← assertVaultKeyVersion body.vaultKeyVersion
  whenNamed body.parentId (checkReparent id)
  let updated ← updateCountedRow quota ⟨.folder, id⟩ body.updateOp
    (assertVaultWritable body.vaultKeyVersion)
  match updated with
  | none => .raise .folderNotFound
  | some folder => do
    whenNamed body.parentId fun _ => checkCommittedParent id
    pure (.updated folder)

/-- The counts a removal of `gone` takes back. -/
def removedCounts (key : RowKey) (gone : Option (Row K)) : Counts := fun p =>
  gone.elim 0 fun row => -rowWeight key row p

/-- What a delete does once it has reserved: the contents go first, to the parent the folder had
when the request read it. -/
def removeRehomed (transactions : Bool) (folderId : ℕ) (parentId : Option ℕ)
    (action : FolderRemovalAction) : Req K (Option (Row K)) :=
  if transactions then
    .db (.removeFolder folderId parentId) fun s =>
      (rehomedContents folderId parentId action s).deleteRow ⟨.folder, folderId⟩ fun _ => true
  else do
    rehomeFolderContents folderId parentId action
    deleteCountedRow ⟨.folder, folderId⟩ fun _ => true

def deleteFolder (quota : ℤ) (transactions : Bool) (folderId : ℕ) (action : FolderRemovalAction) :
    Req K (FolderAnswer K) := do
  let found ← .read .readFolder fun s => s.rows.lookup ⟨.folder, folderId⟩
  match found with
  | none => .raise .folderNotFound
  | some folder => do
    let reservation ← reserveVaultWrite quota (bytesOnly 0)
    let gone ← removeRehomed transactions folderId folder.parentId action
    settleVaultWrite reservation (removedCounts ⟨.folder, folderId⟩ gone)
    sweepOrphanedFolderReferences folderId
    pure .deleted

/-- The claim of a pinned removal and the move of what the folder held, with how the move ended.
In a transaction both are one access. -/
def claimFolder (transactions : Bool) (folderId : ℕ) (readPin : Row K → Bool) :
    Req K (Option (Row K) × Except VaultError Unit) :=
  if transactions then
    .db (.claimFolder folderId) fun s =>
      match s.deleteRow ⟨.folder, folderId⟩ readPin with
      | (none, s') => ((none, .ok ()), s')
      | (some row, s') => ((some row, .ok ()), rehomedContents folderId row.parentId .move s')
  else do
    let gone ← deleteCountedRow ⟨.folder, folderId⟩ readPin
    match gone with
    | none => pure (none, .ok ())
    | some row => do
      let moved ← (rehomeFolderContents folderId row.parentId .move).attempt
      pure (some row, moved)

/-- What a claim that may have failed removed, and how it ended. -/
def claimOutcome :
    Except VaultError (Option (Row K) × Except VaultError Unit) →
      Option (Row K) × Except VaultError Unit
  | .ok claim => claim
  | .error e => (none, .error e)

/-- Removes a folder only while `readPin` matches it, then moves what it held to the parent the
removed row named. A claim that ran is final although a later step failed, and is subtracted. -/
def removeFolderIfUnchanged (quota : ℤ) (transactions : Bool) (folderId : ℕ)
    (readPin : Row K → Bool) : Req K (FolderAnswer K) := do
  let reservation ← reserveVaultWrite quota (bytesOnly 0)
  let claim ← (claimFolder transactions folderId readPin).attempt
  let outcome := claimOutcome claim
  settleVaultWrite reservation (removedCounts ⟨.folder, folderId⟩ outcome.1)
  .ofExcept outcome.2
  if outcome.1.isSome then do
    sweepOrphanedFolderReferences folderId
    pure (.removed true)
  else pure (.removed false)

/-! ## The system -/

/-- A folder request. -/
inductive FolderRequest (K : Type) where
  | create (userId : ℕ) (body : CreateFolderInput K)
  | update (id : ℕ) (body : UpdateFolderInput K)
  | delete (folderId : ℕ) (action : FolderRemovalAction)
  | removeIfUnchanged (folderId : ℕ) (readPin : Row K → Bool)

/-- The program of a request, on a deployment with or without transactions. -/
def FolderRequest.prog (quota : ℤ) (transactions : Bool) : FolderRequest K → Req K (FolderAnswer K)
  | .create userId body => createFolder quota userId body
  | .update id body => updateFolder quota id body
  | .delete folderId action => deleteFolder quota transactions folderId action
  | .removeIfUnchanged folderId readPin => removeFolderIfUnchanged quota transactions folderId readPin

/-- Any number of folder requests on one account. No access fails. -/
def folderSystem {ι : Type} (quota : ℤ) (transactions : Bool) (requests : ι → FolderRequest K) :
    System ι (Store K) Site VaultError (FolderAnswer K) where
  admits i p := p = (requests i).prog quota transactions
  faults _ _ _ := False

end HVault
