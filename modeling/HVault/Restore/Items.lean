import HVault.Restore.Folders

/-!
# Restoring the items of a backup, and the whole restore

An item of the backup is written over the item that it matches, or added; one that matches an item in
the trash takes it out of there, whatever the strategy. It is filed where its folder was restored, or
nowhere.
-/

namespace HVault.Restore

open Json Backup

def maxItemsPerUser : ℕ := 10000

def itemTypes : List String := ["login", "secret", "note", "card", "identity"]

/-- The fields of an item without which it cannot be opened. -/
def encryptionFields : List String :=
  ["encryptedData", "dataIv", "dataTag", "encryptedName", "nameIv", "nameTag"]

/-- A field that is a string, else the empty string. -/
def textOf (row : BackupRow) (name : String) : Utf16 :=
  match field row name with
  | some (.string s) => s
  | _ => []

/-- What a row is called that is refused before its id is looked at. -/
def skipId (row : BackupRow) : Utf16 :=
  match field row "_id" with
  | some (.string s) => s
  | _ => units "unknown"

/-- Where an item is filed: what its folder became, if that is a folder of the account. -/
def itemFolder (folderIdMap : OrderedMap RowId ObjectId) (validFolderIds : List ObjectId)
    (row : BackupRow) : Option ObjectId := do
  let ref ← backupRowId (field row "folderId")
  let remapped := ((folderIdMap.get ref).map spell).getD ref
  if remapped ∈ validFolderIds.map spell then some (castId remapped) else none

/-- What a restore has made of the items so far. -/
structure ItemRun where
  items : List Item
  restored : ℕ
  skipped : ℕ
  reasons : List (Utf16 × SkipReason)

/-- `$set` leaves an item in its folder that the backup files nowhere. -/
def Item.overwrite (folderId : Option ObjectId) (row : BackupRow) (item : Item) : Item :=
  { item with
    folderId := folderId.or item.folderId
    fields := item.fields.set (pickAllowedFields allowedItemFields row) }

def newItem (folderId : Option ObjectId) (a : Attempt) : Item :=
  ⟨a.mintedId, some a.ref, folderId, false, pickAllowedFields allowedItemFields a.row⟩

namespace ItemRun

def skip (id : Utf16) (reason : SkipReason) (run : ItemRun) : ItemRun :=
  { run with skipped := run.skipped + 1, reasons := run.reasons ++ [(id, reason)] }

def update (id : ObjectId) (change : Item → Item) (run : ItemRun) : ItemRun :=
  { run with
    items := run.items.map fun item => if item.id = id then change item else item
    restored := run.restored + 1 }

def insert (folderId : Option ObjectId) (a : Attempt) (run : ItemRun) : ItemRun :=
  { run with items := run.items ++ [newItem folderId a], restored := run.restored + 1 }

/-- The write of a row, if it is let through. -/
def write (a : Attempt) (stored : ItemRun → ItemRun) (run : ItemRun) : ItemRun :=
  match a.outcome with
  | .stored => stored run
  | .storageLimit => run.skip a.ref.1 .storageLimit
  | .invalidData => run.skip a.ref.1 .invalidItemData

end ItemRun

/-- One item of the backup. -/
def restoreItem (strategy : ConflictStrategy) (existing : List Item)
    (folderIdMap : OrderedMap RowId ObjectId) (validFolderIds : List ObjectId) (run : ItemRun)
    (a : Attempt) : ItemRun :=
  let folderId := itemFolder folderIdMap validFolderIds a.row
  if ¬ itemTypes.any fun itemType => units itemType = textOf a.row "itemType" then
    run.skip (skipId a.row) .invalidItemType
  else if ¬ encryptionFields.all fun name => textOf a.row name ≠ [] then
    run.skip (skipId a.row) .missingEncryptionFields
  else
    match matchItem existing a.ref with
    | some target =>
      if target.trashed then
        run.write a fun run =>
          { run.update target.id fun item => { item.overwrite folderId a.row with trashed := false } with
            reasons := run.reasons ++ [(a.ref.1, .trashedAutoRestored)] }
      else
        match strategy with
        | .skip => run.skip a.ref.1 .conflictSkipped
        | .overwrite => run.write a fun run => run.update target.id (Item.overwrite folderId a.row)
        | .keepBoth => run.write a fun run => run.insert folderId a
    | none => run.write a fun run => run.insert folderId a

def restoreItems (strategy : ConflictStrategy) (existing : List Item)
    (folderIdMap : OrderedMap RowId ObjectId) (validFolderIds : List ObjectId)
    (attempts : List Attempt) : ItemRun :=
  attempts.foldl (restoreItem strategy existing folderIdMap validFolderIds) ⟨existing, 0, 0, []⟩

/-! ## The restore -/

inductive RestoreError where
  | sessionInvalid
  | rotationInProgress
  | boundField
  | itemLimit (existing netNew : ℕ)
  | folderLimit (existing netNew : ℕ)
  | staleVaultKey (current : ℕ)
  deriving DecidableEq, Repr

/-- What is checked before the first write. -/
def checkRestore (account : Account) (strategy : ConflictStrategy) (vaultKeyVersion : Option ℕ)
    (folders items : List BackupRow) : Except RestoreError Unit :=
  let netNewItems := countNetNewRestoreRows Item.id Item.sourceRefId account.items strategy items
  let netNewFolders :=
    countNetNewRestoreRows Folder.id Folder.sourceRefId account.folders strategy folders
  if account.deletionPending then .error .sessionInvalid
  else if account.rotationInProgress then .error .rotationInProgress
  else if carriesBoundField items folders then .error .boundField
  else if maxItemsPerUser < account.items.length + netNewItems then
    .error (.itemLimit account.items.length netNewItems)
  else if maxFoldersPerUser < account.folders.length + netNewFolders then
    .error (.folderLimit account.folders.length netNewFolders)
  else if vaultKeyVersion.getD 0 ≠ account.vaultKeyVersion then
    .error (.staleVaultKey account.vaultKeyVersion)
  else .ok ()

/-- What a completed restore leaves and reports. -/
structure Restored where
  account : Account
  itemsRestored : ℕ
  itemsSkipped : ℕ
  foldersRestored : ℕ
  foldersSkipped : ℕ
  itemSkipReasons : List (Utf16 × SkipReason)
  folderSkipReasons : List (RowId × SkipReason)
  folderIdMap : OrderedMap RowId ObjectId

/-- The folders of the backup, restored and repaired, if there are any. -/
def restoreFolders (strategy : ConflictStrategy) (existing : List Folder)
    (attempts : List Attempt) : Option FolderRun :=
  let run := restoreFolderRows strategy existing attempts
  if attempts = [] then some run
  else (repairFolders run).map fun folders => { run with folders }

/-- The items of the backup, once its folders are there, and the report. -/
def finishRestore (account : Account) (strategy : ConflictStrategy) (folderRun : FolderRun)
    (items : List Attempt) : Restored :=
  let validFolderIds := folderRun.folders.map Folder.id ++ folderRun.folderIdMap.values
  let itemRun := restoreItems strategy account.items folderRun.folderIdMap validFolderIds items
  { account := { account with folders := folderRun.folders, items := itemRun.items }
    itemsRestored := itemRun.restored
    itemsSkipped := itemRun.skipped
    foldersRestored := folderRun.restored
    foldersSkipped := folderRun.skipped
    itemSkipReasons := itemRun.reasons
    folderSkipReasons := folderRun.reasons
    folderIdMap := folderRun.folderIdMap }

/-- The whole of a restore that holds the lock. `none` where it does not end. -/
def restoreUnderRotationLock (account : Account) (strategy : ConflictStrategy)
    (vaultKeyVersion : Option ℕ) (folders items : List Attempt) :
    Option (Except RestoreError Restored) :=
  match checkRestore account strategy vaultKeyVersion (folders.map Attempt.row)
    (items.map Attempt.row) with
  | .error e => some (.error e)
  | .ok _ =>
    (restoreFolders strategy account.folders folders).map fun folderRun =>
      .ok (finishRestore account strategy folderRun items)

end HVault.Restore
