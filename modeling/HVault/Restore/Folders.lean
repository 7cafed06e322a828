import HVault.Folders.Ancestors
import HVault.Restore.Rows

/-!
# Restoring the folders of a backup

Folders are written with the parents that the backup has for them, and repaired afterwards: parents
that the backup names are replaced by what the restore made of them, and then what names no folder,
itself or a folder below it is taken off. Each of these sweeps only takes parents away (`Trimmed`),
so that it keeps what the ones before it have achieved; the last of them ends, because each round
takes one away (`breakCycles_spec`).
-/

namespace HVault.Restore

open Json Backup ParentGraph

/-! ## The folders of the backup -/

/-- What a restore has made of the folders so far. `folderIdMap` says which folder of the account
each folder of the backup became. -/
structure FolderRun where
  folders : List Folder
  folderIdMap : OrderedMap RowId ObjectId
  restored : ℕ
  skipped : ℕ
  reasons : List (RowId × SkipReason)

/-- The parent that a row of the backup names; what is no id is none. -/
def backupParent (row : BackupRow) : Option ObjectId :=
  (backupRowId (field row "parentId")).map castId

/-- `$set` leaves a parent in place that the backup has none for. -/
def Folder.overwrite (row : BackupRow) (folder : Folder) : Folder :=
  { folder with
    parentId := (backupParent row).or folder.parentId
    fields := folder.fields.set (pickAllowedFields allowedFolderFields row) }

def newFolder (a : Attempt) : Folder :=
  ⟨a.mintedId, some a.ref, backupParent a.row, pickAllowedFields allowedFolderFields a.row⟩

namespace FolderRun

def mapTo (ref : RowId) (id : ObjectId) (run : FolderRun) : FolderRun :=
  { run with folderIdMap := run.folderIdMap.set ref id }

def skip (ref : RowId) (reason : SkipReason) (run : FolderRun) : FolderRun :=
  { run with skipped := run.skipped + 1, reasons := run.reasons ++ [(ref, reason)] }

def overwrite (id : ObjectId) (row : BackupRow) (run : FolderRun) : FolderRun :=
  { run with
    folders := run.folders.map fun folder => if folder.id = id then folder.overwrite row else folder
    restored := run.restored + 1 }

def insert (a : Attempt) (run : FolderRun) : FolderRun :=
  { run with folders := run.folders ++ [newFolder a], restored := run.restored + 1 }

end FolderRun

/-- One folder of the backup. A folder that storage has no room for is mapped all the same where the
account has one for it. -/
def restoreFolder (strategy : ConflictStrategy) (existing : List Folder) (run : FolderRun)
    (a : Attempt) : FolderRun :=
  match matchFolder existing a.ref, strategy, a.outcome with
  | some target, .skip, _ => (run.skip a.ref .conflictSkipped).mapTo a.ref target.id
  | some target, .overwrite, .stored => (run.overwrite target.id a.row).mapTo a.ref target.id
  | some target, _, .storageLimit => (run.mapTo a.ref target.id).skip a.ref .storageLimit
  | _, _, .stored => (run.insert a).mapTo a.ref a.mintedId
  | none, _, .storageLimit => run.skip a.ref .storageLimit
  | _, _, .invalidData => run.skip a.ref .invalidFolderData

def restoreFolderRows (strategy : ConflictStrategy) (existing : List Folder)
    (attempts : List Attempt) : FolderRun :=
  attempts.foldl (restoreFolder strategy existing) ⟨existing, .empty, 0, 0, []⟩

/-! ## The repair -/

/-- Children of what the backup names become children of what it was restored as. Only folders are
touched that the restore made or matched. -/
def remapParents (folderIdMap : OrderedMap RowId ObjectId) (folders : List Folder) : List Folder :=
  folderIdMap.entries.foldl (fun folders entry =>
    if entry.1 = spell entry.2 then folders
    else folders.map fun folder =>
      if folder.id ∈ folderIdMap.values ∧ folder.parentId = some (castId entry.1) then
        { folder with parentId := some entry.2 }
      else folder) folders

/-- Folders without the parents that fail a check. -/
def clearParents (keep : Folder → Bool) (folders : List Folder) : List Folder :=
  folders.map fun folder => if keep folder then folder else { folder with parentId := none }

def namesFolder (folders : List Folder) (folder : Folder) : Bool :=
  folder.parentId.all fun parent => parent ∈ folders.map Folder.id

def clearDanglingParents (folders : List Folder) : List Folder :=
  clearParents (namesFolder folders) folders

def clearSelfParents (folders : List Folder) : List Folder :=
  clearParents (fun folder => folder.parentId ≠ some folder.id) folders

/-- The folders by id, each with the parent that it names. -/
def parentsOf (folders : List Folder) : Parents ObjectId := fun id =>
  (folders.find? fun folder => folder.id = id).map Folder.parentId

/-- The first folder with a parent that is below itself. -/
def cyclicFolder (folders : List Folder) : Option Folder :=
  folders.find? fun folder => folder.parentId.isSome && hasCycle (parentsOf folders) folder.id

/-- Cycles are broken one edge at a time, until none is found. `none` where the loop has not ended
after so many rounds. -/
def breakCycles : ℕ → List Folder → Option (List Folder)
  | 0, _ => none
  | rounds + 1, folders =>
    match cyclicFolder folders with
    | none => some folders
    | some candidate =>
      breakCycles rounds (clearParents (fun folder => folder.id ≠ candidate.id) folders)

/-- The folders after the sweeps; `none` where they do not end. -/
def repairFolders (run : FolderRun) : Option (List Folder) :=
  let folders := remapParents run.folderIdMap run.folders
  breakCycles (folders.length + 1) (clearSelfParents (clearDanglingParents folders))

/-! ## What one folder of the backup does -/

/-- What the restoring of a row does: it leaves the folders as they are, writes over the one that the
row matches, or adds one. -/
inductive FolderStep (strategy : ConflictStrategy) (existing : List Folder) (a : Attempt)
    (run : FolderRun) : FolderRun → Prop where
  | left (reasons : List (RowId × SkipReason)) : FolderStep strategy existing a run
      { run with skipped := run.skipped + 1, reasons }
  | kept {target : Folder} (reasons : List (RowId × SkipReason))
      (hmatch : matchFolder existing a.ref = some target)
      (hwhy : strategy = .skip ∨ a.outcome = .storageLimit) : FolderStep strategy existing a run
      { run with
        folderIdMap := run.folderIdMap.set a.ref target.id
        skipped := run.skipped + 1
        reasons }
  | overwrote {target : Folder} (hmatch : matchFolder existing a.ref = some target)
      (hstrategy : strategy = .overwrite) (hstored : a.outcome = .stored) :
      FolderStep strategy existing a run
        ((run.overwrite target.id a.row).mapTo a.ref target.id)
  | inserted (hnew : strategy = .keepBoth ∨ matchFolder existing a.ref = none)
      (hstored : a.outcome = .stored) : FolderStep strategy existing a run
      ((run.insert a).mapTo a.ref a.mintedId)

theorem restoreFolder_step (strategy : ConflictStrategy) (existing : List Folder) (run : FolderRun)
    (a : Attempt) : FolderStep strategy existing a run (restoreFolder strategy existing run a) := by
  unfold restoreFolder
  cases hmatch : matchFolder existing a.ref with
  | none =>
    cases houtcome : a.outcome with
    | stored => exact .inserted (.inr hmatch) houtcome
    | storageLimit | invalidData => exact .left _
  | some target =>
    cases strategy with
    | skip => exact .kept _ hmatch (.inl rfl)
    | overwrite =>
      cases houtcome : a.outcome with
      | stored => exact .overwrote hmatch rfl houtcome
      | storageLimit => exact .kept _ hmatch (.inr houtcome)
      | invalidData => exact .left _
    | keepBoth =>
      cases houtcome : a.outcome with
      | stored => exact .inserted (.inl rfl) houtcome
      | storageLimit => exact .kept _ hmatch (.inr houtcome)
      | invalidData => exact .left _

end HVault.Restore
