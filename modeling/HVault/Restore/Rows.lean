import HVault.Backup.Manifest
import HVault.Data.OrderedMap

/-!
# The rows of a backup and of an account

What a restore reads of the rows of a backup, and what it matches them with:

* `backupRowId`, `castId`, `spell`: an id as a string of the backup and as the database has it. Two
  strings that differ in their capitals spell one id, and are two keys;
* `matchRow`: the row of the account that a row of the backup maps onto;
* `countNetNewRestoreRows`: how many rows a restore inserts, for the caps.

A value is stored as it is given: the casts of the object mapper are left out, and `Outcome` says of
each write whether they, the validators and the storage quota let it through.
-/

namespace HVault.Restore

open Json Backup

/-! ## Ids -/

def isHexDigit (u : UInt16) : Bool :=
  (0x30 ≤ u.toNat ∧ u.toNat ≤ 0x39) ∨ (0x41 ≤ u.toNat ∧ u.toNat ≤ 0x46) ∨
    (0x61 ≤ u.toNat ∧ u.toNat ≤ 0x66)

/-- Twenty-four hexadecimal digits, as capitals or not. -/
def isHexString (s : Utf16) : Bool := s.length = 24 ∧ s.all isHexDigit

/-- An id as a backup spells it. -/
abbrev RowId := { s : Utf16 // isHexString s }

def lowerDigit (u : UInt16) : UInt16 :=
  if 0x41 ≤ u.toNat ∧ u.toNat ≤ 0x46 then u + 0x20 else u

theorem isHexDigit_lowerDigit {u : UInt16} (h : isHexDigit u) : isHexDigit (lowerDigit u) := by
  unfold lowerDigit
  split
  · rename_i hcapital
    have hadd : (u + 0x20).toNat = u.toNat + 0x20 := by
      rw [UInt16.toNat_add]
      show (u.toNat + 32) % 65536 = u.toNat + 32
      omega
    unfold isHexDigit
    rw [hadd]
    simp only [decide_eq_true_eq]
    omega
  · exact h

theorem lowerDigit_lowerDigit (u : UInt16) : lowerDigit (lowerDigit u) = lowerDigit u := by
  unfold lowerDigit
  split
  · rename_i hcapital
    have hadd : (u + 0x20).toNat = u.toNat + 0x20 := by
      rw [UInt16.toNat_add]
      show (u.toNat + 32) % 65536 = u.toNat + 32
      omega
    rw [if_neg]
    rw [hadd]
    omega
  · rfl

/-- An id as the database has it, and as its `toString` spells it: without capitals. -/
abbrev ObjectId := { s : RowId // s.1.map lowerDigit = s.1 }

instance : LawfulBEq ObjectId := inferInstanceAs (LawfulBEq { s : RowId // s.1.map lowerDigit = s.1 })

/-- `new ObjectId(s)`. -/
def castId (s : RowId) : ObjectId :=
  ⟨⟨s.1.map lowerDigit, by
    have hs := s.2
    unfold isHexString at hs ⊢
    simp only [decide_eq_true_eq, List.all_eq_true, List.length_map, List.mem_map] at hs ⊢
    refine ⟨hs.1, ?_⟩
    rintro _ ⟨u, hu, rfl⟩
    exact isHexDigit_lowerDigit (hs.2 u hu)⟩, by
    show (s.1.map lowerDigit).map lowerDigit = s.1.map lowerDigit
    rw [List.map_map]
    exact List.map_congr_left fun u _ => lowerDigit_lowerDigit u⟩

/-- `String(id)`. -/
def spell (id : ObjectId) : RowId := id.1

theorem castId_spell (id : ObjectId) : castId (spell id) = id :=
  Subtype.ext (Subtype.ext id.2)

/-! ## Rows of a backup -/

/-- A row of a backup: an object, with whatever it has. -/
abbrev BackupRow := List (Utf16 × Value)

def field (row : BackupRow) (name : String) : Option Value := lookup (units name) row

/-- The backup's spelling of a row id, when it is one: a string of 24 hexadecimal digits. -/
def backupRowId : Option Value → Option RowId
  | some (.string s) => if h : isHexString s then some ⟨s, h⟩ else none
  | _ => none

/-- The fields of a row by name. -/
abbrev Fields := String → Option Value

def pickAllowedFields (allowed : List String) (row : BackupRow) : Fields := fun name =>
  if name ∈ allowed then field row name else none

/-- `{ $set: new }` over a stored row. -/
def Fields.set (old new : Fields) : Fields := fun name => (new name).or (old name)

/-- The allowed fields of a folder, but for its parent. -/
def allowedFolderFields : List String :=
  ["encryptedName", "nameIv", "nameTag", "icon", "color", "sortOrder"]

/-- The allowed fields of an item, but for its folder. -/
def allowedItemFields : List String :=
  ["encryptedData", "dataIv", "dataTag", "encryptedName", "nameIv", "nameTag", "itemType", "tags",
    "favorite", "passwordHistory"]

/-! ### Fields that are sealed to a row -/

def vaultFieldV2IvMarker : String := "v2:"

def isMarked : Option Value → Bool
  | some (.string s) => units vaultFieldV2IvMarker <+: s
  | _ => false

/-- The objects of what should be an array of rows. -/
def rowsOf : Option Value → List BackupRow
  | some (.array items) => items.filterMap fun
    | .object fields => some fields
    | .array _ => some []
    | _ => none
  | _ => []

def carriesBoundField (items folders : List BackupRow) : Bool :=
  (items.any fun item => isMarked (field item "nameIv") || isMarked (field item "dataIv") ||
    (rowsOf (field item "passwordHistory")).any fun entry => isMarked (field entry "iv")) ||
  folders.any fun folder => isMarked (field folder "nameIv")

/-! ## Stored rows -/

/-- A folder of an account. `sourceRefId` is the id that a backup had for it. -/
structure Folder where
  id : ObjectId
  sourceRefId : Option RowId
  parentId : Option ObjectId
  fields : Fields

structure Item where
  id : ObjectId
  sourceRefId : Option RowId
  folderId : Option ObjectId
  /-- It has a `deletedAt`. -/
  trashed : Bool
  fields : Fields

/-- The account, its rows in the order in which the database finds them. -/
structure Account where
  folders : List Folder
  items : List Item
  deletionPending : Bool
  rotationInProgress : Bool
  vaultKeyVersion : ℕ

inductive ConflictStrategy where
  | skip
  | overwrite
  | keepBoth
  deriving DecidableEq, Repr

/-- What becomes of the write that a row leads to. -/
inductive Outcome where
  | stored
  /-- There is no room in the storage quota, or none left under the cap. -/
  | storageLimit
  /-- It fails a validator or a cast. -/
  | invalidData
  deriving DecidableEq, Repr

/-- A row of the backup, and what the database and the driver put to it: what becomes of its write,
the id that is minted where the row has none, and the id that a new row is given. -/
structure Attempt where
  row : BackupRow
  outcome : Outcome
  mintedRef : ObjectId
  mintedId : ObjectId

/-- The id under which the restore knows a row of the backup. -/
def Attempt.ref (a : Attempt) : RowId :=
  (backupRowId (field a.row "_id")).getD (spell a.mintedRef)

/-- Why a row was not restored as it stands. -/
inductive SkipReason where
  | conflictSkipped
  | storageLimit
  | invalidFolderData
  | invalidItemType
  | missingEncryptionFields
  | trashedAutoRestored
  | invalidItemData
  deriving DecidableEq, Repr

/-! ## Matching -/

section Matching

variable {ρ : Type}

/-- The row that a row of the backup maps onto: the one that has its id, else the last one that was
restored from it. -/
def matchRow (idOf : ρ → ObjectId) (sourceRefOf : ρ → Option RowId) (existing : List ρ)
    (ref : RowId) : Option ρ :=
  match existing.find? fun row => spell (idOf row) = ref with
  | some row => some row
  | none => (existing.filter fun row => sourceRefOf row = some ref).getLast?

/-- A row without an id matches none. -/
def isUnmatched (idOf : ρ → ObjectId) (sourceRefOf : ρ → Option RowId) (existing : List ρ)
    (row : BackupRow) : Bool :=
  match backupRowId (field row "_id") with
  | some ref => (matchRow idOf sourceRefOf existing ref).isNone
  | none => true

/-- How many rows a restore inserts: a copy of every row, or those that match none. -/
def countNetNewRestoreRows (idOf : ρ → ObjectId) (sourceRefOf : ρ → Option RowId)
    (existing : List ρ) (strategy : ConflictStrategy) (rows : List BackupRow) : ℕ :=
  match strategy with
  | .keepBoth => rows.length
  | _ => rows.countP (isUnmatched idOf sourceRefOf existing)

theorem mem_of_matchRow {idOf : ρ → ObjectId} {sourceRefOf : ρ → Option RowId} {existing : List ρ}
    {ref : RowId} {row : ρ} (h : matchRow idOf sourceRefOf existing ref = some row) :
    row ∈ existing := by
  unfold matchRow at h
  split at h
  · rename_i found hfound
    cases h
    exact List.mem_of_find?_eq_some hfound
  · exact (List.mem_filter.1 (List.mem_of_getLast? h)).1

end Matching

def matchFolder : List Folder → RowId → Option Folder := matchRow Folder.id Folder.sourceRefId

def matchItem : List Item → RowId → Option Item := matchRow Item.id Item.sourceRefId

end HVault.Restore
