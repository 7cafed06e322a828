import HVault.Interleave.Prog
import HVault.Vault.Rows

/-!
# The account a vault request works on

One account as the database holds it: its user document (the fields the vault code reads or
writes), its item and folder rows, its documents, and the per-user vault-key exclusion lock.
A request is a `Req`: a program whose accesses are single database statements, each named by
the `Site` it stands at, with `VaultError` for what it may be refused with.
-/

namespace HVault

open Interleave

/-- The three counters an account carries, by stored path. -/
inductive CounterPath where
  | vaultBytes
  | items
  | folders
  deriving DecidableEq, Repr

instance : Fintype CounterPath :=
  Fintype.ofList [.vaultBytes, .items, .folders] fun p => by cases p <;> simp

/-- A signed amount for each counter. -/
abbrev Counts := CounterPath → ℤ

/-- A vault key wrapped under the account's master key. -/
structure Wrapper where
  encryptedVaultKey : String
  vaultKeyIv : String
  vaultKeyTag : String
  deriving DecidableEq, Repr

/-- The user document, as far as the vault reads and writes it. -/
structure User where
  authHash : String
  vaultKey : Wrapper
  /-- `pendingEncryptedVaultKey` with its IV and tag: the key of an unfinished rotation. -/
  pendingVaultKey : Option Wrapper
  /-- Absent on an account created before the field existed. -/
  vaultKeyVersion : Option ℕ
  rotationInProgress : Bool
  lastRotationKey : Option String
  deletionPending : Bool
  /-- Absent until the first operation that needs it installs it. -/
  counters : CounterPath → Option ℤ
  quotaEpoch : Option ℕ
  vaultBytesWrittenAt : Option ℕ
  quotaRecountedAt : Option ℕ

/-- A stored document, as far as a rotation touches it: the wrap of its key. -/
structure DocumentRow (K : Type) where
  encryptedDek : String
  dekIv : String
  dekTag : String
  sealedUnder : K

/-- One account. The clock is what every write stamps; an insert also advances it, so two
creations never carry one `createdAt` (the code takes the creation time for what tells two
incarnations of one row id apart). -/
structure Store (K : Type) where
  user : Option User
  rows : Table K
  documents : Finmap fun _ : ℕ => DocumentRow K
  /-- The acquisition that holds the vault-key exclusion lock. -/
  rotationLock : Option ℕ
  clock : ℕ

/-! ## Errors -/

/-- Why a write derived from the vault key was refused. -/
inductive StaleVaultKeyReason where
  | rotated
  | unreached
  | unnamed
  deriving DecidableEq, Repr

/-- What a request may end with besides its answer. -/
inductive VaultError where
  /-- A failed database access; `definite` when the write is known not to have applied. -/
  | database (definite : Bool)
  /-- The server refused a row because its `_id` is taken. -/
  | duplicateId
  | userNotFound
  | rowLimit (kind : Kind) (stored : ℤ)
  | quotaExceeded
  | counterUntouched
  | rowChanged
  | sessionInvalid
  | rotationInProgress
  | staleVaultKey (current : ℕ) (reason : StaleVaultKeyReason)
  | rotationLockBusy
  | passwordRefused
  | resealKeyMoved
  | rotationOutstanding
  | resealOutstanding
  | rowChangedSinceRead
  | credentialMoved
  | notCovered
  | rotationFailed (items folders documents : ℕ)
  | itemNotFound
  | folderNotFound
  | documentNotFound
  | notInTrash
  | rowIdTaken
  | parentNotFound
  | folderTooDeep
  | ownParent
  /-- A re-parent refused before its write, or taken back after it. -/
  | circularReference (written : Bool)
  deriving DecidableEq, Repr

/-- True when a failed write is known not to have applied. -/
def isDefiniteWriteFailure : VaultError → Bool
  | .database definite => definite
  | .duplicateId => true
  | _ => false

/-! ## Statements -/

/-- The database statements of the vault code. -/
inductive Site where
  | reserve | readCounters | measureTotals (kind : Kind) | installCounters | settle
  | measureRow | placeRow | writeRow | insertRow | deleteRow | findRows
  | recountRead | recountWrite | recountDefer
  | readAccount | acquireLock | releaseLock | raiseFence | lowerFence
  | snapshot | countRows (kind : Kind) | countDocuments | rowExists
  | rotateRow | rotateDocument | restoreRow | restoreDocument
  | commitRotation | transaction
  | readFolder | readAncestors | readSubtree | rehomeItems | detachFolder
  | rehomeFolders (folderId : ℕ) (parentId : Option ℕ)
  | removeFolder (folderId : ℕ) (parentId : Option ℕ)
  | claimFolder (folderId : ℕ)
  deriving DecidableEq, Repr

/-- A vault request with answer `α`. -/
abbrev Req (K α : Type) := Prog (Store K) Site VaultError α

variable {K : Type}

namespace Store

/-- Updates the user document when there is one and it passes `filter`, and says whether it
matched. -/
def updateUser (filter : User → Bool) (update : User → User) (s : Store K) : Bool × Store K :=
  match s.user with
  | some u => if filter u then (true, { s with user := some (update u) }) else (false, s)
  | none => (false, s)

/-- Rewrites the row at `key` when it is stored and passes `filter`, and returns it as
written. The rewrite sees the clock. -/
def updateRow (key : RowKey) (filter : Row K → Bool) (update : ℕ → Row K → Row K)
    (s : Store K) : Option (Row K) × Store K :=
  match s.rows.lookup key with
  | some row =>
    if filter row then
      (some (update s.clock row),
        { s with rows := s.rows.insert key (update s.clock row) })
    else (none, s)
  | none => (none, s)

/-- Inserts a row unless its `_id` is taken, and returns it as stored. -/
def insertRow (key : RowKey) (fields : Field → Option Bson) (sealedUnder : K) (s : Store K) :
    Option (Row K) × Store K :=
  if key ∈ s.rows then (none, s)
  else
    let row := Row.created fields sealedUnder s.clock
    (some row, { s with rows := s.rows.insert key row, clock := s.clock + 1 })

/-- Removes the row at `key` when it is stored and passes `filter`, and returns it. -/
def deleteRow (key : RowKey) (filter : Row K → Bool) (s : Store K) :
    Option (Row K) × Store K :=
  match s.rows.lookup key with
  | some row => if filter row then (some row, { s with rows := s.rows.erase key }) else (none, s)
  | none => (none, s)

/-! ### What the row statements do -/

/-- An update of a row either matched nothing and changed nothing, or rewrote the one row it
matched. -/
theorem updateRow_cases (key : RowKey) (filter : Row K → Bool) (update : ℕ → Row K → Row K)
    (s : Store K) :
    ((s.updateRow key filter update) = (none, s) ∧
        ∀ row, s.rows.lookup key = some row → filter row = false) ∨
      ∃ row, s.rows.lookup key = some row ∧ filter row = true ∧
        s.updateRow key filter update = (some (update s.clock row),
          { s with rows := s.rows.insert key (update s.clock row) }) := by
  unfold updateRow
  cases hrow : s.rows.lookup key with
  | none => exact .inl ⟨rfl, nofun⟩
  | some row =>
    cases hf : filter row with
    | true => exact .inr ⟨row, rfl, hf, by simp [hf]⟩
    | false =>
      refine .inl ⟨by simp [hf], fun row' h => ?_⟩
      cases h
      exact hf

theorem insertRow_cases (key : RowKey) (fields : Field → Option Bson) (sealedUnder : K)
    (s : Store K) :
    (s.insertRow key fields sealedUnder = (none, s) ∧ key ∈ s.rows) ∨
      (key ∉ s.rows ∧ s.insertRow key fields sealedUnder =
        (some (Row.created fields sealedUnder s.clock),
          { s with rows := s.rows.insert key (Row.created fields sealedUnder s.clock),
                   clock := s.clock + 1 })) := by
  unfold insertRow
  by_cases h : key ∈ s.rows
  · exact .inl ⟨by simp [h], h⟩
  · exact .inr ⟨h, by simp [h]⟩

theorem deleteRow_cases (key : RowKey) (filter : Row K → Bool) (s : Store K) :
    ((s.deleteRow key filter) = (none, s) ∧
        ∀ row, s.rows.lookup key = some row → filter row = false) ∨
      ∃ row, s.rows.lookup key = some row ∧ filter row = true ∧
        s.deleteRow key filter = (some row, { s with rows := s.rows.erase key }) := by
  unfold deleteRow
  cases hrow : s.rows.lookup key with
  | none => exact .inl ⟨rfl, nofun⟩
  | some row =>
    cases hf : filter row with
    | true => exact .inr ⟨row, rfl, hf, by simp [hf]⟩
    | false =>
      refine .inl ⟨by simp [hf], fun row' h => ?_⟩
      cases h
      exact hf

theorem updateUser_cases (filter : User → Bool) (update : User → User) (s : Store K) :
    ((s.updateUser filter update) = (false, s) ∧
        ∀ u, s.user = some u → filter u = false) ∨
      ∃ u, s.user = some u ∧ filter u = true ∧
        s.updateUser filter update = (true, { s with user := some (update u) }) := by
  unfold updateUser
  cases hu : s.user with
  | none => exact .inl ⟨rfl, nofun⟩
  | some u =>
    cases hf : filter u with
    | true => exact .inr ⟨u, rfl, hf, by simp [hf]⟩
    | false =>
      refine .inl ⟨by simp [hf], fun u' h => ?_⟩
      cases h
      exact hf

end Store

end HVault
