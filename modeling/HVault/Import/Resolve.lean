import Mathlib.Algebra.GroupWithZero.Nat
import Mathlib.Algebra.Order.BigOperators.Group.List
import HVault.Data.OrderedMap
import HVault.Import.Batches
import HVault.Import.IdentityKeys

/-!
# Import conflict resolution

`resolveImport` decides once, over the whole file and the whole vault, what becomes of every
incoming row: an insert, an update of one existing item, or nothing. `applyBatch` is what a request
with decided operations does to the vault.

The code tells two rows apart by object identity; here a keyed row carries its position in
the file.
-/

namespace HVault.Import

open Json (Utf16)
open ItemIdentity

/-- What a row or an item shows the resolver. -/
class Identified (α : Type) where
  identity : α → ItemIdentityInput

/-- An item of the vault: what it shows, its id and whether it is in the trash. -/
class Resolvable (E : Type) extends Identified E where
  id : E → String
  deletedAt : E → Option String

export Identified (identity)

instance : Identified ItemIdentityInput where
  identity row := row

/-- A decrypted item of the vault. -/
structure DecryptedVaultItem extends ItemIdentityInput where
  id : String
  deletedAt : Option String

instance : Resolvable DecryptedVaultItem where
  identity := DecryptedVaultItem.toItemIdentityInput
  id := DecryptedVaultItem.id
  deletedAt := DecryptedVaultItem.deletedAt

/-- What to do with a row the vault already has. -/
inductive ConflictStrategy where
  | skip
  | overwrite
  | keepBoth
  deriving DecidableEq, Repr

variable {I E : Type}

/-- One resolved update: the incoming row and the existing item it targets. -/
structure ResolvedUpdate (I E : Type) where
  incoming : I
  existing : E

/-- A row folded into another only because of the custom-field cut. -/
structure LimitMerge (I : Type) where
  kept : I
  absorbed : I

/-- The outcome of resolution: every incoming row is in exactly one bucket. -/
structure ImportResolution (I E : Type) where
  inserts : List I
  updates : List (ResolvedUpdate I E)
  duplicateSkipped : List I
  duplicateInFile : List I
  unchanged : List I
  mergedByLimit : Option (List (LimitMerge I))

/-- A row with its keys, and those of the row it was cut from. -/
structure KeyedIncoming (I : Type) where
  position : ℕ
  item : I
  keys : ItemKeys
  alternate : Option ItemKeys

/-- An existing item under its identity key. -/
structure IndexedExisting (E : Type) where
  item : E
  contentKey : Utf16

section Resolve

variable [Identified I] [Resolvable E] (P : Browser)

/-- The keys of a row or an item. -/
def keysOf {α : Type} [Identified α] (x : α) : ItemKeys := P.computeItemKeys (identity x)

/-- Whether an existing item may be matched: not trashed, and decodable. -/
def isCandidate (e : E) : Bool :=
  (Resolvable.deletedAt e).isNone && !isUndecodableData (identity e).data

/-- Puts an item under its identity key, unless an earlier one has it. -/
def addToIndex (index : OrderedMap Utf16 (IndexedExisting E)) (e : E) :
    OrderedMap Utf16 (IndexedExisting E) :=
  let keys := keysOf P e
  if index.has keys.identityKey then index
  else index.set keys.identityKey { item := e, contentKey := keys.contentKey }

/-- The candidates by identity key, the first in the given order winning each. -/
def indexExisting (existing : List E) : OrderedMap Utf16 (IndexedExisting E) :=
  (existing.filter isCandidate).foldl (addToIndex P) .empty

/-- Every incoming row with its keys, in file order. -/
def keyIncoming (alternateOf : Option (I → Option I)) (incoming : List I) :
    List (KeyedIncoming I) :=
  incoming.mapIdx fun position item =>
    { position, item, keys := keysOf P item,
      alternate := (alternateOf.bind fun f => f item).map (keysOf P) }

/-- The rows of one composite key: the one that is kept, and all of them. -/
structure Group (I : Type) where
  winner : KeyedIncoming I
  members : List (KeyedIncoming I)

/-- Adds a row to the group of its two keys. (The code's composite key is the JSON text of
the pair, which tells any two pairs apart.) -/
def addToGroup (strategy : ConflictStrategy) (groups : OrderedMap ItemKeys (Group I))
    (entry : KeyedIncoming I) : OrderedMap ItemKeys (Group I) :=
  match groups.get entry.keys with
  | none => groups.set entry.keys { winner := entry, members := [entry] }
  | some group =>
    groups.set entry.keys
      { winner := if strategy = .overwrite then entry else group.winner,
        members := group.members ++ [entry] }

/-- The rows grouped by both keys. -/
def groupRows (strategy : ConflictStrategy) (keyed : List (KeyedIncoming I)) :
    OrderedMap ItemKeys (Group I) :=
  keyed.foldl (addToGroup strategy) .empty

/-- The content key of what the file held for this row, before any cut. -/
def untrimmedContentKey (entry : KeyedIncoming I) : Utf16 :=
  (entry.alternate.map (·.contentKey)).getD entry.keys.contentKey

/-- Whether a row won its group. -/
def isWinner (groups : OrderedMap ItemKeys (Group I)) (entry : KeyedIncoming I) : Bool :=
  groups.values.any fun g => g.winner.position = entry.position

/-- The rows each winner absorbed although their untrimmed contents differed. -/
def limitMerges (groups : OrderedMap ItemKeys (Group I)) : List (LimitMerge I) :=
  groups.values.flatMap fun g =>
    (g.members.filter fun m => m.position ≠ g.winner.position ∧
      untrimmedContentKey m ≠ untrimmedContentKey g.winner).map fun m =>
        { kept := g.winner.item, absorbed := m.item }

/-- Collapses the rows that share both keys: the survivors, and the rows that lost. -/
def collapseIntraFileDuplicates (strategy : ConflictStrategy) (keyed : List (KeyedIncoming I)) :
    List (KeyedIncoming I) × List (KeyedIncoming I) :=
  if strategy = .keepBoth then (keyed, [])
  else
    let groups := groupRows strategy keyed
    (keyed.filter (isWinner groups), keyed.filter fun entry => !isWinner groups entry)

/-- The index key of the existing item a survivor matches: its own identity first, then the
identity of the row it was cut from. -/
def matchedKey (index : OrderedMap Utf16 (IndexedExisting E)) (s : KeyedIncoming I) :
    Option Utf16 :=
  if index.has s.keys.identityKey then some s.keys.identityKey
  else
    match s.alternate with
    | some alternate => if index.has alternate.identityKey then some alternate.identityKey else none
    | none => none

/-- What becomes of a survivor. -/
inductive Outcome (E : Type) where
  | insert
  | update (existing : E)
  | skipped
  | unchanged

/-- Files a row under its outcome. -/
def ImportResolution.push (r : ImportResolution I E) (item : I) : Outcome E → ImportResolution I E
  | .insert => { r with inserts := r.inserts ++ [item] }
  | .update existing => { r with updates := r.updates ++ [{ incoming := item, existing }] }
  | .skipped => { r with duplicateSkipped := r.duplicateSkipped ++ [item] }
  | .unchanged => { r with unchanged := r.unchanged ++ [item] }

/-- For each matched key, the position of the last survivor that matches it. -/
def lastSlotIndex (found : List (KeyedIncoming I × Option Utf16)) : OrderedMap Utf16 ℕ :=
  found.zipIdx.foldl (fun slots m =>
    match m.1.2 with
    | some key => slots.set key m.2
    | none => slots) .empty

/-- Under `overwrite` the last survivor of a slot updates the item, unless its content (cut
or untrimmed) is already stored; every other survivor is inserted. -/
def overwriteOutcome (index : OrderedMap Utf16 (IndexedExisting E)) (slots : OrderedMap Utf16 ℕ)
    (m : (KeyedIncoming I × Option Utf16) × ℕ) : Outcome E :=
  match m.1.2.bind fun key => if slots.get key = some m.2 then index.get key else none with
  | none => .insert
  | some existing =>
    if m.1.1.keys.contentKey = existing.contentKey ∨
        m.1.1.alternate.map (·.contentKey) = some existing.contentKey then .unchanged
    else .update existing.item

/-- Decides every incoming row against the whole vault. -/
def resolveImport (existing : List E) (incoming : List I) (strategy : ConflictStrategy)
    (alternateOf : Option (I → Option I)) : ImportResolution I E :=
  let keyed := keyIncoming P alternateOf incoming
  let collapsed := collapseIntraFileDuplicates strategy keyed
  let base : ImportResolution I E :=
    { inserts := [], updates := [], duplicateSkipped := [],
      duplicateInFile := collapsed.2.map (·.item), unchanged := [],
      mergedByLimit := alternateOf.map fun _ =>
        if strategy = .keepBoth then [] else limitMerges (groupRows strategy keyed) }
  match strategy with
  | .keepBoth => collapsed.1.foldl (fun r s => r.push s.item .insert) base
  | .skip =>
    let index := indexExisting P existing
    collapsed.1.foldl (fun r s =>
      r.push s.item (if (matchedKey index s).isSome then .skipped else .insert)) base
  | .overwrite =>
    let index := indexExisting P existing
    let found := collapsed.1.map fun s => (s, matchedKey index s)
    let slots := lastSlotIndex found
    found.zipIdx.foldl (fun r m => r.push m.1.1.item (overwriteOutcome index slots m)) base

end Resolve

/-! ## What a request does to the vault -/

/-- How rows are stored: a new item for a row, in a vault, and an item with its content
replaced by a row's. -/
structure Storage (P : Browser) (I E : Type) [Identified I] [Resolvable E] where
  create : List E → I → E
  replace : E → I → E
  /-- A new item gets a fresh id. -/
  id_create : ∀ vault row, ∀ e ∈ vault, Resolvable.id (create vault row) ≠ Resolvable.id e
  /-- What is stored hashes like the row it came from. -/
  keys_create : ∀ vault row, keysOf P (create vault row) = keysOf P row
  isCandidate_create : ∀ vault row, isCandidate (create vault row) = true
  id_replace : ∀ e row, Resolvable.id (replace e row) = Resolvable.id e
  keys_replace : ∀ e row, keysOf P (replace e row) = keysOf P row
  isCandidate_replace : ∀ e row, isCandidate e = true → isCandidate (replace e row) = true

/-- An id longer than any in the vault. -/
def freshId (vault : List DecryptedVaultItem) : String :=
  String.ofList (List.replicate (1 + (vault.map fun e => e.id.length).sum) '0')

theorem freshId_ne {vault : List DecryptedVaultItem} {e : DecryptedVaultItem} (he : e ∈ vault) :
    freshId vault ≠ e.id := by
  have hle : e.id.length ≤ (vault.map fun e => e.id.length).sum :=
    List.single_le_sum (by simp) _ (List.mem_map_of_mem he)
  intro h
  have hlen := congrArg String.length h
  rw [freshId, String.length_ofList, List.length_replicate] at hlen
  omega

/-- A row that was not undecodable. -/
abbrev DecodedRow := { row : ItemIdentityInput // isUndecodableData row.data = false }

instance : Identified DecodedRow where
  identity row := row.1

/-- Decoded rows stored as they are. -/
def plainStorage (P : Browser) : Storage P DecodedRow DecryptedVaultItem where
  create vault row := { row.1 with id := freshId vault, deletedAt := none }
  replace e row := { row.1 with id := e.id, deletedAt := e.deletedAt }
  id_create vault row e he := freshId_ne he
  keys_create vault row := rfl
  isCandidate_create vault row := by simp [isCandidate, Resolvable.deletedAt, identity, row.2]
  id_replace e row := rfl
  keys_replace e row := rfl
  isCandidate_replace e row he := by
    simp only [isCandidate, Bool.and_eq_true] at he
    simpa [isCandidate, Resolvable.deletedAt, identity, row.2] using he.1

section Apply

variable [Identified I] [Resolvable E] {P : Browser} (S : Storage P I E)

/-- A new item follows the others. -/
def applyInsert (vault : List E) (row : I) : List E := vault ++ [S.create vault row]

/-- The item an update names keeps its place and gets the row's content. -/
def applyUpdate (vault : List E) (change : ResolvedUpdate I E) : List E :=
  vault.map fun e =>
    if Resolvable.id e = Resolvable.id change.existing then S.replace e change.incoming else e

/-- The vault after one request. -/
def applyBatch (vault : List E) (batch : OperationBatch I (ResolvedUpdate I E)) : List E :=
  batch.updates.foldl (applyUpdate S) (batch.inserts.foldl (applyInsert S) vault)

/-- The vault after all operations of a resolution. -/
def applyResolution (vault : List E) (r : ImportResolution I E) : List E :=
  applyBatch S vault { inserts := r.inserts, updates := r.updates }

end Apply

end HVault.Import
