import HVault.Data.Bulk
import HVault.Folders.Ancestors
import HVault.Vault.Accounting

/-!
# The folder graph of an account

What the folder-graph helpers read, and what each kind of row statement does to the parents:

* `folderParents`, which the walks up see of the rows;
* `getSubtreeHeight`, the one that walks down;
* `hasCycle_rows_iff`: within the cap on folders the cycle check finds exactly the loops.
-/

namespace HVault

open ParentGraph Option Finmap

variable {K : Type}

/-- The row a stored reference names: anything but an id names none. -/
def refOf : Option Bson → Option ℕ
  | some (.objectId id) => some id
  | _ => none

/-- The parent a folder row names. -/
def Row.parentId (row : Row K) : Option ℕ := refOf (row.fields .parentId)

/-- The folder a row is filed under. -/
def Row.folderId (row : Row K) : Option ℕ := refOf (row.fields .folderId)

/-- The folders of an account, each with the parent it names. -/
def folderParents (rows : Table K) : Parents ℕ := fun id =>
  (rows.lookup ⟨.folder, id⟩).map Row.parentId

def maxFolderNestingDepth : ℕ := 50

/-- The folders that name one of `parents` and have not been visited. -/
def childrenOf (rows : Table K) (parents visited : Finset ℕ) : Finset ℕ :=
  (rows.keys.filter fun key => key.kind = .folder ∧
    (∃ p ∈ folderParents rows key.id, ∃ q ∈ p, q ∈ parents) ∧ key.id ∉ visited).image (·.id)

/-- The levels below a set of folders, at most `n` of them. -/
def levelsBelow (rows : Table K) : ℕ → Finset ℕ → Finset ℕ → ℕ
  | 0, _, _ => 0
  | n + 1, level, visited =>
    let next := childrenOf rows level visited
    if next = ∅ then 0 else levelsBelow rows n next (visited ∪ next) + 1

/-- The folder levels from `folderId` down to its deepest descendant, inclusive. -/
def getSubtreeHeight (rows : Table K) (folderId : ℕ) : ℕ :=
  if (⟨.folder, folderId⟩ : RowKey) ∈ rows then
    levelsBelow rows (maxFolderNestingDepth + 1) {folderId} ∅ + 1
  else 1

/-! ## The cycle check -/

/-- The ids of the stored folders. -/
def folderIds (rows : Table K) : Finset ℕ :=
  (rows.keys.filter (·.kind = .folder)).image (·.id)

theorem mem_folderIds {rows : Table K} {id : ℕ} :
    id ∈ folderIds rows ↔ (folderParents rows id).isSome := by
  rw [folderParents, isSome_map, lookup_isSome, folderIds, Finset.mem_image]
  constructor
  · rintro ⟨⟨kind, id'⟩, hkey, rfl⟩
    obtain ⟨hmem, rfl⟩ := Finset.mem_filter.1 hkey
    exact mem_keys.1 hmem
  · intro h
    exact ⟨⟨.folder, id⟩, Finset.mem_filter.2 ⟨mem_keys.2 h, rfl⟩, rfl⟩

theorem card_folderIds_le (rows : Table K) : (folderIds rows).card ≤ rowCount .folder rows :=
  Finset.card_image_le

theorem hasCycle_rows_iff {rows : Table K} (hcap : rowCount .folder rows ≤ maxFoldersPerUser)
    (id : ℕ) : hasCycle (folderParents rows) id = true ↔ Looped (folderParents rows) id :=
  hasCycle_iff (fun _ => mem_folderIds.2) ((card_folderIds_le rows).trans hcap) id

/-- Where the check finds no stored folder on a loop there is none. -/
theorem acyclic_of_hasCycle {rows : Table K} (hcap : rowCount .folder rows ≤ maxFoldersPerUser)
    (h : ∀ id ∈ folderIds rows, hasCycle (folderParents rows) id = false) : Acyclic (folderParents rows) := by
  intro id hloop
  have hstored : id ∈ folderIds rows := by
    obtain ⟨b, hb, -⟩ := hloop.names
    rw [mem_folderIds, show folderParents rows id = some (some b) from hb]
    rfl
  have hfound : hasCycle (folderParents rows) id = true := (hasCycle_rows_iff hcap id).2 hloop
  rw [h id hstored] at hfound
  cases hfound

/-! ## What the row statements do to the parents -/

section Statements

variable {rows : Table K} {key : RowKey} {row : Row K} {x y : ℕ}

/-- After one row is written a folder names what it named before, or it is the row written. -/
theorem names_insert (h : Names (folderParents (rows.insert key row)) x y) :
    Names (folderParents rows) x y ∨ key = ⟨.folder, x⟩ ∧ row.parentId = some y := by
  by_cases hkey : key = ⟨.folder, x⟩
  · subst hkey
    right
    unfold Names folderParents at h
    rw [lookup_insert, map_some] at h
    exact ⟨rfl, some.inj h⟩
  · left
    unfold Names folderParents at h ⊢
    rwa [lookup_insert_of_ne _ (Ne.symm hkey)] at h

theorem names_erase (h : Names (folderParents (rows.erase key)) x y) :
    Names (folderParents rows) x y := by
  unfold Names folderParents at h ⊢
  by_cases hkey : (⟨.folder, x⟩ : RowKey) = key
  · subst hkey
    rw [lookup_erase, map_none] at h
    cases h
  · rwa [lookup_erase_ne hkey] at h

/-- After every row is rewritten a folder names what its rewritten row says. -/
theorem names_mapVal {f : RowKey → Row K → Row K}
    (h : Names (folderParents (rows.mapVal f)) x y) :
    ∃ row, rows.lookup ⟨.folder, x⟩ = some row ∧ (f ⟨.folder, x⟩ row).parentId = some y := by
  unfold Names folderParents at h
  rw [lookup_mapVal, map_map] at h
  obtain ⟨row, hrow, hparent⟩ := map_eq_some_iff.1 h
  exact ⟨row, hrow, hparent⟩

theorem names_of_lookup (hrow : rows.lookup ⟨.folder, x⟩ = some row)
    (hparent : row.parentId = some y) : Names (folderParents rows) x y := by
  unfold Names folderParents
  rw [hrow, map_some, hparent]

end Statements

end HVault
