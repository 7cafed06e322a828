import HVault.Data.Escaping
import HVault.Export.ArchivePaths

/-!
# Paths of folders

The parents that folders name form any graph at all. The walk up from a folder ends all the same
(`WalksUp` is its loop, without a bound on its turns), with a chain in which no folder comes twice
and each is the parent of the next (`Ancestry`). A chain is shown as one text, the names marked where
they hold a separator, so that the text tells the names.
-/

namespace HVault.Archive

open Json Option

/-! ## The walk -/

/-- The loop of the walk: where it stops and what it does before. -/
inductive WalksUp (folders : List DecryptedFolder) :
    List Utf16 → Option DecryptedFolder → List DecryptedFolder → List DecryptedFolder → Prop
  | unresolved {visited : List Utf16} {chain : List DecryptedFolder} :
    WalksUp folders visited none chain chain
  | revisited {visited : List Utf16} {current : DecryptedFolder} {chain : List DecryptedFolder}
    (h : current.id ∈ visited) : WalksUp folders visited (some current) chain chain
  | up {visited : List Utf16} {current : DecryptedFolder} {chain result : List DecryptedFolder}
    (h : current.id ∉ visited)
    (hrest : WalksUp folders (current.id :: visited) (current.parentId.bind (byId folders))
      (current :: chain) result) : WalksUp folders visited (some current) chain result

/-- `parent` is the folder that `child` names as its parent. -/
def IsParent (folders : List DecryptedFolder) (parent child : DecryptedFolder) : Prop :=
  child.parentId = some parent.id ∧ byId folders parent.id = some parent

/-- A chain of folders down to `folder`: whole, but for a parent that is in the chain itself. -/
structure Ancestry (folders : List DecryptedFolder) (folder : DecryptedFolder)
    (chain : List DecryptedFolder) : Prop where
  nodup : (chain.map DecryptedFolder.id).Nodup
  parents : chain.IsChain (IsParent folders)
  ending : chain.getLast? = some folder
  top : ∀ first ∈ chain.head?, ∀ parent, IsParent folders parent first → parent ∈ chain

variable {folders : List DecryptedFolder} {folder : DecryptedFolder}

theorem byId_id {id : Utf16} (h : byId folders id = some folder) : folder.id = id :=
  of_decide_eq_true (List.find?_some (p := fun folder : DecryptedFolder => decide (folder.id = id)) h)

theorem isParent_iff {parent child : DecryptedFolder} :
    IsParent folders parent child ↔ child.parentId.bind (byId folders) = some parent := by
  rw [bind_eq_some_iff]
  constructor
  · intro h
    exact ⟨parent.id, h.1, h.2⟩
  · intro h
    obtain ⟨id, hid, hfound⟩ := h
    have hsame : parent.id = id := byId_id hfound
    exact ⟨by rw [hid, hsame], by rw [hsame]; exact hfound⟩

variable {visited : List Utf16}

/-- With a turn for each folder not visited, the walk comes to its end. -/
theorem walksUp_walkUp {fuel : ℕ} {current : Option DecryptedFolder}
    (chain : List DecryptedFolder) (hnodup : visited.Nodup)
    (hvisited : ∀ id ∈ visited, id ∈ folders.map DecryptedFolder.id)
    (hcurrent : ∀ folder ∈ current, folder ∈ folders)
    (hfuel : folders.length < fuel + visited.length) :
    WalksUp folders visited current chain (walkUp folders fuel visited current chain) := by
  induction fuel generalizing visited current chain with
  | zero =>
    -- There are no more ids than folders.
    have hle := (hnodup.subperm hvisited).length_le
    rw [List.length_map] at hle
    omega
  | succ fuel ih =>
    cases current with
    | none => exact WalksUp.unresolved
    | some folder =>
      unfold walkUp
      split_ifs with hmem
      · exact WalksUp.revisited hmem
      · have hfolder := hcurrent folder rfl
        apply WalksUp.up hmem
        apply ih
        · exact List.nodup_cons.2 ⟨hmem, hnodup⟩
        · exact List.forall_mem_cons.2 ⟨List.mem_map_of_mem hfolder, hvisited⟩
        · intro parent hparent
          obtain ⟨id, -, hid⟩ := bind_eq_some_iff.1 hparent
          exact byId_mem hid
        · rw [List.length_cons]
          omega

/-- What the loop knows of the chain it has, and of the folder it is at. -/
structure Climbing (folders : List DecryptedFolder) (folder : DecryptedFolder)
    (visited : List Utf16) (current : Option DecryptedFolder) (chain : List DecryptedFolder) :
    Prop where
  visits : ∀ id, id ∈ visited ↔ id ∈ chain.map DecryptedFolder.id
  nodup : (chain.map DecryptedFolder.id).Nodup
  parents : chain.IsChain (IsParent folders)
  ending : chain.getLast?.getD folder = folder
  next : ∀ first ∈ chain.head?, current = first.parentId.bind (byId folders)
  start : chain = [] → current = some folder
  found : ∀ ancestor ∈ chain, ancestor = folder ∨ byId folders ancestor.id = some ancestor

/-- A parent that has been visited is in the chain. -/
theorem Climbing.mem {parent : DecryptedFolder} {chain : List DecryptedFolder}
    (h : Climbing folders folder visited (some parent) chain)
    (hfolder : byId folders folder.id = some folder) (hmem : parent.id ∈ visited)
    (hparent : byId folders parent.id = some parent) : parent ∈ chain := by
  obtain ⟨ancestor, hancestor, hid⟩ := List.mem_map.1 ((h.visits parent.id).1 hmem)
  have hsame : byId folders ancestor.id = some ancestor := by
    rcases h.found ancestor hancestor with heq | hfound
    · rw [heq]
      exact hfolder
    · exact hfound
  rw [hid, hparent] at hsame
  rw [some.inj hsame]
  exact hancestor

/-- The loop ends with the whole chain. -/
theorem WalksUp.ancestry {current : Option DecryptedFolder} {chain result : List DecryptedFolder}
    (h : WalksUp folders visited current chain result)
    (hfolder : byId folders folder.id = some folder)
    (hclimb : Climbing folders folder visited current chain) : Ancestry folders folder result := by
  -- A chain that is not empty ends with the folder.
  have hending : ∀ {visited current chain}, Climbing folders folder visited current chain →
      chain ≠ [] → chain.getLast? = some folder := by
    intro visited current chain hc hne
    have hlast := hc.ending
    rw [List.getLast?_eq_some_getLast hne] at hlast ⊢
    rw [getD_some] at hlast
    rw [hlast]
  induction h with
  | unresolved =>
    rename_i visited chain
    have hne : chain ≠ [] := fun hnil => absurd (hclimb.start hnil) nofun
    refine ⟨hclimb.nodup, hclimb.parents, hending hclimb hne, ?_⟩
    intro first hfirst parent hparent
    have hnext := hclimb.next first hfirst
    rw [isParent_iff.1 hparent] at hnext
    cases hnext
  | revisited hmem =>
    rename_i visited current chain
    have hne : chain ≠ [] := by
      intro hnil
      rw [hnil] at hclimb
      exact absurd ((hclimb.visits _).1 hmem) List.not_mem_nil
    refine ⟨hclimb.nodup, hclimb.parents, hending hclimb hne, ?_⟩
    intro first hfirst parent hparent
    have hnext := hclimb.next first hfirst
    rw [isParent_iff.1 hparent] at hnext
    rw [some.inj hnext] at hclimb hmem
    exact hclimb.mem hfolder hmem hparent.2
  | up hmem hrest ih =>
    rename_i visited current chain result
    apply ih
    refine ⟨?_, ?_, ?_, ?_, ?_, nofun, ?_⟩
    · intro id
      rw [List.mem_cons, hclimb.visits, List.map_cons, List.mem_cons]
    · rw [List.map_cons, List.nodup_cons]
      exact ⟨fun hin => hmem ((hclimb.visits _).2 hin), hclimb.nodup⟩
    · apply List.isChain_cons.2
      refine ⟨?_, hclimb.parents⟩
      intro first hfirst
      exact isParent_iff.2 (hclimb.next first hfirst).symm
    · cases chain with
      | nil => exact some.inj (hclimb.start rfl)
      | cons first chain =>
        rw [List.getLast?_cons_cons]
        exact hclimb.ending
    · intro first hfirst
      rw [← some.inj hfirst]
    · intro ancestor hancestor
      rcases List.mem_cons.1 hancestor with heq | hold
      · rw [heq]
        cases chain with
        | nil => exact Or.inl (some.inj (hclimb.start rfl))
        | cons first chain =>
          exact Or.inr (isParent_iff.2 (hclimb.next first rfl).symm).2
      · exact hclimb.found ancestor hold

theorem climbing_start (folders : List DecryptedFolder) (folder : DecryptedFolder) :
    Climbing folders folder [] (some folder) [] where
  visits _ := Iff.rfl
  nodup := List.nodup_nil
  parents := List.IsChain.nil
  ending := rfl
  next := nofun
  start _ := rfl
  found := nofun

/-! ## Paths -/

/-- `chains.get(id)`: an entry that is set again is the later one. -/
def getEntry {α : Type} (id : Utf16) (entries : List (Utf16 × α)) : Option α :=
  lookup id entries.reverse

def backslash : UInt16 := 0x5C

/-- A backslash is escaped first, then a slash. -/
def escapeSegment (name : Utf16) : Utf16 :=
  (name.flatMap fun u => if u = backslash then [backslash, backslash] else [u]).flatMap
    fun u => if u = slash then [backslash, slash] else [u]

/-- The names of a chain as one path. -/
def renderPath (names : List Utf16) : Utf16 := [slash].intercalate (names.map escapeSegment)

def buildFolderPaths (folders : List DecryptedFolder) : List (Utf16 × Utf16) :=
  (folderAncestry folders).map fun entry => (entry.1, renderPath (entry.2.map DecryptedFolder.name))

theorem renderPath_eq (name : Utf16) (names : List Utf16) :
    renderPath (name :: names) = Escaping.join backslash slash name names := by
  have hescape : ∀ name, escapeSegment name = Escaping.escape backslash slash name := by
    intro name
    exact Escaping.flatMap_flatMap_eq_escape (by decide) name
  unfold renderPath
  induction names generalizing name with
  | nil =>
    rw [List.map_singleton, List.intercalate_singleton, hescape]
    exact (List.append_nil _).symm
  | cons next names ih =>
    rw [List.map_cons, List.map_cons, List.intercalate_cons_cons, hescape, ← List.map_cons, ih]
    unfold Escaping.join
    rw [Escaping.tail_cons, List.append_assoc]
    rfl

/-- **A rendered path** tells the names of its chain. -/
theorem renderPath_injective {name name' : Utf16} {names names' : List Utf16}
    (h : renderPath (name :: names) = renderPath (name' :: names')) :
    name = name' ∧ names = names' := by
  rw [renderPath_eq, renderPath_eq] at h
  exact Escaping.join_injective (by decide) h

/-! ## Every folder -/

theorem getEntry_folders {α : Type} (value : DecryptedFolder → α) (folders : List DecryptedFolder)
    (id : Utf16) : getEntry id (folders.map fun folder => (folder.id, value folder)) =
      (byId folders id).map value := by
  unfold getEntry lookup byId
  rw [← List.map_reverse, List.find?_map, map_map]
  rfl

/-- Every folder has its chain: that of the last folder of its id. -/
theorem folderAncestry_get (folders : List DecryptedFolder) (id : Utf16) :
    getEntry id (folderAncestry folders) = (byId folders id).map fun folder =>
      walkUp folders (folders.length + 1) [] (some folder) [] :=
  getEntry_folders _ folders id

theorem buildFolderPaths_get (folders : List DecryptedFolder) (id : Utf16) :
    getEntry id (buildFolderPaths folders) = (getEntry id (folderAncestry folders)).map
      fun chain => renderPath (chain.map DecryptedFolder.name) := by
  rw [folderAncestry_get, map_map]
  unfold buildFolderPaths folderAncestry
  rw [List.map_map]
  exact getEntry_folders _ folders id

/-- A folder of the input stands for its id, or a later one does. -/
theorem byId_of_mem (h : folder ∈ folders) : ∃ last, byId folders folder.id = some last := by
  apply isSome_iff_exists.1
  apply List.find?_isSome.2
  exact ⟨folder, List.mem_reverse.2 h, decide_eq_true rfl⟩

/-- **Folder ancestry**: whatever the parents are, the walk up from every folder ends, and its chain
is without repeats, each folder the parent of the next, down to the folder that has the id. The path
of a folder shows the names of its chain, and tells them. -/
theorem folderAncestry_sound (folders : List DecryptedFolder) :
    (∀ folder ∈ folders, ∃ last chain, byId folders folder.id = some last ∧
        getEntry folder.id (folderAncestry folders) = some chain ∧
        WalksUp folders [] (some last) [] chain ∧ Ancestry folders last chain ∧
        getEntry folder.id (buildFolderPaths folders) =
          some (renderPath (chain.map DecryptedFolder.name))) ∧
      ∀ name names name' names', renderPath (name :: names) = renderPath (name' :: names') →
        name :: names = name' :: names' := by
  refine ⟨?_, ?_⟩
  · intro folder hfolder
    obtain ⟨last, hlast⟩ := byId_of_mem hfolder
    have hget : getEntry folder.id (folderAncestry folders) =
        some (walkUp folders (folders.length + 1) [] (some last) []) := by
      rw [folderAncestry_get, hlast]
      rfl
    have hwalk := walksUp_walkUp [] List.nodup_nil nofun
      (fun current hcurrent => by rw [← some.inj hcurrent]; exact byId_mem hlast)
      (show folders.length < folders.length + 1 + ([] : List Utf16).length by
        rw [List.length_nil]; omega)
    have hself : byId folders last.id = some last := by
      rw [byId_id hlast]
      exact hlast
    have hpath := buildFolderPaths_get folders folder.id
    rw [hget] at hpath
    exact ⟨last, _, hlast, hget, hwalk, hwalk.ancestry hself (climbing_start folders last), hpath⟩
  · intro name names name' names' h
    have hsame := renderPath_injective h
    rw [hsame.1, hsame.2]

/-- Two folders that are each other's parents, and one below them whose name holds a separator. -/
def loopedFolders : List DecryptedFolder :=
  [⟨[0x61], [0x41], some [0x62]⟩, ⟨[0x62], [0x42], some [0x61]⟩,
    ⟨[0x63], [0x43, slash, 0x43], some [0x61]⟩]

theorem folderAncestry_sound_loop :
    ∃ chain, getEntry [0x63] (folderAncestry loopedFolders) = some chain ∧
      (chain.map DecryptedFolder.id).Nodup ∧ renderPath (chain.map DecryptedFolder.name) =
        [0x42, slash, 0x41, slash, 0x43, backslash, slash, 0x43] := by
  obtain ⟨last, chain, -, hget, -, hancestry, hpath⟩ :=
    (folderAncestry_sound loopedFolders).1 ⟨[0x63], [0x43, slash, 0x43], some [0x61]⟩
      (by unfold loopedFolders; simp)
  refine ⟨chain, hget, hancestry.nodup, ?_⟩
  have hshown : getEntry [0x63] (buildFolderPaths loopedFolders) =
      some [0x42, slash, 0x41, slash, 0x43, backslash, slash, 0x43] := rfl
  exact some.inj (hpath.symm.trans hshown)

end HVault.Archive
