import HVault.Export.ArchiveNames

/-!
# Paths in an archive

Every document of a run is given its path: the directory of its folder, whose own name and those
above it are made unique in turn, and a name that nothing in that directory has. A directory is given
for good; a file's name is taken once its document has been written, and given back when its archive
is thrown away.

`Laid` is the allocator's invariant: what is taken is exactly the folders that have a directory and
the files of the run, named apart. `place_spec` and the steps of a run keep it; `paths_apart` is what
it comes to.
-/

namespace HVault.Archive

open Json Backup PathTree Option Or Tree

/-! ## Folders -/

/-- A folder, its name decrypted. -/
structure DecryptedFolder where
  id : Utf16
  name : Utf16
  parentId : Option Utf16

/-- `byId.get(id)`: the last folder of an id stands for it. -/
def byId (folders : List DecryptedFolder) (id : Utf16) : Option DecryptedFolder :=
  folders.reverse.find? fun folder => folder.id = id

/-- The walk up from a folder, ending at a folder it has visited and at a parent that is not there.
No walk takes more steps than there are folders. -/
def walkUp (folders : List DecryptedFolder) :
    ℕ → List Utf16 → Option DecryptedFolder → List DecryptedFolder → List DecryptedFolder
  | 0, _, _, chain => chain
  | _ + 1, _, none, chain => chain
  | fuel + 1, visited, some current, chain =>
    if current.id ∈ visited then chain
    else
      walkUp folders fuel (current.id :: visited) (current.parentId.bind (byId folders))
        (current :: chain)

/-- Each folder's chain of folders from its root down to itself. -/
def folderAncestry (folders : List DecryptedFolder) : List (Utf16 × List DecryptedFolder) :=
  folders.map fun folder =>
    (folder.id, walkUp folders (folders.length + 1) [] (some folder) [])

theorem byId_mem {folders : List DecryptedFolder} {id : Utf16} {folder : DecryptedFolder}
    (h : byId folders id = some folder) : folder ∈ folders :=
  List.mem_reverse.1 (List.mem_of_find?_eq_some h)

/-! ## The allocator -/

def maxFolderNestingDepth : ℕ := 50

/-- Where one document will go. -/
structure ArchivePlacement where
  path : Utf16
  pathBytes : ℕ
  directory : Utf16
  key : Utf16

/-- `directories` by the ids of a chain; `taken` and `pending` as a directory and a key. -/
structure ArchivePathAllocator where
  chains : List (Utf16 × List DecryptedFolder)
  directories : List (Utf16 × Utf16)
  taken : List (Utf16 × Utf16)
  pending : List (Utf16 × Utf16)

/-- `segment`, or the first numbered form of it, whose key is not among `names`. -/
def search (unicode : Unicode) (names : List Utf16) (segment fallback : Utf16) :
    ℕ → ℕ → Utf16 → Option Utf16
  | 0, _, _ => none
  | fuel + 1, counter, candidate =>
    if collisionKey unicode candidate ∈ names then
      search unicode names segment fallback fuel (counter + 1) (numbered segment counter fallback)
    else some candidate

namespace ArchivePathAllocator

def new (folders : List DecryptedFolder) : ArchivePathAllocator :=
  ⟨folderAncestry folders, [], [], []⟩

def names (a : ArchivePathAllocator) (directory : Utf16) : List Utf16 :=
  (a.taken.filter fun name => name.1 = directory).map (·.2)

/-- The search ends: there are more counters than names (`unique_spec`). -/
def unique (unicode : Unicode) (a : ArchivePathAllocator) (directory segment fallback : Utf16) :
    Option Utf16 :=
  search unicode (a.names directory) segment fallback ((a.names directory).length + 2) 2 segment

/-- The directory of a chain, from where `path` and `directory` have come. -/
def enter (unicode : Unicode) : List DecryptedFolder → Utf16 → Utf16 → ArchivePathAllocator →
    Option (Utf16 × ArchivePathAllocator)
  | [], _, directory, a => some (directory, a)
  | folder :: chain, path, directory, a =>
    let path := path ++ slash :: folder.id
    match lookup path a.directories with
    | some known => enter unicode chain path known a
    | none => do
      let segment ← a.unique unicode directory
        (archiveSegment unicode folder.name fallbackFolderSegment) fallbackFolderSegment
      enter unicode chain path (join slash directory segment)
        { a with
          taken := (directory, collisionKey unicode segment) :: a.taken
          directories := (path, join slash directory segment) :: a.directories }

/-- `chains.get(id)`. -/
def chain (a : ArchivePathAllocator) (id : Utf16) : Option (List DecryptedFolder) :=
  lookup id a.chains.reverse

/-- The directory a document in `folderId` goes to. -/
def directoryFor (unicode : Unicode) (a : ArchivePathAllocator) (folderId : Option Utf16) :
    Option (Utf16 × ArchivePathAllocator) :=
  match a.chain (folderId.getD []) with
  | none => some ([], a)
  | some chain =>
    if maxFolderNestingDepth < chain.length then some ([], a) else enter unicode chain [] [] a

/-- Where a document named `name`, in `folderId`, would go. Reserves nothing. -/
def place (unicode : Unicode) (a : ArchivePathAllocator) (name : Utf16) (folderId : Option Utf16) :
    Option (ArchivePlacement × ArchivePathAllocator) := do
  let (directory, a) ← a.directoryFor unicode folderId
  let segment ← a.unique unicode directory
    (archiveSegment unicode name fallbackDocumentSegment) fallbackDocumentSegment
  let path := join slash directory segment
  return (⟨path, utf8Length path, directory, collisionKey unicode segment⟩, a)

/-- Reserve a placement for the archive being written. -/
def reserve (a : ArchivePathAllocator) (placement : ArchivePlacement) : ArchivePathAllocator :=
  { a with
    taken := (placement.directory, placement.key) :: a.taken
    pending := a.pending ++ [(placement.directory, placement.key)] }

/-- The archive was saved. -/
def keepArchive (a : ArchivePathAllocator) : ArchivePathAllocator := { a with pending := [] }

/-- The archive was thrown away: give its names back. -/
def dropArchive (a : ArchivePathAllocator) : ArchivePathAllocator :=
  { a with taken := a.taken.filter fun name => name ∉ a.pending, pending := [] }

end ArchivePathAllocator

/-! ## Searching -/

/-- A name, as a segment or numbered. -/
def Form (unicode : Unicode) (name fallback segment : Utf16) : Prop :=
  segment = archiveSegment unicode name fallback ∨
    ∃ counter ≥ 2, segment = numbered (archiveSegment unicode name fallback) counter fallback

theorem Form.safe {unicode : Unicode} {name fallback segment : Utf16}
    (h : Form unicode name fallback segment) (hfallback : IsFallback fallback) : Safe segment := by
  have hsafe := archiveSegment_safe hfallback unicode name
  rcases h with heq | ⟨counter, -, heq⟩
  · rwa [heq]
  · obtain ⟨head, -, hnumbered⟩ := numbered_spec hsafe hfallback counter
    rwa [heq]

section Search

variable {unicode : Unicode} {names : List Utf16} {segment fallback : Utf16}

/-- What is found is free, and the candidate or numbered. -/
theorem search_some {fuel counter : ℕ} {candidate found : Utf16}
    (h : search unicode names segment fallback fuel counter candidate = some found) :
    collisionKey unicode found ∉ names ∧
      (found = candidate ∨ ∃ n ≥ counter, found = numbered segment n fallback) := by
  induction fuel generalizing counter candidate with
  | zero => cases h
  | succ fuel ih =>
    unfold search at h
    split_ifs at h with hmem
    · obtain ⟨hfree, hfound⟩ := ih h
      refine ⟨hfree, inr ?_⟩
      rcases hfound with rfl | ⟨n, hn, rfl⟩
      · exact ⟨counter, le_rfl, rfl⟩
      · exact ⟨n, Nat.le_of_succ_le hn, rfl⟩
    · cases h
      exact ⟨hmem, inl rfl⟩

/-- A search that finds nothing has found all its candidates taken. -/
theorem search_none {fuel counter : ℕ} {candidate : Utf16}
    (h : search unicode names segment fallback (fuel + 1) counter candidate = none) :
    ∀ i < fuel, collisionKey unicode (numbered segment (counter + i) fallback) ∈ names := by
  induction fuel generalizing counter candidate with
  | zero => exact fun i hi => absurd hi (Nat.not_lt_zero i)
  | succ fuel ih =>
    rw [search] at h
    split_ifs at h with hmem
    intro i hi
    cases i with
    | zero =>
      rw [search] at h
      split_ifs at h with hnext
      exact hnext
    | succ i =>
      have hrest := ih h i (Nat.lt_of_succ_lt_succ hi)
      rwa [Nat.add_right_comm] at hrest

/-- More counters than names are enough. -/
theorem search_ends (hsafe : Safe segment) (hfallback : IsFallback fallback) (candidate : Utf16) :
    ∃ found, search unicode names segment fallback (names.length + 2) 2 candidate = some found := by
  rw [← ne_none_iff_exists']
  intro hnone
  have hnodup : ((List.range (names.length + 1)).map fun i =>
      collisionKey unicode (numbered segment (2 + i) fallback)).Nodup := by
    refine List.nodup_range.map fun i j heq => ?_
    have hcounter := numbered_key_inj unicode hsafe hfallback heq
    omega
  have hsubset : ((List.range (names.length + 1)).map fun i =>
      collisionKey unicode (numbered segment (2 + i) fallback)) ⊆ names := by
    intro key hkey
    obtain ⟨i, hi, rfl⟩ := List.mem_map.1 hkey
    exact search_none hnone i (List.mem_range.1 hi)
  have hle := (hnodup.subperm hsubset).length_le
  rw [List.length_map, List.length_range] at hle
  omega

end Search

theorem mem_names {a : ArchivePathAllocator} {directory key : Utf16} :
    key ∈ a.names directory ↔ (directory, key) ∈ a.taken := by
  constructor
  · intro h
    obtain ⟨⟨directory', key'⟩, hname, rfl⟩ := List.mem_map.1 h
    obtain ⟨htaken, hdirectory⟩ := List.mem_filter.1 hname
    rwa [← of_decide_eq_true hdirectory]
  · intro h
    exact List.mem_map.2 ⟨_, List.mem_filter.2 ⟨h, decide_eq_true rfl⟩, rfl⟩

variable (unicode : Unicode)

theorem unique_spec (a : ArchivePathAllocator) (directory name : Utf16) {fallback : Utf16}
    (hfallback : IsFallback fallback) :
    ∃ segment, a.unique unicode directory (archiveSegment unicode name fallback) fallback =
        some segment ∧
      Form unicode name fallback segment ∧ (directory, collisionKey unicode segment) ∉ a.taken := by
  have hends : ∃ segment,
      a.unique unicode directory (archiveSegment unicode name fallback) fallback = some segment :=
    search_ends (archiveSegment_safe hfallback unicode name) hfallback _
  obtain ⟨segment, hfound⟩ := hends
  obtain ⟨hfree, hform⟩ := search_some hfound
  exact ⟨segment, hfound, hform, fun htaken => hfree (mem_names.2 htaken)⟩

/-! ## The invariant -/

/-- The directory of a chain of folders with these ids. -/
def Located (a : ArchivePathAllocator) (path directory : Utf16) : Prop :=
  (path = [] ∧ directory = []) ∨ (path, directory) ∈ a.directories

/-- The ids of a chain, after those of where it begins. -/
def idPathFrom (path : Utf16) (chain : List DecryptedFolder) : Utf16 :=
  chain.foldl (fun path folder => path ++ slash :: folder.id) path

theorem Located.grows {a a' : ArchivePathAllocator} {path directory : Utf16}
    (h : Located a path directory) (hsubset : a.directories ⊆ a'.directories) :
    Located a' path directory := imp_right (fun hknown => hsubset hknown) h

/-- What the allocator holds when these folders and files have been given their places; `Named path`
are the segments that may stand in the directory of a chain. -/
structure Laid (unicode : Unicode) (Named : Utf16 → Utf16 → Prop) (a : ArchivePathAllocator)
    (folders files : List (Entry UInt16)) : Prop where
  tree : Tree slash (collisionKey unicode) folders files
  taken : ∀ name, name ∈ a.taken ↔
    name ∈ (folders ++ files).map (Tree.slot (collisionKey unicode))
  directories : ∀ known ∈ a.directories,
    known.1 ≠ [] ∧ ∃ folder ∈ folders, known.2 = folder.path slash
  functional : ∀ known ∈ a.directories, ∀ known' ∈ a.directories,
    known.1 = known'.1 ↔ known.2 = known'.2
  located : ∀ entry ∈ folders ++ files,
    ∃ path, Located a path entry.directory ∧ Named path entry.name

section Invariant

variable {unicode : Unicode} {Named : Utf16 → Utf16 → Prop} {a : ArchivePathAllocator}
  {folders files : List (Entry UInt16)}

theorem laid_new (chains : List (Utf16 × List DecryptedFolder)) :
    Laid unicode Named ⟨chains, [], [], []⟩ [] [] where
  tree := ⟨nofun, nofun, .nil⟩
  taken _ := Iff.rfl
  directories := nofun
  functional := nofun
  located := nofun

variable {path directory : Utf16}

theorem Laid.parent (h : Laid unicode Named a folders files) (hlocated : Located a path directory) :
    directory = [] ∨ ∃ folder ∈ folders, directory = folder.path slash := by
  rcases hlocated with ⟨-, rfl⟩ | hknown
  · exact inl rfl
  · exact inr (h.directories _ hknown).2

/-- A chain has one directory, and a directory one chain. -/
theorem Laid.located_iff (h : Laid unicode Named a folders files) {path' directory' : Utf16}
    (hlocated : Located a path directory) (hlocated' : Located a path' directory') :
    path = path' ↔ directory = directory' := by
  have hapart : ∀ known ∈ a.directories, known.1 ≠ [] ∧ known.2 ≠ [] := by
    intro known hknown
    obtain ⟨hne, folder, hfolder, heq⟩ := h.directories known hknown
    refine ⟨hne, ?_⟩
    rw [heq]
    exact Entry.path_ne_nil (h.tree.names folder (folder_mem hfolder)).1
  rcases hlocated with ⟨rfl, rfl⟩ | hknown
  · rcases hlocated' with ⟨rfl, rfl⟩ | hknown'
    · exact iff_of_true rfl rfl
    · exact iff_of_false (hapart _ hknown').1.symm (hapart _ hknown').2.symm
  · rcases hlocated' with ⟨rfl, rfl⟩ | hknown'
    · exact iff_of_false (hapart _ hknown).1 (hapart _ hknown).2
    · exact h.functional _ hknown _ hknown'

/-- The key of a path is made anew at each separator. -/
theorem splits_collisionKey (unicode : Unicode) : Splits slash (collisionKey unicode) where
  append := collisionKey_splits unicode (by decide)
  mem a h := unicode.normalize_slash a (unicode.upper_slash _ h)

theorem idPath_ne_nil {α : Type} (path rest : List α) (x : α) : path ++ x :: rest ≠ [] :=
  List.append_ne_nil_of_right_ne_nil _ (List.cons_ne_nil _ _)

theorem lookup_none {V : Type} {key : Utf16} {fields : List (Utf16 × V)}
    (h : lookup key fields = none) : ∀ field ∈ fields, field.1 ≠ key := by
  intro field hfield heq
  have hnone := List.find?_eq_none.1 (map_eq_none_iff.1 h) field hfield
  exact hnone (decide_eq_true heq)

theorem lookup_mem {V : Type} {key : Utf16} {fields : List (Utf16 × V)} {v : V}
    (h : lookup key fields = some v) : (key, v) ∈ fields := by
  obtain ⟨field, hfind, rfl⟩ := map_eq_some_iff.1 h
  have hkey : field.1 = key := by simpa using List.find?_some hfind
  rw [← hkey]
  exact List.mem_of_find?_eq_some hfind

/-- A folder is given a directory. -/
theorem Laid.addFolder (h : Laid unicode Named a folders files) {segment : Utf16}
    (hlocated : Located a path directory) (hnamed : Named path segment) (hsafe : Safe segment)
    (hnew : (directory, collisionKey unicode segment) ∉ a.taken) (id : Utf16)
    (hunknown : lookup (path ++ slash :: id) a.directories = none) :
    Laid unicode Named
      { a with
        taken := (directory, collisionKey unicode segment) :: a.taken
        directories := (path ++ slash :: id, join slash directory segment) :: a.directories }
      (⟨directory, segment⟩ :: folders) files := by
  have hslot : slot (collisionKey unicode) ⟨directory, segment⟩ ∉
      (folders ++ files).map (slot (collisionKey unicode)) := by
    rwa [← h.taken]
  have htree : Tree slash (collisionKey unicode) (⟨directory, segment⟩ :: folders) files :=
    h.tree.addFolder ⟨hsafe.ne, hsafe.slash⟩ (h.parent hlocated) hslot
  have hfresh : ∀ known ∈ a.directories,
      known.1 ≠ path ++ slash :: id ∧ known.2 ≠ join slash directory segment := by
    intro known hknown
    refine ⟨lookup_none hunknown known hknown, fun heq => ?_⟩
    obtain ⟨-, folder, hfolder, hpath⟩ := h.directories known hknown
    have hsame : folder = ⟨directory, segment⟩ := htree.eq_of_path (splits_collisionKey unicode)
      (folder_mem (List.mem_cons_of_mem _ hfolder)) (folder_mem List.mem_cons_self)
      (by rw [← hpath, heq]; rfl)
    refine hslot (hsame ▸ List.mem_map_of_mem (folder_mem hfolder))
  refine ⟨htree, fun name => ?_, ?_, ?_, ?_⟩
  · rw [List.cons_append, List.map_cons, List.mem_cons, List.mem_cons, h.taken]
    rfl
  · refine List.forall_mem_cons.2 ⟨⟨idPath_ne_nil _ _ _, _, List.mem_cons_self, rfl⟩, ?_⟩
    intro known hknown
    obtain ⟨hne, folder, hfolder, heq⟩ := h.directories known hknown
    exact ⟨hne, folder, List.mem_cons_of_mem _ hfolder, heq⟩
  · refine List.forall_mem_cons.2 ⟨List.forall_mem_cons.2 ⟨iff_of_true rfl rfl, fun known hknown => ?_⟩,
      fun known hknown => List.forall_mem_cons.2 ⟨?_, h.functional known hknown⟩⟩
    · exact iff_of_false (hfresh known hknown).1.symm (hfresh known hknown).2.symm
    · exact iff_of_false (hfresh known hknown).1 (hfresh known hknown).2
  · refine List.forall_mem_cons.2 ⟨⟨path, ?_, hnamed⟩, fun entry hentry => ?_⟩
    · exact hlocated.grows (List.subset_cons_self _ _)
    · obtain ⟨path', hlocated', hnamed'⟩ := h.located entry hentry
      exact ⟨path', hlocated'.grows (List.subset_cons_self _ _), hnamed'⟩

/-- An allocator with more directories, and otherwise the same but for names. -/
structure Grows (a a' : ArchivePathAllocator) : Prop where
  chains : a'.chains = a.chains
  pending : a'.pending = a.pending
  directories : a.directories ⊆ a'.directories

/-- The directory of a chain from where it has been entered. -/
theorem enter_spec {chain : List DecryptedFolder} (h : Laid unicode Named a folders files)
    (hlocated : Located a path directory)
    (hnamed : ∀ before folder after, chain = before ++ folder :: after → ∀ segment,
      Form unicode folder.name fallbackFolderSegment segment →
        Named (idPathFrom path before) segment) :
    ∃ directory' a' folders', a.enter unicode chain path directory = some (directory', a') ∧
      Laid unicode Named a' folders' files ∧ Grows a a' ∧
      Located a' (idPathFrom path chain) directory' := by
  induction chain generalizing a folders path directory with
  | nil => exact ⟨directory, a, folders, rfl, h, ⟨rfl, rfl, List.Subset.refl _⟩, hlocated⟩
  | cons folder chain ih =>
    have hrest : ∀ before later after, chain = before ++ later :: after → ∀ segment,
        Form unicode later.name fallbackFolderSegment segment →
          Named (idPathFrom (path ++ slash :: folder.id) before) segment :=
      fun before later after heq => hnamed (folder :: before) later after (by rw [heq]; rfl)
    unfold ArchivePathAllocator.enter
    dsimp only
    cases hknown : lookup (path ++ slash :: folder.id) a.directories with
    | some known => exact ih h (inr (lookup_mem hknown)) hrest
    | none =>
      obtain ⟨segment, hunique, hform, hnew⟩ := unique_spec unicode a directory folder.name
        (inr rfl : IsFallback fallbackFolderSegment)
      have hlaid := h.addFolder hlocated (hnamed [] folder chain rfl segment hform)
        (hform.safe (inr rfl)) hnew folder.id hknown
      rw [hunique]
      obtain ⟨directory', a', folders', henter, hlaid', hgrows, hlocated'⟩ :=
        ih hlaid (inr List.mem_cons_self) hrest
      refine ⟨directory', a', folders', henter, hlaid', ⟨hgrows.chains, hgrows.pending, ?_⟩,
        hlocated'⟩
      exact List.Subset.trans (List.subset_cons_self _ _) hgrows.directories

end Invariant

/-! ## Placing -/

/-- The chain of folders whose directory a document in `folderId` goes to. -/
def chainFor (chains : List (Utf16 × List DecryptedFolder)) (folderId : Option Utf16) :
    List DecryptedFolder :=
  match lookup (folderId.getD []) chains.reverse with
  | none => []
  | some chain => if maxFolderNestingDepth < chain.length then [] else chain

theorem directoryFor_eq (a : ArchivePathAllocator) (folderId : Option Utf16) :
    a.directoryFor unicode folderId = a.enter unicode (chainFor a.chains folderId) [] [] := by
  unfold ArchivePathAllocator.directoryFor ArchivePathAllocator.chain chainFor
  cases lookup (folderId.getD []) a.chains.reverse with
  | none => rfl
  | some chain =>
    dsimp only
    split_ifs
    · rfl
    · rfl

/-- What may be named where: documents in the directory of their folder, folders in that of the
folders above them. -/
inductive NamedIn (unicode : Unicode) (chains : List (Utf16 × List DecryptedFolder))
    (documents : List (Utf16 × Option Utf16)) : Utf16 → Utf16 → Prop where
  | document {name segment : Utf16} {folderId : Option Utf16} (hmem : (name, folderId) ∈ documents)
      (hform : Form unicode name fallbackDocumentSegment segment) :
      NamedIn unicode chains documents (idPathFrom [] (chainFor chains folderId)) segment
  | folder {name segment : Utf16} {folderId : Option Utf16} {before after : List DecryptedFolder}
      {folder : DecryptedFolder} (hmem : (name, folderId) ∈ documents)
      (hchain : chainFor chains folderId = before ++ folder :: after)
      (hform : Form unicode folder.name fallbackFolderSegment segment) :
      NamedIn unicode chains documents (idPathFrom [] before) segment

section Place

variable {unicode : Unicode} {documents : List (Utf16 × Option Utf16)} {a : ArchivePathAllocator}
  {folders files : List (Entry UInt16)}

/-- A placement is a new entry of the tree, in the directory of the document's folder. -/
theorem place_spec (h : Laid unicode (NamedIn unicode a.chains documents) a folders files)
    {name : Utf16} {folderId : Option Utf16} (hmem : (name, folderId) ∈ documents) :
    ∃ placement a' folders' segment, a.place unicode name folderId = some (placement, a') ∧
      Laid unicode (NamedIn unicode a.chains documents) a' folders' files ∧ Grows a a' ∧
      Located a' (idPathFrom [] (chainFor a.chains folderId)) placement.directory ∧
      Form unicode name fallbackDocumentSegment segment ∧
      placement.key = collisionKey unicode segment ∧
      placement.path = (Entry.mk placement.directory segment).path slash ∧
      (placement.directory, placement.key) ∉ a'.taken := by
  obtain ⟨directory, a', folders', henter, hlaid, hgrows, hlocated⟩ :=
    enter_spec h (inl ⟨rfl, rfl⟩ : Located a [] []) fun before folder after hchain segment hform =>
      NamedIn.folder hmem hchain hform
  obtain ⟨segment, hunique, hform, hnew⟩ := unique_spec unicode a' directory name
    (inl rfl : IsFallback fallbackDocumentSegment)
  have hplace : a.place unicode name folderId =
      some (⟨join slash directory segment, utf8Length (join slash directory segment), directory,
        collisionKey unicode segment⟩, a') := by
    unfold ArchivePathAllocator.place
    rw [directoryFor_eq, henter]
    show (a'.unique unicode directory _ _ >>= _) = _
    rw [hunique]
    rfl
  exact ⟨_, a', folders', segment, hplace, hlaid, hgrows, hlocated, hform, rfl, rfl, hnew⟩

/-- A reserved placement is a file. -/
theorem Laid.reserve {Named : Utf16 → Utf16 → Prop} (h : Laid unicode Named a folders files)
    {placement : ArchivePlacement} {path segment : Utf16}
    (hlocated : Located a path placement.directory) (hnamed : Named path segment)
    (hsafe : Safe segment) (hkey : placement.key = collisionKey unicode segment)
    (hnew : (placement.directory, placement.key) ∉ a.taken) :
    Laid unicode Named (a.reserve placement) folders (⟨placement.directory, segment⟩ :: files) := by
  have hslot : slot (collisionKey unicode) ⟨placement.directory, segment⟩ ∉
      (folders ++ files).map (slot (collisionKey unicode)) := by
    rw [← h.taken]
    show (placement.directory, collisionKey unicode segment) ∉ a.taken
    rwa [← hkey]
  refine ⟨h.tree.addFile ⟨hsafe.ne, hsafe.slash⟩ (h.parent hlocated) hslot, fun name => ?_,
    h.directories, h.functional, fun entry hentry => ?_⟩
  · show name ∈ (placement.directory, placement.key) :: a.taken ↔ _
    rw [(List.perm_middle.map _).mem_iff, List.map_cons, List.mem_cons, List.mem_cons, h.taken, hkey]
    rfl
  · rcases List.mem_cons.1 (List.perm_middle.subset hentry) with rfl | hold
    · exact ⟨path, hlocated, hnamed⟩
    · exact h.located entry hold

/-- The files of an archive that is thrown away are free again. -/
theorem Laid.dropArchive {Named : Utf16 → Utf16 → Prop} {current saved : List (Entry UInt16)}
    (h : Laid unicode Named a folders (current ++ saved))
    (hpending : ∀ name, name ∈ a.pending ↔ name ∈ current.map (slot (collisionKey unicode))) :
    Laid unicode Named a.dropArchive folders saved := by
  have hsublist : saved.Sublist (current ++ saved) := List.sublist_append_right _ _
  refine ⟨h.tree.dropFiles hsublist, fun name => ?_, h.directories, h.functional,
    fun entry hentry => ?_⟩
  · have hnodup := h.tree.apart
    have hperm : (folders ++ (current ++ saved)).Perm (current ++ (folders ++ saved)) := by
      rw [← List.append_assoc, ← List.append_assoc]
      exact List.perm_append_comm.append_right _
    rw [(hperm.map _).nodup_iff, List.map_append, List.nodup_append] at hnodup
    show name ∈ a.taken.filter (fun name => name ∉ a.pending) ↔ _
    rw [List.mem_filter, decide_eq_true_iff, hpending, h.taken, (hperm.map _).mem_iff,
      List.map_append, List.mem_append]
    constructor
    · rintro ⟨hin, hnot⟩
      exact hin.resolve_left hnot
    · exact fun hin => ⟨inr hin, fun hcurrent => hnodup.2.2 name hcurrent name hin rfl⟩
  · exact h.located entry (((List.Sublist.refl folders).append hsublist).subset hentry)

end Place

/-! ## Runs -/

/-- What a run does with its allocator: a document is placed, and its name reserved once it has been
read; an archive is saved, or thrown away. -/
inductive Step where
  | document (name : Utf16) (folderId : Option Utf16) (reserved : Bool)
  | keepArchive
  | dropArchive

/-- A run: the files of the archive being written and of those that were saved, by their paths, and
every placement with the folder it was made for. -/
structure Run where
  allocator : ArchivePathAllocator
  current : List Utf16
  archives : List (List Utf16)
  placed : List (Option Utf16 × ArchivePlacement)

namespace Run

def new (folders : List DecryptedFolder) : Run := ⟨.new folders, [], [], []⟩

def step (unicode : Unicode) (run : Run) : Step → Option Run
  | .document name folderId reserved => do
    let (placement, allocator) ← run.allocator.place unicode name folderId
    let placed := (folderId, placement) :: run.placed
    if reserved then
      return { run with
        allocator := allocator.reserve placement, current := placement.path :: run.current, placed }
    else return { run with allocator, placed }
  | .keepArchive => some { run with
      allocator := run.allocator.keepArchive, current := [], archives := run.current :: run.archives }
  | .dropArchive => some { run with allocator := run.allocator.dropArchive, current := [] }

/-- Steps one after the other; none where a search for a name does not end. -/
def steps (unicode : Unicode) (steps : List Step) (run : Run) : Option Run :=
  steps.foldlM (step unicode) run

/-- All files of a run. -/
def files (run : Run) : List Utf16 := (run.current :: run.archives).flatten

end Run

/-- The documents of a run with their folders. -/
def documentsOf (steps : List Step) : List (Utf16 × Option Utf16) :=
  steps.filterMap fun
    | .document name folderId _ => some (name, folderId)
    | _ => none

/-- A run whose files are these, in a tree with these folders. -/
structure Keeps (unicode : Unicode) (documents : List (Utf16 × Option Utf16))
    (chains : List (Utf16 × List DecryptedFolder)) (run : Run)
    (folders current saved : List (Entry UInt16)) : Prop where
  laid : Laid unicode (NamedIn unicode chains documents) run.allocator folders (current ++ saved)
  ancestry : run.allocator.chains = chains
  pending : ∀ name, name ∈ run.allocator.pending ↔
    name ∈ current.map (Tree.slot (collisionKey unicode))
  current : run.current = current.map (Entry.path slash)
  saved : run.archives.flatten = saved.map (Entry.path slash)
  placed : ∀ made ∈ run.placed,
    Located run.allocator (idPathFrom [] (chainFor chains made.1)) made.2.directory

section Runs

variable {unicode : Unicode} {documents : List (Utf16 × Option Utf16)}
  {chains : List (Utf16 × List DecryptedFolder)} {run : Run}
  {folders current saved : List (Entry UInt16)}

theorem Keeps.document (h : Keeps unicode documents chains run folders current saved)
    {name : Utf16} {folderId : Option Utf16} (hmem : (name, folderId) ∈ documents)
    (reserved : Bool) :
    ∃ run' folders' current', run.step unicode (.document name folderId reserved) = some run' ∧
      Keeps unicode documents chains run' folders' current' saved := by
  have hlaid := h.laid
  rw [← h.ancestry] at hlaid
  obtain ⟨placement, a', folders', segment, hplace, hlaid', hgrows, hlocated, hform, hkey, hpath,
    hnew⟩ := place_spec hlaid hmem
  rw [h.ancestry] at hlaid' hlocated
  have hplaced : ∀ made ∈ (folderId, placement) :: run.placed,
      Located a' (idPathFrom [] (chainFor chains made.1)) made.2.directory :=
    List.forall_mem_cons.2 ⟨hlocated, fun made hmade => (h.placed made hmade).grows hgrows.directories⟩
  have hchains : a'.chains = chains := hgrows.chains.trans h.ancestry
  unfold Run.step
  dsimp only
  rw [hplace]
  cases reserved with
  | false =>
    refine ⟨_, folders', current, rfl, hlaid', hchains, ?_, h.current, h.saved, hplaced⟩
    intro name
    show name ∈ a'.pending ↔ _
    rw [hgrows.pending]
    exact h.pending name
  | true =>
    refine ⟨_, folders', ⟨placement.directory, segment⟩ :: current, rfl,
      hlaid'.reserve hlocated (.document hmem hform) (hform.safe (inl rfl)) hkey hnew, hchains,
      fun name => ?_, ?_, h.saved, hplaced⟩
    · show name ∈ a'.pending ++ [(placement.directory, placement.key)] ↔ _
      rw [hgrows.pending, List.mem_append, h.pending, List.mem_singleton, List.map_cons,
        List.mem_cons, comm, hkey]
      rfl
    · show placement.path :: run.current = _
      rw [hpath, h.current]
      rfl

theorem Keeps.step (h : Keeps unicode documents chains run folders current saved) (step : Step)
    (hmem : ∀ document ∈ documentsOf [step], document ∈ documents) :
    ∃ run' folders' current' saved', run.step unicode step = some run' ∧
      Keeps unicode documents chains run' folders' current' saved' := by
  cases step with
  | document name folderId reserved =>
    obtain ⟨run', folders', current', hstep, hkeeps⟩ :=
      h.document (hmem (name, folderId) List.mem_cons_self) reserved
    exact ⟨run', folders', current', saved, hstep, hkeeps⟩
  | keepArchive =>
    have hlaid := h.laid
    refine ⟨_, folders, [], current ++ saved, rfl, ⟨hlaid.tree, hlaid.taken, hlaid.directories,
      hlaid.functional, hlaid.located⟩, h.ancestry, fun name => Iff.rfl, rfl, ?_, h.placed⟩
    rw [List.flatten_cons, h.current, h.saved, List.map_append]
  | dropArchive =>
    exact ⟨_, folders, [], saved, rfl, h.laid.dropArchive h.pending, h.ancestry, fun name => Iff.rfl,
      rfl, h.saved, h.placed⟩

theorem Keeps.steps (h : Keeps unicode documents chains run folders current saved)
    {steps : List Step} (hmem : ∀ document ∈ documentsOf steps, document ∈ documents) :
    ∃ run' folders' current' saved', run.steps unicode steps = some run' ∧
      Keeps unicode documents chains run' folders' current' saved' := by
  induction steps generalizing run folders current saved with
  | nil => exact ⟨run, folders, current, saved, rfl, h⟩
  | cons step steps ih =>
    have hsplit : documentsOf (step :: steps) = documentsOf [step] ++ documentsOf steps :=
      @List.filterMap_append _ _ [step] steps _
    rw [hsplit] at hmem
    obtain ⟨run₁, folders₁, current₁, saved₁, hstep, hkeeps⟩ :=
      h.step step fun document hin => hmem document (List.mem_append_left _ hin)
    obtain ⟨run', folders', current', saved', hsteps, hkeeps'⟩ :=
      ih hkeeps fun document hin => hmem document (List.mem_append_right _ hin)
    refine ⟨run', folders', current', saved', ?_, hkeeps'⟩
    unfold Run.steps
    rw [List.foldlM_cons, hstep]
    exact hsteps

end Runs

/-! ## The law -/

/-- Letters without their case: the lower case of what is composed. -/
def lowerKey (unicode : Unicode) (path : Utf16) : Utf16 :=
  unicode.toLowerCase (unicode.normalize path)

theorem splits_lowerKey : Splits slash (lowerKey unicode) where
  append a b := by
    unfold lowerKey
    rw [unicode.normalize_fixed slash (by decide), unicode.lower_fixed slash (by decide)]
  mem a h := unicode.normalize_slash a (unicode.lower_slash _ h)

/-- Of the names that go to one directory, those that are alike in lower case are alike in upper
case too, in every form that a name may get. -/
def CasesAgree (unicode : Unicode) (folders : List DecryptedFolder) (steps : List Step) : Prop :=
  ∀ path segment segment',
    NamedIn unicode (folderAncestry folders) (documentsOf steps) path segment →
    NamedIn unicode (folderAncestry folders) (documentsOf steps) path segment' →
    lowerKey unicode segment = lowerKey unicode segment' →
    collisionKey unicode segment = collisionKey unicode segment'

/-- **Paths in an archive are apart**, by their upper case in every run, and whatever the case of
their letters when upper and lower case agree about the names; documents of one folder share a
directory, and every search for a name ends. -/
theorem archive_paths_apart (unicode : Unicode) (folders : List DecryptedFolder)
    (steps : List Step) : ∃ run, (Run.new folders).steps unicode steps = some run ∧
      PathsApart slash (collisionKey unicode) run.files ∧
      (CasesAgree unicode folders steps → PathsApart slash (lowerKey unicode) run.files) ∧
      ∀ made ∈ run.placed, ∀ made' ∈ run.placed, made.1 = made'.1 →
        made.2.directory = made'.2.directory := by
  have hnew : Keeps unicode (documentsOf steps) (folderAncestry folders) (Run.new folders) [] [] [] :=
    ⟨laid_new _, rfl, fun _ => Iff.rfl, rfl, rfl, nofun⟩
  obtain ⟨run, tree, current, saved, hsteps, hkeeps⟩ := hnew.steps fun _ hin => hin
  have hlaid := hkeeps.laid
  have hfiles : run.files = (current ++ saved).map (Entry.path slash) := by
    unfold Run.files
    rw [List.flatten_cons, hkeeps.current, hkeeps.saved, List.map_append]
  refine ⟨run, hsteps, ?_, fun hcases => ?_, fun made hmade made' hmade' heq => ?_⟩
  · rw [hfiles]
    exact hlaid.tree.pathsApart (splits_collisionKey unicode)
  · rw [hfiles]
    refine (hlaid.tree.changeKey fun entry hentry entry' hentry' hdirectory hlower => ?_).pathsApart
      (splits_lowerKey unicode)
    obtain ⟨path, hlocated, hnamed⟩ := hlaid.located entry hentry
    obtain ⟨path', hlocated', hnamed'⟩ := hlaid.located entry' hentry'
    obtain rfl := (hlaid.located_iff hlocated hlocated').2 hdirectory
    exact hcases path _ _ hnamed hnamed' hlower
  · refine (hlaid.located_iff (hkeeps.placed made hmade) (hkeeps.placed made' hmade')).1 ?_
    rw [heq]

/-! ## Alphabets -/

/-- The functions of strings that change each unit by itself. -/
def unitwise (upper lower : UInt16 → Utf16)
    (hsame : ∀ c, isFixed c ∨ isDigit c → upper c = [c] ∧ lower c = [c])
    (hslash : ∀ c, slash ∈ upper c ∨ slash ∈ lower c → c = slash) : Unicode where
  normalize s := s
  toUpperCase s := s.flatMap upper
  toLowerCase s := s.flatMap lower
  normalize_fixed _ _ _ _ := rfl
  upper_fixed c hc a b := by rw [List.flatMap_append, List.flatMap_cons, (hsame c (Or.inl hc)).1]; rfl
  lower_fixed c hc a b := by rw [List.flatMap_append, List.flatMap_cons, (hsame c (Or.inl hc)).2]; rfl
  normalize_slash _ h := h
  upper_slash a h := by
    obtain ⟨c, hc, hmem⟩ := List.mem_flatMap.1 h
    rwa [← hslash c (Or.inl hmem)]
  lower_slash a h := by
    obtain ⟨c, hc, hmem⟩ := List.mem_flatMap.1 h
    rwa [← hslash c (Or.inr hmem)]
  normalize_digits _ _ := rfl
  upper_digits ds hds := by
    induction ds with
    | nil => rfl
    | cons d ds ih =>
      rw [List.all_cons, Bool.and_eq_true] at hds
      rw [List.flatMap_cons, (hsame d (Or.inr hds.1)).1, ih hds.2]
      rfl

def upperAscii (u : UInt16) : UInt16 :=
  if 0x61 ≤ u.toNat ∧ u.toNat ≤ 0x7A then .ofNat (u.toNat - 0x20) else u

theorem toNat_lowerAscii {u : UInt16} (h : 0x41 ≤ u.toNat ∧ u.toNat ≤ 0x5A) :
    (lowerAscii u).toNat = u.toNat + 0x20 := by
  unfold lowerAscii
  rw [if_pos h, UInt16.toNat_add]
  exact Nat.mod_eq_of_lt (by show u.toNat + 32 < 65536; omega)

theorem toNat_upperAscii {u : UInt16} (h : 0x61 ≤ u.toNat ∧ u.toNat ≤ 0x7A) :
    (upperAscii u).toNat = u.toNat - 0x20 := by
  unfold upperAscii
  rw [if_pos h, UInt16.toNat_ofNat']
  exact Nat.mod_eq_of_lt (by omega)

theorem upperAscii_lowerAscii (u : UInt16) : upperAscii (lowerAscii u) = upperAscii u := by
  by_cases hupper : 0x41 ≤ u.toNat ∧ u.toNat ≤ 0x5A
  · have hlower := toNat_lowerAscii hupper
    have hsame : upperAscii u = u := if_neg (by omega)
    rw [hsame, ← UInt16.toNat_inj, toNat_upperAscii (by omega), hlower, Nat.add_sub_cancel]
  · have hsame : lowerAscii u = u := if_neg hupper
    rw [hsame]

theorem ascii_same {c : UInt16} (h : isFixed c ∨ isDigit c) : upperAscii c = c ∧ lowerAscii c = c := by
  have hlow : c.toNat ≤ 0x39 := by
    rcases h with h | h
    · rcases of_decide_eq_true h with rfl | rfl | rfl
      · decide
      · decide
      · decide
    · exact (of_decide_eq_true h).2
  exact ⟨if_neg (by omega), if_neg (by omega)⟩

theorem ascii_slash {c : UInt16} (h : upperAscii c = slash ∨ lowerAscii c = slash) : c = slash := by
  have hslash : slash.toNat = 0x2F := rfl
  rcases h with h | h
  · by_cases hlower : 0x61 ≤ c.toNat ∧ c.toNat ≤ 0x7A
    · have hupper := toNat_upperAscii hlower
      rw [h] at hupper
      omega
    · rwa [upperAscii, if_neg hlower] at h
  · by_cases hupper : 0x41 ≤ c.toNat ∧ c.toNat ≤ 0x5A
    · have hlower := toNat_lowerAscii hupper
      rw [h] at hlower
      omega
    · rwa [lowerAscii, if_neg hupper] at h

/-- The letters of English. -/
def ascii : Unicode :=
  unitwise (fun c => [upperAscii c]) (fun c => [lowerAscii c])
    (fun c hc => by rw [(ascii_same hc).1, (ascii_same hc).2]; exact ⟨rfl, rfl⟩)
    fun c hc => ascii_slash (hc.imp (fun h => (List.mem_singleton.1 h).symm)
      fun h => (List.mem_singleton.1 h).symm)

/-- The letters of English, and the sharp s, whose small form has two letters in upper case. -/
def german : Unicode :=
  unitwise (fun c => if c = 0xDF then units "SS" else [upperAscii c])
    (fun c => if c = 0x1E9E then [0xDF] else [lowerAscii c])
    (fun c hc => by
      have hne : c ≠ 0xDF ∧ c ≠ 0x1E9E := by
        constructor
        · rintro rfl
          exact absurd hc (by decide)
        · rintro rfl
          exact absurd hc (by decide)
      rw [if_neg hne.1, if_neg hne.2, (ascii_same hc).1, (ascii_same hc).2]
      exact ⟨rfl, rfl⟩)
    fun c hc => by
      rcases hc with hc | hc
      · split_ifs at hc
        · exact absurd hc (by decide)
        · exact ascii_slash (Or.inl (List.mem_singleton.1 hc).symm)
      · split_ifs at hc
        · exact absurd hc (by decide)
        · exact ascii_slash (Or.inr (List.mem_singleton.1 hc).symm)

theorem ascii_casesAgree (folders : List DecryptedFolder) (steps : List Step) :
    CasesAgree ascii folders steps := by
  intro path segment segment' _ _ hlower
  have hupper : ∀ s, collisionKey ascii s = (lowerKey ascii s).map upperAscii := by
    intro s
    show s.flatMap (fun c => [upperAscii c]) = (s.flatMap fun c => [lowerAscii c]).map upperAscii
    rw [← List.map_eq_flatMap, ← List.map_eq_flatMap, List.map_map]
    exact List.map_congr_left fun c _ => (upperAscii_lowerAscii c).symm
  rw [hupper, hupper, hlower]

def sampleFolders : List DecryptedFolder := [⟨units "f1", units "Papers", none⟩]

def sampleSteps : List Step :=
  [.document (units "a.txt") (some (units "f1")) true,
    .document (units "A.txt") (some (units "f1")) true]

theorem archive_paths_apart_sample :
    ∃ run, (Run.new sampleFolders).steps ascii sampleSteps = some run ∧
      PathsApart slash (lowerKey ascii) run.files := by
  obtain ⟨run, hrun, -, hpaths, -⟩ := archive_paths_apart ascii sampleFolders sampleSteps
  exact ⟨run, hrun, hpaths (ascii_casesAgree _ _)⟩

/-- Two documents, one named by the capital sharp s and one by the small. -/
def sharpSteps : List Step :=
  [.document [0x1E9E] none true, .document [0xDF] none true]

/-- Upper case keeps apart what lower case does not: both documents keep their names. -/
theorem archive_paths_merge :
    ¬ ∀ (unicode : Unicode) (folders : List DecryptedFolder) (steps : List Step),
      ∃ run, (Run.new folders).steps unicode steps = some run ∧
        PathsApart slash (lowerKey unicode) run.files := by
  intro h
  obtain ⟨run, hrun, hpaths⟩ := h german [] sharpSteps
  have hfiles : ((Run.new []).steps german sharpSteps).map Run.files = some [[0xDF], [0x1E9E]] := by
    decide
  rw [hrun, map_some] at hfiles
  have hdistinct := hpaths.distinct
  rw [some.inj hfiles] at hdistinct
  exact absurd hdistinct (by decide)

end HVault.Archive
