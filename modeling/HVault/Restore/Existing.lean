import HVault.Restore.Whole

/-!
# What a restore does to the rows that are there

Under `skip` and `keep_both` a restore is to leave the folders and the live items of an account as
they are. It moves a folder all the same where a row of the backup is put to it, and where its parent
is a folder that another row replaces: under `keep_both` when storage has room for a copy of its
parent, but none for a copy of itself (`restore_moves_folder`). `restore_leaves_existing` says when it
moves none.
-/

namespace HVault.Restore

open Json Backup ParentGraph List

/-! ## The map, from the rows -/

/-- The folder that a row of the backup is put to: the one that it matches where it adds none, else the
one that it adds. -/
def standIn (strategy : ConflictStrategy) (existing : List Folder) (a : Attempt) :
    Option (RowId × ObjectId) :=
  match matchFolder existing a.ref, strategy, a.outcome with
  | some target, .skip, _ => some (a.ref, target.id)
  | some target, .overwrite, .stored => some (a.ref, target.id)
  | some target, _, .storageLimit => some (a.ref, target.id)
  | _, _, .stored => some (a.ref, a.mintedId)
  | none, _, .storageLimit => none
  | _, _, .invalidData => none

/-- What every row of the backup is put to. -/
def standIns (strategy : ConflictStrategy) (existing : List Folder) (attempts : List Attempt) :
    OrderedMap RowId ObjectId :=
  .ofList (attempts.filterMap (standIn strategy existing))

theorem folderIdMap_restoreFolder (strategy : ConflictStrategy) (existing : List Folder)
    (run : FolderRun) (a : Attempt) :
    (restoreFolder strategy existing run a).folderIdMap =
      match standIn strategy existing a with
      | some entry => run.folderIdMap.set entry.1 entry.2
      | none => run.folderIdMap := by
  unfold restoreFolder standIn
  cases matchFolder existing a.ref with
  | none => cases a.outcome with
    | stored => rfl
    | storageLimit => rfl
    | invalidData => rfl
  | some target =>
    cases strategy with
    | skip => rfl
    | overwrite | keepBoth => cases a.outcome with
      | stored => rfl
      | storageLimit => rfl
      | invalidData => rfl

theorem folderIdMap_restoreFolderRows (strategy : ConflictStrategy) (existing : List Folder)
    (attempts : List Attempt) :
    (restoreFolderRows strategy existing attempts).folderIdMap =
      standIns strategy existing attempts := by
  have hfold : ∀ run : FolderRun,
      (attempts.foldl (restoreFolder strategy existing) run).folderIdMap =
        (attempts.filterMap (standIn strategy existing)).foldl
          (fun m e => m.set e.1 e.2) run.folderIdMap := by
    induction attempts with
    | nil => exact fun run => rfl
    | cons a attempts ih =>
      intro run
      rw [foldl_cons, ih, folderIdMap_restoreFolder, filterMap_cons]
      cases standIn strategy existing a with
      | none => rfl
      | some entry => rfl
  exact hfold _

/-- No folder that a row is put to has a parent that the map replaces. -/
def ParentsStay (strategy : ConflictStrategy) (existing : List Folder) (attempts : List Attempt) :
    Prop :=
  ∀ folder ∈ existing, folder.id ∈ (standIns strategy existing attempts).values →
    folder.parentId.map (remapped (standIns strategy existing attempts).entries) = folder.parentId

/-! ## The folders that are there -/

variable {strategy : ConflictStrategy}

/-- The rows only add folders. -/
theorem folders_restoreFolderRows (hstrategy : strategy ≠ .overwrite) (existing : List Folder)
    (attempts : List Attempt) :
    ∃ added, (restoreFolderRows strategy existing attempts).folders = existing ++ added := by
  induction attempts using reverseRecOn with
  | nil => exact ⟨[], (append_nil existing).symm⟩
  | append_singleton attempts a ih =>
    obtain ⟨added, hadded⟩ := ih
    rw [restoreFolderRows_append]
    have hstep := restoreFolder_step strategy existing (restoreFolderRows strategy existing attempts) a
    generalize restoreFolder strategy existing (restoreFolderRows strategy existing attempts) a =
      run' at hstep ⊢
    cases hstep with
    | left reasons | kept reasons hmatch hwhy => exact ⟨added, hadded⟩
    | overwrote hmatch hoverwrite hstored => exact (hstrategy hoverwrite).elim
    | inserted hnew hstored =>
      refine ⟨added ++ [newFolder a], ?_⟩
      rw [← append_assoc, ← hadded]
      rfl

variable {folders : List Folder} {id : ObjectId}

theorem parentsOf_append (more : List Folder) (h : id ∈ folders.map Folder.id) :
    parentsOf (folders ++ more) id = parentsOf folders id := by
  obtain ⟨folder, hfolder, hid⟩ := mem_map.1 h
  unfold parentsOf
  rw [find?_append]
  cases hfind : folders.find? fun folder => folder.id = id with
  | some found => rfl
  | none =>
    have hnone := find?_eq_none.1 hfind folder hfolder
    exact (hnone (decide_eq_true hid)).elim

/-- From a folder of a forest the way up stays in the forest. -/
theorem Forest.reaches (h : Forest folders) (more : List Folder) {top : ObjectId}
    (hid : id ∈ folders.map Folder.id) (hreach : Reaches (parentsOf (folders ++ more)) id top) :
    top ∈ folders.map Folder.id := by
  induction hreach with
  | refl => exact hid
  | tail _ hnames ih =>
    unfold Names at hnames
    rw [parentsOf_append more ih] at hnames
    obtain ⟨folder, hfolder, -, hparent⟩ := exists_of_names hnames
    exact h.stored folder hfolder _ hparent

theorem Forest.not_looped (h : Forest folders) (more : List Folder)
    (hid : id ∈ folders.map Folder.id) :
    ¬ Looped (parentsOf (folders ++ more)) id := by
  intro hloop
  refine h.acyclic id (hloop.map fun x y hreach hnames => ?_)
  have hx := h.reaches more hid hreach
  unfold Names at hnames ⊢
  rwa [parentsOf_append more hx] at hnames

theorem clearParents_append {keep : Folder → Bool} (h : ∀ folder ∈ folders, keep folder)
    (more : List Folder) :
    clearParents keep (folders ++ more) = folders ++ clearParents keep more := by
  have hself := clearParents_eq_self h
  unfold clearParents at hself ⊢
  rw [map_append, hself]

/-- The cycles that are broken are not in a forest among the folders. -/
theorem breakCycles_forest (h : Forest folders) {rounds : ℕ} {more folders' : List Folder}
    (hcap : (folders ++ more).length ≤ maxFoldersPerUser)
    (hbroken : breakCycles rounds (folders ++ more) = some folders') :
    ∃ more', folders' = folders ++ more' := by
  induction rounds generalizing more with
  | zero => cases hbroken
  | succ rounds ih =>
    rw [breakCycles] at hbroken
    cases hcyclic : cyclicFolder (folders ++ more) with
    | none =>
      rw [hcyclic] at hbroken
      cases hbroken
      exact ⟨more, rfl⟩
    | some candidate =>
      rw [hcyclic] at hbroken
      have hfound := find?_some hcyclic
      rw [Bool.and_eq_true] at hfound
      have hloop := (hasCycle_parentsOf_iff hcap candidate.id).1 hfound.2
      have hout : ∀ folder ∈ folders, folder.id ≠ candidate.id := by
        intro folder hfolder heq
        refine h.not_looped more ?_ hloop
        rw [← heq]
        exact mem_map_of_mem hfolder
      have hkept := clearParents_append
        (fun folder hfolder => decide_eq_true (hout folder hfolder)) more
      have htrimmed := trimmed_clearParents (fun folder => folder.id ≠ candidate.id)
        (folders ++ more)
      dsimp only at hbroken
      rw [hkept] at hbroken htrimmed
      exact ih (by rw [htrimmed.length]; exact hcap) hbroken

/-- The sweeps leave a forest among the folders as it is, unless the map moves it. -/
theorem repairFolders_forest {existing added : List Folder} {run : FolderRun}
    (h : Forest existing) (hids : (existing.map Folder.id).Nodup)
    (hfolders : run.folders = existing ++ added) (hcap : run.folders.length ≤ maxFoldersPerUser)
    (hstay : ∀ folder ∈ existing, remapFolder run.folderIdMap folder = folder)
    (hrepaired : repairFolders run = some folders) : ∃ more, folders = existing ++ more := by
  have hmapped : remapParents run.folderIdMap run.folders =
      existing ++ added.map (remapFolder run.folderIdMap) := by
    rw [remapParents_eq, hfolders, map_append, map_congr_left hstay, map_id']
  have hlength : (existing ++ added.map (remapFolder run.folderIdMap)).length ≤
      maxFoldersPerUser := by
    rw [length_append, length_map, ← length_append, ← hfolders]
    exact hcap
  have hnames : ∀ folder ∈ existing,
      namesFolder (existing ++ added.map (remapFolder run.folderIdMap)) folder := by
    intro folder hfolder
    unfold namesFolder
    rw [Option.all_eq_true]
    intro parent hparent
    refine decide_eq_true ?_
    rw [map_append]
    exact mem_append_left _ (h.stored folder hfolder parent hparent)
  have hother : ∀ folder ∈ existing, decide (folder.parentId ≠ some folder.id) := by
    intro folder hfolder
    refine decide_eq_true fun heq => ?_
    have hparent := parentsOf_of_mem hids hfolder
    rw [heq] at hparent
    exact h.acyclic folder.id (.single hparent)
  unfold repairFolders at hrepaired
  dsimp only at hrepaired
  rw [hmapped] at hrepaired
  unfold clearDanglingParents clearSelfParents at hrepaired
  rw [clearParents_append hnames, clearParents_append hother] at hrepaired
  refine breakCycles_forest h ?_ hrepaired
  unfold clearParents
  rw [length_append, length_map, length_map, ← length_append]
  exact hlength

theorem remapFolder_eq_self {folderIdMap : OrderedMap RowId ObjectId} {folder : Folder} :
    remapFolder folderIdMap folder = folder ↔ (folder.id ∈ folderIdMap.values →
      folder.parentId.map (remapped folderIdMap.entries) = folder.parentId) := by
  unfold remapFolder
  constructor
  · intro hsame hvalue
    rw [if_pos hvalue] at hsame
    exact congrArg Folder.parentId hsame
  · intro hstays
    split
    · rename_i hvalue
      rw [hstays hvalue]
    · rfl

/-- A folder that stays as it was has not been moved by the map. -/
theorem remapFolder_of_mem {run : FolderRun} (hrepaired : repairFolders run = some folders)
    (hcap : run.folders.length ≤ maxFoldersPerUser) (hids : (run.folders.map Folder.id).Nodup)
    {folder : Folder} (hold : folder ∈ run.folders) (hnew : folder ∈ folders) :
    remapFolder run.folderIdMap folder = folder := by
  have hmapped := ids_remapParents run.folderIdMap run.folders
  have hlength := congrArg length hmapped
  rw [length_map, length_map] at hlength
  obtain ⟨repaired, hrepaired', -, htrimmed⟩ := repairFolders_spec (hlength.trans_le hcap)
  rw [hrepaired] at hrepaired'
  cases hrepaired'
  obtain ⟨mapped, hmem, hid, hparent⟩ := htrimmed.parent hnew
  rw [remapParents_eq] at hmem
  obtain ⟨given, hgiven, rfl⟩ := mem_map.1 hmem
  rw [id_remapFolder] at hid
  have hsame : folder = given := inj_on_of_nodup_map hids hold hgiven hid
  subst hsame
  refine remapFolder_eq_self.2 fun hvalue => ?_
  unfold remapFolder at hparent
  rw [if_pos hvalue] at hparent
  cases hnamed : folder.parentId with
  | none => rfl
  | some parent =>
    have hmoved := hparent parent hnamed
    rw [hnamed] at hmoved
    exact hmoved

/-! ## The items that are there -/

/-- An item is as it was, or was in the trash and is named by one of the rows. -/
def ItemKept (existing : List Item) (attempts : List Attempt) (run : ItemRun) : Prop :=
  ∀ item ∈ existing, item ∈ run.items ∨
    item.trashed = true ∧ ∃ a ∈ attempts, matchItem existing a.ref = some item

theorem ItemKept.step (hstrategy : strategy ≠ .overwrite) {existing : List Item}
    (hids : (existing.map Item.id).Nodup) {folderIdMap : OrderedMap RowId ObjectId}
    {validFolderIds : List ObjectId} {attempts : List Attempt} {run run' : ItemRun} {a : Attempt}
    (h : ItemKept existing attempts run)
    (hstep : ItemStep strategy existing folderIdMap validFolderIds a run run') :
    ItemKept existing (attempts ++ [a]) run' := by
  intro item hitem
  rcases h item hitem with hkept | ⟨htrashed, b, hb, hmatch⟩
  · cases hstep with
    | left reasons => exact .inl hkept
    | @untrashed target reasons hmatch htrashed hstored =>
      by_cases hid : item.id = target.id
      · have hsame : item = target :=
          inj_on_of_nodup_map hids hitem (mem_of_matchRow hmatch) hid
        rw [hsame]
        exact .inr ⟨htrashed, a, mem_append_right _ mem_cons_self, hmatch⟩
      · exact .inl (mem_map.2 ⟨item, hkept, if_neg hid⟩)
    | overwrote hmatch hlive hoverwrite hstored => exact (hstrategy hoverwrite).elim
    | inserted hnew hstored => exact .inl (mem_append_left _ hkept)
  · exact .inr ⟨htrashed, b, mem_append_left _ hb, hmatch⟩

theorem itemKept (hstrategy : strategy ≠ .overwrite) {existing : List Item}
    (hids : (existing.map Item.id).Nodup) (folderIdMap : OrderedMap RowId ObjectId)
    (validFolderIds : List ObjectId) (attempts : List Attempt) : ItemKept existing attempts
      (restoreItems strategy existing folderIdMap validFolderIds attempts) := by
  induction attempts using reverseRecOn with
  | nil => exact fun item hitem => .inl hitem
  | append_singleton attempts a ih =>
    rw [restoreItems_append]
    exact ih.step hstrategy hids (restoreItem_step strategy existing folderIdMap validFolderIds _ a)

/-! ## The whole restore -/

/-- A restore leaves the rows of the account as they are, but for items in the trash that the backup
has. -/
structure LeavesExisting (account : Account) (items : List Attempt) (restored : Restored) : Prop where
  folders : ∀ folder ∈ account.folders, folder ∈ restored.account.folders
  items : ∀ item ∈ account.items, item ∈ restored.account.items ∨
    item.trashed = true ∧ ∃ a ∈ items, matchItem account.items a.ref = some item

/-- **A restore that does not overwrite leaves the rows that are there** exactly where no folder has a
parent that it replaces. -/
theorem restore_leaves_existing {account : Account} {strategy : ConflictStrategy}
    {vaultKeyVersion : Option ℕ} {folders items : List Attempt} {restored : Restored}
    (hstrategy : strategy ≠ .overwrite) (hforest : Forest account.folders)
    (hfolderIds : (account.folders.map Folder.id ++ folders.map Attempt.mintedId).Nodup)
    (hitemIds : (account.items.map Item.id).Nodup)
    (hdone : restoreUnderRotationLock account strategy vaultKeyVersion folders items =
      some (.ok restored)) :
    LeavesExisting account items restored ↔ ParentsStay strategy account.folders folders := by
  rcases restoreUnderRotationLock_cases account strategy vaultKeyVersion folders items with
    ⟨e, hrefused⟩ | ⟨run, hfolders, hcap, hdone'⟩
  · rw [hrefused] at hdone
    cases hdone
  rw [hdone'] at hdone
  cases hdone
  obtain ⟨hrun, -, hnone, hsome⟩ := restoreFolders_spec hcap hfolders
  have hitems := itemKept hstrategy hitemIds run.folderIdMap
    (run.folders.map Folder.id ++ run.folderIdMap.values) items
  have hmap := folderIdMap_restoreFolderRows strategy account.folders folders
  obtain ⟨added, hadded⟩ := folders_restoreFolderRows hstrategy account.folders folders
  obtain ⟨inserted, hwrittenIds, hsublist⟩ :=
    (foldersRestored strategy account.folders folders).ids
  have hwritten : ((restoreFolderRows strategy account.folders folders).folders.map
      Folder.id).Nodup := by
    rw [hwrittenIds]
    exact hfolderIds.sublist ((List.Sublist.refl _).append hsublist)
  have hids : (account.folders.map Folder.id).Nodup :=
    hfolderIds.sublist (sublist_append_left _ _)
  by_cases hempty : folders = []
  · refine ⟨fun _ folder _ hvalue => ?_, fun _ => ⟨fun folder hfolder => ?_, hitems⟩⟩
    · rw [hempty] at hvalue
      cases hvalue
    · show folder ∈ run.folders
      rw [hnone hempty]
      exact hfolder
  · obtain ⟨-, hrepaired⟩ := hsome hempty
    constructor
    · intro hleaves folder hfolder
      have hold : folder ∈ (restoreFolderRows strategy account.folders folders).folders := by
        rw [hadded]
        exact mem_append_left _ hfolder
      have hstays := remapFolder_of_mem hrepaired hcap hwritten hold (hleaves.folders folder hfolder)
      rw [hmap] at hstays
      exact remapFolder_eq_self.1 hstays
    · intro hstay
      obtain ⟨more, hmore⟩ := repairFolders_forest hforest hids hadded hcap
        (fun folder hfolder => by rw [hmap]; exact remapFolder_eq_self.2 (hstay folder hfolder))
        hrepaired
      refine ⟨fun folder hfolder => ?_, hitems⟩
      show folder ∈ run.folders
      rw [hmore]
      exact mem_append_left _ hfolder

/-- A folder in a folder. -/
def nestedAccount : Account :=
  { emptyAccount with
    folders := [⟨digitId 1, none, none, fun _ => none⟩,
      ⟨digitId 2, none, some (digitId 1), fun _ => none⟩] }

/-- A backup of the two folders, and what becomes of the second. -/
def nestedRows (outcome : Outcome) : List Attempt :=
  [storedRow [idField "_id" (digitId 1)] (digitId 3),
    { storedRow [idField "_id" (digitId 2), idField "parentId" (digitId 1)] (digitId 4) with outcome }]

theorem forest_nestedAccount : Forest nestedAccount.folders :=
  ⟨by decide, acyclic_of_cyclicFolder (by decide) (by decide)⟩

theorem restore_leaves_existing_sample :
    ∃ restored, restoreUnderRotationLock nestedAccount .keepBoth none (nestedRows .stored) [] =
        some (.ok restored) ∧
      (LeavesExisting nestedAccount [] restored ↔
        ParentsStay .keepBoth nestedAccount.folders (nestedRows .stored)) := by
  have hdone : (parentsAfter (restoreUnderRotationLock nestedAccount .keepBoth none
      (nestedRows .stored) [])).isSome := by decide
  rcases restoreUnderRotationLock_cases nestedAccount .keepBoth none (nestedRows .stored) [] with
    ⟨e, hrefused⟩ | ⟨run, -, -, hdone'⟩
  · rw [hrefused] at hdone
    cases hdone
  · exact ⟨_, hdone', restore_leaves_existing nofun forest_nestedAccount (by decide)
      nodup_nil hdone'⟩

/-- Storage has room for a copy of the first folder only: the second goes into the copy. -/
theorem restore_moves_folder :
    Forest nestedAccount.folders ∧
      parentsAfter (restoreUnderRotationLock nestedAccount .keepBoth none
        (nestedRows .storageLimit) []) =
        some [(digitId 1, none), (digitId 2, some (digitId 3)), (digitId 3, none)] :=
  ⟨forest_nestedAccount, by decide⟩

end HVault.Restore
