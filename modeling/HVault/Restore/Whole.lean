import HVault.Restore.Runs

/-!
# What a restore leaves

A restore of a backup with folders leaves the folders of the account a forest, whatever the account
and the backup had (`restore_whole`). What it does not see to: an account whose backup has no folder
keeps the folders it had, an item that is written over stays in its folder where the backup files it
nowhere, and of the copies of a folder that the backup has twice only the last is in the map, so that
the parent of the others is lost (`restore_not_whole`).
-/

namespace HVault.Restore

open Json Backup ParentGraph List

/-! ## The folders in the map -/

/-- What holds once these rows have been restored, no two of them with one id: every folder that is
not as it was before is one that the map leads to. -/
structure FoldersManaged (existing : List Folder) (attempts : List Attempt) (run : FolderRun) :
    Prop where
  unique : run.folderIdMap.Unique
  keys : ∀ ref id, run.folderIdMap.get ref = some id → ref ∈ attempts.map Attempt.ref
  managed : ∀ folder ∈ run.folders, folder ∈ existing ∨ folder.id ∈ run.folderIdMap.values

variable {strategy : ConflictStrategy} {attempts : List Attempt} {run : FolderRun}

theorem FoldersManaged.step {existing : List Folder} {run' : FolderRun} {a : Attempt}
    (h : FoldersManaged existing attempts run) (hnew : a.ref ∉ attempts.map Attempt.ref)
    (hstep : FolderStep strategy existing a run run') :
    FoldersManaged existing (attempts ++ [a]) run' := by
  have hgrown : ∀ ref id, run.folderIdMap.get ref = some id →
      ref ∈ (attempts ++ [a]).map Attempt.ref := by
    intro ref id hget
    rw [map_append]
    exact mem_append_left _ (h.keys ref id hget)
  have hkeys : ∀ id ref x, (run.folderIdMap.set a.ref id).get ref = some x →
      ref ∈ (attempts ++ [a]).map Attempt.ref := by
    intro id ref x hget
    rw [OrderedMap.get_set] at hget
    split at hget
    · rename_i href
      rw [href, map_append]
      exact mem_append_right _ mem_cons_self
    · exact hgrown ref x hget
  -- The row's id is a new key, so that no value is lost.
  have hvalues : ∀ id x, x ∈ run.folderIdMap.values →
      x ∈ (run.folderIdMap.set a.ref id).values := by
    intro id x hx
    obtain ⟨ref, hget⟩ := (h.unique.mem_values x).1 hx
    have hne : ref ≠ a.ref := fun heq => hnew (heq ▸ h.keys ref x hget)
    refine ((h.unique.set a.ref id).mem_values x).2 ⟨ref, ?_⟩
    rw [OrderedMap.get_set, if_neg hne]
    exact hget
  have hvalue : ∀ id, id ∈ (run.folderIdMap.set a.ref id).values := by
    intro id
    refine ((h.unique.set a.ref id).mem_values id).2 ⟨a.ref, ?_⟩
    rw [OrderedMap.get_set, if_pos rfl]
  cases hstep with
  | left reasons => exact ⟨h.unique, hgrown, h.managed⟩
  | kept reasons hmatch hwhy =>
    exact ⟨h.unique.set _ _, hkeys _,
      fun folder hfolder => (h.managed folder hfolder).imp id (hvalues _ _)⟩
  | @overwrote target hmatch hstrategy hstored =>
    refine ⟨h.unique.set _ _, hkeys _, fun folder hfolder => ?_⟩
    obtain ⟨old, hold, rfl⟩ := mem_map.1 hfolder
    split
    · rename_i hid
      refine .inr ?_
      show old.id ∈ (run.folderIdMap.set a.ref target.id).values
      rw [hid]
      exact hvalue target.id
    · exact (h.managed old hold).imp id (hvalues _ _)
  | inserted hnew hstored =>
    refine ⟨h.unique.set _ _, hkeys _, fun folder hfolder => ?_⟩
    rcases mem_append.1 hfolder with hold | hmade
    · exact (h.managed folder hold).imp id (hvalues _ _)
    · rw [mem_singleton.1 hmade]
      exact .inr (hvalue a.mintedId)

theorem foldersManaged (strategy : ConflictStrategy) (existing : List Folder)
    (hrefs : (attempts.map Attempt.ref).Nodup) :
    FoldersManaged existing attempts (restoreFolderRows strategy existing attempts) := by
  induction attempts using reverseRecOn with
  | nil => exact ⟨OrderedMap.unique_empty, nofun, fun folder hfolder => .inl hfolder⟩
  | append_singleton attempts a ih =>
    rw [map_append, nodup_append] at hrefs
    have hnew : a.ref ∉ attempts.map Attempt.ref := fun hmem =>
      hrefs.2.2 a.ref hmem a.ref mem_cons_self rfl
    rw [restoreFolderRows_append]
    exact (ih hrefs.1).step hnew (restoreFolder_step strategy existing _ a)

/-! ## The whole restore -/

theorem room_of_checkRestore {account : Account} {vaultKeyVersion : Option ℕ}
    {folders items : List BackupRow} {u : Unit}
    (h : checkRestore account strategy vaultKeyVersion folders items = .ok u) :
    account.folders.length +
      countNetNewRestoreRows Folder.id Folder.sourceRefId account.folders strategy folders ≤
        maxFoldersPerUser := by
  unfold checkRestore at h
  dsimp only at h
  split_ifs at h
  omega

/-- A restore that is not refused before its first write goes through. -/
theorem restoreUnderRotationLock_cases (account : Account) (strategy : ConflictStrategy)
    (vaultKeyVersion : Option ℕ) (folders items : List Attempt) :
    (∃ e, restoreUnderRotationLock account strategy vaultKeyVersion folders items =
        some (.error e)) ∨
      ∃ folderRun, restoreFolders strategy account.folders folders = some folderRun ∧
        (restoreFolderRows strategy account.folders folders).folders.length ≤ maxFoldersPerUser ∧
        restoreUnderRotationLock account strategy vaultKeyVersion folders items =
          some (.ok (finishRestore account strategy folderRun items)) := by
  unfold restoreUnderRotationLock
  cases hcheck : checkRestore account strategy vaultKeyVersion (folders.map Attempt.row)
      (items.map Attempt.row) with
  | error e => exact .inl ⟨e, rfl⟩
  | ok u =>
    have hroom := room_of_checkRestore hcheck
    have hwritten := (foldersRestored strategy account.folders folders).room
    refine .inr ?_
    unfold restoreFolders
    by_cases hnone : folders = []
    · rw [if_pos hnone]
      exact ⟨_, rfl, by omega, rfl⟩
    · rw [if_neg hnone]
      have hcap : (remapParents (restoreFolderRows strategy account.folders folders).folderIdMap
          (restoreFolderRows strategy account.folders folders).folders).length ≤
          maxFoldersPerUser := by
        have hids := congrArg length (ids_remapParents
          (restoreFolderRows strategy account.folders folders).folderIdMap
          (restoreFolderRows strategy account.folders folders).folders)
        rw [length_map, length_map] at hids
        omega
      obtain ⟨repaired, hrepaired, -, -⟩ := repairFolders_spec hcap
      rw [hrepaired]
      exact ⟨_, rfl, by omega, rfl⟩

/-- What holds of an account after a restore. -/
structure Whole (account : Account) (strategy : ConflictStrategy) (folders items : List Attempt)
    (restored : Restored) : Prop where
  forest : folders ≠ [] → Forest restored.account.folders
  untouched : folders = [] → restored.account.folders = account.folders
  /-- An item is as it was, or is filed in a folder or nowhere, or stays where it was filed. -/
  filed : ∀ item ∈ restored.account.items, item ∈ account.items ∨
    (∀ folderId ∈ item.folderId, folderId ∈ restored.account.folders.map Folder.id) ∨
      ∃ old ∈ account.items, old.id = item.id ∧ old.folderId = item.folderId
  itemsCounted : restored.itemsRestored + restored.itemsSkipped = items.length
  foldersCounted : restored.foldersRestored + restored.foldersSkipped = folders.length
  /-- Without repeated ids and cycles, a folder keeps its mapped parent if that is a folder. -/
  kept : (folders.map Attempt.ref).Nodup →
    (account.folders.map Folder.id ++ folders.map Attempt.mintedId).Nodup →
    Acyclic (parentsOf (remapParents restored.folderIdMap
      (restoreFolderRows strategy account.folders folders).folders)) →
    ∀ folder ∈ (restoreFolderRows strategy account.folders folders).folders,
      folder ∉ account.folders ∨ folder.id ∈ restored.folderIdMap.values →
      ∀ parent ∈ folder.parentId,
        remapped restored.folderIdMap.entries parent ∈ restored.account.folders.map Folder.id →
        ∃ folder' ∈ restored.account.folders, folder'.id = folder.id ∧
          folder'.parentId = some (remapped restored.folderIdMap.entries parent)

/-- What the sweeps leave of the folders: the map and the counts as they were, the same ids. -/
theorem restoreFolders_spec {existing : List Folder}
    (hcap : (restoreFolderRows strategy existing attempts).folders.length ≤ maxFoldersPerUser)
    (h : restoreFolders strategy existing attempts = some run) :
    run = { restoreFolderRows strategy existing attempts with folders := run.folders } ∧
      run.folders.map Folder.id =
        (restoreFolderRows strategy existing attempts).folders.map Folder.id ∧
      (attempts = [] → run.folders = existing) ∧
      (attempts ≠ [] → Forest run.folders ∧
        repairFolders (restoreFolderRows strategy existing attempts) = some run.folders) := by
  unfold restoreFolders at h
  by_cases hnone : attempts = []
  · rw [if_pos hnone] at h
    cases h
    refine ⟨rfl, rfl, fun _ => ?_, fun hsome => (hsome hnone).elim⟩
    rw [hnone]
    rfl
  · have hids := ids_remapParents (restoreFolderRows strategy existing attempts).folderIdMap
      (restoreFolderRows strategy existing attempts).folders
    have hlength := congrArg length hids
    rw [length_map, length_map] at hlength
    obtain ⟨repaired, hrepaired, hforest, htrimmed⟩ := repairFolders_spec (hlength.trans_le hcap)
    rw [if_neg hnone, hrepaired] at h
    cases h
    exact ⟨rfl, htrimmed.ids.trans hids, fun hsome => (hnone hsome).elim,
      fun _ => ⟨hforest, hrepaired⟩⟩

/-- Without a cycle, a folder that the map leads to keeps its mapped parent. -/
theorem exists_of_mapped {folders : List Folder} (hrepaired : repairFolders run = some folders)
    (hcap : run.folders.length ≤ maxFoldersPerUser) (hids : (run.folders.map Folder.id).Nodup)
    (hacyclic : Acyclic (parentsOf (remapParents run.folderIdMap run.folders))) {folder : Folder}
    (hfolder : folder ∈ run.folders) (hvalue : folder.id ∈ run.folderIdMap.values)
    {parent : ObjectId} (hparent : parent ∈ folder.parentId)
    (hstored : remapped run.folderIdMap.entries parent ∈ folders.map Folder.id) :
    ∃ folder' ∈ folders, folder'.id = folder.id ∧
      folder'.parentId = some (remapped run.folderIdMap.entries parent) := by
  have hmapped := ids_remapParents run.folderIdMap run.folders
  have hlength := congrArg length hmapped
  rw [length_map, length_map] at hlength
  rw [repairFolders_acyclic (hlength.trans_le hcap) (by rw [hmapped]; exact hids) hacyclic]
    at hrepaired
  cases hrepaired
  have htrimmed := trimmed_clearParents
    (namesFolder (remapParents run.folderIdMap run.folders))
    (remapParents run.folderIdMap run.folders)
  have hparent : folder.parentId = some parent := hparent
  have hremapped : (remapFolder run.folderIdMap folder).parentId =
      some (remapped run.folderIdMap.entries parent) := by
    unfold remapFolder
    rw [if_pos hvalue]
    show folder.parentId.map _ = _
    rw [hparent]
    rfl
  have hkeep : namesFolder (remapParents run.folderIdMap run.folders)
      (remapFolder run.folderIdMap folder) := by
    unfold namesFolder
    rw [hremapped, Option.all_some, decide_eq_true_iff, ← htrimmed.ids]
    exact hstored
  refine ⟨remapFolder run.folderIdMap folder, ?_, id_remapFolder _ _, hremapped⟩
  refine mem_map.2 ⟨remapFolder run.folderIdMap folder, ?_, if_pos hkeep⟩
  rw [remapParents_eq]
  exact mem_map_of_mem hfolder

/-- **A restore ends and leaves the account whole.** -/
theorem restore_whole (account : Account) (strategy : ConflictStrategy)
    (vaultKeyVersion : Option ℕ) (folders items : List Attempt) :
    ∃ result, restoreUnderRotationLock account strategy vaultKeyVersion folders items =
      some result ∧ ∀ restored, result = .ok restored →
        Whole account strategy folders items restored := by
  rcases restoreUnderRotationLock_cases account strategy vaultKeyVersion folders items with
    ⟨e, hrefused⟩ | ⟨run, hfolders, hcap, hdone⟩
  · exact ⟨_, hrefused, fun restored hok => by cases hok⟩
  refine ⟨_, hdone, fun restored hok => ?_⟩
  cases hok
  have hwritten := foldersRestored strategy account.folders folders
  obtain ⟨hrun, hids, hnone, hsome⟩ := restoreFolders_spec hcap hfolders
  have hmap : run.folderIdMap = (restoreFolderRows strategy account.folders folders).folderIdMap := by
    rw [hrun]
  have hitems := itemsRestored strategy account.items run.folderIdMap
    (run.folders.map Folder.id ++ run.folderIdMap.values) items
  refine ⟨fun h => (hsome h).1, hnone, fun item hitem => ?_, hitems.counted, ?_, ?_⟩
  · rcases hitems.filed item hitem with hold | hfiled | hkept
    · exact .inl hold
    · refine .inr (.inl fun folderId hfolderId => ?_)
      rcases mem_append.1 (hfiled folderId hfolderId) with hstored | hvalue
      · exact hstored
      · rw [hmap] at hvalue
        show folderId ∈ run.folders.map Folder.id
        rw [hids]
        exact hwritten.values hvalue
    · exact .inr (.inr hkept)
  · have hcounted := hwritten.counted
    rw [hrun]
    exact hcounted
  · intro hrefs hunique hacyclic folder hfolder hmanaged parent hparent hstored
    have hvalue : folder.id ∈ run.folderIdMap.values := by
      rcases hmanaged with hnew | hvalue
      · rw [hmap]
        exact ((foldersManaged strategy account.folders hrefs).managed folder hfolder).resolve_left
          hnew
      · exact hvalue
    have hsome' : folders ≠ [] := by
      intro hempty
      have hnil : run.folderIdMap.values = [] := by
        rw [hmap, hempty]
        rfl
      rw [hnil] at hvalue
      cases hvalue
    obtain ⟨inserted, hwrittenIds, hsublist⟩ := hwritten.ids
    have hnodup : ((restoreFolderRows strategy account.folders folders).folders.map
        Folder.id).Nodup := by
      rw [hwrittenIds]
      exact hunique.sublist ((List.Sublist.refl _).append hsublist)
    have hkept := exists_of_mapped (hsome hsome').2 hcap hnodup (hmap ▸ hacyclic) hfolder
      (hmap ▸ hvalue) hparent
    rw [← hmap] at hkept
    exact hkept hstored

/-! ## What a restore does not see to -/

/-- A decimal digit, twenty-four times. -/
def digitId (digit : Fin 10) : ObjectId :=
  ⟨⟨List.replicate 24 (UInt16.ofNat (0x30 + digit)), by revert digit; decide⟩, by
    revert digit; decide⟩

def idField (name : String) (id : ObjectId) : Utf16 × Value := (units name, .string (spell id).1)

def emptyAccount : Account := ⟨[], [], false, false, 0⟩

/-- A row whose write is let through. -/
def storedRow (row : BackupRow) (mintedId : ObjectId) : Attempt := ⟨row, .stored, mintedId, mintedId⟩

/-- A login with the fields that an item must have. -/
def loginRow (id : ObjectId) : BackupRow :=
  idField "_id" id :: (units "itemType", .string (units "login")) ::
    encryptionFields.map fun name => (units name, .string (units "x"))

/-- The folders that a restore leaves, with their parents. -/
def parentsAfter (result : Option (Except RestoreError Restored)) :
    Option (List (ObjectId × Option ObjectId)) :=
  result.bind fun result => result.toOption.map fun restored =>
    restored.account.folders.map fun folder => (folder.id, folder.parentId)

/-- The items that a restore leaves, with their folders. -/
def filedAfter (result : Option (Except RestoreError Restored)) :
    Option (List (ObjectId × Option ObjectId)) :=
  result.bind fun result => result.toOption.map fun restored =>
    restored.account.items.map fun item => (item.id, item.folderId)

/-- A folder stays its own parent, an item stays in a folder that is not there, and the first of two
copies of a folder loses the parent that the backup has for it. -/
theorem restore_not_whole :
    parentsAfter (restoreUnderRotationLock
      { emptyAccount with folders := [⟨digitId 1, none, some (digitId 1), fun _ => none⟩] }
      .skip none [] []) = some [(digitId 1, some (digitId 1))] ∧
    filedAfter (restoreUnderRotationLock
      { emptyAccount with items := [⟨digitId 1, none, some (digitId 2), false, fun _ => none⟩] }
      .overwrite none [] [storedRow (loginRow (digitId 1)) (digitId 3)]) =
        some [(digitId 1, some (digitId 2))] ∧
    parentsAfter (restoreUnderRotationLock emptyAccount .skip none
      [storedRow [idField "_id" (digitId 1)] (digitId 4),
        storedRow [idField "_id" (digitId 2), idField "parentId" (digitId 1)] (digitId 5),
        storedRow [idField "_id" (digitId 2)] (digitId 6)] []) =
      some [(digitId 4, none), (digitId 5, none), (digitId 6, none)] := by
  refine ⟨?_, ?_, ?_⟩
  · decide
  · decide
  · decide

end HVault.Restore
