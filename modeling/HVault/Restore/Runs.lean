import Mathlib.Data.List.Induction
import HVault.Restore.Items
import HVault.Restore.Repair

/-!
# What the loops of a restore leave

What holds after any number of rows of the backup: of the folders and the map (`FoldersRestored`), of
the items (`ItemsRestored`). The cap that is checked before the first write bounds the folders that
are there after the last one, which is what the cycle check needs to be exact.
-/

namespace HVault.Restore

open Json Backup List

/-! ## Folders -/

/-- What holds once these rows have been restored into an account with these folders. -/
structure FoldersRestored (strategy : ConflictStrategy) (existing : List Folder)
    (attempts : List Attempt) (run : FolderRun) : Prop where
  counted : run.restored + run.skipped = attempts.length
  ids : ∃ inserted, run.folders.map Folder.id = existing.map Folder.id ++ inserted ∧
    inserted.Sublist (attempts.map Attempt.mintedId)
  unique : run.folderIdMap.Unique
  mapped : ∀ ref id, run.folderIdMap.get ref = some id → id ∈ run.folders.map Folder.id
  room : run.folders.length ≤ existing.length + countNetNewRestoreRows Folder.id
    Folder.sourceRefId existing strategy (attempts.map Attempt.row)

theorem map_id_overwrite (id : ObjectId) (row : BackupRow) (run : FolderRun) :
    (run.overwrite id row).folders.map Folder.id = run.folders.map Folder.id := by
  unfold FolderRun.overwrite
  rw [map_map]
  refine map_congr_left fun folder _ => ?_
  show (if folder.id = id then folder.overwrite row else folder).id = folder.id
  split
  · rfl
  · rfl

theorem countNetNewRestoreRows_append {ρ : Type} (idOf : ρ → ObjectId)
    (sourceRefOf : ρ → Option RowId) (existing : List ρ) (strategy : ConflictStrategy)
    (rows rows' : List BackupRow) :
    countNetNewRestoreRows idOf sourceRefOf existing strategy (rows ++ rows') =
      countNetNewRestoreRows idOf sourceRefOf existing strategy rows +
        countNetNewRestoreRows idOf sourceRefOf existing strategy rows' := by
  cases strategy with
  | keepBoth => exact length_append
  | skip | overwrite => exact countP_append

variable {existing : List Folder}

/-- A row that is added has been counted. -/
theorem countNetNewRestoreRows_inserted {strategy : ConflictStrategy} {a : Attempt}
    (h : strategy = .keepBoth ∨ matchFolder existing a.ref = none) :
    1 ≤ countNetNewRestoreRows Folder.id Folder.sourceRefId existing strategy [a.row] := by
  have hcount : ∀ p : BackupRow → Bool, p a.row → 1 ≤ [a.row].countP p := by
    intro p hp
    rw [countP_singleton, if_pos hp]
  have hunmatched : matchFolder existing a.ref = none →
      isUnmatched Folder.id Folder.sourceRefId existing a.row := by
    intro hnone
    unfold isUnmatched
    cases hid : backupRowId (field a.row "_id") with
    | none => rfl
    | some ref =>
      have href : a.ref = ref := by
        unfold Attempt.ref
        rw [hid]
        rfl
      rw [href] at hnone
      exact Option.isNone_iff_eq_none.2 hnone
  cases strategy with
  | keepBoth => exact le_rfl
  | skip | overwrite => exact hcount _ (hunmatched (h.resolve_left nofun))

theorem FoldersRestored.step {strategy : ConflictStrategy} {attempts : List Attempt}
    {run run' : FolderRun} {a : Attempt} (h : FoldersRestored strategy existing attempts run)
    (hstep : FolderStep strategy existing a run run') :
    FoldersRestored strategy existing (attempts ++ [a]) run' := by
  obtain ⟨inserted, hids, hsublist⟩ := h.ids
  have hnext : inserted.Sublist ((attempts ++ [a]).map Attempt.mintedId) := by
    rw [map_append]
    exact hsublist.trans (sublist_append_left _ _)
  have hroom : run.folders.length ≤ existing.length + countNetNewRestoreRows Folder.id
      Folder.sourceRefId existing strategy ((attempts ++ [a]).map Attempt.row) := by
    have hold := h.room
    rw [map_append, countNetNewRestoreRows_append]
    omega
  have hcounted := h.counted
  have hlength : (attempts ++ [a]).length = attempts.length + 1 := length_append
  have hset : ∀ {ids : List ObjectId} {id : ObjectId},
      (∀ x ∈ run.folders.map Folder.id, x ∈ ids) → id ∈ ids →
      ∀ ref x, (run.folderIdMap.set a.ref id).get ref = some x → x ∈ ids := by
    intro ids id hsub hid ref x hget
    rw [OrderedMap.get_set] at hget
    split at hget
    · cases hget
      exact hid
    · exact hsub x (h.mapped ref x hget)
  have hexisting : ∀ {target : Folder}, matchFolder existing a.ref = some target →
      target.id ∈ run.folders.map Folder.id := by
    intro target hmatch
    rw [hids]
    exact mem_append_left _ (mem_map_of_mem (mem_of_matchRow hmatch))
  cases hstep with
  | left reasons =>
    refine ⟨?_, ⟨inserted, hids, hnext⟩, h.unique, h.mapped, hroom⟩
    show run.restored + (run.skipped + 1) = _
    omega
  | kept reasons hmatch hwhy =>
    refine ⟨?_, ⟨inserted, hids, hnext⟩, h.unique.set _ _,
      hset (fun _ => id) (hexisting hmatch), hroom⟩
    show run.restored + (run.skipped + 1) = _
    omega
  | @overwrote target hmatch hstrategy hstored =>
    have hsame := map_id_overwrite target.id a.row run
    refine ⟨?_, ⟨inserted, hsame.trans hids, hnext⟩, h.unique.set _ _, ?_, ?_⟩
    · show run.restored + 1 + run.skipped = _
      omega
    · show ∀ ref x, (run.folderIdMap.set a.ref target.id).get ref = some x →
        x ∈ (run.overwrite target.id a.row).folders.map Folder.id
      rw [hsame]
      exact hset (fun _ => id) (hexisting hmatch)
    · show (run.overwrite target.id a.row).folders.length ≤ _
      have hcard := congrArg length hsame
      rw [length_map, length_map] at hcard
      omega
  | inserted hnew hstored =>
    refine ⟨?_, ⟨inserted ++ [a.mintedId], ?_, ?_⟩, h.unique.set _ _, ?_, ?_⟩
    · show run.restored + 1 + run.skipped = _
      omega
    · show (run.folders ++ [newFolder a]).map Folder.id = _
      rw [map_append, hids, append_assoc]
      rfl
    · rw [map_append]
      exact hsublist.append (List.Sublist.refl _)
    · show ∀ ref x, (run.folderIdMap.set a.ref a.mintedId).get ref = some x →
        x ∈ (run.folders ++ [newFolder a]).map Folder.id
      rw [map_append]
      refine hset (fun x hx => mem_append_left _ hx) ?_
      exact mem_append_right _ mem_cons_self
    · have hone := countNetNewRestoreRows_inserted hnew
      have hold := h.room
      show (run.folders ++ [newFolder a]).length ≤ _
      rw [length_append, length_singleton, map_append,
        countNetNewRestoreRows_append, map_singleton]
      omega

variable (strategy : ConflictStrategy)

theorem restoreFolderRows_append (existing : List Folder) (attempts : List Attempt) (a : Attempt) :
    restoreFolderRows strategy existing (attempts ++ [a]) =
      restoreFolder strategy existing (restoreFolderRows strategy existing attempts) a := by
  unfold restoreFolderRows
  rw [foldl_append]
  rfl

theorem foldersRestored (existing : List Folder) (attempts : List Attempt) :
    FoldersRestored strategy existing attempts (restoreFolderRows strategy existing attempts) := by
  induction attempts using reverseRecOn with
  | nil =>
    refine ⟨rfl, ⟨[], (append_nil _).symm, nil_sublist _⟩, OrderedMap.unique_empty,
      nofun, ?_⟩
    exact Nat.le_add_right _ _
  | append_singleton attempts a ih =>
    rw [restoreFolderRows_append]
    exact ih.step (restoreFolder_step strategy existing _ a)

theorem FoldersRestored.values {strategy : ConflictStrategy} {attempts : List Attempt}
    {run : FolderRun} (h : FoldersRestored strategy existing attempts run) {id : ObjectId}
    (hid : id ∈ run.folderIdMap.values) : id ∈ run.folders.map Folder.id := by
  obtain ⟨ref, hget⟩ := (h.unique.mem_values id).1 hid
  exact h.mapped ref id hget

/-! ## The map on parents -/

/-- What the remap makes of a parent: the entries are applied one after the other. -/
def remapped (entries : List (RowId × ObjectId)) (parent : ObjectId) : ObjectId :=
  entries.foldl (fun parent entry =>
    if entry.1 ≠ spell entry.2 ∧ parent = castId entry.1 then entry.2 else parent) parent

def remapFolder (folderIdMap : OrderedMap RowId ObjectId) (folder : Folder) : Folder :=
  if folder.id ∈ folderIdMap.values then
    { folder with parentId := folder.parentId.map (remapped folderIdMap.entries) }
  else folder

variable (folderIdMap : OrderedMap RowId ObjectId)

theorem remapParents_eq (folders : List Folder) :
    remapParents folderIdMap folders = folders.map (remapFolder folderIdMap) := by
  unfold remapParents remapFolder
  generalize folderIdMap.values = values
  induction folderIdMap.entries generalizing folders with
  | nil =>
    rw [foldl_nil]
    have hself : ∀ folder ∈ folders, (if folder.id ∈ values then
        { folder with parentId := folder.parentId.map (remapped []) } else folder) = folder := by
      intro folder _
      have hid : folder.parentId.map (remapped []) = folder.parentId := Option.map_id'
      rw [hid]
      split
      · rfl
      · rfl
    rw [map_congr_left hself, map_id']
  | cons entry entries ih =>
    rw [foldl_cons, ih]
    split
    · rename_i hsame
      refine map_congr_left fun folder _ => ?_
      have hrest : remapped (entry :: entries) = remapped entries := by
        funext parent
        unfold remapped
        rw [foldl_cons, if_neg fun h => h.1 hsame]
      rw [hrest]
    · rename_i hother
      rw [map_map]
      refine map_congr_left fun folder _ => ?_
      have hfirst : ∀ parent, remapped (entry :: entries) parent =
          remapped entries (if parent = castId entry.1 then entry.2 else parent) := by
        intro parent
        unfold remapped
        rw [foldl_cons]
        by_cases hparent : parent = castId entry.1
        · rw [if_pos ⟨hother, hparent⟩, if_pos hparent]
        · rw [if_neg fun h => hparent h.2, if_neg hparent]
      by_cases hvalue : folder.id ∈ values
      · by_cases hparent : folder.parentId = some (castId entry.1)
        · simp [hvalue, hparent, hfirst]
        · have hmap : folder.parentId.map (remapped (entry :: entries)) =
              folder.parentId.map (remapped entries) := by
            cases hold : folder.parentId with
            | none => rfl
            | some parent =>
              rw [hold] at hparent
              rw [Option.map_some, Option.map_some, hfirst,
                if_neg fun heq => hparent (congrArg some heq)]
          simp [hvalue, hparent, hmap]
      · simp [hvalue]

theorem id_remapFolder (folder : Folder) : (remapFolder folderIdMap folder).id = folder.id := by
  unfold remapFolder
  split
  · rfl
  · rfl

theorem ids_remapParents (folders : List Folder) :
    (remapParents folderIdMap folders).map Folder.id = folders.map Folder.id := by
  rw [remapParents_eq, map_map]
  exact map_congr_left fun folder _ => id_remapFolder folderIdMap folder

/-! ## Items -/

/-- Where an item is filed by a restore, or was filed before it. -/
def Filed (existing : List Item) (validFolderIds : List ObjectId) (item : Item) : Prop :=
  item ∈ existing ∨ (∀ folderId ∈ item.folderId, folderId ∈ validFolderIds) ∨
    ∃ old ∈ existing, old.id = item.id ∧ old.folderId = item.folderId

/-- What the restoring of a row does to the items: nothing, a change to the one that it matches, or
a new one. -/
inductive ItemStep (strategy : ConflictStrategy) (existing : List Item)
    (folderIdMap : OrderedMap RowId ObjectId) (validFolderIds : List ObjectId) (a : Attempt)
    (run : ItemRun) : ItemRun → Prop where
  | left (reasons : List (Utf16 × SkipReason)) :
      ItemStep strategy existing folderIdMap validFolderIds a run
        { run with skipped := run.skipped + 1, reasons }
  | untrashed {target : Item} (reasons : List (Utf16 × SkipReason))
      (hmatch : matchItem existing a.ref = some target) (htrashed : target.trashed = true)
      (hstored : a.outcome = .stored) :
      ItemStep strategy existing folderIdMap validFolderIds a run
        { run.update target.id fun item =>
            { item.overwrite (itemFolder folderIdMap validFolderIds a.row) a.row with
              trashed := false } with reasons }
  | overwrote {target : Item} (hmatch : matchItem existing a.ref = some target)
      (hlive : target.trashed = false) (hstrategy : strategy = .overwrite)
      (hstored : a.outcome = .stored) :
      ItemStep strategy existing folderIdMap validFolderIds a run
        (run.update target.id (Item.overwrite (itemFolder folderIdMap validFolderIds a.row) a.row))
  | inserted (hnew : strategy = .keepBoth ∨ matchItem existing a.ref = none)
      (hstored : a.outcome = .stored) :
      ItemStep strategy existing folderIdMap validFolderIds a run
        (run.insert (itemFolder folderIdMap validFolderIds a.row) a)

/-- A write that is refused leaves the items as they are. -/
theorem ItemRun.write_cases (a : Attempt) (stored : ItemRun → ItemRun) (run : ItemRun) :
    (a.outcome = .stored ∧ run.write a stored = stored run) ∨
      ∃ reasons, run.write a stored = { run with skipped := run.skipped + 1, reasons } := by
  unfold ItemRun.write
  cases houtcome : a.outcome with
  | stored => exact .inl ⟨rfl, rfl⟩
  | storageLimit | invalidData => exact .inr ⟨_, rfl⟩

theorem restoreItem_step (existing : List Item) (folderIdMap : OrderedMap RowId ObjectId)
    (validFolderIds : List ObjectId) (run : ItemRun) (a : Attempt) :
    ItemStep strategy existing folderIdMap validFolderIds a run
      (restoreItem strategy existing folderIdMap validFolderIds run a) := by
  have hwrite : ∀ stored : ItemRun → ItemRun,
      (a.outcome = .stored →
        ItemStep strategy existing folderIdMap validFolderIds a run (stored run)) →
      ItemStep strategy existing folderIdMap validFolderIds a run (run.write a stored) := by
    intro stored hstored
    rcases run.write_cases a stored with ⟨houtcome, heq⟩ | ⟨reasons, heq⟩
    · rw [heq]
      exact hstored houtcome
    · rw [heq]
      exact .left reasons
  unfold restoreItem
  split
  · exact .left _
  split
  · exact .left _
  cases hmatch : matchItem existing a.ref with
  | none => exact hwrite _ fun hstored => .inserted (.inr hmatch) hstored
  | some target =>
    cases htrashed : target.trashed with
    | true =>
      dsimp only
      rw [if_pos htrashed]
      exact hwrite _ fun hstored => .untrashed _ hmatch htrashed hstored
    | false =>
      dsimp only
      rw [if_neg (by simp [htrashed])]
      cases strategy with
      | skip => exact .left _
      | overwrite => exact hwrite _ fun hstored => .overwrote hmatch htrashed rfl hstored
      | keepBoth => exact hwrite _ fun hstored => .inserted (.inl rfl) hstored

theorem mem_of_itemFolder {folderIdMap : OrderedMap RowId ObjectId}
    {validFolderIds : List ObjectId} {row : BackupRow} {folderId : ObjectId}
    (h : itemFolder folderIdMap validFolderIds row = some folderId) :
    folderId ∈ validFolderIds := by
  obtain ⟨ref, -, h⟩ := Option.bind_eq_some_iff.1 h
  dsimp only at h
  split at h
  · rename_i hmem
    cases h
    obtain ⟨id, hid, heq⟩ := mem_map.1 hmem
    rw [← heq, castId_spell]
    exact hid
  · cases h

theorem Filed.update {existing : List Item} {validFolderIds : List ObjectId} {item item' : Item}
    {folderId : Option ObjectId} (h : Filed existing validFolderIds item)
    (hvalid : ∀ id ∈ folderId, id ∈ validFolderIds) (hid : item'.id = item.id)
    (hfolder : item'.folderId = folderId.or item.folderId) :
    Filed existing validFolderIds item' := by
  cases folderId with
  | some id =>
    refine .inr (.inl ?_)
    rw [hfolder]
    exact hvalid
  | none =>
    rw [Option.none_or] at hfolder
    rcases h with hold | hfiled | ⟨old, hold, hsame, hfold⟩
    · exact .inr (.inr ⟨item, hold, hid.symm, hfolder.symm⟩)
    · refine .inr (.inl ?_)
      rw [hfolder]
      exact hfiled
    · exact .inr (.inr ⟨old, hold, hsame.trans hid.symm, hfold.trans hfolder.symm⟩)

/-- What holds once these rows have been restored into an account with these items. -/
structure ItemsRestored (existing : List Item) (validFolderIds : List ObjectId)
    (attempts : List Attempt) (run : ItemRun) : Prop where
  counted : run.restored + run.skipped = attempts.length
  filed : ∀ item ∈ run.items, Filed existing validFolderIds item

theorem ItemsRestored.step {strategy : ConflictStrategy} {existing : List Item}
    {folderIdMap : OrderedMap RowId ObjectId} {validFolderIds : List ObjectId}
    {attempts : List Attempt} {run run' : ItemRun} {a : Attempt}
    (h : ItemsRestored existing validFolderIds attempts run)
    (hstep : ItemStep strategy existing folderIdMap validFolderIds a run run') :
    ItemsRestored existing validFolderIds (attempts ++ [a]) run' := by
  have hcounted := h.counted
  have hlength : (attempts ++ [a]).length = attempts.length + 1 := length_append
  have hvalid : ∀ id ∈ itemFolder folderIdMap validFolderIds a.row, id ∈ validFolderIds :=
    fun id hid => mem_of_itemFolder hid
  have hupdate : ∀ (id : ObjectId) (change : Item → Item), (∀ item, (change item).id = item.id) →
      (∀ item, (change item).folderId =
        (itemFolder folderIdMap validFolderIds a.row).or item.folderId) →
      ∀ item ∈ run.items.map fun item => if item.id = id then change item else item,
        Filed existing validFolderIds item := by
    intro id change hid hfolder item' hitem'
    obtain ⟨item, hitem, rfl⟩ := mem_map.1 hitem'
    split
    · exact (h.filed item hitem).update hvalid (hid item) (hfolder item)
    · exact h.filed item hitem
  cases hstep with
  | left reasons =>
    refine ⟨?_, h.filed⟩
    show run.restored + (run.skipped + 1) = _
    omega
  | untrashed reasons hmatch htrashed hstored | overwrote hmatch hlive hstrategy hstored =>
    refine ⟨?_, hupdate _ _ (fun _ => rfl) fun _ => rfl⟩
    show run.restored + 1 + run.skipped = _
    omega
  | inserted hnew hstored =>
    refine ⟨?_, fun item hitem => ?_⟩
    · show run.restored + 1 + run.skipped = _
      omega
    · rcases mem_append.1 hitem with hold | hnew
      · exact h.filed item hold
      · rw [mem_singleton.1 hnew]
        exact .inr (.inl hvalid)

theorem restoreItems_append (existing : List Item) (folderIdMap : OrderedMap RowId ObjectId)
    (validFolderIds : List ObjectId) (attempts : List Attempt) (a : Attempt) :
    restoreItems strategy existing folderIdMap validFolderIds (attempts ++ [a]) =
      restoreItem strategy existing folderIdMap validFolderIds
        (restoreItems strategy existing folderIdMap validFolderIds attempts) a := by
  unfold restoreItems
  rw [foldl_append]
  rfl

theorem itemsRestored (existing : List Item) (folderIdMap : OrderedMap RowId ObjectId)
    (validFolderIds : List ObjectId) (attempts : List Attempt) :
    ItemsRestored existing validFolderIds attempts
      (restoreItems strategy existing folderIdMap validFolderIds attempts) := by
  induction attempts using reverseRecOn with
  | nil => exact ⟨rfl, fun item hitem => .inl hitem⟩
  | append_singleton attempts a ih =>
    rw [restoreItems_append]
    exact ih.step (restoreItem_step strategy existing folderIdMap validFolderIds _ a)

end HVault.Restore
