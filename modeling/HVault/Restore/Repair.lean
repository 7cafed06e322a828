import HVault.Restore.Folders

/-!
# The repair of restored folders

`repairFolders_spec`: the sweeps end, and leave a forest, whatever the folders were. They take no
parent away that names a folder, where the folders had no cycle to begin with
(`repairFolders_acyclic`).
-/

namespace HVault.Restore

open ParentGraph List

/-- Every parent is a folder, and no folder is above itself. -/
structure Forest (folders : List Folder) : Prop where
  stored : ∀ folder ∈ folders, ∀ parent ∈ folder.parentId, parent ∈ folders.map Folder.id
  acyclic : Acyclic (parentsOf folders)

/-! ## Parents by id -/

theorem parentsOf_cons (folder : Folder) (folders : List Folder) (id : ObjectId) :
    parentsOf (folder :: folders) id =
      if folder.id = id then some folder.parentId else parentsOf folders id := by
  unfold parentsOf
  rw [find?_cons]
  by_cases hid : folder.id = id
  · rw [if_pos hid]
    simp [hid]
  · rw [if_neg hid]
    simp [hid]

variable {folders : List Folder}

theorem parentsOf_of_mem (hids : (folders.map Folder.id).Nodup) {folder : Folder}
    (h : folder ∈ folders) :
    parentsOf folders folder.id = some folder.parentId := by
  induction folders with
  | nil => cases h
  | cons first folders ih =>
    rw [map_cons, nodup_cons] at hids
    rw [parentsOf_cons]
    rcases mem_cons.1 h with rfl | h
    · rw [if_pos rfl]
    · have hne : first.id ≠ folder.id := fun heq => hids.1 (heq ▸ mem_map_of_mem h)
      rw [if_neg hne]
      exact ih hids.2 h

/-- A folder that names a parent is stored with it. -/
theorem exists_of_names {id parent : ObjectId} (h : Names (parentsOf folders) id parent) :
    ∃ folder ∈ folders, folder.id = id ∧ folder.parentId = some parent := by
  obtain ⟨folder, hfind, hparent⟩ := Option.map_eq_some_iff.1 h
  have hid := find?_some hfind
  exact ⟨folder, mem_of_find?_eq_some hfind, of_decide_eq_true hid, hparent⟩

theorem mem_ids_of_parentsOf {id : ObjectId} (h : (parentsOf folders id).isSome) :
    id ∈ folders.map Folder.id := by
  unfold parentsOf at h
  rw [Option.isSome_map] at h
  obtain ⟨folder, hfind⟩ := Option.isSome_iff_exists.1 h
  have hid := find?_some hfind
  rw [← of_decide_eq_true hid]
  exact mem_map_of_mem (mem_of_find?_eq_some hfind)

/-- The cycle check sees the loops of no more folders than an account may have. -/
theorem hasCycle_parentsOf_iff (hcap : folders.length ≤ maxFoldersPerUser) (id : ObjectId) :
    hasCycle (parentsOf folders) id ↔ Looped (parentsOf folders) id := by
  have hcard := toFinset_card_le (folders.map Folder.id)
  rw [length_map] at hcard
  exact hasCycle_iff (fun x hx => mem_toFinset.2 (mem_ids_of_parentsOf hx)) (hcard.trans hcap) id

theorem acyclic_of_cyclicFolder (hcap : folders.length ≤ maxFoldersPerUser)
    (h : cyclicFolder folders = none) :
    Acyclic (parentsOf folders) := by
  intro id hloop
  obtain ⟨parent, hnames, -⟩ := hloop.names
  obtain ⟨folder, hmem, rfl, hparent⟩ := exists_of_names hnames
  have hnone := find?_eq_none.1 h folder hmem
  rw [hparent, (hasCycle_parentsOf_iff hcap folder.id).2 hloop] at hnone
  exact hnone rfl

/-! ## Taking parents away -/

/-- The same folders, some of them without the parent they had. -/
def Trimmed : List Folder → List Folder → Prop :=
  List.Forall₂ fun folder folder' => folder' = folder ∨ folder' = { folder with parentId := none }

namespace Trimmed

variable {folders folders' folders'' : List Folder}

theorem refl (folders : List Folder) : Trimmed folders folders :=
  forall₂_same.2 fun _ _ => .inl rfl

theorem trans (h : Trimmed folders folders') (h' : Trimmed folders' folders'') :
    Trimmed folders folders'' := by
  induction h generalizing folders'' with
  | nil => exact h'
  | cons hfirst _ ih =>
    cases h' with
    | cons hsecond hrest =>
      refine .cons ?_ (ih hrest)
      rcases hsecond with rfl | rfl
      · exact hfirst
      · rcases hfirst with rfl | rfl
        · exact .inr rfl
        · exact .inr rfl

theorem ids (h : Trimmed folders folders') : folders'.map Folder.id = folders.map Folder.id := by
  induction h with
  | nil => rfl
  | cons hfirst _ ih =>
    rw [map_cons, map_cons, ih]
    rcases hfirst with rfl | rfl
    · rfl
    · rfl

theorem length (h : Trimmed folders folders') : folders'.length = folders.length :=
  (List.Forall₂.length_eq h).symm

/-- A folder has the parent that it had, or none. -/
theorem parent (h : Trimmed folders folders') {folder' : Folder} (hmem : folder' ∈ folders') :
    ∃ folder ∈ folders, folder'.id = folder.id ∧
      ∀ parent ∈ folder'.parentId, parent ∈ folder.parentId := by
  induction h with
  | nil => cases hmem
  | cons hfirst _ ih =>
    rcases mem_cons.1 hmem with rfl | hmem
    · refine ⟨_, mem_cons_self, ?_⟩
      rcases hfirst with rfl | rfl
      · exact ⟨rfl, fun _ => id⟩
      · exact ⟨rfl, nofun⟩
    · obtain ⟨folder, hold, hsame⟩ := ih hmem
      exact ⟨folder, mem_cons_of_mem _ hold, hsame⟩

theorem names (h : Trimmed folders folders') {x y : ObjectId}
    (hnames : Names (parentsOf folders') x y) : Names (parentsOf folders) x y := by
  unfold Names at hnames ⊢
  induction h with
  | nil => exact hnames
  | @cons first first' _ _ hfirst _ ih =>
    rw [parentsOf_cons] at hnames ⊢
    by_cases hid : first.id = x
    · rw [if_pos hid]
      rcases hfirst with rfl | rfl
      · rwa [if_pos hid] at hnames
      · rw [if_pos hid] at hnames
        cases hnames
    · rw [if_neg hid]
      rcases hfirst with rfl | rfl
      all_goals
        rw [if_neg hid] at hnames
        exact ih hnames

theorem acyclic (h : Trimmed folders folders') (hacyclic : Acyclic (parentsOf folders)) :
    Acyclic (parentsOf folders') := fun id hloop =>
  hacyclic id (hloop.map fun _ _ _ hnames => h.names hnames)

end Trimmed

theorem trimmed_clearParents (keep : Folder → Bool) (folders : List Folder) :
    Trimmed folders (clearParents keep folders) := by
  unfold Trimmed clearParents
  rw [forall₂_map_right_iff]
  refine forall₂_same.2 fun folder _ => ?_
  split
  · exact .inl rfl
  · exact .inr rfl

theorem clearParents_eq_self {keep : Folder → Bool} (h : ∀ folder ∈ folders, keep folder) :
    clearParents keep folders = folders := by
  unfold clearParents
  rw [map_congr_left fun folder hfolder => if_pos (h folder hfolder), map_id']

/-! ## The sweeps -/

/-- How many folders name a parent. -/
def parentCount (folders : List Folder) : ℕ := folders.countP fun folder => folder.parentId.isSome

theorem parentCount_clearParents (keep : Folder → Bool) (folders : List Folder) :
    parentCount (clearParents keep folders) +
      folders.countP (fun folder => folder.parentId.isSome && !keep folder) =
        parentCount folders := by
  unfold parentCount clearParents
  induction folders with
  | nil => rfl
  | cons folder folders ih =>
    rw [map_cons, countP_cons, countP_cons, countP_cons]
    cases hkeep : keep folder with
    | true =>
      simp only [if_true, Bool.not_true, Bool.and_false, Bool.false_eq_true, if_false]
      omega
    | false =>
      simp only [Bool.false_eq_true, if_false, Bool.not_false, Bool.and_true, Option.isSome_none]
      omega

/-- A round of the loop takes a parent away, so that it ends. -/
theorem breakCycles_spec {rounds : ℕ} (h : parentCount folders < rounds) :
    ∃ folders', breakCycles rounds folders = some folders' ∧ Trimmed folders folders' ∧
      cyclicFolder folders' = none := by
  induction rounds generalizing folders with
  | zero => omega
  | succ rounds ih =>
    rw [breakCycles]
    cases hcyclic : cyclicFolder folders with
    | none => exact ⟨folders, rfl, .refl folders, hcyclic⟩
    | some candidate =>
      have hcandidate := find?_some hcyclic
      rw [Bool.and_eq_true] at hcandidate
      have hcleared := parentCount_clearParents (fun folder => folder.id ≠ candidate.id) folders
      have hpos : 0 < folders.countP fun folder =>
          folder.parentId.isSome && !decide (folder.id ≠ candidate.id) := by
        refine countP_pos_iff.2 ⟨candidate, mem_of_find?_eq_some hcyclic, ?_⟩
        simp [hcandidate.1]
      obtain ⟨folders', hbroken, htrimmed, hnone⟩ :=
        @ih (clearParents (fun folder => folder.id ≠ candidate.id) folders) (by omega)
      exact ⟨folders', hbroken, (trimmed_clearParents _ folders).trans htrimmed, hnone⟩

theorem parentCount_le (folders : List Folder) : parentCount folders ≤ folders.length :=
  countP_le_length

/-- The folders as they are remapped and repaired. -/
theorem repairFolders_spec {run : FolderRun}
    (hcap : (remapParents run.folderIdMap run.folders).length ≤ maxFoldersPerUser) :
    ∃ folders, repairFolders run = some folders ∧ Forest folders ∧
      Trimmed (remapParents run.folderIdMap run.folders) folders := by
  unfold repairFolders
  generalize remapParents run.folderIdMap run.folders = mapped at hcap ⊢
  have hdangling := trimmed_clearParents (namesFolder mapped) mapped
  have hself := trimmed_clearParents (fun folder => folder.parentId ≠ some folder.id)
    (clearDanglingParents mapped)
  have hswept : Trimmed mapped (clearSelfParents (clearDanglingParents mapped)) :=
    hdangling.trans hself
  have hcount := parentCount_le (clearSelfParents (clearDanglingParents mapped))
  rw [hswept.length] at hcount
  obtain ⟨folders, hbroken, htrimmed, hnone⟩ := breakCycles_spec (Nat.lt_succ_of_le hcount)
  have hall : Trimmed mapped folders := hswept.trans htrimmed
  refine ⟨folders, hbroken, ⟨?_, ?_⟩, hall⟩
  · -- What the first sweep has achieved the others keep.
    intro folder hfolder parent hparent
    obtain ⟨old, hold, -, hsame⟩ := (hself.trans htrimmed).parent hfolder
    obtain ⟨given, -, heq⟩ := mem_map.1 hold
    have hkeep : old.parentId.isSome := Option.isSome_iff_exists.2 ⟨parent, hsame parent hparent⟩
    split at heq
    · rename_i hnames
      rw [heq] at hnames
      unfold namesFolder at hnames
      rw [hsame parent hparent, Option.all_some, decide_eq_true_iff] at hnames
      rw [hall.ids]
      exact hnames
    · rw [← heq] at hkeep
      cases hkeep
  · exact acyclic_of_cyclicFolder (by rw [hall.length]; exact hcap) hnone

/-- Without a cycle only what names no folder is taken away. -/
theorem repairFolders_acyclic {run : FolderRun}
    (hcap : (remapParents run.folderIdMap run.folders).length ≤ maxFoldersPerUser)
    (hids : ((remapParents run.folderIdMap run.folders).map Folder.id).Nodup)
    (hacyclic : Acyclic (parentsOf (remapParents run.folderIdMap run.folders))) :
    repairFolders run =
      some (clearDanglingParents (remapParents run.folderIdMap run.folders)) := by
  unfold repairFolders
  dsimp only
  generalize remapParents run.folderIdMap run.folders = mapped at hcap hids hacyclic ⊢
  have hdangling : Trimmed mapped (clearDanglingParents mapped) := trimmed_clearParents _ mapped
  have hacyclic' := hdangling.acyclic hacyclic
  have hself : clearSelfParents (clearDanglingParents mapped) = clearDanglingParents mapped := by
    refine clearParents_eq_self fun folder hfolder => decide_eq_true fun heq => ?_
    have hnames : Names (parentsOf (clearDanglingParents mapped)) folder.id folder.id := by
      have hparent := parentsOf_of_mem (by rw [hdangling.ids]; exact hids) hfolder
      rw [heq] at hparent
      exact hparent
    exact hacyclic' folder.id (.single hnames)
  have hnone : cyclicFolder (clearDanglingParents mapped) = none := by
    refine find?_eq_none.2 fun folder _ hcyclic => ?_
    rw [Bool.and_eq_true] at hcyclic
    exact hacyclic' folder.id
      ((hasCycle_parentsOf_iff (by rw [hdangling.length]; exact hcap) folder.id).1 hcyclic.2)
  rw [hself, breakCycles, hnone]

end HVault.Restore
