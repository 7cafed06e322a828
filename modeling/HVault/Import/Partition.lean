import Mathlib.Algebra.Order.Group.Multiset
import Mathlib.Tactic.Abel
import HVault.Import.Resolve

/-!
# What resolution decides

* The index gives, for a key, the first candidate with that identity.
* Collapsing keeps one row for each pair of keys and drops the others.
* Resolution partitions the file, and no two updates have one target.
-/

namespace HVault.Import

open List ItemIdentity ImportResolution OrderedMap
open Json ItemData

variable {I E α : Type}

/-! ## The index -/

section Index

variable [Resolvable E] (P : Browser)

/-- An item as the index holds it. -/
def indexed (e : E) : IndexedExisting E := { item := e, contentKey := (keysOf P e).contentKey }

/-- Whether an item may be matched under the identity key `k`. -/
def matchesKey (k : Utf16) (e : E) : Bool :=
  isCandidate e && decide ((keysOf P e).identityKey = k)

theorem get_foldl_addToIndex (l : List E) (m : OrderedMap Utf16 (IndexedExisting E)) (k : Utf16) :
    (l.foldl (addToIndex P) m).get k = (m.get k).or
      ((l.find? fun e => decide ((keysOf P e).identityKey = k)).map (indexed P)) := by
  induction l generalizing m with
  | nil => simp
  | cons e rest ih =>
    rw [foldl_cons, ih, addToIndex]
    by_cases hhas : m.has (keysOf P e).identityKey = true
    · rw [if_pos hhas]
      by_cases hk : (keysOf P e).identityKey = k
      · subst hk
        obtain ⟨x, hx⟩ := Option.isSome_iff_exists.1 hhas
        simp [hx]
      · simp [hk]
    · rw [if_neg hhas, get_set]
      by_cases hk : (keysOf P e).identityKey = k
      · subst hk
        have hnone : m.get (keysOf P e).identityKey = none := by
          simpa [has] using hhas
        simp [hnone, indexed]
      · simp [hk, Ne.symm hk]

/-- The index has, under each key, the first candidate with that identity. -/
theorem get_indexExisting (existing : List E) (k : Utf16) :
    (indexExisting P existing).get k = (existing.find? (matchesKey P k)).map (indexed P) := by
  rw [indexExisting, get_foldl_addToIndex, get_empty, Option.none_or, find?_filter]
  congr
  funext e
  simp [matchesKey, Bool.decide_and]

theorem of_get_indexExisting {existing : List E} {k : Utf16} {x : IndexedExisting E}
    (h : (indexExisting P existing).get k = some x) :
    x.item ∈ existing ∧ isCandidate x.item = true ∧ (keysOf P x.item).identityKey = k ∧
      x.contentKey = (keysOf P x.item).contentKey := by
  rw [get_indexExisting, Option.map_eq_some_iff] at h
  obtain ⟨e, he, rfl⟩ := h
  have hm := find?_some he
  simp only [matchesKey, Bool.and_eq_true, decide_eq_true_eq] at hm
  exact ⟨mem_of_find?_eq_some he, hm.1, hm.2, rfl⟩

end Index

/-! ## Collapsing -/

section Collapse

variable {strategy : ConflictStrategy} {keyed : List (KeyedIncoming I)}

/-- What the groups of the rows `done` so far are. -/
structure GroupsOf (done : List (KeyedIncoming I)) (groups : OrderedMap ItemKeys (Group I)) :
    Prop where
  unique : groups.Unique
  winner : ∀ keys g, groups.get keys = some g → g.winner ∈ done ∧ g.winner.keys = keys
  grouped : ∀ entry ∈ done, (groups.get entry.keys).isSome

theorem GroupsOf.add {done : List (KeyedIncoming I)} {groups : OrderedMap ItemKeys (Group I)}
    (h : GroupsOf done groups) (strategy : ConflictStrategy) (entry : KeyedIncoming I) :
    GroupsOf (done ++ [entry]) (addToGroup strategy groups entry) := by
  have hmem : entry ∈ done ++ [entry] := mem_append_right _ (mem_singleton_self _)
  -- in both cases the group of `entry` is written, with a winner that has its keys
  obtain ⟨g', hg', hwinner⟩ : ∃ g', addToGroup strategy groups entry = groups.set entry.keys g' ∧
      g'.winner ∈ done ++ [entry] ∧ g'.winner.keys = entry.keys := by
    unfold addToGroup
    cases hget : groups.get entry.keys with
    | none => exact ⟨_, rfl, hmem, rfl⟩
    | some g =>
      refine ⟨_, rfl, ?_⟩
      obtain ⟨hdone, hkeys⟩ := h.winner _ _ hget
      by_cases hs : strategy = .overwrite
      · simp [hs]
      · simp [hs, hdone, hkeys]
  rw [hg']
  refine ⟨h.unique.set _ _, fun keys g hg => ?_, fun x hx => ?_⟩
  · rw [get_set] at hg
    split at hg
    · rename_i hk
      cases hg
      exact ⟨hwinner.1, hwinner.2.trans hk.symm⟩
    · obtain ⟨hdone, hkeys⟩ := h.winner _ _ hg
      exact ⟨mem_append_left _ hdone, hkeys⟩
  · rw [get_set]
    split
    · rfl
    · rename_i hk
      rcases mem_append.1 hx with hx | hx
      · exact h.grouped x hx
      · exact (hk (by rw [mem_singleton.1 hx])).elim

theorem groupsOf_foldl (strategy : ConflictStrategy) (l done : List (KeyedIncoming I))
    (groups : OrderedMap ItemKeys (Group I)) (h : GroupsOf done groups) :
    GroupsOf (done ++ l) (l.foldl (addToGroup strategy) groups) := by
  induction l generalizing done groups with
  | nil => simpa using h
  | cons entry rest ih =>
    have := ih (done ++ [entry]) _ (h.add strategy entry)
    simpa using this

theorem groupsOf_groupRows (strategy : ConflictStrategy) (keyed : List (KeyedIncoming I)) :
    GroupsOf keyed (groupRows strategy keyed) := by
  have h : GroupsOf ([] : List (KeyedIncoming I)) .empty :=
    ⟨unique_empty, fun _ _ h => by simp at h, fun _ h => by simp at h⟩
  simpa [groupRows] using groupsOf_foldl strategy keyed [] .empty h

/-- Rows are told apart by their positions. -/
def Positioned (keyed : List (KeyedIncoming I)) : Prop :=
  ∀ a ∈ keyed, ∀ b ∈ keyed, a.position = b.position → a = b

/-- A row survives exactly when it is the winner of its own group. -/
theorem isWinner_iff (hpos : Positioned keyed) {entry : KeyedIncoming I} (hentry : entry ∈ keyed) :
    isWinner (groupRows strategy keyed) entry = true ↔
      ∃ g, (groupRows strategy keyed).get entry.keys = some g ∧ g.winner = entry := by
  have hgroups := groupsOf_groupRows strategy keyed
  simp only [isWinner, any_eq_true, decide_eq_true_eq]
  constructor
  · rintro ⟨g, hg, hp⟩
    obtain ⟨keys, hget⟩ := (hgroups.unique.mem_values g).1 hg
    obtain ⟨hmem, hkeys⟩ := hgroups.winner _ _ hget
    have hwin := hpos _ hmem _ hentry hp
    refine ⟨g, ?_, hwin⟩
    rw [← hwin, hkeys, hget]
  · rintro ⟨g, hget, rfl⟩
    exact ⟨g, (hgroups.unique.mem_values g).2 ⟨_, hget⟩, rfl⟩

/-- Every row has a survivor with both its keys. -/
theorem exists_survivor (hpos : Positioned keyed) {entry : KeyedIncoming I}
    (hentry : entry ∈ keyed) :
    ∃ s ∈ (collapseIntraFileDuplicates strategy keyed).1, s.keys = entry.keys := by
  unfold collapseIntraFileDuplicates
  split
  · exact ⟨entry, hentry, rfl⟩
  · have hgroups := groupsOf_groupRows strategy keyed
    obtain ⟨g, hget⟩ := Option.isSome_iff_exists.1 (hgroups.grouped entry hentry)
    obtain ⟨hmem, hkeys⟩ := hgroups.winner _ _ hget
    refine ⟨g.winner, mem_filter.2 ⟨hmem, ?_⟩, hkeys⟩
    exact (isWinner_iff hpos hmem).2 ⟨g, hkeys ▸ hget, rfl⟩

theorem survivors_sublist :
    ((collapseIntraFileDuplicates strategy keyed).1).Sublist keyed := by
  unfold collapseIntraFileDuplicates
  split
  · exact List.Sublist.refl _
  · exact filter_sublist

/-- No two survivors share both keys, unless everything survives. -/
theorem survivors_keys_injective (hpos : Positioned keyed) (hs : strategy ≠ .keepBoth)
    {a b : KeyedIncoming I} (ha : a ∈ (collapseIntraFileDuplicates strategy keyed).1)
    (hb : b ∈ (collapseIntraFileDuplicates strategy keyed).1) (h : a.keys = b.keys) : a = b := by
  rw [collapseIntraFileDuplicates, if_neg hs] at ha hb
  obtain ⟨ha, hwa⟩ := mem_filter.1 ha
  obtain ⟨hb, hwb⟩ := mem_filter.1 hb
  obtain ⟨g, hg, rfl⟩ := (isWinner_iff hpos ha).1 hwa
  obtain ⟨g', hg', rfl⟩ := (isWinner_iff hpos hb).1 hwb
  rw [h, hg'] at hg
  cases hg
  rfl

/-- Collapsing partitions the rows. -/
theorem collapse_perm :
    ((collapseIntraFileDuplicates strategy keyed).1
      ++ (collapseIntraFileDuplicates strategy keyed).2).Perm keyed := by
  unfold collapseIntraFileDuplicates
  split
  · simp
  · exact filter_append_perm _ _

end Collapse

section Keyed

variable [Identified I] (P : Browser) (alternateOf : Option (I → Option I)) (incoming : List I)

theorem positioned_keyIncoming : Positioned (keyIncoming P alternateOf incoming) := by
  intro a ha b hb h
  obtain ⟨i, hi, rfl⟩ := mem_mapIdx.1 ha
  obtain ⟨j, hj, rfl⟩ := mem_mapIdx.1 hb
  obtain rfl : i = j := h
  rfl

theorem map_item_keyIncoming : (keyIncoming P alternateOf incoming).map (·.item) = incoming := by
  apply ext_getElem
  · simp [keyIncoming]
  · intro i h h'
    simp [keyIncoming]

theorem of_mem_keyIncoming {s : KeyedIncoming I} (h : s ∈ keyIncoming P alternateOf incoming) :
    s.item ∈ incoming ∧ s.keys = keysOf P s.item ∧
      s.alternate = (alternateOf.bind fun f => f s.item).map (keysOf P) := by
  obtain ⟨i, hi, rfl⟩ := mem_mapIdx.1 h
  exact ⟨getElem_mem hi, rfl, rfl⟩

end Keyed

/-! ## Buckets -/

section Buckets

/-- All rows of a resolution, bucket by bucket. -/
def ImportResolution.rows (r : ImportResolution I E) : List I :=
  r.inserts ++ r.updates.map (·.incoming) ++ r.duplicateSkipped ++ r.unchanged ++ r.duplicateInFile

/-- The rows of a resolution that were not collapsed into another. -/
def ImportResolution.surviving (r : ImportResolution I E) : List I :=
  r.inserts ++ r.updates.map (·.incoming) ++ r.duplicateSkipped ++ r.unchanged

/-- The row of a decision that inserts. -/
def pickInsert (d : I × Outcome E) : Option I :=
  match d.2 with
  | .insert => some d.1
  | _ => none

/-- The update of a decision that updates. -/
def pickUpdate (d : I × Outcome E) : Option (ResolvedUpdate I E) :=
  match d.2 with
  | .update existing => some { incoming := d.1, existing }
  | _ => none

/-- Files decided rows, one after another. -/
def ImportResolution.pushAll (r : ImportResolution I E) (l : List (I × Outcome E)) :
    ImportResolution I E := l.foldl (fun r d => r.push d.1 d.2) r

variable (r : ImportResolution I E) (l : List (I × Outcome E))

theorem inserts_pushAll : (r.pushAll l).inserts = r.inserts ++ l.filterMap pickInsert := by
  induction l generalizing r with
  | nil => simp [pushAll]
  | cons d rest ih =>
    rw [pushAll, foldl_cons]
    refine (ih _).trans ?_
    obtain ⟨row, outcome⟩ := d
    cases outcome <;> simp [push, pickInsert, filterMap_cons]

theorem updates_pushAll : (r.pushAll l).updates = r.updates ++ l.filterMap pickUpdate := by
  induction l generalizing r with
  | nil => simp [pushAll]
  | cons d rest ih =>
    rw [pushAll, foldl_cons]
    refine (ih _).trans ?_
    obtain ⟨row, outcome⟩ := d
    cases outcome <;> simp [push, pickUpdate, filterMap_cons]

theorem duplicateInFile_pushAll : (r.pushAll l).duplicateInFile = r.duplicateInFile := by
  induction l generalizing r with
  | nil => rfl
  | cons d rest ih =>
    rw [pushAll, foldl_cons]
    refine (ih _).trans ?_
    obtain ⟨row, outcome⟩ := d
    cases outcome <;> rfl

theorem surviving_push (row : I) (outcome : Outcome E) :
    (r.push row outcome).surviving.Perm (r.surviving ++ [row]) := by
  rw [← Multiset.coe_eq_coe]
  cases outcome <;>
    simp only [push, surviving, map_append,
      map_cons, map_nil, ← Multiset.coe_add] <;>
    abel

theorem surviving_pushAll : (r.pushAll l).surviving.Perm (r.surviving ++ l.map (·.1)) := by
  induction l generalizing r with
  | nil => simp [pushAll]
  | cons d rest ih =>
    rw [pushAll, foldl_cons]
    refine (ih _).trans (((surviving_push r d.1 d.2).append_right _).trans ?_)
    simp

end Buckets

/-! ## Decisions -/

section Decisions

variable [Identified I] [Resolvable E] (P : Browser) (existing : List E) (incoming : List I)
  (strategy : ConflictStrategy) (alternateOf : Option (I → Option I))

/-- The rows that survive collapsing. -/
def survivors : List (KeyedIncoming I) :=
  (collapseIntraFileDuplicates strategy (keyIncoming P alternateOf incoming)).1

/-- Each survivor with the index key it matches. -/
def found : List (KeyedIncoming I × Option Utf16) :=
  (survivors P incoming strategy alternateOf).map fun s =>
    (s, matchedKey (indexExisting P existing) s)

/-- What is decided of each survivor, in file order. -/
def decisions : List (I × Outcome E) :=
  match strategy with
  | .keepBoth => (survivors P incoming strategy alternateOf).map fun s => (s.item, .insert)
  | .skip => (found P existing incoming strategy alternateOf).map fun m =>
      (m.1.item, if m.2.isSome then .skipped else .insert)
  | .overwrite =>
    let found := found P existing incoming strategy alternateOf
    found.zipIdx.map fun m =>
      (m.1.1.item, overwriteOutcome (indexExisting P existing) (lastSlotIndex found) m)

/-- The resolution before any survivor is filed. -/
def collapsedOnly : ImportResolution I E where
  inserts := []
  updates := []
  duplicateSkipped := []
  duplicateInFile := (collapseIntraFileDuplicates strategy
    (keyIncoming P alternateOf incoming)).2.map (·.item)
  unchanged := []
  mergedByLimit := alternateOf.map fun _ =>
    if strategy = .keepBoth then []
    else limitMerges (groupRows strategy (keyIncoming P alternateOf incoming))

/-- Resolution collapses the file and files what it decides of each survivor. -/
theorem resolveImport_eq : resolveImport P existing incoming strategy alternateOf =
    (collapsedOnly P incoming strategy alternateOf).pushAll
      (decisions P existing incoming strategy alternateOf) := by
  cases strategy <;>
    simp only [resolveImport, decisions, found, survivors, pushAll,
      foldl_map] <;>
    rfl

theorem map_fst_decisions : (decisions P existing incoming strategy alternateOf).map (·.1) =
    (survivors P incoming strategy alternateOf).map (·.item) := by
  cases strategy with
  | keepBoth => simp [decisions]
  | skip => simp [decisions, found]
  | overwrite =>
    have hzip : ∀ l : List (KeyedIncoming I × Option Utf16),
        l.zipIdx.map (fun m => m.1.1.item) = l.map (·.1.item) := fun l => by
      conv_rhs => rw [← zipIdx_map_fst 0 l, map_map]
      rfl
    simp only [decisions, map_map, Function.comp_def, hzip, found]

omit [Identified I] [Resolvable E] in
/-- A survivor matches under its own identity or that of the row it was cut from. -/
theorem matchedKey_eq_some {index : OrderedMap Utf16 (IndexedExisting E)} {s : KeyedIncoming I}
    {key : Utf16} (h : matchedKey index s = some key) :
    key = s.keys.identityKey ∨ s.alternate.map (·.identityKey) = some key := by
  unfold matchedKey at h
  split at h
  · exact .inl (Option.some.inj h).symm
  · cases halt : s.alternate with
    | none => simp [halt] at h
    | some alternate =>
      simp only [halt] at h
      split at h
      · exact .inr (by simpa using h)
      · cases h

omit [Identified I] [Resolvable E] in
/-- A survivor that updates holds the slot of the item it matches. -/
theorem overwriteOutcome_eq_update {index : OrderedMap Utf16 (IndexedExisting E)}
    {slots : OrderedMap Utf16 ℕ} {m : (KeyedIncoming I × Option Utf16) × ℕ} {e : E}
    (h : overwriteOutcome index slots m = .update e) :
    ∃ key x, m.1.2 = some key ∧ slots.get key = some m.2 ∧ index.get key = some x ∧ x.item = e := by
  unfold overwriteOutcome at h
  split at h
  · cases h
  · rename_i x hx
    obtain ⟨key, hkey, hslot⟩ := Option.bind_eq_some_iff.1 hx
    split at hslot
    · rename_i hslots
      split at h
      · cases h
      · exact ⟨key, x, hkey, hslots, hslot, by injection h⟩
    · cases hslot

theorem updates_resolveImport : (resolveImport P existing incoming strategy alternateOf).updates =
    (decisions P existing incoming strategy alternateOf).filterMap pickUpdate := by
  rw [resolveImport_eq, updates_pushAll]
  rfl

theorem inserts_resolveImport : (resolveImport P existing incoming strategy alternateOf).inserts =
    (decisions P existing incoming strategy alternateOf).filterMap pickInsert := by
  rw [resolveImport_eq, inserts_pushAll]
  rfl

/-- An update pairs a survivor with the item the index has under a key it matches. -/
theorem of_mem_updates {u : ResolvedUpdate I E}
    (h : u ∈ (resolveImport P existing incoming strategy alternateOf).updates) :
    strategy = .overwrite ∧ ∃ s ∈ survivors P incoming strategy alternateOf, s.item = u.incoming ∧
      ∃ key x, matchedKey (indexExisting P existing) s = some key ∧
        (indexExisting P existing).get key = some x ∧ x.item = u.existing := by
  rw [updates_resolveImport, mem_filterMap] at h
  obtain ⟨d, hd, hu⟩ := h
  have hpick : ∃ e, d.2 = .update e ∧ u = { incoming := d.1, existing := e } := by
    unfold pickUpdate at hu
    split at hu
    · rename_i e he
      exact ⟨e, he, (Option.some.inj hu).symm⟩
    · cases hu
  obtain ⟨e, he, rfl⟩ := hpick
  cases strategy with
  | keepBoth =>
    obtain ⟨s, -, rfl⟩ := mem_map.1 hd
    cases he
  | skip =>
    obtain ⟨m, -, rfl⟩ := mem_map.1 hd
    split at he <;> cases he
  | overwrite =>
    obtain ⟨m, hm, rfl⟩ := mem_map.1 hd
    obtain ⟨key, x, hkey, -, hget, hx⟩ := overwriteOutcome_eq_update he
    obtain ⟨s, hs, hms⟩ := mem_map.1 (fst_mem_of_mem_zipIdx hm)
    rw [← hms] at hkey
    exact ⟨rfl, s, hs, by rw [← hms], key, x, hkey, hget, hx⟩

theorem updates_eq_nil (hs : strategy ≠ .overwrite) :
    (resolveImport P existing incoming strategy alternateOf).updates = [] :=
  eq_nil_iff_forall_not_mem.2 fun _ hu => hs (of_mem_updates _ _ _ _ _ hu).1

/-- The targets of the updates have distinct identities. -/
theorem nodup_targets : ((resolveImport P existing incoming strategy alternateOf).updates.map
    fun u => (keysOf P u.existing).identityKey).Nodup := by
  by_cases hs : strategy = .overwrite
  · subst hs
    rw [updates_resolveImport, decisions, filterMap_map, map_filterMap]
    generalize found P existing incoming .overwrite alternateOf = l
    have hdistinct : l.zipIdx.Pairwise fun a b => a.2 ≠ b.2 := by
      rw [← pairwise_map, zipIdx_map_snd]
      exact nodup_range'
    -- a slot is held at one position
    have hslot : ∀ (m : (KeyedIncoming I × Option Utf16) × ℕ) key,
        ((pickUpdate (m.1.1.item, overwriteOutcome (indexExisting P existing) (lastSlotIndex l) m)).map
          fun u => (keysOf P u.existing).identityKey) = some key →
        (lastSlotIndex l).get key = some m.2 := by
      intro m key h
      obtain ⟨u, hu, rfl⟩ := Option.map_eq_some_iff.1 h
      unfold pickUpdate at hu
      split at hu
      · rename_i e he
        obtain ⟨key, x, -, hslots, hget, rfl⟩ := overwriteOutcome_eq_update he
        cases hu
        rwa [(of_get_indexExisting P hget).2.2.1]
      · cases hu
    refine hdistinct.filterMap _ fun a a' hne key hkey key' hkey' => ?_
    rintro rfl
    exact hne (Option.some.inj ((hslot a key hkey).symm.trans (hslot a' key hkey')))
  · simp [updates_eq_nil P existing incoming strategy alternateOf hs]

end Decisions

/-! ## The partition -/

section Partition

variable [Identified I] [Resolvable E] (P : Browser) (existing : List E) (incoming : List I)
  (strategy : ConflictStrategy) (alternateOf : Option (I → Option I))

/-- A cut row has the item type of the row it was cut from. -/
def KeepsType (alternateOf : Option (I → Option I)) : Prop :=
  ∀ f, alternateOf = some f → ∀ row original, f row = some original →
    (identity original).itemType = (identity row).itemType

theorem surviving_perm :
    (resolveImport P existing incoming strategy alternateOf).surviving.Perm
      ((survivors P incoming strategy alternateOf).map (·.item)) := by
  rw [resolveImport_eq, ← map_fst_decisions P existing]
  refine (surviving_pushAll _ _).trans ?_
  simp [collapsedOnly, surviving]

theorem duplicateInFile_resolveImport :
    (resolveImport P existing incoming strategy alternateOf).duplicateInFile =
      (collapseIntraFileDuplicates strategy (keyIncoming P alternateOf incoming)).2.map
        (·.item) := by
  rw [resolveImport_eq, duplicateInFile_pushAll]
  rfl

/-- Every row of the file is in one bucket. -/
theorem rows_perm :
    (resolveImport P existing incoming strategy alternateOf).rows.Perm incoming := by
  have h := (surviving_perm P existing incoming strategy alternateOf).append_right
    (resolveImport P existing incoming strategy alternateOf).duplicateInFile
  refine h.trans ?_
  rw [duplicateInFile_resolveImport, survivors, ← map_append]
  refine (collapse_perm.map _).trans ?_
  rw [map_item_keyIncoming]

theorem targets_subperm :
    ((resolveImport P existing incoming strategy alternateOf).updates.map (·.existing)).Subperm
      existing := by
  have hnodup := nodup_targets P existing incoming strategy alternateOf
  rw [← Function.comp_def (fun e => (keysOf P e).identityKey)
    (ResolvedUpdate.existing : ResolvedUpdate I E → E), ← map_map] at hnodup
  refine subperm_of_subset hnodup.of_map fun e he => ?_
  obtain ⟨u, hu, rfl⟩ := mem_map.1 he
  obtain ⟨-, s, -, -, key, x, -, hget, hx⟩ := of_mem_updates _ _ _ _ _ hu
  exact hx ▸ (of_get_indexExisting P hget).1

/-- A target is live, decodable and of the type of the row that updates it. -/
theorem target_of_mem_updates (halt : KeepsType alternateOf) {u : ResolvedUpdate I E}
    (hu : u ∈ (resolveImport P existing incoming strategy alternateOf).updates) :
    Resolvable.deletedAt u.existing = none ∧ isUndecodableData (identity u.existing).data = false ∧
      (identity u.existing).itemType = (identity u.incoming).itemType := by
  obtain ⟨-, s, hs, hitem, key, x, hkey, hget, hx⟩ := of_mem_updates _ _ _ _ _ hu
  obtain ⟨-, hcand, hid, -⟩ := of_get_indexExisting P hget
  rw [hx] at hcand hid
  obtain ⟨hlive, hdecodable⟩ : Resolvable.deletedAt u.existing = none ∧
      isUndecodableData (identity u.existing).data = false := by
    simpa [isCandidate] using hcand
  refine ⟨hlive, hdecodable, ?_⟩
  obtain ⟨-, hkeys, halternate⟩ := of_mem_keyIncoming P _ _ (survivors_sublist.subset hs)
  rw [hitem] at hkeys halternate
  rcases matchedKey_eq_some hkey with hown | hcut
  · rw [hown, hkeys] at hid
    exact Browser.itemType_eq_of_identityKey_eq hid
  · rw [halternate, Option.map_map, Option.map_eq_some_iff] at hcut
    obtain ⟨original, horiginal, rfl⟩ := hcut
    obtain ⟨f, hf, hfrow⟩ := Option.bind_eq_some_iff.1 horiginal
    rw [Browser.itemType_eq_of_identityKey_eq hid]
    exact halt f hf _ _ hfrow

theorem exists_surviving_of_mem_duplicateInFile {row : I}
    (hrow : row ∈ (resolveImport P existing incoming strategy alternateOf).duplicateInFile) :
    ∃ s ∈ (resolveImport P existing incoming strategy alternateOf).surviving,
      keysOf P s = keysOf P row := by
  rw [duplicateInFile_resolveImport] at hrow
  obtain ⟨entry, hentry, rfl⟩ := mem_map.1 hrow
  have hmem : entry ∈ keyIncoming P alternateOf incoming :=
    collapse_perm.subset (mem_append_right _ hentry)
  obtain ⟨s, hs, hkeys⟩ :=
    exists_survivor (positioned_keyIncoming P alternateOf incoming) hmem
  refine ⟨s.item, (surviving_perm P existing incoming strategy alternateOf).mem_iff.2
    (mem_map_of_mem hs), ?_⟩
  rw [← (of_mem_keyIncoming P _ _ hmem).2.1, ← hkeys,
    (of_mem_keyIncoming P _ _ (survivors_sublist.subset hs)).2.1]

/-- **Resolution partitions the file**, when a cut keeps the item type. -/
theorem resolveImport_partition (halt : KeepsType alternateOf) :
    let r := resolveImport P existing incoming strategy alternateOf
    r.rows.Perm incoming ∧
      (r.updates.map (·.existing)).Subperm existing ∧
      (∀ u ∈ r.updates, Resolvable.deletedAt u.existing = none ∧
        isUndecodableData (identity u.existing).data = false ∧
        (identity u.existing).itemType = (identity u.incoming).itemType) ∧
      (strategy = .keepBoth → r.inserts = incoming) ∧
      (strategy = .skip → r.updates = []) ∧
      ∀ row ∈ r.duplicateInFile, ∃ s ∈ r.surviving, keysOf P s = keysOf P row := by
  refine ⟨rows_perm P existing incoming strategy alternateOf,
    targets_subperm P existing incoming strategy alternateOf,
    fun u hu => target_of_mem_updates P existing incoming strategy alternateOf halt hu, ?_, ?_,
    fun row hrow =>
      exists_surviving_of_mem_duplicateInFile P existing incoming strategy alternateOf hrow⟩
  · rintro rfl
    rw [inserts_resolveImport, decisions, filterMap_map]
    have hall : survivors P incoming .keepBoth alternateOf = keyIncoming P alternateOf incoming := by
      rw [survivors, collapseIntraFileDuplicates, if_pos rfl]
    rw [hall]
    refine Eq.trans ?_ (map_item_keyIncoming P alternateOf incoming)
    exact congrFun filterMap_eq_map _
  · rintro rfl
    exact updates_eq_nil P existing incoming .skip alternateOf (by decide)

end Partition

/-! ### A cut that changes the type -/

/-- A login of one site and username. -/
def exampleLogin (password : String) : DecodedRow where
  val :=
    { itemType := .login
      name := units "example"
      data := [(units "username", .string (units "ann")),
        (units "password", .string (units password)),
        (units "uris", .array [uriEntry (units "https://example.com") (units "domain")]),
        (units "customFields", .array [])] }
  property := rfl

/-- A note. -/
def exampleNote : DecodedRow where
  val :=
    { itemType := .note
      name := units "example"
      data := [(units "content", .string (units "pin")),
        (units "format", .string (units "markdown"))] }
  property := rfl

/-- The bytes that are hashed of a row. -/
def exampleBytes (row : DecodedRow) : List UInt8 :=
  Utf8.encode (utf16 (canonicalJson (fun s => s)
    (.object [(units "name", .string row.1.name), (units "data", .object row.1.data)])))

/-- SHA-256 of the example rows' texts. -/
def exampleSha256 (bytes : List UInt8) : List UInt8 :=
  if bytes = exampleBytes (exampleLogin "one") then
    [0x16, 0x76, 0x50, 0x79, 0xA7, 0x1D, 0x57, 0x48, 0x24, 0x4F, 0x10, 0x06, 0x2F, 0xA6, 0xA2,
      0xBA, 0xA4, 0xF1, 0xD1, 0x87, 0x09, 0xF6, 0x42, 0x3F, 0xDB, 0x80, 0x2C, 0x87, 0xD5, 0x5F,
      0x64, 0xA5]
  else if bytes = exampleBytes (exampleLogin "two") then
    [0x76, 0xF6, 0x0F, 0x25, 0x72, 0x2E, 0x2F, 0x6D, 0xEE, 0xD8, 0x23, 0x9E, 0xAF, 0xAF, 0x8A,
      0xFF, 0xE0, 0x47, 0x8F, 0x9F, 0x66, 0x2A, 0x8A, 0x67, 0xBA, 0xC2, 0x97, 0xD0, 0xA9, 0x97,
      0x6A, 0xDD]
  else if bytes = exampleBytes exampleNote then
    [0x8B, 0x45, 0x0C, 0x1B, 0x6D, 0xC7, 0xD4, 0xC2, 0x25, 0x24, 0x0D, 0xF1, 0x63, 0xC2, 0x25,
      0xD6, 0x69, 0x04, 0x4C, 0x00, 0xD8, 0x31, 0xFC, 0x5C, 0xCE, 0x4F, 0x3C, 0x65, 0x01, 0xDB,
      0xC0, 0x55]
  else []

/-- The browser on the example rows. -/
def exampleBrowser : Browser := { sampleBrowser with sha256 := exampleSha256 }

/-- A vault with one login. -/
def exampleVault : List DecryptedVaultItem :=
  [{ (exampleLogin "one").1 with id := "a", deletedAt := none }]

/-- A cut that takes every row for one of the other password. -/
def cutPassword (row : DecodedRow) : Option DecodedRow :=
  if row.1.itemType = .login then some (exampleLogin "two") else none

/-- Under a cut of passwords the login of the vault keeps its type and the note is new. -/
theorem example_partition :
    KeepsType (some cutPassword) ∧
      let r := resolveImport exampleBrowser exampleVault [exampleLogin "two", exampleNote]
        .overwrite (some cutPassword)
      r.rows.Perm [exampleLogin "two", exampleNote] ∧
        (r.updates.map (·.existing)).Subperm exampleVault := by
  have halt : KeepsType (some cutPassword) := by
    rintro _ ⟨⟩ row original h
    unfold cutPassword at h
    split at h
    · rename_i hlogin
      cases h
      exact hlogin.symm
    · cases h
  have h := resolveImport_partition exampleBrowser exampleVault [exampleLogin "two", exampleNote]
    .overwrite (some cutPassword) halt
  exact ⟨halt, h.1, h.2.1⟩

/-- A cut that makes a note of a login. -/
def cutToNote (row : DecodedRow) : Option DecodedRow :=
  if row.1.itemType = .note then some (exampleLogin "two") else none

/-- A note said to be cut from a login updates the login of the vault. -/
theorem note_updates_login :
    ∃ u ∈ (resolveImport exampleBrowser exampleVault [exampleNote] .overwrite
      (some cutToNote)).updates, (identity u.existing).itemType ≠ (identity u.incoming).itemType := by
  decide +kernel

end HVault.Import
