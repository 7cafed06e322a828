import Mathlib.Data.List.Induction
import Mathlib.Data.Set.Lattice
import HVault.Import.Partition

/-!
# Running an import again

* `applyBatch` sends inserts before updates, and a file's updates have distinct targets: what
  an import leaves of each item is read off from `Grown`.
* Importing a file a second time is a no-op under `skip`, and under `overwrite` exactly when no
  two of its rows share an identity with different contents.
* Re-running an import that stopped between two batches ends in the same contents under
  `overwrite`, and under `skip` exactly when no two rows that are new to the vault share an
  identity with different contents.
-/

namespace HVault.Import

open List ItemIdentity
open Json (Utf16)

variable {I E : Type} [Identified I] [Resolvable E] {P : Browser}

/-! ## What the vault holds -/

variable (P) in
/-- The item the vault has under an identity key. -/
def held (vault : List E) (key : Utf16) : Option E := vault.find? (matchesKey P key)

variable (P) in
/-- The keys of the live items of a vault. -/
def contents (vault : List E) : Set ItemKeys :=
  {keys | ∃ e ∈ vault, isCandidate e = true ∧ keysOf P e = keys}

variable (P) in
/-- The keys of the rows of a file. -/
def rowKeys (file : List I) : Set ItemKeys := {keys | ∃ row ∈ file, keysOf P row = keys}

variable (P) in
/-- No two rows of the file share an identity key that satisfies `q` and differ in content. -/
def OneContent (q : Utf16 → Prop) (file : List I) : Prop :=
  ∀ a ∈ file, ∀ b ∈ file, q (keysOf P a).identityKey →
    (keysOf P a).identityKey = (keysOf P b).identityKey →
    (keysOf P a).contentKey = (keysOf P b).contentKey

theorem ItemKeys.eq_of {a b : ItemKeys} (hid : a.identityKey = b.identityKey)
    (hcontent : a.contentKey = b.contentKey) : a = b := by
  cases a
  cases b
  simp_all

theorem of_held {vault : List E} {key : Utf16} {e : E} (h : held P vault key = some e) :
    e ∈ vault ∧ isCandidate e = true ∧ (keysOf P e).identityKey = key := by
  have hm := find?_some h
  simp only [matchesKey, Bool.and_eq_true, decide_eq_true_eq] at hm
  exact ⟨mem_of_find?_eq_some h, hm⟩

theorem held_isSome_iff {vault : List E} {key : Utf16} :
    (held P vault key).isSome ↔ ∃ keys ∈ contents P vault, keys.identityKey = key := by
  simp only [held, find?_isSome, matchesKey, Bool.and_eq_true, decide_eq_true_eq, contents]
  constructor
  · rintro ⟨e, he, hcand, hkey⟩
    exact ⟨keysOf P e, ⟨e, he, hcand, rfl⟩, hkey⟩
  · rintro ⟨_, ⟨e, he, hcand, rfl⟩, hkey⟩
    exact ⟨e, he, hcand, hkey⟩

theorem has_indexExisting (vault : List E) (key : Utf16) :
    (indexExisting P vault).has key = (held P vault key).isSome := by
  rw [OrderedMap.has, get_indexExisting, held, Option.isSome_map]

/-! ## What an uncut file decides -/

section Decided

variable {file : List I} {strategy : ConflictStrategy}

variable {s : KeyedIncoming I}

/-- A survivor of an uncut file has the keys of its row and no others. -/
theorem of_mem_survivors (h : s ∈ survivors P file strategy none) :
    s.item ∈ file ∧ s.keys = keysOf P s.item ∧ s.alternate = none :=
  of_mem_keyIncoming P none file (survivors_sublist.subset h)

theorem exists_mem_survivors {row : I} (h : row ∈ file) (strategy : ConflictStrategy) :
    ∃ s ∈ survivors P file strategy none, s.keys = keysOf P row := by
  rw [← map_item_keyIncoming P none file] at h
  obtain ⟨entry, hentry, rfl⟩ := mem_map.1 h
  obtain ⟨s, hs, hkeys⟩ := exists_survivor (positioned_keyIncoming P none file) hentry
  exact ⟨s, hs, hkeys.trans (of_mem_keyIncoming P none file hentry).2.1⟩

theorem nodup_survivors : (survivors P file strategy none).Nodup := by
  refine survivors_sublist.nodup ?_
  rw [keyIncoming, nodup_iff_injective_get]
  intro i j h
  have := congrArg KeyedIncoming.position h
  simpa [Fin.ext_iff] using this

variable (vault : List E)

omit [Identified I] in
theorem matchedKey_uncut (h : s.alternate = none) :
    matchedKey (indexExisting P vault) s =
      if (held P vault s.keys.identityKey).isSome then some s.keys.identityKey else none := by
  rw [matchedKey, h, has_indexExisting]

/-- Under `skip` the survivors the vault does not hold are inserted. -/
theorem inserts_skip :
    (resolveImport P vault file .skip none).inserts =
      ((survivors P file .skip none).filter fun s =>
        (held P vault s.keys.identityKey).isNone).map (·.item) := by
  rw [inserts_resolveImport, decisions, found, map_map, filterMap_map]
  have hs : ∀ s ∈ survivors P file .skip none, s.alternate = none :=
    fun s h => (of_mem_survivors h).2.2
  generalize survivors P file .skip none = l at hs
  induction l with
  | nil => rfl
  | cons s rest ih =>
    have hrest := ih fun s' h => hs s' (mem_cons_of_mem _ h)
    have hkey := matchedKey_uncut (P := P) vault (hs s mem_cons_self)
    rw [filterMap_cons, hrest, filter_cons]
    simp only [Function.comp_apply, hkey]
    cases hheld : held P vault s.keys.identityKey with
    | none | some e => simp [pickInsert]

/-! ### Slots -/

omit [Identified I] in
theorem lastSlotIndex_append (l : List (KeyedIncoming I × Option Utf16))
    (x : KeyedIncoming I × Option Utf16) (key : Utf16) :
    (lastSlotIndex (l ++ [x])).get key =
      if x.2 = some key then some l.length else (lastSlotIndex l).get key := by
  rw [lastSlotIndex, zipIdx_append, foldl_append, ← lastSlotIndex]
  obtain ⟨s, matched⟩ := x
  cases matched with
  | none => simp
  | some key' =>
    simp only [zipIdx_singleton, foldl_cons, foldl_nil, OrderedMap.get_set,
      Option.some.injEq, Nat.zero_add]
    by_cases h : key' = key
    · simp [h]
    · simp [h, Ne.symm h]

omit [Identified I] in
/-- A slot is held by a survivor that matches its key. -/
theorem of_lastSlotIndex {l : List (KeyedIncoming I × Option Utf16)} {key : Utf16} {i : ℕ}
    (h : (lastSlotIndex l).get key = some i) : ∃ s, l[i]? = some (s, some key) := by
  induction l using reverseRecOn with
  | nil => simp [lastSlotIndex] at h
  | append_singleton l x ih =>
    rw [lastSlotIndex_append] at h
    split at h
    · rename_i hx
      cases h
      exact ⟨x.1, by simp [← hx]⟩
    · obtain ⟨s, hs⟩ := ih h
      obtain ⟨hi, -⟩ := List.getElem?_eq_some_iff.1 hs
      exact ⟨s, by rw [List.getElem?_append_left hi, hs]⟩

omit [Identified I] in
/-- A matched key has a slot. -/
theorem lastSlotIndex_isSome {l : List (KeyedIncoming I × Option Utf16)} (key : Utf16)
    (h : ∃ s, (s, some key) ∈ l) : ((lastSlotIndex l).get key).isSome := by
  induction l using reverseRecOn with
  | nil => simp at h
  | append_singleton l x ih =>
    rw [lastSlotIndex_append]
    split
    · rfl
    · rename_i hx
      obtain ⟨s, hs⟩ := h
      rcases mem_append.1 hs with hs | hs
      · exact ih ⟨s, hs⟩
      · exact (hx (by rw [← mem_singleton.1 hs])).elim

variable (P) in
/-- How `overwrite` decides the survivor at position `i`: without an item to match, or without
the slot of that item, it is inserted; with the slot it leaves the item alone when the keys
agree, and else updates it. -/
def outcomeAt (vault : List E) (file : List I) (s : KeyedIncoming I) (i : ℕ) : Outcome E :=
  match held P vault s.keys.identityKey with
  | none => .insert
  | some e =>
    if (lastSlotIndex (found P vault file .overwrite none)).get s.keys.identityKey = some i then
      if s.keys = keysOf P e then .unchanged else .update e
    else .insert

theorem overwriteOutcome_uncut (halt : s.alternate = none) (i : ℕ) :
    overwriteOutcome (indexExisting P vault) (lastSlotIndex (found P vault file .overwrite none))
      ((s, matchedKey (indexExisting P vault) s), i) = outcomeAt P vault file s i := by
  rw [overwriteOutcome, matchedKey_uncut vault halt, outcomeAt]
  cases hheld : held P vault s.keys.identityKey with
  | none => simp
  | some e =>
    have hget : (indexExisting P vault).get s.keys.identityKey = some (indexed P e) := by
      rw [get_indexExisting, ← held, hheld, Option.map_some]
    have hiff : s.keys.contentKey = (indexed P e).contentKey ↔ s.keys = keysOf P e :=
      ⟨fun hc => ItemKeys.eq_of (of_held hheld).2.2.symm hc, fun hk => by rw [hk, indexed]⟩
    by_cases hslot : (lastSlotIndex (found P vault file .overwrite none)).get
        s.keys.identityKey = some i
    · simp only [Option.isSome_some, if_true, Option.bind_some, hslot, hget, halt, Option.map_none,
        reduceCtorEq, or_false, hiff]
      rfl
    · simp [hslot]

theorem mem_decisions_overwrite (row : I) (outcome : Outcome E) :
    (row, outcome) ∈ decisions P vault file .overwrite none ↔
      ∃ i s, (survivors P file .overwrite none)[i]? = some s ∧ s.item = row ∧
        outcomeAt P vault file s i = outcome := by
  have hfound : ∀ (i : ℕ) x, (found P vault file .overwrite none)[i]? = some x ↔
      ∃ s, (survivors P file .overwrite none)[i]? = some s ∧
        (s, matchedKey (indexExisting P vault) s) = x := by
    intro i x
    rw [found, getElem?_map, Option.map_eq_some_iff]
  simp only [decisions, mem_map, Prod.exists, mem_zipIdx_iff_getElem?, hfound,
    Prod.mk.injEq]
  constructor
  · rintro ⟨_, _, i, ⟨s, hs, rfl, rfl⟩, hitem, hout⟩
    exact ⟨i, s, hs, hitem, by
      rw [← hout, overwriteOutcome_uncut vault (of_mem_survivors (mem_of_getElem? hs)).2.2]⟩
  · rintro ⟨i, s, hs, hitem, hout⟩
    exact ⟨s, _, i, ⟨s, hs, rfl, rfl⟩, hitem, by
      rw [← hout, overwriteOutcome_uncut vault (of_mem_survivors (mem_of_getElem? hs)).2.2]⟩

theorem mem_inserts_iff {vault : List E} {row : I} :
    row ∈ (resolveImport P vault file strategy none).inserts ↔
      (row, .insert) ∈ decisions P vault file strategy none := by
  rw [inserts_resolveImport, mem_filterMap]
  constructor
  · rintro ⟨⟨row', outcome⟩, hd, hpick⟩
    cases outcome <;> simp [pickInsert] at hpick
    exact hpick ▸ hd
  · exact fun h => ⟨_, h, rfl⟩

theorem mem_updates_iff {vault : List E} {u : ResolvedUpdate I E} :
    u ∈ (resolveImport P vault file strategy none).updates ↔
      (u.incoming, .update u.existing) ∈ decisions P vault file strategy none := by
  rw [updates_resolveImport, mem_filterMap]
  constructor
  · rintro ⟨⟨row', outcome⟩, hd, hpick⟩
    cases outcome <;> simp [pickUpdate] at hpick
    exact hpick ▸ hd
  · exact fun h => ⟨_, h, rfl⟩

theorem inserts_subset {vault : List E} :
    (resolveImport P vault file strategy none).inserts ⊆ file := fun row h => by
  refine (rows_perm P vault file strategy none).subset ?_
  simp [ImportResolution.rows, h]

/-- An update targets the item the vault has under the row's identity. -/
theorem held_of_mem_updates {vault : List E} {u : ResolvedUpdate I E}
    (h : u ∈ (resolveImport P vault file strategy none).updates) :
    u.incoming ∈ file ∧ held P vault (keysOf P u.incoming).identityKey = some u.existing := by
  obtain ⟨rfl, s, hs, hitem, key, x, hkey, hget, hx⟩ := of_mem_updates _ _ _ _ _ h
  obtain ⟨hfile, hkeys, halt⟩ := of_mem_survivors hs
  rcases matchedKey_eq_some hkey with rfl | hcut
  · rw [hitem] at hfile hkeys
    rw [get_indexExisting, ← held, hkeys, Option.map_eq_some_iff] at hget
    obtain ⟨e, he, rfl⟩ := hget
    exact ⟨hfile, he.trans (congrArg some hx)⟩
  · rw [halt] at hcut
    cases hcut

/-- What `overwrite` does with a survivor: inserts it, or updates the item it matches, or finds
that item with its own keys and nothing else updates it. -/
theorem overwrite_cases (hs : s ∈ survivors P file .overwrite none) :
    s.item ∈ (resolveImport P vault file .overwrite none).inserts ∨
      ∃ e, held P vault s.keys.identityKey = some e ∧
        ({ incoming := s.item, existing := e } ∈
            (resolveImport P vault file .overwrite none).updates ∨
          s.keys = keysOf P e ∧ ∀ u ∈ (resolveImport P vault file .overwrite none).updates,
            (keysOf P u.incoming).identityKey ≠ s.keys.identityKey) := by
  obtain ⟨i, hi⟩ := mem_iff_getElem?.1 hs
  have hd := (mem_decisions_overwrite vault s.item _).2 ⟨i, s, hi, rfl, rfl⟩
  cases hout : outcomeAt P vault file s i with
  | insert =>
    rw [hout] at hd
    exact .inl (mem_inserts_iff.2 hd)
  | update e =>
    rw [hout] at hd
    have hu := mem_updates_iff (u := { incoming := s.item, existing := e }).2 hd
    have hheld := (held_of_mem_updates hu).2
    rw [← (of_mem_survivors hs).2.1] at hheld
    exact .inr ⟨e, hheld, .inl hu⟩
  | skipped =>
    unfold outcomeAt at hout
    repeat' split at hout
    all_goals cases hout
  | unchanged =>
    unfold outcomeAt at hout
    split at hout
    · cases hout
    rename_i e hheld
    split at hout
    · rename_i hslot
      split at hout
      · rename_i hkeys
        refine .inr ⟨e, hheld, .inr ⟨hkeys, fun u hu hid => ?_⟩⟩
        -- the row of such an update would hold the same slot
        obtain ⟨j, t, hj, hitem, houtcome⟩ := (mem_decisions_overwrite _ _ _).1 (mem_updates_iff.1 hu)
        have htkeys := (of_mem_survivors (mem_of_getElem? hj)).2.1
        rw [hitem] at htkeys
        rw [← htkeys] at hid
        unfold outcomeAt at houtcome
        rw [hid, hheld, hslot] at houtcome
        dsimp only at houtcome
        split at houtcome
        · rename_i hij
          cases hij
          obtain rfl := Option.some.inj (hi.symm.trans hj)
          rw [if_pos hkeys] at houtcome
          cases houtcome
        · cases houtcome
      · cases hout
    · cases hout

theorem outcomeAt_eq_insert_or (file : List I) (s : KeyedIncoming I) (i : ℕ) :
    outcomeAt P vault file s i = .insert ∨
      (lastSlotIndex (found P vault file .overwrite none)).get s.keys.identityKey = some i := by
  unfold outcomeAt
  split
  · exact .inl rfl
  · split
    · rename_i hslot
      exact .inr hslot
    · exact .inl rfl

/-- Two survivors with one identity: one of them is inserted, whatever the vault holds. -/
theorem inserts_ne_nil {t : KeyedIncoming I} (hs : s ∈ survivors P file .overwrite none)
    (ht : t ∈ survivors P file .overwrite none) (hne : s ≠ t)
    (hid : s.keys.identityKey = t.keys.identityKey) :
    (resolveImport P vault file .overwrite none).inserts ≠ [] := by
  obtain ⟨i, hi⟩ := mem_iff_getElem?.1 hs
  obtain ⟨j, hj⟩ := mem_iff_getElem?.1 ht
  have hinsert : ∀ {r : KeyedIncoming I} {k : ℕ}, (survivors P file .overwrite none)[k]? = some r →
      outcomeAt P vault file r k = .insert →
      (resolveImport P vault file .overwrite none).inserts ≠ [] := fun hr hout =>
    ne_nil_of_mem (mem_inserts_iff.2 ((mem_decisions_overwrite vault _ _).2 ⟨_, _, hr, rfl, hout⟩))
  rcases outcomeAt_eq_insert_or vault file s i with h | hslot
  · exact hinsert hi h
  rcases outcomeAt_eq_insert_or vault file t j with h | hslot'
  · exact hinsert hj h
  -- both would hold the one slot
  rw [hid, hslot'] at hslot
  cases hslot
  exact (hne (Option.some.inj (hi.symm.trans hj))).elim

/-- The slot of a held identity is with a survivor that has this identity. -/
theorem exists_slot {vault : List E} {row : I} (hrow : row ∈ file) {e : E}
    (hheld : held P vault (keysOf P row).identityKey = some e) :
    ∃ i s, (survivors P file .overwrite none)[i]? = some s ∧
      s.keys.identityKey = (keysOf P row).identityKey ∧
      (lastSlotIndex (found P vault file .overwrite none)).get s.keys.identityKey = some i := by
  obtain ⟨t, ht, htkeys⟩ := exists_mem_survivors hrow .overwrite
  have hmatched : ∀ {r : KeyedIncoming I}, r ∈ survivors P file .overwrite none →
      matchedKey (indexExisting P vault) r =
        if (held P vault r.keys.identityKey).isSome then some r.keys.identityKey else none :=
    fun hr => matchedKey_uncut vault (of_mem_survivors hr).2.2
  have hsome := lastSlotIndex_isSome (l := found P vault file .overwrite none)
    (keysOf P row).identityKey ⟨t, mem_map.2 ⟨t, ht, by
      rw [hmatched ht, htkeys, hheld]
      rfl⟩⟩
  obtain ⟨i, hi⟩ := Option.isSome_iff_exists.1 hsome
  obtain ⟨s, hs⟩ := of_lastSlotIndex hi
  rw [found, getElem?_map, Option.map_eq_some_iff] at hs
  obtain ⟨s', hs', heq⟩ := hs
  obtain ⟨rfl, hkey⟩ := Prod.mk.inj heq
  rw [hmatched (mem_of_getElem? hs')] at hkey
  split at hkey
  · have hid := Option.some.inj hkey
    exact ⟨i, s', hs', hid, by rw [hid, hi]⟩
  · cases hkey

/-- Under `overwrite` a held identity of the file is settled: by an update, or because the item
has the keys of a row already. -/
theorem settled {vault : List E} {row : I} (hrow : row ∈ file) {e : E}
    (hheld : held P vault (keysOf P row).identityKey = some e) :
    keysOf P e ∈ rowKeys P file ∨
      ∃ u ∈ (resolveImport P vault file .overwrite none).updates, u.existing = e := by
  obtain ⟨i, s, hi, hid, hslot⟩ := exists_slot hrow hheld
  have hs := mem_of_getElem? hi
  have hd := (mem_decisions_overwrite vault s.item _).2 ⟨i, s, hi, rfl, rfl⟩
  rw [outcomeAt, hid, hheld, ← hid, hslot] at hd
  dsimp only at hd
  rw [if_pos rfl] at hd
  by_cases hkeys : s.keys = keysOf P e
  · obtain ⟨hfile, hitem, -⟩ := of_mem_survivors hs
    exact .inl ⟨s.item, hfile, hitem.symm.trans hkeys⟩
  · rw [if_neg hkeys] at hd
    exact .inr ⟨{ incoming := s.item, existing := e }, mem_updates_iff.2 hd, rfl⟩

/-- `overwrite` does nothing when the vault has every survivor under its own identity and no two
survivors share one. -/
theorem overwrite_noop {vault : List E}
    (hone : ∀ s ∈ survivors P file .overwrite none, ∀ t ∈ survivors P file .overwrite none,
      s.keys.identityKey = t.keys.identityKey → s = t)
    (hhas : ∀ s ∈ survivors P file .overwrite none, ∃ e,
      held P vault s.keys.identityKey = some e ∧ s.keys = keysOf P e) :
    (resolveImport P vault file .overwrite none).inserts = [] ∧
      (resolveImport P vault file .overwrite none).updates = [] := by
  have hunchanged : ∀ (i : ℕ) s, (survivors P file .overwrite none)[i]? = some s →
      outcomeAt P vault file s i = .unchanged := by
    intro i s hi
    have hs := mem_of_getElem? hi
    obtain ⟨e, hheld, hkeys⟩ := hhas s hs
    obtain ⟨hfile, hitem, -⟩ := of_mem_survivors hs
    obtain ⟨j, t, hj, hid, hslot⟩ := exists_slot hfile (by rw [← hitem, hheld])
    rw [← hitem] at hid
    obtain rfl := hone t (mem_of_getElem? hj) s hs hid
    have hij : i = j := (List.getElem?_inj (List.getElem?_eq_some_iff.1 hi).1 nodup_survivors).1
      (hi.trans hj.symm)
    rw [outcomeAt, hheld, hij]
    dsimp only
    rw [if_pos hslot, if_pos hkeys]
  refine ⟨eq_nil_iff_forall_not_mem.2 fun row hrow => ?_,
    eq_nil_iff_forall_not_mem.2 fun u hu => ?_⟩
  · obtain ⟨i, s, hi, -, hout⟩ := (mem_decisions_overwrite _ _ _).1 (mem_inserts_iff.1 hrow)
    rw [hunchanged i s hi] at hout
    cases hout
  · obtain ⟨i, s, hi, -, hout⟩ := (mem_decisions_overwrite _ _ _).1 (mem_updates_iff.1 hu)
    rw [hunchanged i s hi] at hout
    cases hout

end Decided

/-! ## What is stored after some operations -/

theorem forall₂_mem_left {α β : Type} {R : α → β → Prop} {l : List α} {l' : List β}
    (h : List.Forall₂ R l l') {a : α} (ha : a ∈ l) : ∃ b ∈ l', R a b := by
  induction h with
  | nil => cases ha
  | cons hr _ ih =>
    rcases mem_cons.1 ha with rfl | ha
    · exact ⟨_, mem_cons_self, hr⟩
    · obtain ⟨b, hb, hab⟩ := ih ha
      exact ⟨b, mem_cons_of_mem _ hb, hab⟩

section Grown

variable {vault vault' : List E} {rows : List I} {us : List (ResolvedUpdate I E)}

variable (P) in
/-- What became of an item under the updates `us`. -/
def Kept (us : List (ResolvedUpdate I E)) (e e' : E) : Prop :=
  Resolvable.id e' = Resolvable.id e ∧ isCandidate e' = isCandidate e ∧
    (e' = e ∧ (∀ u ∈ us, Resolvable.id u.existing ≠ Resolvable.id e) ∨
      ∃ u ∈ us, u.existing = e ∧ keysOf P e' = keysOf P u.incoming)

variable (P) in
/-- The vault `vault'` is `vault` after the inserts `rows` and the updates `us`. -/
def Grown (vault : List E) (rows : List I) (us : List (ResolvedUpdate I E)) (vault' : List E) :
    Prop :=
  ∃ kept added, vault' = kept ++ added ∧ List.Forall₂ (Kept P us) vault kept ∧
    added.map (keysOf P) = rows.map (keysOf P) ∧
    ∀ e ∈ added, isCandidate e = true ∧ ∀ old ∈ vault, Resolvable.id e ≠ Resolvable.id old

/-- Items have distinct ids. -/
def DistinctIds (vault : List E) : Prop := (vault.map Resolvable.id).Nodup

instance (vault : List E) : Decidable (DistinctIds vault) :=
  inferInstanceAs (Decidable (vault.map Resolvable.id).Nodup)

theorem DistinctIds.eq (h : DistinctIds vault) {a b : E} (ha : a ∈ vault) (hb : b ∈ vault)
    (hid : Resolvable.id a = Resolvable.id b) : a = b := inj_on_of_nodup_map h ha hb hid

theorem Grown.refl (vault : List E) : Grown P vault ([] : List I) [] vault :=
  ⟨vault, [], by simp, forall₂_same.2 fun e _ => ⟨rfl, rfl, .inl ⟨rfl, by simp⟩⟩, rfl, by simp⟩

theorem Grown.ids (h : List.Forall₂ (Kept P us) vault vault') :
    vault'.map Resolvable.id = vault.map Resolvable.id := by
  induction h with
  | nil => rfl
  | cons hk _ ih => rw [map_cons, map_cons, hk.1, ih]

variable (S : Storage P I E)

theorem Grown.insert (h : Grown P vault rows us vault') (row : I) :
    Grown P vault (rows ++ [row]) us (applyInsert S vault' row) := by
  obtain ⟨kept, added, rfl, hkept, hkeys, hadded⟩ := h
  refine ⟨kept, added ++ [S.create (kept ++ added) row], by simp [applyInsert], hkept, ?_, ?_⟩
  · simp [hkeys, S.keys_create]
  · intro e he
    rcases mem_append.1 he with he | he
    · exact hadded e he
    · rw [mem_singleton.1 he]
      refine ⟨S.isCandidate_create _ _, fun old hold => ?_⟩
      have hold' : Resolvable.id old ∈ kept.map Resolvable.id := by
        rw [Grown.ids hkept]
        exact mem_map_of_mem hold
      obtain ⟨old', hmem, hid⟩ := mem_map.1 hold'
      rw [← hid]
      exact S.id_create _ _ _ (mem_append_left _ hmem)

theorem Kept.update {e e' : E} (h : Kept P us e e') (u : ResolvedUpdate I E)
    (hu : Resolvable.id e = Resolvable.id u.existing → u.existing = e)
    (hlive : isCandidate u.existing = true) :
    Kept P (us ++ [u]) e
      (if Resolvable.id e' = Resolvable.id u.existing then S.replace e' u.incoming else e') := by
  obtain ⟨hid, hcand, hkeys⟩ := h
  split
  · rename_i htarget
    have he := hu (hid.symm.trans htarget)
    rw [he] at hlive
    refine ⟨(S.id_replace _ _).trans hid, ?_, .inr ⟨u, by simp, he, S.keys_replace _ _⟩⟩
    rw [S.isCandidate_replace _ _ (hcand.trans hlive), hlive]
  · rename_i hother
    refine ⟨hid, hcand, ?_⟩
    rcases hkeys with ⟨rfl, hnone⟩ | ⟨v, hv, htarget, hkeys⟩
    · refine .inl ⟨rfl, fun v hv => ?_⟩
      rcases mem_append.1 hv with hv | hv
      · exact hnone v hv
      · rw [mem_singleton.1 hv]
        exact Ne.symm hother
    · exact .inr ⟨v, mem_append_left _ hv, htarget, hkeys⟩

theorem Grown.update (hids : DistinctIds vault) (h : Grown P vault rows us vault')
    (u : ResolvedUpdate I E) (hu : u.existing ∈ vault) (hlive : isCandidate u.existing = true) :
    Grown P vault rows (us ++ [u]) (applyUpdate S vault' u) := by
  obtain ⟨kept, added, rfl, hkept, hkeys, hadded⟩ := h
  -- what was added has another id than the target
  have hsame : added.map (fun e => if Resolvable.id e = Resolvable.id u.existing then
      S.replace e u.incoming else e) = added := by
    exact (map_congr_left fun e he => if_neg ((hadded e he).2 _ hu)).trans (map_id' _)
  refine ⟨_, added, by rw [applyUpdate, map_append, hsame], ?_, hkeys, hadded⟩
  rw [forall₂_map_right_iff]
  refine forall₂_iff_zip.2 ⟨hkept.length_eq, fun {e e'} hmem => ?_⟩
  have hk : Kept P us e e' := (forall₂_iff_zip.1 hkept).2 hmem
  exact hk.update S u (fun hid => hids.eq hu (of_mem_zip hmem).1 hid.symm) hlive

theorem grown_inserts (vault : List E) (rows : List I) :
    Grown P vault rows ([] : List (ResolvedUpdate I E)) (rows.foldl (applyInsert S) vault) := by
  induction rows using reverseRecOn with
  | nil => exact Grown.refl vault
  | append_singleton rows row ih =>
    rw [foldl_append]
    exact ih.insert S row

/-- Inserts and then updates of items of the vault. -/
theorem grown_apply (hids : DistinctIds vault) (rows : List I) (us : List (ResolvedUpdate I E))
    (hus : ∀ u ∈ us, u.existing ∈ vault ∧ isCandidate u.existing = true) :
    Grown P vault rows us (us.foldl (applyUpdate S) (rows.foldl (applyInsert S) vault)) := by
  induction us using reverseRecOn with
  | nil => exact grown_inserts S vault rows
  | append_singleton us u ih =>
    rw [foldl_append]
    obtain ⟨hmem, hlive⟩ := hus u (by simp)
    exact (ih fun v hv => hus v (mem_append_left _ hv)).update S hids u hmem hlive

/-- Updates write rows of their target's identity. -/
def KeepsIdentity (P : Browser) (us : List (ResolvedUpdate I E)) : Prop :=
  ∀ u ∈ us, (keysOf P u.incoming).identityKey = (keysOf P u.existing).identityKey

theorem Kept.matchesKey {e e' : E} (h : Kept P us e e') (hus : KeepsIdentity P us) (key : Utf16) :
    matchesKey P key e' = matchesKey P key e := by
  obtain ⟨-, hcand, ⟨rfl, -⟩ | ⟨u, hu, rfl, hkeys⟩⟩ := h
  · rfl
  · rw [Import.matchesKey, Import.matchesKey, hcand, hkeys, hus u hu]

/-- Updates that keep identities leave the item under a key where it is. -/
theorem held_kept {kept : List E} (h : List.Forall₂ (Kept P us) vault kept)
    (hus : KeepsIdentity P us) (key : Utf16) :
    (∀ e, held P vault key = some e → ∃ e', held P kept key = some e' ∧ Kept P us e e') ∧
      (held P vault key = none → held P kept key = none) := by
  induction h with
  | nil => simp [held]
  | @cons e e' _ _ hk _ ih =>
    unfold held at ih ⊢
    rw [find?_cons, find?_cons, hk.matchesKey hus key]
    cases hm : matchesKey P key e with
    | true =>
      refine ⟨fun x hx => ?_, nofun⟩
      cases hx
      exact ⟨e', rfl, hk⟩
    | false => exact ih

namespace Grown

theorem held_of_held (h : Grown P vault rows us vault') (hus : KeepsIdentity P us) {key : Utf16}
    {e : E} (he : held P vault key = some e) :
    ∃ e', held P vault' key = some e' ∧ Kept P us e e' := by
  obtain ⟨kept, added, rfl, hkept, -⟩ := h
  obtain ⟨e', he', hk⟩ := (held_kept hkept hus key).1 e he
  refine ⟨e', ?_, hk⟩
  rw [held, find?_append, ← held, he', Option.some_or]

theorem rowKeys_of_held (h : Grown P vault rows us vault') (hus : KeepsIdentity P us) {key : Utf16}
    {e' : E} (hnone : held P vault key = none) (he' : held P vault' key = some e') :
    keysOf P e' ∈ rowKeys P rows := by
  obtain ⟨kept, added, rfl, hkept, hkeys, -⟩ := h
  have hkn := (held_kept hkept hus key).2 hnone
  rw [held, find?_append, ← held, hkn, Option.none_or] at he'
  have hmem : keysOf P e' ∈ added.map (keysOf P) :=
    mem_map_of_mem (mem_of_find?_eq_some he')
  rw [hkeys] at hmem
  exact mem_map.1 hmem

/-- An item is an old one, perhaps updated, or has the keys of an inserted row. -/
theorem cases_of_mem (h : Grown P vault rows us vault') {e' : E} (he' : e' ∈ vault') :
    (∃ e ∈ vault, Kept P us e e') ∨ keysOf P e' ∈ rowKeys P rows := by
  obtain ⟨kept, added, rfl, hkept, hkeys, -⟩ := h
  rcases mem_append.1 he' with hmem | hmem
  · obtain ⟨e, he, hk⟩ := forall₂_mem_left hkept.flip hmem
    exact .inl ⟨e, he, hk⟩
  · have : keysOf P e' ∈ added.map (keysOf P) := mem_map_of_mem hmem
    rw [hkeys] at this
    exact .inr (mem_map.1 this)

theorem exists_kept (h : Grown P vault rows us vault') {e : E} (he : e ∈ vault) :
    ∃ e' ∈ vault', Kept P us e e' := by
  obtain ⟨kept, added, rfl, hkept, -⟩ := h
  obtain ⟨e', he', hk⟩ := forall₂_mem_left hkept he
  exact ⟨e', mem_append_left _ he', hk⟩

theorem rowKeys_subset (h : Grown P vault rows us vault') :
    rowKeys P rows ⊆ contents P vault' := by
  obtain ⟨kept, added, rfl, hkept, hkeys, hadded⟩ := h
  intro keys hrow
  have : keys ∈ rows.map (keysOf P) := mem_map.2 hrow
  rw [← hkeys] at this
  obtain ⟨e, he, rfl⟩ := mem_map.1 this
  exact ⟨e, mem_append_right _ he, (hadded e he).1, rfl⟩

/-- Two items of the grown vault that both come from one old item are the same. -/
theorem kept_unique (h : Grown P vault rows us vault') (hids : DistinctIds vault) {e a b : E}
    (he : e ∈ vault) (ha : a ∈ vault') (hb : b ∈ vault') (hka : Kept P us e a)
    (hkb : Kept P us e b) : a = b := by
  obtain ⟨kept, added, rfl, hkept, hkeys, hadded⟩ := h
  have hin : ∀ {x}, x ∈ kept ++ added → Kept P us e x → x ∈ kept := fun hx hk =>
    (mem_append.1 hx).resolve_right fun hx => (hadded _ hx).2 e he hk.1
  have hkids : DistinctIds kept := by
    rw [DistinctIds, Grown.ids hkept]
    exact hids
  exact hkids.eq (hin ha hka) (hin hb hkb) (hka.1.trans hkb.1.symm)

end Grown

end Grown

/-! ## A second import of the file -/

section Second

variable (S : Storage P I E) {vault : List E} {file : List I}

variable {strategy : ConflictStrategy}

theorem keepsIdentity_updates :
    KeepsIdentity P (resolveImport P vault file strategy none).updates := fun _ hu =>
  (of_held (held_of_mem_updates hu).2).2.2.symm

theorem live_of_mem_updates :
    ∀ u ∈ (resolveImport P vault file strategy none).updates,
      u.existing ∈ vault ∧ isCandidate u.existing = true := fun _ hu =>
  let held := of_held (held_of_mem_updates hu).2
  ⟨held.1, held.2.1⟩

variable (file) in
theorem grown_applyResolution (hids : DistinctIds vault) (strategy : ConflictStrategy) :
    Grown P vault (resolveImport P vault file strategy none).inserts
      (resolveImport P vault file strategy none).updates
      (applyResolution S vault (resolveImport P vault file strategy none)) :=
  grown_apply S hids _ _ live_of_mem_updates

/-- Updates never meet in a target. -/
theorem eq_of_existing_eq {u v : ResolvedUpdate I E}
    (hu : u ∈ (resolveImport P vault file strategy none).updates)
    (hv : v ∈ (resolveImport P vault file strategy none).updates) (h : u.existing = v.existing) :
    u = v :=
  inj_on_of_nodup_map (nodup_targets P vault file strategy none) hu hv (by rw [h])

/-- After an `overwrite`, what the vault has under an identity of the file is a row of it. -/
theorem rowKeys_of_held_overwrite (hids : DistinctIds vault) {row : I} (hrow : row ∈ file) {e' : E}
    (he' : held P (applyResolution S vault (resolveImport P vault file .overwrite none))
      (keysOf P row).identityKey = some e') : keysOf P e' ∈ rowKeys P file := by
  have hgrown := grown_applyResolution S file hids .overwrite
  cases hheld : held P vault (keysOf P row).identityKey with
  | none =>
    obtain ⟨r, hr, hkeys⟩ := hgrown.rowKeys_of_held keepsIdentity_updates hheld he'
    exact ⟨r, inserts_subset hr, hkeys⟩
  | some e =>
    obtain ⟨e'', he'', hk⟩ := hgrown.held_of_held keepsIdentity_updates hheld
    obtain rfl := Option.some.inj (he'.symm.trans he'')
    rcases hk.2.2 with ⟨rfl, hnone⟩ | ⟨u, hu, -, hkeys⟩
    · rcases settled hrow hheld with hkeys | ⟨u, hu, rfl⟩
      · exact hkeys
      · exact (hnone u hu rfl).elim
    · exact ⟨u.incoming, (held_of_mem_updates hu).1, hkeys.symm⟩

/-- After an `overwrite` every row of the file is stored. -/
theorem rowKeys_subset_overwrite (hids : DistinctIds vault) :
    rowKeys P file ⊆
      contents P (applyResolution S vault (resolveImport P vault file .overwrite none)) := by
  have hgrown := grown_applyResolution S file hids .overwrite
  rintro _ ⟨row, hrow, rfl⟩
  obtain ⟨s, hs, hkeys⟩ := exists_mem_survivors hrow .overwrite
  rw [← hkeys]
  have hitem := (of_mem_survivors hs).2.1
  rcases overwrite_cases vault hs with hins | ⟨e, hheld, hu | ⟨hkeys, hnone⟩⟩
  · exact hgrown.rowKeys_subset ⟨s.item, hins, hitem.symm⟩
  · obtain ⟨hmem, hcand, -⟩ := of_held hheld
    obtain ⟨e', he', hid, hcand', hk⟩ := hgrown.exists_kept hmem
    refine ⟨e', he', hcand'.trans hcand, ?_⟩
    rcases hk with ⟨rfl, hnone⟩ | ⟨v, hv, htarget, hkeys⟩
    · exact (hnone _ hu rfl).elim
    · obtain rfl := eq_of_existing_eq hv hu htarget
      rw [hkeys, hitem]
  · obtain ⟨hmem, hcand, hid⟩ := of_held hheld
    obtain ⟨e', he', -, hcand', hk⟩ := hgrown.exists_kept hmem
    refine ⟨e', he', hcand'.trans hcand, ?_⟩
    rcases hk with ⟨rfl, -⟩ | ⟨v, hv, rfl, -⟩
    · exact hkeys.symm
    · exact (hnone v hv ((keepsIdentity_updates v hv).trans hid)).elim

/-- **A file imported twice.** The second import decides no insert and no update exactly when
the strategy is `skip` or no two rows of the file share an identity with different contents. -/
theorem second_import_noop_iff (hids : DistinctIds vault) (strategy : ConflictStrategy)
    (hs : strategy ≠ .keepBoth) :
    let again := resolveImport P
      (applyResolution S vault (resolveImport P vault file strategy none)) file strategy none
    (again.inserts = [] ∧ again.updates = []) ↔
      strategy = .skip ∨ OneContent P (fun _ => True) file := by
  cases strategy with
  | keepBoth => exact (hs rfl).elim
  | skip =>
    refine ⟨fun _ => .inl rfl, fun _ => ⟨?_, updates_eq_nil P _ file .skip none (by decide)⟩⟩
    rw [inserts_skip, map_eq_nil_iff, filter_eq_nil_iff]
    intro s hs
    rw [Option.isNone_iff_eq_none, ← ne_eq, ← Option.isSome_iff_ne_none]
    have hgrown := grown_applyResolution S file hids .skip
    cases hheld : held P vault s.keys.identityKey with
    | some e =>
      obtain ⟨e', he', -⟩ := hgrown.held_of_held keepsIdentity_updates hheld
      rw [he']
      rfl
    | none =>
      refine held_isSome_iff.2 ⟨s.keys, hgrown.rowKeys_subset ⟨s.item, ?_, ?_⟩, rfl⟩
      · rw [inserts_skip]
        exact mem_map_of_mem (mem_filter.2 ⟨hs, by rw [hheld]; rfl⟩)
      · exact (of_mem_survivors hs).2.1.symm
  | overwrite =>
    constructor
    · rintro ⟨hinserts, -⟩
      refine .inr fun a ha b hb _ hid => ?_
      obtain ⟨s, hs, hskeys⟩ := exists_mem_survivors ha .overwrite
      obtain ⟨t, ht, htkeys⟩ := exists_mem_survivors (P := P) hb .overwrite
      by_contra hcontent
      refine inserts_ne_nil _ hs ht ?_ (by rw [hskeys, htkeys, hid]) hinserts
      rintro rfl
      exact hcontent (by rw [← hskeys, htkeys])
    · rintro (h | hone)
      · cases h
      refine overwrite_noop (fun s hs t ht hid => ?_) fun s hs => ?_
      · obtain ⟨hsfile, hsitem, -⟩ := of_mem_survivors hs
        obtain ⟨htfile, htitem, -⟩ := of_mem_survivors ht
        refine survivors_keys_injective (positioned_keyIncoming P none file) (by decide) hs ht
          (ItemKeys.eq_of hid ?_)
        rw [hsitem, htitem] at hid ⊢
        exact hone _ hsfile _ htfile trivial hid
      · obtain ⟨hfile, hitem, -⟩ := of_mem_survivors hs
        have hin := rowKeys_subset_overwrite S hids ⟨s.item, hfile, rfl⟩
        obtain ⟨e', he'⟩ := Option.isSome_iff_exists.1 (held_isSome_iff.2 ⟨_, hin, rfl⟩)
        obtain ⟨row, hrow, hkeys⟩ := rowKeys_of_held_overwrite S hids hfile he'
        rw [hitem]
        refine ⟨e', he', ?_⟩
        have hid : (keysOf P s.item).identityKey = (keysOf P row).identityKey := by
          rw [hkeys, (of_held he').2.2]
        rw [← hkeys]
        exact ItemKeys.eq_of hid (hone _ hfile _ hrow trivial hid)

/-- An import over a vault that has the login with another password is a no-op the second
time. -/
theorem second_import_noop_example :
    let again := resolveImport exampleBrowser
      (applyResolution (plainStorage exampleBrowser) exampleVault
        (resolveImport exampleBrowser exampleVault [exampleLogin "two"] .overwrite none))
      [exampleLogin "two"] .overwrite none
    again.inserts = [] ∧ again.updates = [] := by
  refine (second_import_noop_iff (plainStorage exampleBrowser) (by decide) .overwrite
    (by decide)).2 (.inr fun a ha b hb _ _ => ?_)
  rw [mem_singleton.1 ha, mem_singleton.1 hb]

/-- Two logins of one site and username with different passwords, imported into an empty vault:
the second `overwrite` inserts one of them again. -/
theorem second_overwrite_inserts :
    let file := [exampleLogin "one", exampleLogin "two"]
    let again := resolveImport exampleBrowser
      (applyResolution (plainStorage exampleBrowser) []
        (resolveImport exampleBrowser [] file .overwrite none)) file .overwrite none
    ¬ (again.inserts = [] ∧ again.updates = []) := by
  intro file again h
  have hlength : again.inserts.length = 1 := by decide +kernel
  rw [h.1] at hlength
  cases hlength

end Second

end HVault.Import
