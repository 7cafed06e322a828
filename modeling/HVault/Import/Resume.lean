import HVault.Import.Rerun

/-!
# Resuming an import that stopped between two batches

`chunkImportOperations` slices the operations of a resolution in order, so the batches that
landed are a prefix of its inserts, or all inserts and a prefix of its updates.

Under `overwrite` an import ends in the items it did not match and the rows of the file, and
what landed before does not change that. Under `skip` a row may meet the landed copy of another
row with its identity and be dropped.
-/

namespace HVault.Import

open List ItemIdentity
open Json (units)

variable {I E : Type} [Identified I] [Resolvable E] {P : Browser}

section Landed

variable (S : Storage P I E)

/-- The vault after one operation. -/
def applyOperation (vault : List E) : Operation I (ResolvedUpdate I E) → List E
  | .insert row => applyInsert S vault row
  | .update change => applyUpdate S vault change

/-- Whether an operation updates. -/
def Operation.IsUpdate : Operation I (ResolvedUpdate I E) → Prop
  | .insert _ => False
  | .update _ => True

/-- No insert follows an update. -/
def InsertsFirst (ops : List (Operation I (ResolvedUpdate I E))) : Prop :=
  ops.Pairwise fun a b => a.IsUpdate → b.IsUpdate

omit [Identified I] [Resolvable E] in
theorem insertsFirst_operationStream (inserts : List I) (updates : List (ResolvedUpdate I E)) :
    InsertsFirst (operationStream inserts updates) := by
  refine pairwise_append.2 ⟨?_, ?_, ?_⟩
  · exact pairwise_map.2 (pairwise_of_forall fun _ _ h => h.elim)
  · exact pairwise_map.2 (pairwise_of_forall fun _ _ _ => trivial)
  · rintro _ hins _ -
    obtain ⟨row, -, rfl⟩ := mem_map.1 hins
    exact fun h => h.elim

variable (vault : List E)

/-- A batch without an insert after an update is its operations, one by one. -/
theorem applyBatch_ofStream {ops : List (Operation I (ResolvedUpdate I E))} (h : InsertsFirst ops) :
    applyBatch S vault (.ofStream ops) = ops.foldl (applyOperation S) vault := by
  induction ops generalizing vault with
  | nil => rfl
  | cons op rest ih =>
    obtain ⟨hop, hrest⟩ := pairwise_cons.1 h
    rw [foldl_cons, ← ih _ hrest]
    cases op with
    | insert row => rfl
    | update change =>
      have hnone : (OperationBatch.ofStream rest).inserts = [] := by
        rw [OperationBatch.ofStream, filterMap_eq_nil_iff]
        rintro (row | change') hmem
        · exact (hop _ hmem trivial).elim
        · rfl
      have hsame : (OperationBatch.ofStream (.update change :: rest)).inserts = [] := hnone
      rw [applyBatch, applyBatch, hnone, hsame]
      rfl

theorem foldl_applyBatch (batches : List (List (Operation I (ResolvedUpdate I E))))
    (h : InsertsFirst batches.flatten) :
    (batches.map .ofStream).foldl (applyBatch S) vault =
      batches.flatten.foldl (applyOperation S) vault := by
  induction batches generalizing vault with
  | nil => rfl
  | cons batch rest ih =>
    rw [flatten_cons] at h
    obtain ⟨hbatch, hrest, -⟩ := pairwise_append.1 h
    rw [map_cons, foldl_cons, applyBatch_ofStream S vault hbatch, ih _ hrest,
      flatten_cons, foldl_append]

theorem foldl_operationStream (inserts : List I) (updates : List (ResolvedUpdate I E)) :
    (operationStream inserts updates).foldl (applyOperation S) vault =
      updates.foldl (applyUpdate S) (inserts.foldl (applyInsert S) vault) := by
  rw [operationStream, foldl_append, foldl_map, foldl_map]
  rfl

/-- The vault after the first `n` batches of a resolution. -/
def landed (size : Operation I (ResolvedUpdate I E) → ℕ) (maxBytes maxCount n : ℕ) (vault : List E)
    (r : ImportResolution I E) : List E :=
  ((chunkImportOperations size maxBytes maxCount r.inserts r.updates).take n).foldl
    (applyBatch S) vault

/-- What landed is a prefix of the inserts, and a prefix of the updates when all inserts did. -/
theorem landed_eq (size : Operation I (ResolvedUpdate I E) → ℕ) (maxBytes maxCount n : ℕ) (vault : List E)
    (r : ImportResolution I E) :
    ∃ m, landed S size maxBytes maxCount n vault r =
      (r.updates.take (m - r.inserts.length)).foldl (applyUpdate S)
        ((r.inserts.take m).foldl (applyInsert S) vault) := by
  have hflat := flatten_chunkBySize size maxBytes maxCount (operationStream r.inserts r.updates)
  have hordered := insertsFirst_operationStream r.inserts r.updates
  rw [landed, chunkImportOperations, ← map_take]
  generalize chunkBySize size maxBytes maxCount (operationStream r.inserts r.updates) = batches at *
  have hprefix : (batches.take n).flatten <+: operationStream r.inserts r.updates := by
    refine ⟨(batches.drop n).flatten, ?_⟩
    rw [← flatten_append, take_append_drop, hflat]
  rw [foldl_applyBatch S vault _ (hordered.sublist hprefix.sublist), prefix_iff_eq_take.1 hprefix]
  refine ⟨(batches.take n).flatten.length, ?_⟩
  generalize (batches.take n).flatten.length = m
  have htake : (operationStream r.inserts r.updates).take m =
      operationStream (r.inserts.take m) (r.updates.take (m - r.inserts.length)) := by
    simp only [operationStream, take_append, map_take, length_map]
  rw [htake, foldl_operationStream]

/-- With one operation a batch, every prefix of the inserts can be what landed. -/
theorem landed_one (size : Operation I (ResolvedUpdate I E) → ℕ) (maxBytes : ℕ) (vault : List E)
    (r : ImportResolution I E) {n : ℕ} (hn : n ≤ r.inserts.length) :
    landed S size maxBytes 1 n vault r = (r.inserts.take n).foldl (applyInsert S) vault := by
  have htake : ((operationStream r.inserts r.updates).map ([·])).take n =
      (((r.inserts.take n).map Operation.insert).map ([·]) : List (List (Operation I (ResolvedUpdate I E)))) := by
    rw [← map_take, operationStream, take_append_of_le_length (by simpa using hn),
      ← map_take]
  rw [landed, chunkImportOperations, chunkBySize_one, ← map_take, htake]
  have hflat : ∀ l : List (Operation I (ResolvedUpdate I E)), (l.map ([·])).flatten = l := fun l => by
    induction l with
    | nil => rfl
    | cons a rest ih => simp [ih]
  rw [foldl_applyBatch, hflat, foldl_map]
  · rfl
  · rw [hflat]
    refine pairwise_map.2 (pairwise_of_forall fun _ _ h => h.elim)

end Landed

/-! ## Ids -/

section Ids

variable (S : Storage P I E) {vault : List E}

theorem DistinctIds.insert (h : DistinctIds vault) (row : I) :
    DistinctIds (applyInsert S vault row) := by
  rw [DistinctIds, applyInsert, map_append]
  refine nodup_append.2 ⟨h, by simp, fun a ha b hb => ?_⟩
  obtain ⟨e, he, rfl⟩ := mem_map.1 ha
  rw [map_cons, map_nil, mem_singleton] at hb
  rw [hb]
  exact (S.id_create vault row e he).symm

theorem DistinctIds.update (h : DistinctIds vault) (u : ResolvedUpdate I E) :
    DistinctIds (applyUpdate S vault u) := by
  have hsame : (applyUpdate S vault u).map Resolvable.id = vault.map Resolvable.id := by
    rw [applyUpdate, map_map]
    refine map_congr_left fun e _ => ?_
    rw [Function.comp_apply]
    split
    · exact S.id_replace _ _
    · rfl
  rw [DistinctIds, hsame]
  exact h

theorem DistinctIds.apply (h : DistinctIds vault) (rows : List I) (us : List (ResolvedUpdate I E)) :
    DistinctIds (us.foldl (applyUpdate S) (rows.foldl (applyInsert S) vault)) := by
  have hrows : DistinctIds (rows.foldl (applyInsert S) vault) := by
    induction rows generalizing vault with
    | nil => exact h
    | cons row rest ih => exact ih (h.insert S row)
  generalize rows.foldl (applyInsert S) vault = inserted at hrows
  induction us generalizing inserted with
  | nil => exact hrows
  | cons u rest ih => exact ih _ (hrows.update S u)

end Ids

/-! ## Overwrite -/

section Overwrite

variable (S : Storage P I E) {vault vault' : List E} {file : List I}

variable (P) in
/-- The keys of the live items that are not the match of any row of the file. -/
def unmatched (file : List I) (vault : List E) : Set ItemKeys :=
  {keys | ∃ e ∈ vault, isCandidate e = true ∧ keysOf P e = keys ∧
    ∀ row ∈ file, held P vault (keysOf P row).identityKey ≠ some e}

/-- An `overwrite` ends in what the file does not match and the rows of the file. -/
theorem contents_overwrite (hids : DistinctIds vault) :
    contents P (applyResolution S vault (resolveImport P vault file .overwrite none)) =
      unmatched P file vault ∪ rowKeys P file := by
  have hgrown := grown_applyResolution S file hids .overwrite
  apply Set.Subset.antisymm
  · rintro _ ⟨e', he', hlive, rfl⟩
    rcases hgrown.cases_of_mem he' with ⟨e, he, -, hcand, ⟨rfl, hnone⟩ | ⟨u, hu, -, hkeys⟩⟩ | hrow
    · by_cases hslot : ∃ row ∈ file, held P vault (keysOf P row).identityKey = some e'
      · obtain ⟨row, hrow, hheld⟩ := hslot
        rcases settled hrow hheld with hkeys | ⟨u, hu, rfl⟩
        · exact .inr hkeys
        · exact (hnone u hu rfl).elim
      · exact .inl ⟨e', he, hlive, rfl, fun row hrow hheld => hslot ⟨row, hrow, hheld⟩⟩
    · exact .inr ⟨u.incoming, (held_of_mem_updates hu).1, hkeys.symm⟩
    · obtain ⟨row, hrow, hkeys⟩ := hrow
      exact .inr ⟨row, inserts_subset hrow, hkeys⟩
  · refine Set.union_subset ?_ (rowKeys_subset_overwrite S hids)
    rintro _ ⟨e, he, hlive, rfl, hother⟩
    obtain ⟨e', he', -, hcand, ⟨rfl, -⟩ | ⟨u, hu, rfl, -⟩⟩ := hgrown.exists_kept he
    · exact ⟨e', he', hlive, rfl⟩
    · obtain ⟨hfile, hheld⟩ := held_of_mem_updates hu
      exact (hother _ hfile hheld).elim

/-- Operations of the file change what it does not match only by rows of the file. -/
theorem unmatched_grown {rows : List I} {us : List (ResolvedUpdate I E)}
    (hgrown : Grown P vault rows us vault') (hids : DistinctIds vault)
    (hrows : rows ⊆ file) (hus : ∀ u ∈ us, u.incoming ∈ file ∧
      held P vault (keysOf P u.incoming).identityKey = some u.existing) :
    unmatched P file vault' ∪ rowKeys P file = unmatched P file vault ∪ rowKeys P file := by
  have hidentity : KeepsIdentity P us := fun u hu => (of_held (hus u hu).2).2.2.symm
  apply Set.Subset.antisymm
  · refine Set.union_subset ?_ Set.subset_union_right
    rintro _ ⟨e', he', hlive, rfl, hother⟩
    rcases hgrown.cases_of_mem he' with ⟨e, he, hk⟩ | ⟨row, hrow, hkeys⟩
    · rcases hk.2.2 with ⟨rfl, -⟩ | ⟨u, hu, -, hkeys⟩
      · refine .inl ⟨e', he, hlive, rfl, fun row hrow hheld => ?_⟩
        -- the match of a row stays its match
        obtain ⟨e'', he'', hk''⟩ := hgrown.held_of_held hidentity hheld
        obtain rfl := hgrown.kept_unique hids he he' (of_held he'').1 hk hk''
        exact hother row hrow he''
      · exact .inr ⟨u.incoming, (hus u hu).1, hkeys.symm⟩
    · exact .inr ⟨row, hrows hrow, hkeys⟩
  · refine Set.union_subset ?_ Set.subset_union_right
    rintro _ ⟨e, he, hlive, rfl, hother⟩
    obtain ⟨e', he', hid, hcand, ⟨rfl, -⟩ | ⟨u, hu, rfl, -⟩⟩ := hgrown.exists_kept he
    · refine .inl ⟨e', he', hlive, rfl, fun row hrow hheld => ?_⟩
      have hkey := (of_held hheld).2.2
      obtain ⟨e₀, he₀⟩ := Option.isSome_iff_exists.1
        (held_isSome_iff.2 ⟨keysOf P e', ⟨e', he, hlive, rfl⟩, hkey⟩)
      obtain ⟨e₁, he₁, hk⟩ := hgrown.held_of_held hidentity he₀
      obtain rfl := Option.some.inj (hheld.symm.trans he₁)
      obtain rfl := hids.eq he (of_held he₀).1 hk.1
      exact hother row hrow he₀
    · exact (hother _ (hus u hu).1 (hus u hu).2).elim

end Overwrite

/-! ## Skip -/

section Skip

variable (S : Storage P I E) {vault : List E} {file : List I}

/-- A `skip` adds its inserts to the contents. -/
theorem contents_inserts (vault : List E) (rows : List I) :
    contents P (rows.foldl (applyInsert S) vault) = contents P vault ∪ rowKeys P rows := by
  have hgrown := grown_inserts S vault rows
  apply Set.Subset.antisymm
  · rintro _ ⟨e', he', hlive, rfl⟩
    rcases hgrown.cases_of_mem he' with ⟨e, he, -, hcand, ⟨rfl, -⟩ | ⟨u, hu, -⟩⟩ | hrow
    · exact .inl ⟨e', he, hlive, rfl⟩
    · cases hu
    · exact .inr hrow
  · refine Set.union_subset ?_ hgrown.rowKeys_subset
    rintro _ ⟨e, he, hlive, rfl⟩
    obtain ⟨e', he', -, -, ⟨rfl, -⟩ | ⟨u, hu, -⟩⟩ := hgrown.exists_kept he
    · exact ⟨e', he', hlive, rfl⟩
    · cases hu

theorem contents_skip :
    contents P (applyResolution S vault (resolveImport P vault file .skip none)) =
      contents P vault ∪ rowKeys P (resolveImport P vault file .skip none).inserts := by
  rw [applyResolution, applyBatch, updates_eq_nil P vault file .skip none (by decide)]
  exact contents_inserts S vault _

/-- The keys `skip` inserts are those of the rows with an identity new to the vault. -/
theorem rowKeys_inserts_skip (vault : List E) :
    rowKeys P (resolveImport P vault file .skip none).inserts =
      {keys | keys ∈ rowKeys P file ∧ held P vault keys.identityKey = none} := by
  ext keys
  rw [inserts_skip]
  constructor
  · rintro ⟨_, hrow, rfl⟩
    obtain ⟨s, hs, rfl⟩ := mem_map.1 hrow
    obtain ⟨hs, hnone⟩ := mem_filter.1 hs
    obtain ⟨hfile, hitem, -⟩ := of_mem_survivors hs
    rw [hitem, Option.isNone_iff_eq_none] at hnone
    exact ⟨⟨s.item, hfile, rfl⟩, hnone⟩
  · rintro ⟨⟨row, hrow, rfl⟩, hnone⟩
    obtain ⟨s, hs, hkeys⟩ := exists_mem_survivors hrow .skip
    refine ⟨s.item, mem_map_of_mem (mem_filter.2 ⟨hs, ?_⟩), ?_⟩
    · rw [hkeys, hnone]
      rfl
    · rw [← (of_mem_survivors hs).2.1, hkeys]

theorem nodup_keys_inserts_skip :
    ((resolveImport P vault file .skip none).inserts.map (keysOf P)).Nodup := by
  rw [inserts_skip, map_map]
  refine List.Nodup.map_on (fun s hs t ht h => ?_) (nodup_survivors.filter _)
  have hs := (mem_filter.1 hs).1
  have ht := (mem_filter.1 ht).1
  refine survivors_keys_injective (positioned_keyIncoming P none file) (by decide) hs ht ?_
  rw [(of_mem_survivors hs).2.1, (of_mem_survivors ht).2.1]
  exact h

/-- Resuming a `skip` import whose first inserts landed is harmless when no two new rows share
an identity with different contents. -/
theorem contents_resume_skip (hone : OneContent P (fun key => held P vault key = none) file)
    {rows : List I} (hrows : rows ⊆ (resolveImport P vault file .skip none).inserts) :
    contents P (rows.foldl (applyInsert S) vault) ∪ {keys | keys ∈ rowKeys P file ∧
        held P (rows.foldl (applyInsert S) vault) keys.identityKey = none} =
      contents P vault ∪ {keys | keys ∈ rowKeys P file ∧ held P vault keys.identityKey = none} := by
  have hcontents := contents_inserts S vault rows
  have hnew : rowKeys P rows ⊆
      {keys | keys ∈ rowKeys P file ∧ held P vault keys.identityKey = none} := by
    rw [← rowKeys_inserts_skip]
    rintro _ ⟨row, hrow, rfl⟩
    exact ⟨row, hrows hrow, rfl⟩
  have hheld : ∀ key, held P (rows.foldl (applyInsert S) vault) key = none ↔
      held P vault key = none ∧ ∀ keys ∈ rowKeys P rows, keys.identityKey ≠ key := by
    intro key
    simp only [← Option.not_isSome_iff_eq_none, held_isSome_iff, hcontents, Set.mem_union]
    constructor
    · exact fun h => ⟨fun ⟨keys, hk, hid⟩ => h ⟨keys, .inl hk, hid⟩,
        fun keys hk hid => h ⟨keys, .inr hk, hid⟩⟩
    · rintro ⟨hold, hrow⟩ ⟨keys, hk | hk, hid⟩
      · exact hold ⟨keys, hk, hid⟩
      · exact hrow keys hk hid
  rw [hcontents]
  apply Set.Subset.antisymm
  · refine Set.union_subset (Set.union_subset_union_right _ hnew) ?_
    rintro keys ⟨hfile, hnone⟩
    exact .inr ⟨hfile, ((hheld _).1 hnone).1⟩
  · refine Set.union_subset (Set.subset_union_left.trans Set.subset_union_left) ?_
    rintro keys ⟨⟨row, hrow, rfl⟩, hnone⟩
    by_cases hlanded : ∀ keys ∈ rowKeys P rows, keys.identityKey ≠ (keysOf P row).identityKey
    · exact .inr ⟨⟨row, hrow, rfl⟩, (hheld _).2 ⟨hnone, hlanded⟩⟩
    · push Not at hlanded
      obtain ⟨keys, hkeys, hid⟩ := hlanded
      obtain ⟨⟨other, hother, rfl⟩, -⟩ := hnew hkeys
      have heq : keysOf P row = keysOf P other :=
        ItemKeys.eq_of hid.symm (hone row hrow other hother hnone hid.symm)
      exact .inl (.inr (heq ▸ hkeys))

/-- Of two inserts with one identity, the later is lost when the import stops between them. -/
theorem skip_loses {i j : ℕ} {a b : I} (hij : i < j)
    (ha : (resolveImport P vault file .skip none).inserts[i]? = some a)
    (hb : (resolveImport P vault file .skip none).inserts[j]? = some b)
    (hid : (keysOf P a).identityKey = (keysOf P b).identityKey) (size : Operation I (ResolvedUpdate I E) → ℕ)
    (maxBytes : ℕ) :
    let stopped := landed S size maxBytes 1 (i + 1) vault (resolveImport P vault file .skip none)
    contents P (applyResolution S stopped (resolveImport P stopped file .skip none)) ≠
      contents P (applyResolution S vault (resolveImport P vault file .skip none)) := by
  obtain ⟨hj, hbj⟩ := List.getElem?_eq_some_iff.1 hb
  have hbnew : keysOf P b ∈ rowKeys P (resolveImport P vault file .skip none).inserts :=
    ⟨b, mem_of_getElem? hb, rfl⟩
  have hbnone : held P vault (keysOf P b).identityKey = none := by
    rw [rowKeys_inserts_skip] at hbnew
    exact hbnew.2
  intro stopped heq
  rw [contents_skip S, contents_skip S, rowKeys_inserts_skip stopped] at heq
  have hstopped : stopped = ((resolveImport P vault file .skip none).inserts.take (i + 1)).foldl
      (applyInsert S) vault := landed_one S size maxBytes vault _ (by omega)
  have hcontents := contents_inserts S vault
    ((resolveImport P vault file .skip none).inserts.take (i + 1))
  rw [← hstopped] at hcontents
  have hin : keysOf P b ∈ contents P vault ∪ rowKeys P (resolveImport P vault file .skip none).inserts :=
    .inr hbnew
  rw [← heq, hcontents] at hin
  rcases hin with (hold | ⟨c, hc, hkeys⟩) | ⟨-, hnone⟩
  · have hsome := held_isSome_iff.2 ⟨_, hold, rfl⟩
    rw [hbnone] at hsome
    cases hsome
  · -- the keys of the inserts are distinct, so `b` is not among the first `i + 1`
    obtain ⟨k, hk⟩ := mem_iff_getElem?.1 hc
    rw [List.getElem?_take] at hk
    split at hk
    · have hkj : k = j := by
        refine (List.getElem?_inj (l := (resolveImport P vault file .skip none).inserts.map (keysOf P))
          ?_ nodup_keys_inserts_skip).1 ?_
        · rw [length_map]
          omega
        · rw [List.getElem?_map, List.getElem?_map, hk, hb, Option.map_some, Option.map_some, hkeys]
      omega
    · cases hk
  · have hsome : (held P stopped (keysOf P b).identityKey).isSome := by
      refine held_isSome_iff.2 ⟨keysOf P a, ?_, hid⟩
      rw [hcontents]
      refine .inr ⟨a, mem_of_getElem? (i := i) ?_, rfl⟩
      rw [List.getElem?_take, if_pos (by omega), ha]
    rw [hnone] at hsome
    cases hsome

end Skip

/-! ## Resuming -/

/-- **Resuming a stopped import.** Whatever the batches are and whichever first ones landed,
importing the file again ends in the contents of one whole import exactly when the strategy is
`overwrite` or no two rows of identities new to the vault share an identity with different
contents. -/
theorem resume_exact_iff (S : Storage P I E) {vault : List E} (hids : DistinctIds vault)
    (file : List I) {strategy : ConflictStrategy} (hs : strategy ≠ .keepBoth) :
    (∀ (size : Operation I (ResolvedUpdate I E) → ℕ) (maxBytes maxCount n : ℕ),
      let stopped := landed S size maxBytes maxCount n vault
        (resolveImport P vault file strategy none)
      contents P (applyResolution S stopped (resolveImport P stopped file strategy none)) =
        contents P (applyResolution S vault (resolveImport P vault file strategy none))) ↔
      strategy = .overwrite ∨ OneContent P (fun key => held P vault key = none) file := by
  cases strategy with
  | keepBoth => exact (hs rfl).elim
  | overwrite =>
    refine ⟨fun _ => .inl rfl, fun _ size maxBytes maxCount n => ?_⟩
    obtain ⟨m, hm⟩ := landed_eq S size maxBytes maxCount n vault
      (resolveImport P vault file .overwrite none)
    dsimp only
    rw [hm]
    have hgrown := grown_apply S hids ((resolveImport P vault file .overwrite none).inserts.take m)
      ((resolveImport P vault file .overwrite none).updates.take
        (m - (resolveImport P vault file .overwrite none).inserts.length))
      fun u hu => live_of_mem_updates u (mem_of_mem_take hu)
    rw [contents_overwrite S (hids.apply S _ _), contents_overwrite S hids]
    exact unmatched_grown hgrown hids (fun row hrow => inserts_subset (mem_of_mem_take hrow))
      fun u hu => held_of_mem_updates (mem_of_mem_take hu)
  | skip =>
    constructor
    · intro h
      refine .inr fun a ha b hb hnone hid => ?_
      have hmem : ∀ {row : I}, row ∈ file → held P vault (keysOf P row).identityKey = none →
          ∃ (i : ℕ) (c : I), (resolveImport P vault file .skip none).inserts[i]? = some c ∧
            keysOf P c = keysOf P row := by
        intro row hrow hnew
        have hkeys : keysOf P row ∈ rowKeys P (resolveImport P vault file .skip none).inserts := by
          rw [rowKeys_inserts_skip]
          exact ⟨⟨row, hrow, rfl⟩, hnew⟩
        obtain ⟨c, hc, hck⟩ := hkeys
        obtain ⟨i, hi⟩ := mem_iff_getElem?.1 hc
        exact ⟨i, c, hi, hck⟩
      obtain ⟨i, a', hi, hakeys⟩ := hmem ha hnone
      obtain ⟨j, b', hj, hbkeys⟩ := hmem hb (hid ▸ hnone)
      have hid' : (keysOf P a').identityKey = (keysOf P b').identityKey := by
        rw [hakeys, hbkeys, hid]
      rcases lt_trichotomy i j with hij | rfl | hij
      · exact (skip_loses S hij hi hj hid' (fun _ => 0) 0 (h (fun _ => 0) 0 1 (i + 1))).elim
      · obtain rfl := Option.some.inj (hi.symm.trans hj)
        rw [← hakeys, hbkeys]
      · exact (skip_loses S hij hj hi hid'.symm (fun _ => 0) 0 (h (fun _ => 0) 0 1 (j + 1))).elim
    · rintro (h | hone) size maxBytes maxCount n
      · cases h
      obtain ⟨m, hm⟩ := landed_eq S size maxBytes maxCount n vault
        (resolveImport P vault file .skip none)
      rw [updates_eq_nil P vault file .skip none (by decide), take_nil, foldl_nil] at hm
      dsimp only
      rw [hm, contents_skip S, contents_skip S, rowKeys_inserts_skip, rowKeys_inserts_skip]
      exact contents_resume_skip S hone (take_subset _ _)

/-- Resuming an `overwrite` of two passwords of one login. -/
theorem resume_exact_example :
    let file := [exampleLogin "one", exampleLogin "two"]
    let r := resolveImport exampleBrowser exampleVault file .overwrite none
    let stopped := landed (plainStorage exampleBrowser) (fun _ => 200) 943718 1 1 exampleVault r
    contents exampleBrowser (applyResolution (plainStorage exampleBrowser) stopped
        (resolveImport exampleBrowser stopped file .overwrite none)) =
      contents exampleBrowser (applyResolution (plainStorage exampleBrowser) exampleVault r) :=
  (resume_exact_iff (plainStorage exampleBrowser) (by decide)
    [exampleLogin "one", exampleLogin "two"] (by decide)).2 (.inl rfl) (fun _ => 200) 943718 1 1

/-- Two passwords of one login, skipped into an empty vault and stopped after the first batch: the
second password never arrives. -/
theorem resume_skip_loses_login :
    let file := [exampleLogin "one", exampleLogin "two"]
    let r := resolveImport exampleBrowser ([] : List DecryptedVaultItem) file .skip none
    let stopped := landed (plainStorage exampleBrowser) (fun _ => 200) 943718 1 1 [] r
    contents exampleBrowser (applyResolution (plainStorage exampleBrowser) stopped
        (resolveImport exampleBrowser stopped file .skip none)) ≠
      contents exampleBrowser (applyResolution (plainStorage exampleBrowser) [] r) := by
  intro file r stopped
  have hkeys : r.inserts.map (fun row => (keysOf exampleBrowser row).identityKey) =
      [units "login\x00example.com\x00ann", units "login\x00example.com\x00ann"] := by decide +kernel
  have hlength : r.inserts.length = 2 := by
    rw [← length_map, hkeys]
    rfl
  obtain ⟨a, b, hab⟩ := length_eq_two.1 hlength
  rw [hab] at hkeys
  refine skip_loses (plainStorage exampleBrowser) (j := 1) (a := a) (b := b) (by decide)
    ?_ ?_ ?_ (fun _ => 200) 943718
  · exact congrArg (·[0]?) hab
  · exact congrArg (·[1]?) hab
  · simp only [map_cons, map_nil, cons.injEq, and_true] at hkeys
    exact hkeys.1.trans hkeys.2.symm

end HVault.Import
