import HVault.Data.OrderedMap
import HVault.Totp.MigrationReader

/-!
# Collecting the parts of an export

An export of several codes is scanned part by part. A session goes by the export of its first part,
and collects distinct indices, in whatever order they come.

* `scan_holds`: what a session holds are the parts that were scanned;
* `scan_order_independent`: a session is complete when every part was scanned, and then its entries
  are those of the export, in its order.
-/

namespace HVault.Totp

open Json Backup List Bool OrderedMap

/-! ## The session -/

structure BatchState where
  batchId : Option ℤ
  batchSize : ℤ
  parts : OrderedMap ℤ (List MigrationEntry)

inductive BatchOutcome
  | added (state : BatchState)
  | duplicate (state : BatchState)
  | wrongExport
  | conflictingPart

def emptyBatch : BatchState := ⟨none, 0, .empty⟩

def sameSecret (a b : Bytes) : Bool :=
  a.length = b.length && (a.zip b).all fun (x, y) => x = y

/-- Compared field by field. -/
def sameEntries (a b : List MigrationEntry) : Bool :=
  a.length = b.length && (a.zip b).all fun (entry, other) =>
    entry.type = other.type && entry.name = other.name && entry.issuer = other.issuer &&
      entry.algorithm = other.algorithm && entry.digits = other.digits &&
      entry.counter = other.counter && sameSecret entry.secret other.secret

def acceptPart (state : BatchState) (payload : MigrationPayload) : BatchOutcome :=
  if state.batchId ≠ none ∧ state.batchId ≠ some payload.batchId then .wrongExport
  else
    match state.parts.get payload.batchIndex with
    | some existing =>
      if sameEntries existing payload.entries then .duplicate state else .conflictingPart
    | none => .added ⟨some payload.batchId, payload.batchSize,
        state.parts.set payload.batchIndex payload.entries⟩

def isComplete (state : BatchState) : Bool :=
  0 < state.batchSize ∧ state.batchSize ≤ state.parts.entries.length

/-- In the order of the indices, not of the scans. -/
def collectedEntries (state : BatchState) : List MigrationEntry :=
  (state.parts.entries.mergeSort fun a b => a.1 ≤ b.1).flatMap (·.2)

/-- The state after a code has been handled: only an added part changes it. -/
def BatchState.handle (state : BatchState) (payload : MigrationPayload) : BatchState :=
  match acceptPart state payload with
  | .added state => state
  | _ => state

/-- The state of a session after some codes. -/
def scan (calls : List MigrationPayload) : BatchState := calls.foldl .handle emptyBatch

/-! ## The comparison -/

theorem zip_all_eq {α : Type} [DecidableEq α] {p : α → α → Bool} {a b : List α}
    (hp : ∀ x y, p x y = true ↔ x = y) (hlength : a.length = b.length) :
    ((a.zip b).all fun (x, y) => p x y) = true ↔ a = b := by
  induction a generalizing b with
  | nil =>
    cases b with
    | nil => simp
    | cons y b => cases hlength
  | cons x a ih =>
    cases b with
    | nil => cases hlength
    | cons y b =>
      rw [zip_cons_cons, all_cons, and_eq_true, ih (Nat.succ.inj hlength), hp,
        cons.injEq]

theorem sameSecret_iff {a b : Bytes} : sameSecret a b = true ↔ a = b := by
  unfold sameSecret
  rw [and_eq_true, decide_eq_true_eq]
  constructor
  · rintro ⟨hlength, hall⟩
    exact (zip_all_eq (p := fun x y => decide (x = y)) (by simp) hlength).1 hall
  · rintro rfl
    exact ⟨rfl, (zip_all_eq (p := fun x y => decide (x = y)) (by simp) rfl).2 rfl⟩

/-- The fields that are compared are all there are. -/
theorem sameEntries_iff {a b : List MigrationEntry} : sameEntries a b = true ↔ a = b := by
  have hentry (x y : MigrationEntry) :
      (decide (x.type = y.type) && decide (x.name = y.name) && decide (x.issuer = y.issuer) &&
        decide (x.algorithm = y.algorithm) && decide (x.digits = y.digits) &&
        decide (x.counter = y.counter) && sameSecret x.secret y.secret) = true ↔ x = y := by
    obtain ⟨type, secret, name, issuer, algorithm, digits, counter⟩ := x
    obtain ⟨type', secret', name', issuer', algorithm', digits', counter'⟩ := y
    simp only [and_eq_true, decide_eq_true_eq, sameSecret_iff, MigrationEntry.mk.injEq]
    tauto
  unfold sameEntries
  rw [and_eq_true, decide_eq_true_eq]
  constructor
  · rintro ⟨hlength, hall⟩
    exact (zip_all_eq hentry hlength).1 hall
  · rintro rfl
    exact ⟨rfl, (zip_all_eq hentry rfl).2 rfl⟩

/-! ## Exports in parts -/

/-- An export that was split into parts, by their indices. -/
structure ScanExport where
  id : ℤ
  indices : List ℤ
  part : ℤ → List MigrationEntry
  nonempty : indices ≠ []
  nodup : indices.Nodup

namespace ScanExport

/-- The code is a part of the export. -/
structure IsPart (e : ScanExport) (payload : MigrationPayload) : Prop where
  batchId : payload.batchId = e.id
  batchSize : payload.batchSize = e.indices.length
  batchIndex : payload.batchIndex ∈ e.indices
  entries : payload.entries = e.part payload.batchIndex

/-- The code is of another export. -/
def IsForeign (e : ScanExport) (payload : MigrationPayload) : Prop := payload.batchId ≠ e.id

/-- The code has the index of a part and other entries. -/
structure IsConflicting (e : ScanExport) (payload : MigrationPayload) : Prop where
  batchId : payload.batchId = e.id
  entries : payload.entries ≠ e.part payload.batchIndex

/-- The part of an index is among the codes. -/
def Scanned (e : ScanExport) (calls : List MigrationPayload) (index : ℤ) : Prop :=
  ∃ payload ∈ calls, e.IsPart payload ∧ payload.batchIndex = index

/-- Codes in any order, parts of the export any number of times: what is of another export comes
after a part of this, and what conflicts with a part after it. -/
def Mixed (e : ScanExport) (calls : List MigrationPayload) : Prop :=
  ∀ before payload after, calls = before ++ payload :: after →
    e.IsPart payload ∨
    (e.IsForeign payload ∧ ∃ index, e.Scanned before index) ∨
    (e.IsConflicting payload ∧ e.Scanned before payload.batchIndex)

/-- What a session holds after some codes. -/
structure Holds (e : ScanExport) (calls : List MigrationPayload) (state : BatchState) : Prop where
  unique : state.parts.Unique
  held : ∀ index entries, state.parts.get index = some entries ↔
    e.Scanned calls index ∧ entries = e.part index
  batch : state = emptyBatch ∨ state.batchId = some e.id ∧ state.batchSize = e.indices.length

variable {e : ScanExport} {calls : List MigrationPayload} {payload : MigrationPayload}

theorem Mixed.dropLast (h : e.Mixed (calls ++ [payload])) : e.Mixed calls := by
  rintro before p after rfl
  exact h before p (after ++ [payload]) (by simp)

theorem mixed_nil (e : ScanExport) : e.Mixed [] := by
  intro before payload after h
  cases before <;> cases h

/-- One code more. -/
theorem Mixed.concat (h : e.Mixed calls) (hpayload : e.IsPart payload ∨
      (e.IsForeign payload ∧ ∃ index, e.Scanned calls index) ∨
      (e.IsConflicting payload ∧ e.Scanned calls payload.batchIndex)) :
    e.Mixed (calls ++ [payload]) := by
  intro before p after heq
  rcases eq_nil_or_concat' after with rfl | ⟨after, last, rfl⟩
  · obtain ⟨rfl, hlast⟩ := append_inj' heq rfl
    obtain rfl := head_eq_of_cons_eq hlast
    exact hpayload
  · refine h before p after ?_
    rw [← cons_append, ← append_assoc] at heq
    exact (append_inj' heq rfl).1

theorem scanned_append {index : ℤ} : e.Scanned (calls ++ [payload]) index ↔
      e.Scanned calls index ∨ e.IsPart payload ∧ payload.batchIndex = index := by
  constructor
  · rintro ⟨p, hmem, hp⟩
    rcases mem_append.1 hmem with hmem | hmem
    · exact .inl ⟨p, hmem, hp⟩
    · obtain rfl := mem_singleton.1 hmem
      exact .inr hp
  · rintro (⟨p, hmem, hp⟩ | hp)
    · exact ⟨p, mem_append_left _ hmem, hp⟩
    · exact ⟨payload, mem_append_right _ (mem_singleton.2 rfl), hp⟩

variable {state : BatchState}

theorem Holds.batch_of_scanned (h : e.Holds calls state) {index : ℤ}
    (hscanned : e.Scanned calls index) :
    state.batchId = some e.id ∧ state.batchSize = e.indices.length := by
  rcases h.batch with rfl | hbatch
  · have hget := (h.held index _).2 ⟨hscanned, rfl⟩
    cases hget
  · exact hbatch

section

variable {e : ScanExport} {calls : List MigrationPayload} {state : BatchState}
  {payload : MigrationPayload}

theorem Holds.accept_foreign (h : e.Holds calls state) (hforeign : e.IsForeign payload) {index : ℤ}
    (hscanned : e.Scanned calls index) : acceptPart state payload = .wrongExport := by
  have hid := (h.batch_of_scanned hscanned).1
  unfold acceptPart
  rw [hid, if_pos ⟨Option.some_ne_none _, fun heq => hforeign (Option.some.inj heq).symm⟩]

/-- A code that says it is of the export is not taken for another's. -/
theorem Holds.not_wrong (h : e.Holds calls state) (hid : payload.batchId = e.id) :
    ¬(state.batchId ≠ none ∧ state.batchId ≠ some payload.batchId) := by
  rintro ⟨hsome, hne⟩
  rcases h.batch with rfl | ⟨hbatch, -⟩
  · exact hsome rfl
  · exact hne (by rw [hbatch, hid])

theorem Holds.accept_conflicting (h : e.Holds calls state) (hconflict : e.IsConflicting payload)
    (hscanned : e.Scanned calls payload.batchIndex) :
    acceptPart state payload = .conflictingPart := by
  have hget := (h.held payload.batchIndex _).2 ⟨hscanned, rfl⟩
  unfold acceptPart
  rw [if_neg (h.not_wrong hconflict.batchId), hget]
  exact if_neg fun hsame => hconflict.entries (sameEntries_iff.1 hsame).symm

theorem Holds.accept_again (h : e.Holds calls state) (hpart : e.IsPart payload)
    (hscanned : e.Scanned calls payload.batchIndex) :
    acceptPart state payload = .duplicate state := by
  have hget := (h.held payload.batchIndex _).2 ⟨hscanned, rfl⟩
  unfold acceptPart
  rw [if_neg (h.not_wrong hpart.batchId), hget]
  exact if_pos (sameEntries_iff.2 hpart.entries.symm)

theorem Holds.accept_new (h : e.Holds calls state) (hpart : e.IsPart payload)
    (hscanned : ¬e.Scanned calls payload.batchIndex) :
    acceptPart state payload = .added ⟨some payload.batchId, payload.batchSize,
      state.parts.set payload.batchIndex payload.entries⟩ := by
  have hget : state.parts.get payload.batchIndex = none := by
    cases hget : state.parts.get payload.batchIndex with
    | none => rfl
    | some entries => exact absurd ((h.held _ _).1 hget).1 hscanned
  unfold acceptPart
  rw [if_neg (h.not_wrong hpart.batchId), hget]

/-- A part adds itself to what is held. -/
theorem Holds.part (h : e.Holds calls state) (hpart : e.IsPart payload) :
    e.Holds (calls ++ [payload]) (state.handle payload) := by
  have hindex (index : ℤ) : e.Scanned (calls ++ [payload]) index ↔
      e.Scanned calls index ∨ payload.batchIndex = index := by
    rw [scanned_append, and_iff_right hpart]
  by_cases hscanned : e.Scanned calls payload.batchIndex
  · unfold BatchState.handle
    rw [h.accept_again hpart hscanned]
    refine ⟨h.unique, fun index entries => ?_, h.batch⟩
    rw [h.held, hindex]
    constructor
    · rintro ⟨hin, hentries⟩
      exact ⟨.inl hin, hentries⟩
    · rintro ⟨hin | rfl, hentries⟩
      · exact ⟨hin, hentries⟩
      · exact ⟨hscanned, hentries⟩
  · unfold BatchState.handle
    rw [h.accept_new hpart hscanned]
    refine ⟨h.unique.set _ _, fun index entries => ?_, .inr ⟨?_, ?_⟩⟩
    · rw [get_set, hindex]
      by_cases heq : index = payload.batchIndex
      · subst heq
        rw [if_pos rfl, Option.some.injEq, hpart.entries]
        constructor
        · rintro rfl
          exact ⟨.inr rfl, rfl⟩
        · rintro ⟨-, rfl⟩
          rfl
      · rw [if_neg heq, h.held, or_iff_left (Ne.symm heq)]
    · rw [hpart.batchId]
    · exact hpart.batchSize

/-- What is refused changes nothing, and is no part. -/
theorem Holds.refused (h : e.Holds calls state) (hnot : ¬e.IsPart payload)
    (hrefused : acceptPart state payload = .wrongExport ∨
      acceptPart state payload = .conflictingPart) :
    state.handle payload = state ∧ e.Holds (calls ++ [payload]) state := by
  refine ⟨?_, h.unique, fun index entries => ?_, h.batch⟩
  · unfold BatchState.handle
    rcases hrefused with hrefused | hrefused <;> rw [hrefused]
  · rw [h.held, scanned_append, or_iff_left fun hpart => hnot hpart.1]

end

theorem holds_nil (e : ScanExport) : e.Holds [] emptyBatch := by
  refine ⟨unique_empty, fun index entries => ?_, .inl rfl⟩
  constructor
  · intro h
    cases h
  · rintro ⟨⟨p, hmem, -⟩, -⟩
    cases hmem

/-- A code among mixed ones that is no part is refused. -/
theorem Holds.refuses (h : e.Holds calls state)
    (hmixed : (e.IsForeign payload ∧ ∃ index, e.Scanned calls index) ∨
      e.IsConflicting payload ∧ e.Scanned calls payload.batchIndex) :
    ¬e.IsPart payload ∧ (acceptPart state payload = .wrongExport ∨
      acceptPart state payload = .conflictingPart) := by
  rcases hmixed with ⟨hforeign, index, hscanned⟩ | ⟨hconflict, hscanned⟩
  · exact ⟨fun hpart => hforeign hpart.batchId, .inl (h.accept_foreign hforeign hscanned)⟩
  · exact ⟨fun hpart => hconflict.entries hpart.entries,
      .inr (h.accept_conflicting hconflict hscanned)⟩

/-- A session holds the parts that were scanned. -/
theorem scan_holds (h : e.Mixed calls) : e.Holds calls (scan calls) := by
  induction calls using reverseRecOn with
  | nil => exact e.holds_nil
  | append_singleton calls payload ih =>
    have hholds := ih h.dropLast
    have hscan : scan (calls ++ [payload]) = (scan calls).handle payload :=
      foldl_concat _ _ _ _
    rw [hscan]
    rcases h calls payload [] rfl with hpart | hmixed
    · exact hholds.part hpart
    · obtain ⟨hnot, hrefused⟩ := hholds.refuses hmixed
      obtain ⟨hsame, hafter⟩ := hholds.refused hnot hrefused
      rwa [hsame]

/-! ## The whole export -/

theorem Holds.keys (h : e.Holds calls state) (index : ℤ) :
    index ∈ state.parts.entries.map (·.1) ↔ e.Scanned calls index := by
  rw [mem_map]
  constructor
  · rintro ⟨⟨i, entries⟩, hmem, rfl⟩
    exact ((h.held _ entries).1 ((getIn_eq_some_iff h.unique _ _).2 hmem)).1
  · intro hscanned
    have hget := (h.held index _).2 ⟨hscanned, rfl⟩
    exact ⟨_, (getIn_eq_some_iff h.unique _ _).1 hget, rfl⟩

theorem scanned_mem {index : ℤ} (h : e.Scanned calls index) : index ∈ e.indices := by
  obtain ⟨payload, -, hpart, rfl⟩ := h
  exact hpart.batchIndex

/-- The indices of what is held are all of the export's when there are as many. -/
theorem Holds.complete_iff (h : e.Holds calls state) :
    isComplete state = true ↔ ∀ index ∈ e.indices, e.Scanned calls index := by
  have hsubset : state.parts.entries.map (·.1) ⊆ e.indices :=
    fun index hmem => scanned_mem ((h.keys index).1 hmem)
  have hsubperm := h.unique.subperm hsubset
  have hle := hsubperm.length_le
  rw [length_map] at hle
  unfold isComplete
  rw [decide_eq_true_eq]
  constructor
  · rintro ⟨hpos, hfull⟩ index hindex
    rcases h.batch with rfl | ⟨-, hsize⟩
    · exact absurd hpos (lt_irrefl 0)
    · rw [hsize] at hfull
      have hperm := hsubperm.perm_of_length_le (by rw [length_map]; omega)
      exact (h.keys index).1 (hperm.mem_iff.2 hindex)
  · intro hall
    obtain ⟨first, hfirst⟩ := exists_mem_of_ne_nil _ e.nonempty
    obtain ⟨-, hsize⟩ := h.batch_of_scanned (hall first hfirst)
    have hback : e.indices ⊆ state.parts.entries.map (·.1) :=
      fun index hindex => (h.keys index).2 (hall index hindex)
    have hge := (e.nodup.subperm hback).length_le
    have hpos := length_pos_of_ne_nil e.nonempty
    rw [length_map] at hge
    rw [hsize]
    omega

/-- All entries of an export, part after part in the order of the indices. -/
def allEntries (e : ScanExport) : List MigrationEntry :=
  (e.indices.mergeSort (· ≤ ·)).flatMap e.part

/-- What is held of a whole export is the export, in its order. -/
theorem Holds.collected (h : e.Holds calls state)
    (hall : ∀ index ∈ e.indices, e.Scanned calls index) :
    collectedEntries state = e.allEntries := by
  have hperm := mergeSort_perm state.parts.entries fun a b => decide (a.1 ≤ b.1)
  have hkeys : (state.parts.entries.mergeSort fun a b => a.1 ≤ b.1).map (·.1) =
      e.indices.mergeSort (· ≤ ·) := by
    have hsame : (state.parts.entries.map (·.1)).Perm e.indices :=
      (perm_ext_iff_of_nodup h.unique e.nodup).2 fun index =>
        (h.keys index).trans ⟨scanned_mem, hall index⟩
    have hindices := mergeSort_perm e.indices fun a b => decide (a ≤ b)
    refine @List.Perm.eq_of_pairwise ℤ (· ≤ ·) _ _ (fun a b _ _ => le_antisymm) ?_ ?_
      ((hperm.map _).trans (hsame.trans hindices.symm))
    · rw [pairwise_map]
      refine (pairwise_mergeSort ?_ ?_ state.parts.entries).imp of_decide_eq_true
      · intro a b c hab hbc
        exact decide_eq_true (le_trans (of_decide_eq_true hab) (of_decide_eq_true hbc))
      · intro a b
        simpa using le_total a.1 b.1
    · refine (pairwise_mergeSort ?_ ?_ e.indices).imp fun hle => of_decide_eq_true hle
      · intro a b c hab hbc
        exact decide_eq_true (le_trans (of_decide_eq_true hab) (of_decide_eq_true hbc))
      · intro a b
        simpa using le_total a b
  unfold collectedEntries allEntries
  rw [← hkeys, flatMap_map]
  refine flatMap_congr fun entry hmem => ?_
  have hget := (getIn_eq_some_iff h.unique entry.1 entry.2).2 (hperm.mem_iff.1 hmem)
  exact ((h.held _ _).1 hget).2

end ScanExport

/-- In whatever order codes come, those that are no part of the export change nothing, nor does a part
that was scanned before, the session is complete when every part was scanned, and what is collected
then is the export. -/
theorem scan_order_independent (e : ScanExport) (calls : List MigrationPayload)
    (h : e.Mixed calls) :
    (∀ before payload after, calls = before ++ payload :: after → ¬e.IsPart payload →
      (scan before).handle payload = scan before) ∧
    (∀ before payload after, calls = before ++ payload :: after → e.IsPart payload →
      e.Scanned before payload.batchIndex → (scan before).handle payload = scan before) ∧
    (isComplete (scan calls) = true ↔ ∀ index ∈ e.indices, e.Scanned calls index) ∧
    (isComplete (scan calls) = true → collectedEntries (scan calls) = e.allEntries) := by
  have hholds := ScanExport.scan_holds h
  have hstate : ∀ before payload after, calls = before ++ payload :: after →
      e.Holds before (scan before) := by
    rintro before payload after rfl
    exact ScanExport.scan_holds fun b p a heq => h b p (a ++ payload :: after) (by simp [heq])
  refine ⟨?_, ?_, hholds.complete_iff, fun hcomplete =>
    hholds.collected (hholds.complete_iff.1 hcomplete)⟩
  · intro before payload after hcalls hnot
    have hbefore := hstate before payload after hcalls
    rcases h before payload after hcalls with hpart | hmixed
    · exact absurd hpart hnot
    · exact (hbefore.refused hnot (hbefore.refuses hmixed).2).1
  · intro before payload after hcalls hpart hscanned
    unfold BatchState.handle
    rw [(hstate before payload after hcalls).accept_again hpart hscanned]

/-- An account of which only the secret matters. -/
def account (secret : Bytes) : MigrationEntry := ⟨.totp, secret, [], [], .sha1, 6, none⟩

def exportOfTwo : ScanExport where
  id := 7
  indices := [0, 1]
  part := fun index => if index = 0 then [account [1]] else [account [2]]
  nonempty := by decide
  nodup := by decide

theorem exportOfTwo_entries : exportOfTwo.allEntries = [account [1], account [2]] := by
  unfold ScanExport.allEntries
  rw [mergeSort_of_pairwise (by decide)]
  rfl

/-- The second part, a code of another export, the first part and one that conflicts with it. -/
theorem scan_order_independent_sample :
    collectedEntries (scan [⟨[account [2]], 0, 2, 1, 7⟩, ⟨[account [3]], 0, 1, 0, 8⟩,
      ⟨[account [1]], 0, 2, 0, 7⟩, ⟨[account [4]], 0, 2, 0, 7⟩]) = [account [1], account [2]] := by
  have hsecond : exportOfTwo.IsPart ⟨[account [2]], 0, 2, 1, 7⟩ := ⟨rfl, rfl, by decide, rfl⟩
  have hfirst : exportOfTwo.IsPart ⟨[account [1]], 0, 2, 0, 7⟩ := ⟨rfl, rfl, by decide, rfl⟩
  have hforeign : exportOfTwo.IsForeign ⟨[account [3]], 0, 1, 0, 8⟩ := by
    show (8 : ℤ) ≠ 7
    decide
  have hconflict : exportOfTwo.IsConflicting ⟨[account [4]], 0, 2, 0, 7⟩ := ⟨rfl, by decide⟩
  have hmixed := (((exportOfTwo.mixed_nil.concat (.inl hsecond)).concat
    (.inr (.inl ⟨hforeign, 1, _, by simp, hsecond, rfl⟩))).concat (.inl hfirst)).concat
    (.inr (.inr ⟨hconflict, _, by simp, hfirst, rfl⟩))
  obtain ⟨-, -, hcomplete, hcollected⟩ := scan_order_independent exportOfTwo _ hmixed
  exact (hcollected (by decide)).trans exportOfTwo_entries

/-- A session that begins with a code of another export goes by that one. -/
theorem scan_foreign_first :
    exportOfTwo.IsForeign ⟨[account [3]], 0, 1, 0, 8⟩ ∧
      isComplete (scan [⟨[account [3]], 0, 1, 0, 8⟩]) = true ∧
      collectedEntries (scan [⟨[account [3]], 0, 1, 0, 8⟩, ⟨[account [1]], 0, 2, 0, 7⟩,
        ⟨[account [2]], 0, 2, 1, 7⟩]) ≠ exportOfTwo.allEntries := by
  refine ⟨?_, rfl, ?_⟩
  · show (8 : ℤ) ≠ 7
    decide
  · rw [exportOfTwo_entries]
    unfold collectedEntries
    rw [mergeSort_of_pairwise (by decide)]
    decide

/-- A code adds itself where it is of the same export and its index is not held yet. -/
theorem BatchState.handle_first {state : BatchState} {id : ℤ} (hid : state.batchId = some id)
    (payload : MigrationPayload) : (state.handle payload).batchId = some id ∧
      ∀ index, (state.handle payload).parts.get index = (state.parts.get index).or
        (if payload.batchId = id ∧ payload.batchIndex = index then some payload.entries
          else none) := by
  unfold BatchState.handle acceptPart
  by_cases hsame : payload.batchId = id
  · cases hget : state.parts.get payload.batchIndex with
    | some existing => grind
    | none => grind [get_set]
  · grind

/-- **The first scan counts.** A session is of the export of its first code, and holds of each index
the code of that export that came first. -/
theorem scan_first (first : MigrationPayload) (later : List MigrationPayload) :
    (scan (first :: later)).batchId = some first.batchId ∧
      ∀ index, (scan (first :: later)).parts.get index =
        (first :: later).findSome? fun payload =>
          if payload.batchId = first.batchId ∧ payload.batchIndex = index then some payload.entries
          else none := by
  induction later using reverseRecOn with
  | nil =>
    refine ⟨rfl, fun index => (get_set ..).trans ?_⟩
    by_cases hindex : index = first.batchIndex
    · simp [hindex]
    · simp [hindex, Ne.symm hindex, emptyBatch]
  | append_singleton later payload ih =>
    have hscan : scan (first :: (later ++ [payload])) = (scan (first :: later)).handle payload :=
      foldl_concat _ _ _ (first :: later)
    obtain ⟨hid, hget⟩ := BatchState.handle_first ih.1 payload
    rw [hscan]
    refine ⟨hid, fun index => ?_⟩
    rw [hget, ih.2, ← cons_append, findSome?_append, findSome?_singleton]

end HVault.Totp
