import Mathlib.Algebra.BigOperators.Ring.Finset
import HVault.Data.Tally
import HVault.Vault.Bson

/-!
# Vault rows and what the quota counts of them

An item or folder row is its version counter `__v`, its two timestamps and its other fields.
This module has the row writes of the vault and the byte arithmetic around them:

* `countedBytes`, the size of a row without its placement fields;
* `RowMeasure`, what a pinned update needs to know about the row it replaces, with
  `versionPin` and `sameIncarnation`;
* `deltaOfPinnedUpdate` and `measureAfter`, the change such an update makes, and
  `countedBytes_written`, which says that the change is exact.

The rows carry one thing the server never sees: the vault key their ciphertext is sealed
under (`sealedUnder`). It is written with the ciphertext and read by no program.
-/

namespace HVault

open Finset

/-- The two counted collections. -/
inductive Kind where
  | item
  | folder
  deriving DecidableEq, Repr

instance : Fintype Kind := Fintype.ofList [.item, .folder] fun k => by cases k <;> simp

/-- The fields of an item or folder row besides `_id`, `__v` and the timestamps. -/
inductive Field where
  | userId | itemType | folderId | tags | favorite | encryptedData | dataIv | dataTag
  | encryptedName | nameIv | nameTag | sourceRefId | passwordHistory | deletedAt
  | parentId | icon | color | sortOrder | searchHash
  deriving DecidableEq, Repr

instance : Fintype Field := Fintype.ofList
  [.userId, .itemType, .folderId, .tags, .favorite, .encryptedData, .dataIv, .dataTag,
    .encryptedName, .nameIv, .nameTag, .sourceRefId, .passwordHistory, .deletedAt, .parentId,
    .icon, .color, .sortOrder, .searchHash] fun f => by cases f <;> simp

/-- The stored name of a field. -/
def Field.name : Field → String
  | userId => "userId"
  | itemType => "itemType"
  | folderId => "folderId"
  | tags => "tags"
  | favorite => "favorite"
  | encryptedData => "encryptedData"
  | dataIv => "dataIv"
  | dataTag => "dataTag"
  | encryptedName => "encryptedName"
  | nameIv => "nameIv"
  | nameTag => "nameTag"
  | sourceRefId => "sourceRefId"
  | passwordHistory => "passwordHistory"
  | deletedAt => "deletedAt"
  | parentId => "parentId"
  | icon => "icon"
  | color => "color"
  | sortOrder => "sortOrder"
  | searchHash => "searchHash"

/-- The fields of each kind of row that the quota does not count. -/
def placementFields : Kind → Finset Field
  | .item => {.deletedAt, .folderId}
  | .folder => {.parentId}

/-- The fields of each kind of row that the quota counts. -/
def countedFields (kind : Kind) : Finset Field := Finset.univ \ placementFields kind

/-- A row of one of the two collections. `version` is its `__v` and `createdAt` its creation
time, each absent on a row an earlier release wrote without it. -/
structure Row (K : Type) where
  version : Option ℕ
  createdAt : Option ℕ
  updatedAt : Option ℕ
  fields : Field → Option Bson
  sealedUnder : K

/-- A row's place: its collection and its `_id`. -/
structure RowKey where
  kind : Kind
  id : ℕ
  deriving DecidableEq, Repr

/-- The stored rows of one account. -/
abbrev Table (K : Type) := Finmap fun _ : RowKey => Row K

variable {K : Type}

/-! ## Counted sizes -/

/-- A version counter as it is stored. -/
def versionValue (n : ℕ) : Bson := .int32 n

/-- A timestamp as it is stored. -/
def dateValue (t : ℕ) : Bson := .date t

/-- The entries of a row besides `fields`. -/
def headBytes (version createdAt updatedAt : Option ℕ) : ℕ :=
  entryBytes "_id" (some (.objectId 0)) + entryBytes "__v" (version.map versionValue)
    + entryBytes "createdAt" (createdAt.map dateValue)
    + entryBytes "updatedAt" (updatedAt.map dateValue)

/-- The counted size of a row: the bytes the driver serialises, less its placement fields. -/
def countedBytes (kind : Kind) (row : Row K) : ℕ :=
  emptyDocumentBytes + headBytes row.version row.createdAt row.updatedAt
    + ∑ f ∈ countedFields kind, entryBytes f.name (row.fields f)

/-- An update of top-level fields, the only kind a counted write makes. `sealedUnder` is the
key of the ciphertext among them, when there is any. -/
structure CountedUpdate (K : Type) where
  set : Field → Option Bson
  unset : Field → Bool
  sealedUnder : Option K

/-- The counted (non-placement) fields `update` writes. -/
def countedFieldsOf (kind : Kind) (update : CountedUpdate K) : Finset Field :=
  (countedFields kind).filter fun f => (update.set f).isSome ∨ update.unset f

/-- True when `update` writes at least one counted field. -/
def writesCountedField (kind : Kind) (update : CountedUpdate K) : Prop :=
  countedFieldsOf kind update ≠ ∅

instance (kind : Kind) (update : CountedUpdate K) : Decidable (writesCountedField kind update) :=
  inferInstanceAs (Decidable (_ ≠ _))

/-- The fields after `update`. -/
def CountedUpdate.applyFields (update : CountedUpdate K) (fields : Field → Option Bson) :
    Field → Option Bson := fun f =>
  match update.set f with
  | some value => some value
  | none => if update.unset f then none else fields f

/-- The row a pinned write of `update` leaves: `$inc` bumps `__v` (an absent one counts from
zero) and the timestamps plugin stamps `updatedAt`. -/
def Row.written (update : CountedUpdate K) (now : ℕ) (row : Row K) : Row K where
  version := some (row.version.getD 0 + 1)
  createdAt := row.createdAt
  updatedAt := some now
  fields := update.applyFields row.fields
  sealedUnder := update.sealedUnder.getD row.sealedUnder

/-- The row a write of placement fields alone leaves: no bump, but `updatedAt` is stamped. -/
def Row.placed (update : CountedUpdate K) (now : ℕ) (row : Row K) : Row K where
  version := row.version
  createdAt := row.createdAt
  updatedAt := some now
  fields := update.applyFields row.fields
  sealedUnder := row.sealedUnder

/-- The row an insert of `fields` stores. -/
def Row.created (fields : Field → Option Bson) (key : K) (now : ℕ) : Row K where
  version := some 0
  createdAt := some now
  updatedAt := some now
  fields := fields
  sealedUnder := key

/-- The counted size a row created from `fields` will have once it is saved. -/
def countedBytesOfNew (kind : Kind) (fields : Field → Option Bson) : ℕ :=
  emptyDocumentBytes + headBytes (some 0) (some 0) (some 0)
    + ∑ f ∈ countedFields kind, entryBytes f.name (fields f)

/-- The prediction for a new row is what is stored: stamps have one size. -/
theorem countedBytes_created (kind : Kind) (fields : Field → Option Bson) (key : K) (now : ℕ) :
    countedBytes kind (Row.created fields key now) = countedBytesOfNew kind fields := rfl

/-! ## Measures and pins -/

/-- What a pinned update needs to know about the row it replaces. -/
structure RowMeasure where
  version : Option ℕ
  createdAt : Option ℕ
  counted : ℤ
  hasUpdatedAt : Bool
  /-- For each counted field the update writes, the bytes it occupies in the row now. -/
  fieldBytes : Field → Option ℕ

/-- Measures a row for an update that writes the fields of `update`. -/
def measureImage (kind : Kind) (row : Row K) (update : CountedUpdate K) : RowMeasure where
  version := row.version
  createdAt := row.createdAt
  counted := countedBytes kind row
  hasUpdatedAt := row.updatedAt.isSome
  fieldBytes f :=
    if f ∈ countedFieldsOf kind update then some (entryBytes f.name (row.fields f)) else none

/-- The change one written field makes to the counted bytes. -/
def fieldDelta (measure : RowMeasure) (update : CountedUpdate K) (f : Field) : ℤ :=
  match update.set f with
  | some value => entryBytes f.name (some value) - (measure.fieldBytes f).getD 0
  | none => if update.unset f then -((measure.fieldBytes f).getD 0 : ℤ) else 0

/-- The change in counted bytes a write of `update`, pinned on the image `measure`
describes, makes: each written field's new entry less its old one, plus the `__v` and
`updatedAt` the write adds to a row that had neither. -/
def deltaOfPinnedUpdate (kind : Kind) (measure : RowMeasure) (update : CountedUpdate K) : ℤ :=
  ∑ f ∈ countedFieldsOf kind update, fieldDelta measure update f
    + (if measure.version = none then (entryBytes "__v" (some (versionValue 1)) : ℤ) else 0)
    + (if measure.hasUpdatedAt then 0 else (entryBytes "updatedAt" (some (dateValue 0)) : ℤ))

/-- The measure of the row a pinned write of `update` leaves behind, for a second pinned
write of `next` to the same row. -/
def measureAfter (kind : Kind) (measure : RowMeasure) (update next : CountedUpdate K) :
    RowMeasure where
  version := some (measure.version.getD 0 + 1)
  createdAt := measure.createdAt
  counted := measure.counted + deltaOfPinnedUpdate kind measure update
  hasUpdatedAt := true
  fieldBytes f :=
    if f ∈ countedFieldsOf kind next then
      match update.set f with
      | some value => some (entryBytes f.name (some value))
      | none => if update.unset f then some 0 else some ((measure.fieldBytes f).getD 0)
    else none

/-- What a pinned write requires of the row: the measured `__v` and `createdAt`. -/
def versionPin (measure : RowMeasure) (row : Row K) : Prop :=
  row.version = measure.version ∧ row.createdAt = measure.createdAt

instance (measure : RowMeasure) (row : Row K) : Decidable (versionPin measure row) :=
  inferInstanceAs (Decidable (_ ∧ _))

/-- True when `next` measures the same row as `first`: the same id and the same creation. -/
def sameIncarnation (next first : RowMeasure) : Prop := next.createdAt = first.createdAt

instance (next first : RowMeasure) : Decidable (sameIncarnation next first) :=
  inferInstanceAs (Decidable (_ = _))

/-! ## The arithmetic of a pinned write is exact -/

theorem countedFieldsOf_subset (kind : Kind) (update : CountedUpdate K) :
    countedFieldsOf kind update ⊆ countedFields kind := filter_subset _ _

variable {kind : Kind} {update : CountedUpdate K}

/-- A field the update does not write keeps its value. -/
theorem applyFields_of_notMem {f : Field} (fields : Field → Option Bson)
    (hf : f ∈ countedFields kind) (h : f ∉ countedFieldsOf kind update) :
    update.applyFields fields f = fields f := by
  have hw : ¬ ((update.set f).isSome ∨ update.unset f) := fun hw =>
    h (mem_filter.2 ⟨hf, hw⟩)
  rw [not_or] at hw
  have hset : update.set f = none := by simpa using hw.1
  simp [CountedUpdate.applyFields, hset, hw.2]

/-- A measure that knows the bytes of every field the update writes. -/
def Measures (kind : Kind) (row : Row K) (measure : RowMeasure) (update : CountedUpdate K) :
    Prop :=
  measure.version = row.version ∧ measure.createdAt = row.createdAt ∧
    measure.counted = countedBytes kind row ∧ measure.hasUpdatedAt = row.updatedAt.isSome ∧
      ∀ f ∈ countedFieldsOf kind update,
        (measure.fieldBytes f).getD 0 = entryBytes f.name (row.fields f)

variable {row : Row K}

theorem measures_measureImage {fields : CountedUpdate K}
    (h : countedFieldsOf kind update ⊆ countedFieldsOf kind fields) :
    Measures kind row (measureImage kind row fields) update := by
  refine ⟨rfl, rfl, rfl, rfl, fun f hf => ?_⟩
  simp [measureImage, h hf]

variable {measure : RowMeasure}

theorem fieldDelta_eq (h : Measures kind row measure update) {f : Field}
    (hf : f ∈ countedFieldsOf kind update) :
    fieldDelta measure update f
      = (entryBytes f.name (update.applyFields row.fields f) : ℤ)
        - entryBytes f.name (row.fields f) := by
  have hb := h.2.2.2.2 f hf
  have hw := (mem_filter.1 hf).2
  unfold fieldDelta CountedUpdate.applyFields
  cases hset : update.set f with
  | some value => simp [hb]
  | none =>
    have hun : update.unset f = true := by simpa [hset] using hw
    simp [hun, hb]

/-- The bytes of the counted fields change by the deltas of the fields written. -/
theorem sum_applyFields (h : Measures kind row measure update) :
    (∑ f ∈ countedFields kind, (entryBytes f.name (update.applyFields row.fields f) : ℤ))
      = ∑ f ∈ countedFields kind, (entryBytes f.name (row.fields f) : ℤ)
        + ∑ f ∈ countedFieldsOf kind update, fieldDelta measure update f := by
  have hsub : ∑ f ∈ countedFieldsOf kind update, fieldDelta measure update f
      = ∑ f ∈ countedFields kind,
          ((entryBytes f.name (update.applyFields row.fields f) : ℤ)
            - entryBytes f.name (row.fields f)) := by
    rw [sum_congr rfl fun f hf => fieldDelta_eq h hf]
    refine sum_subset (countedFieldsOf_subset kind update) fun f hf hnot => ?_
    rw [applyFields_of_notMem row.fields hf hnot, sub_self]
  rw [hsub, sum_sub_distrib]
  abel

/-- The stamps of a written row: the version it had or the one it gets, and `updatedAt`. -/
theorem headBytes_written (row : Row K) (now : ℕ) :
    (headBytes (some (row.version.getD 0 + 1)) row.createdAt (some now) : ℤ)
      = headBytes row.version row.createdAt row.updatedAt
        + (if row.version = none then (entryBytes "__v" (some (versionValue 1)) : ℤ) else 0)
        + (if row.updatedAt.isSome then 0
            else (entryBytes "updatedAt" (some (dateValue 0)) : ℤ)) := by
  cases hv : row.version <;> cases hu : row.updatedAt <;>
    simp [headBytes, entryBytes, versionValue, dateValue, Bson.bytes] <;> abel

/-- **A pinned write changes the counted bytes by exactly `deltaOfPinnedUpdate`.** -/
theorem countedBytes_written (h : Measures kind row measure update) (now : ℕ) :
    (countedBytes kind (row.written update now) : ℤ)
      = countedBytes kind row + deltaOfPinnedUpdate kind measure update := by
  have hsum := sum_applyFields h
  have hhead := headBytes_written row now
  obtain ⟨hv, -, -, hu, -⟩ := h
  simp only [countedBytes, Row.written, Nat.cast_add, Nat.cast_sum, deltaOfPinnedUpdate, hv, hu]
  rw [hsum, hhead]
  abel

/-- The measure recorded after a write measures the row the write left. -/
theorem measures_measureAfter {next : CountedUpdate K} (h : Measures kind row measure update)
    (hnext : ∀ f ∈ countedFieldsOf kind next,
      (measure.fieldBytes f).getD 0 = entryBytes f.name (row.fields f)) (now : ℕ) :
    Measures kind (row.written update now) (measureAfter kind measure update next) next := by
  refine ⟨?_, h.2.1, ?_, rfl, fun f hf => ?_⟩
  · rw [measureAfter, h.1]
    rfl
  · rw [countedBytes_written h now, measureAfter, h.2.2.1]
  · simp only [measureAfter, hf, if_true, Row.written, CountedUpdate.applyFields]
    cases hset : update.set f with
    | some value => rfl
    | none =>
      by_cases hun : update.unset f
      · simp [hun]
      · simp [hun, hnext f hf]

/-- The counted size depends on the counted fields and on which stamps are there. -/
theorem countedBytes_congr {row' : Row K} (hv : row'.version = row.version)
    (hc : row'.createdAt = row.createdAt) (hu : row'.updatedAt.isSome = row.updatedAt.isSome)
    (hf : ∀ f ∈ countedFields kind, row'.fields f = row.fields f) :
    countedBytes kind row' = countedBytes kind row := by
  have hsum : ∑ f ∈ countedFields kind, entryBytes f.name (row'.fields f)
      = ∑ f ∈ countedFields kind, entryBytes f.name (row.fields f) :=
    sum_congr rfl fun f h => by rw [hf f h]
  have hhead : headBytes row'.version row'.createdAt row'.updatedAt
      = headBytes row.version row.createdAt row.updatedAt := by
    rw [hv, hc]
    cases h : row.updatedAt <;> cases h' : row'.updatedAt <;>
      simp [h, h', headBytes, entryBytes, dateValue, Bson.bytes] at hu ⊢
  rw [countedBytes, hsum, hhead, countedBytes]

/-- A write of placement fields alone leaves the counted fields as they are. -/
theorem fields_placed (hw : ¬ writesCountedField kind update) (now : ℕ) :
    ∀ f ∈ countedFields kind, (row.placed update now).fields f = row.fields f := by
  have hnone : countedFieldsOf kind update = ∅ := not_not.1 hw
  exact fun f hf => applyFields_of_notMem row.fields hf (by simp [hnone])

/-- Such a write leaves the counted bytes of a row that already carries `updatedAt`. -/
theorem countedBytes_placed (hw : ¬ writesCountedField kind update) (hu : row.updatedAt.isSome)
    (now : ℕ) :
    countedBytes kind (row.placed update now) = countedBytes kind row :=
  countedBytes_congr rfl rfl (by rw [hu]; rfl) (fields_placed hw now)

/-- On a row without `updatedAt` the same write adds that field. -/
theorem countedBytes_placed_of_none (hw : ¬ writesCountedField kind update)
    (hu : row.updatedAt = none) (now : ℕ) :
    countedBytes kind (row.placed update now)
      = countedBytes kind row + entryBytes "updatedAt" (some (dateValue 0)) := by
  have hsum : ∑ f ∈ countedFields kind, entryBytes f.name ((row.placed update now).fields f)
      = ∑ f ∈ countedFields kind, entryBytes f.name (row.fields f) :=
    sum_congr rfl fun f hf => by rw [fields_placed hw now f hf]
  rw [countedBytes, hsum, countedBytes]
  simp only [Row.placed, hu, headBytes, Option.map_none, Option.map_some, entryBytes, dateValue, Bson.bytes]
  omega

end HVault
