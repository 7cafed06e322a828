import Mathlib.Data.Nat.Notation
import Mathlib.Tactic.Common

/-!
# The batches of an import

`chunkImportOperations` slices operations into requests: the inserts and then the updates, a slice
at a time, each within a limit on the sizes of its operations and on their count.
-/

namespace HVault.Import

open List

section Chunks

variable {T : Type} (size : T → ℕ) (maxBytes maxCount : ℕ)

/-- One pass of `chunkBySize`: the batches so far, the current one and its size. -/
def chunkStep (acc : List (List T) × List T × ℕ) (item : T) : List (List T) × List T × ℕ :=
  let itemSize := size item + 1
  if acc.2.1.length > 0 ∧ (maxBytes < acc.2.2 + itemSize ∨ maxCount ≤ acc.2.1.length) then
    (acc.1 ++ [acc.2.1], [item], 2 + itemSize)
  else (acc.1, acc.2.1 ++ [item], acc.2.2 + itemSize)

/-- Splits items into batches below `maxBytes` and of at most `maxCount` items; `size` is the
length of an item's JSON text. -/
def chunkBySize (items : List T) : List (List T) :=
  let acc := items.foldl (chunkStep size maxBytes maxCount) ([], [], 2)
  if acc.2.1.length > 0 then acc.1 ++ [acc.2.1] else acc.1

theorem flatten_chunkStep (acc : List (List T) × List T × ℕ) (item : T) :
    (chunkStep size maxBytes maxCount acc item).1.flatten
        ++ (chunkStep size maxBytes maxCount acc item).2.1 =
      acc.1.flatten ++ acc.2.1 ++ [item] := by
  unfold chunkStep
  dsimp only
  split <;> simp

variable (items : List T)

theorem flatten_foldl_chunkStep (acc : List (List T) × List T × ℕ) :
    (items.foldl (chunkStep size maxBytes maxCount) acc).1.flatten
        ++ (items.foldl (chunkStep size maxBytes maxCount) acc).2.1 =
      acc.1.flatten ++ acc.2.1 ++ items := by
  induction items generalizing acc with
  | nil => simp
  | cons item rest ih =>
    rw [foldl_cons, ih, flatten_chunkStep]
    simp

/-- Batching drops, adds and reorders nothing. -/
theorem flatten_chunkBySize : (chunkBySize size maxBytes maxCount items).flatten = items := by
  have h := flatten_foldl_chunkStep size maxBytes maxCount items ([], [], 2)
  unfold chunkBySize
  dsimp only
  split
  · simpa using h
  · rename_i hempty
    have hnil : (items.foldl (chunkStep size maxBytes maxCount) ([], [], 2)).2.1 = [] :=
      eq_nil_of_length_eq_zero (by omega)
    simpa [hnil] using h

theorem foldl_chunkStep_one (done : List (List T)) (last : T) (bytes : ℕ) :
    ∃ bytes' done' last',
      items.foldl (chunkStep size maxBytes 1) (done, [last], bytes) = (done', [last'], bytes') ∧
        done' ++ [[last']] = done ++ [[last]] ++ items.map ([·]) := by
  induction items generalizing done last bytes with
  | nil => exact ⟨bytes, done, last, rfl, by simp⟩
  | cons item rest ih =>
    obtain ⟨bytes', done', last', hfold, heq⟩ := ih (done ++ [[last]]) item (2 + (size item + 1))
    refine ⟨bytes', done', last', ?_, ?_⟩
    · rw [foldl_cons, ← hfold]
      simp [chunkStep]
    · rw [heq]
      simp

/-- A count limit of one sends every operation on its own. -/
theorem chunkBySize_one : chunkBySize size maxBytes 1 items = items.map ([·]) := by
  cases items with
  | nil => rfl
  | cons item rest =>
    have hfirst : chunkStep size maxBytes 1 ([], [], 2) item = ([], [item], 2 + (size item + 1)) := by
      simp [chunkStep]
    obtain ⟨bytes', done', last', hfold, heq⟩ :=
      foldl_chunkStep_one size maxBytes rest [] item (2 + (size item + 1))
    rw [chunkBySize, foldl_cons, hfirst, hfold]
    simpa using heq

end Chunks

/-! ## Operations -/

variable {A B : Type}

/-- An operation with its kind. -/
inductive Operation (A B : Type) where
  | insert (item : A)
  | update (item : B)

/-- One request's worth of operations. -/
structure OperationBatch (A B : Type) where
  inserts : List A
  updates : List B

/-- The operations of a batch, by kind. -/
def OperationBatch.ofStream (batch : List (Operation A B)) : OperationBatch A B where
  inserts := batch.filterMap fun
    | .insert item => some item
    | .update _ => none
  updates := batch.filterMap fun
    | .insert _ => none
    | .update item => some item

/-- The operations in the order they are sent: inserts, then updates. -/
def operationStream (inserts : List A) (updates : List B) : List (Operation A B) :=
  inserts.map .insert ++ updates.map .update

/-- Splits operations into size-bounded requests. -/
def chunkImportOperations (size : Operation A B → ℕ) (maxBytes maxCount : ℕ) (inserts : List A)
    (updates : List B) : List (OperationBatch A B) :=
  (chunkBySize size maxBytes maxCount (operationStream inserts updates)).map .ofStream

end HVault.Import
