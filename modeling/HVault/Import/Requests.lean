import HVault.Data.Utf8
import HVault.Backup.Manifest
import HVault.Import.Batches
import HVault.Json.SameValue

/-!
# The requests of an import

The sealed operations of an import as they are sent: rows to insert and rows to update, sliced into
requests. A slice is sized by the text of its operations, each with its kind beside it, and sent as
two arrays without the kinds. `chunkImportOperations_lossless`: nothing is lost, and the operations
of a request stay within the limit.

What is measured are the code units of a text, and what is sent are its bytes. These are as many
where the text is ASCII.
-/

namespace HVault.Import

open Json

namespace Operation

def kind {A B : Type} : Operation A B → Utf16
  | insert _ => units "insert"
  | update _ => units "update"

def item {A : Type} : Operation A A → A
  | insert item => item
  | update item => item

def json (operation : Operation Value Value) : Value :=
  .object [(units "kind", .string operation.kind), (units "item", operation.item)]

end Operation

namespace OperationBatch

def count {A B : Type} (batch : OperationBatch A B) : ℕ :=
  batch.inserts.length + batch.updates.length

/-- The `operations` of a request. -/
def json (batch : OperationBatch Value Value) : Value :=
  .object [(units "inserts", .array batch.inserts), (units "updates", .array batch.updates)]

end OperationBatch

end HVault.Import

namespace HVault.ImportRequests

open Json List
open Import (Operation OperationBatch chunkBySize chunkStep flatten_chunkBySize operationStream)

/-! ## Sizes of texts -/

/-- How long a text is when each character is written as `write` does. -/
def encodedLength {B : Type} (write : Char → List B) (v : Value) : ℕ :=
  ((stringify v).flatMap write).length

/-- `JSON.stringify(v).length`. -/
def textLength (v : Value) : ℕ := (utf16 (stringify v)).length

/-- The bytes of the text in a request. -/
def byteLength (v : Value) : ℕ := (Utf8.encode (utf16 (stringify v))).length

def IsAscii (v : Value) : Prop := ∀ c ∈ stringify v, c.toNat < 128

instance (v : Value) : Decidable (IsAscii v) := List.decidableBAll _ _

/-! ## Batches -/

/-- A sealed operation with its kind. -/
abbrev TaggedOperation := Operation Value Value

abbrev ImportOperationBatch := OperationBatch Value Value

def maxImportItems : ℕ := 10000

def maxImportDataLength : ℕ := 1048576

/-- Nine tenths of the old limit of a request. -/
def importBatchMaxBytes : ℕ := maxImportDataLength * 9 / 10

/-- The batches of sealed operations, each as long as its text. -/
def chunkImportOperations (inserts updates : List Value) (maxBytes : ℕ := importBatchMaxBytes)
    (maxCount : ℕ := maxImportItems) : List ImportOperationBatch :=
  Import.chunkImportOperations (fun operation => textLength operation.json) maxBytes maxCount
    inserts updates

/-- The body of an import request. -/
def requestBody (format conflictStrategy : Utf16) (batch : ImportOperationBatch)
    (vaultKeyVersion : Number) : Value :=
  .object [(units "format", .string format), (units "conflictStrategy", .string conflictStrategy),
    (units "operations", batch.json), (units "vaultKeyVersion", .number vaultKeyVersion)]

/-! ## What the slices are -/

section Slices

variable {T : Type} {size : T → ℕ} {maxBytes maxCount : ℕ}

/-- The size a slice is taken for. -/
def sliceSize (size : T → ℕ) (slice : List T) : ℕ := 2 + (slice.map fun item => size item + 1).sum

/-- A slice within both limits, or of one item that is not. -/
structure Fits (size : T → ℕ) (maxBytes maxCount : ℕ) (slice : List T) : Prop where
  count : slice.length ≤ max 1 maxCount
  size : 1 < slice.length → sliceSize size slice ≤ maxBytes

/-- What the loop keeps of the slices that are done and of the one it fills. -/
structure Chunked (size : T → ℕ) (maxBytes maxCount : ℕ) (acc : List (List T) × List T × ℕ) :
    Prop where
  done : ∀ slice ∈ acc.1, slice ≠ [] ∧ Fits size maxBytes maxCount slice
  current : Fits size maxBytes maxCount acc.2.1
  bytes : acc.2.2 = sliceSize size acc.2.1

theorem fits_singleton (item : T) : Fits size maxBytes maxCount [item] where
  count := le_max_left _ _
  size h := absurd h (lt_irrefl 1)

theorem Chunked.step {acc : List (List T) × List T × ℕ} (h : Chunked size maxBytes maxCount acc)
    (item : T) : Chunked size maxBytes maxCount (chunkStep size maxBytes maxCount acc item) := by
  obtain ⟨done, current, bytes⟩ := acc
  obtain ⟨hdone, hcurrent, hbytes⟩ := h
  simp only at hdone hcurrent hbytes
  unfold chunkStep
  dsimp only
  split_ifs with hfull
  · -- the current slice is done, and the item begins the next
    refine ⟨fun slice hslice => ?_, fits_singleton item, by simp [sliceSize]⟩
    rcases mem_append.1 hslice with hslice | hslice
    · exact hdone slice hslice
    · rw [mem_singleton.1 hslice]
      exact ⟨ne_nil_of_length_pos hfull.1, hcurrent⟩
  · have hsize : bytes + (size item + 1) = sliceSize size (current ++ [item]) := by
      simp only [hbytes, sliceSize, map_append, sum_append, map_cons, map_nil,
        sum_cons, sum_nil]
      omega
    refine ⟨hdone, ⟨?_, fun hlength => ?_⟩, hsize⟩
    · rw [length_append, length_singleton]
      by_cases hempty : current.length = 0
      · omega
      · have hroom : current.length < maxCount := by
          by_contra hover
          exact hfull ⟨by omega, .inr (by omega)⟩
        omega
    · rw [length_append, length_singleton] at hlength
      rw [← hsize]
      by_contra hover
      exact hfull ⟨by omega, .inl (by omega)⟩

theorem Chunked.foldl {acc : List (List T) × List T × ℕ} (h : Chunked size maxBytes maxCount acc)
    (items : List T) :
    Chunked size maxBytes maxCount (items.foldl (chunkStep size maxBytes maxCount) acc) := by
  induction items generalizing acc with
  | nil => exact h
  | cons item items ih => exact ih (h.step item)

theorem chunked_nil : Chunked size maxBytes maxCount ([], [], 2) where
  done := forall_mem_nil _
  current := ⟨Nat.zero_le _, fun h => absurd h (by simp)⟩
  bytes := rfl

/-- Every slice has an item, and is within the limits if it has two. -/
theorem fits_chunkBySize {items slice : List T}
    (h : slice ∈ chunkBySize size maxBytes maxCount items) :
    slice ≠ [] ∧ Fits size maxBytes maxCount slice := by
  obtain ⟨hdone, hcurrent, -⟩ := chunked_nil.foldl items
  unfold chunkBySize at h
  dsimp only at h
  split_ifs at h with hlast
  · rcases mem_append.1 h with h | h
    · exact hdone slice h
    · rw [mem_singleton.1 h]
      exact ⟨ne_nil_of_length_pos hlast, hcurrent⟩
  · exact hdone slice h

end Slices

/-! ## What the texts are -/

section Texts

variable {B : Type} (write : Char → List B)

/-- The write of a character that has one unit for itself. -/
def PlainAscii : Prop := ∀ c : Char, c.toNat < 128 → (write c).length = 1

theorem plainAscii_unitsOf : PlainAscii unitsOf := by
  intro c hc
  unfold unitsOf
  rw [if_pos (by omega)]
  rfl

theorem plainAscii_utf8EncodeChar : PlainAscii String.utf8EncodeChar := by
  intro c hc
  rw [String.length_utf8EncodeChar, Char.utf8Size_eq_one_iff]
  exact UInt32.le_iff_toNat_le.2 (by
    show c.toNat ≤ 127
    omega)

theorem textLength_eq (v : Value) : textLength v = encodedLength unitsOf v := rfl

theorem byteLength_eq (v : Value) : byteLength v = encodedLength String.utf8EncodeChar v := by
  unfold byteLength encodedLength Utf8.encode
  rw [Utf8.scalars_utf16]

/-- An ASCII text is as long in bytes as in code units. -/
theorem byteLength_of_isAscii {v : Value} (h : IsAscii v) : byteLength v = textLength v := by
  rw [byteLength_eq, textLength_eq]
  unfold encodedLength
  unfold IsAscii at h
  generalize stringify v = text at h ⊢
  induction text with
  | nil => rfl
  | cons c cs ih =>
    rw [forall_mem_cons] at h
    rw [flatMap_cons, flatMap_cons, length_append, length_append, ih h.2,
      plainAscii_unitsOf c h.1, plainAscii_utf8EncodeChar c h.1]

variable {write}

/-- The elements of an array take their own texts and a comma each but the last. -/
theorem length_itemsText (hwrite : PlainAscii write) (items : List Value) :
    ((itemsText items).flatMap write).length
      ≤ (items.map fun item => encodedLength write item + 1).sum := by
  induction items with
  | nil => simp [itemsText]
  | cons v items ih =>
    rw [map_cons, sum_cons]
    cases items with
    | nil =>
      rw [itemsText]
      unfold encodedLength stringify
      simp
    | cons w items =>
      rw [itemsText, flatMap_append, length_append, flatMap_cons, length_append,
        hwrite ',' (by decide)]
      unfold encodedLength stringify at ih ⊢
      omega

/-- A property name of a request, quoted. -/
theorem length_stringText (hwrite : PlainAscii write) (key : Utf16)
    (hkey : (stringText key).all (fun c => c.toNat < 128)) :
    ((stringText key).flatMap write).length = (stringText key).length := by
  have hplain : ∀ c ∈ stringText key, c.toNat < 128 := fun c hc =>
    of_decide_eq_true (all_eq_true.1 hkey c hc)
  generalize stringText key = text at hplain ⊢
  induction text with
  | nil => rfl
  | cons c cs ih =>
    rw [forall_mem_cons] at hplain
    rw [flatMap_cons, length_append, hwrite c hplain.1, ih hplain.2, length_cons]
    omega

/-- The kind beside an operation takes twenty-five characters. -/
theorem encodedLength_tagged (hwrite : PlainAscii write) (operation : TaggedOperation) :
    encodedLength write operation.json = 25 + encodedLength write operation.item := by
  have hkey := length_stringText hwrite (units "kind") (by decide)
  have hitem := length_stringText hwrite (units "item") (by decide)
  have hkind : ((stringText operation.kind).flatMap write).length = 8 := by
    cases operation with
    | insert item => exact length_stringText hwrite (units "insert") (by decide)
    | update item => exact length_stringText hwrite (units "update") (by decide)
  have hopen := hwrite '{' (by decide)
  have hclose := hwrite '}' (by decide)
  have hcolon := hwrite ':' (by decide)
  have hcomma := hwrite ',' (by decide)
  unfold encodedLength Operation.json stringify
  simp only [Value.text, fieldsText, flatMap_cons, flatMap_append, length_append,
    flatMap_nil, append_nil]
  rw [hkey, hitem, hkind, hopen, hclose, hcolon, hcomma]
  have hlength : (stringText (units "kind")).length = 6 := by decide
  have hlength' : (stringText (units "item")).length = 6 := by decide
  omega

/-- The arrays of a request and their names take twenty-seven characters, besides a separator for
each operation at most. -/
theorem encodedLength_batch (hwrite : PlainAscii write) (batch : ImportOperationBatch) :
    encodedLength write batch.json
      ≤ 27 + (batch.inserts.map fun item => encodedLength write item + 1).sum
        + (batch.updates.map fun item => encodedLength write item + 1).sum := by
  have hkey := length_stringText hwrite (units "inserts") (by decide)
  have hkey' := length_stringText hwrite (units "updates") (by decide)
  have hinserts := length_itemsText hwrite batch.inserts
  have hupdates := length_itemsText hwrite batch.updates
  have hopen := hwrite '{' (by decide)
  have hclose := hwrite '}' (by decide)
  have hcolon := hwrite ':' (by decide)
  have hcomma := hwrite ',' (by decide)
  have hbracket := hwrite '[' (by decide)
  have hbracket' := hwrite ']' (by decide)
  have htext : encodedLength write batch.json
      = ((stringText (units "inserts")).flatMap write).length
        + ((itemsText batch.inserts).flatMap write).length
        + ((stringText (units "updates")).flatMap write).length
        + ((itemsText batch.updates).flatMap write).length + 9 := by
    unfold encodedLength OperationBatch.json stringify
    simp only [Value.text, fieldsText, flatMap_cons, flatMap_append, length_append,
      flatMap_nil, append_nil]
    omega
  have hlength : (stringText (units "inserts")).length = 9 := by decide
  have hlength' : (stringText (units "updates")).length = 9 := by decide
  omega

end Texts

/-! ## Batches -/

theorem sum_ofStream (g : Value → ℕ) (slice : List TaggedOperation) :
    ((OperationBatch.ofStream slice).inserts.map g).sum
        + ((OperationBatch.ofStream slice).updates.map g).sum
      = (slice.map fun operation => g operation.item).sum := by
  induction slice with
  | nil => rfl
  | cons operation slice ih =>
    unfold OperationBatch.ofStream at ih ⊢
    cases operation with
    | insert item | update item =>
      simp only [filterMap_cons, map_cons, sum_cons, Operation.item] at ih ⊢
      omega

theorem count_ofStream (slice : List TaggedOperation) :
    (OperationBatch.ofStream slice).count = slice.length := by
  have hsum := sum_ofStream (fun _ => 1) slice
  simpa [OperationBatch.count] using hsum

/-- What a slice of two operations is taken for covers its text in a request. -/
theorem textLength_ofStream_le {slice : List TaggedOperation} (hlength : 1 < slice.length) :
    textLength (OperationBatch.ofStream slice).json
      ≤ sliceSize (fun operation => textLength operation.json) slice := by
  have hbatch := encodedLength_batch plainAscii_unitsOf (OperationBatch.ofStream slice)
  have hsum := sum_ofStream (fun item => encodedLength unitsOf item + 1) slice
  have htagged : (slice.map fun operation => textLength operation.json + 1).sum
      = 25 * slice.length
        + (slice.map fun operation => encodedLength unitsOf operation.item + 1).sum := by
    clear hlength hbatch hsum
    induction slice with
    | nil => rfl
    | cons operation slice ih =>
      have hsize := encodedLength_tagged plainAscii_unitsOf operation
      simp only [map_cons, sum_cons, length_cons, textLength_eq, hsize] at ih ⊢
      omega
  rw [textLength_eq, sliceSize, htagged]
  omega

theorem flatMap_ofStream (slices : List (List TaggedOperation)) :
    (slices.map OperationBatch.ofStream).flatMap (·.inserts)
        = (OperationBatch.ofStream slices.flatten).inserts ∧
      (slices.map OperationBatch.ofStream).flatMap (·.updates)
        = (OperationBatch.ofStream slices.flatten).updates := by
  induction slices with
  | nil => exact ⟨rfl, rfl⟩
  | cons slice slices ih =>
    obtain ⟨hinserts, hupdates⟩ := ih
    rw [map_cons, flatMap_cons, flatMap_cons, hinserts, hupdates, flatten_cons]
    unfold OperationBatch.ofStream
    rw [filterMap_append, filterMap_append]
    exact ⟨rfl, rfl⟩

theorem ofStream_operationStream (inserts updates : List Value) :
    OperationBatch.ofStream (operationStream inserts updates) = ⟨inserts, updates⟩ := by
  simp [OperationBatch.ofStream, operationStream, filterMap_append, filterMap_map]

/-- The operations of a request are written in ASCII. -/
def ImportOperationBatch.Ascii (batch : ImportOperationBatch) : Prop := IsAscii batch.json

/-- **Batching loses nothing**: the batches hold the inserts in their order and the updates in
theirs, each of them holds something and no more than it may, and the operations of a request that
are more than one are within the limit in ASCII. A count limit of none lets one pass. -/
theorem chunkImportOperations_lossless (inserts updates : List Value) (maxBytes maxCount : ℕ) :
    let batches := chunkImportOperations inserts updates maxBytes maxCount
    batches.flatMap (·.inserts) = inserts ∧ batches.flatMap (·.updates) = updates ∧
      ∀ batch ∈ batches, batch.count ≠ 0 ∧ batch.count ≤ max 1 maxCount ∧
        (1 < batch.count → batch.Ascii → byteLength batch.json ≤ maxBytes) := by
  intro batches
  have hflatten := flatten_chunkBySize (fun operation : TaggedOperation => textLength operation.json)
    maxBytes maxCount (operationStream inserts updates)
  have hsame := flatMap_ofStream (chunkBySize (fun operation => textLength operation.json) maxBytes
    maxCount (operationStream inserts updates))
  rw [hflatten, ofStream_operationStream] at hsame
  refine ⟨hsame.1, hsame.2, fun batch hbatch => ?_⟩
  obtain ⟨slice, hslice, rfl⟩ := mem_map.1 hbatch
  obtain ⟨hne, hfits⟩ := fits_chunkBySize hslice
  rw [count_ofStream]
  refine ⟨fun hempty => hne (eq_nil_of_length_eq_zero hempty), hfits.count, ?_⟩
  intro hlength hascii
  rw [byteLength_of_isAscii hascii]
  exact (textLength_ofStream_le hlength).trans (hfits.size hlength)

/-! ## What the limits do not cover -/

/-- A row to insert, with a nonce of its own. -/
def sampleInsert (idNonce : String) : Value :=
  .object [(units "itemType", .string (units "note")), (units "encryptedName", .string (units "AAAA")),
    (units "nameIv", .string (units "AAAAAAAAAAAAAAAA")),
    (units "nameTag", .string (units "AAAAAAAAAAAAAAAAAAAAAA==")),
    (units "encryptedData", .string (units "AAAA")),
    (units "dataIv", .string (units "AAAAAAAAAAAAAAAA")),
    (units "dataTag", .string (units "AAAAAAAAAAAAAAAAAAAAAA==")), (units "tags", .array []),
    (units "favorite", .bool false), (units "idNonce", .string (units idNonce))]

def sampleInserts : List Value :=
  [sampleInsert "0000000000000000000000000000000000000000",
    sampleInsert "0000000000000000000000000000000000000001"]

/-- The envelope of a request takes sixty-four characters and more, which no limit is taken for. -/
theorem byteLength_requestBody_ge (format conflictStrategy : Utf16) (batch : ImportOperationBatch)
    (vaultKeyVersion : Number) :
    byteLength batch.json + 64
      ≤ byteLength (requestBody format conflictStrategy batch vaultKeyVersion) := by
  have hwrite := plainAscii_utf8EncodeChar
  have hformat := length_stringText hwrite (units "format") (by decide)
  have hstrategy := length_stringText hwrite (units "conflictStrategy") (by decide)
  have hoperations := length_stringText hwrite (units "operations") (by decide)
  have hversion := length_stringText hwrite (units "vaultKeyVersion") (by decide)
  have hcolon := hwrite ':' (by decide)
  have hcomma := hwrite ',' (by decide)
  have hopen := hwrite '{' (by decide)
  have hclose := hwrite '}' (by decide)
  have hnames : (stringText (units "format")).length = 8 ∧
      (stringText (units "conflictStrategy")).length = 18 ∧
      (stringText (units "operations")).length = 12 ∧
      (stringText (units "vaultKeyVersion")).length = 17 := by decide
  rw [byteLength_eq, byteLength_eq]
  unfold encodedLength requestBody stringify
  generalize batch.json = operations
  simp only [Value.text, fieldsText, flatMap_cons, flatMap_append, length_append,
    flatMap_nil, append_nil]
  omega

/-- Two rows for whose texts the limit is just enough, and a count limit of none. The request with
both rows is longer than the limit, and a row is sent although none may be. -/
theorem chunkImportOperations_past_limits :
    chunkImportOperations sampleInserts [] 604 maxImportItems = [⟨sampleInserts, []⟩] ∧
      604 < byteLength (requestBody (units "csv") (units "keep_both") ⟨sampleInserts, []⟩
        (.ofRat 1)) ∧
      chunkImportOperations sampleInserts [] 604 0 = sampleInserts.map fun item => ⟨[item], []⟩ := by
  have hsize : ∀ item ∈ sampleInserts, textLength (Operation.insert item).json = 300 := by
    unfold sampleInserts
    simp only [forall_mem_cons]
    exact ⟨by decide +kernel, by decide +kernel, forall_mem_nil _⟩
  refine ⟨?_, ?_, ?_⟩
  · unfold sampleInserts at hsize ⊢
    simp [chunkImportOperations, Import.chunkImportOperations, operationStream, chunkBySize, chunkStep,
      hsize, maxImportItems, OperationBatch.ofStream]
  · have henvelope := byteLength_requestBody_ge (units "csv") (units "keep_both")
      ⟨sampleInserts, []⟩ (.ofRat 1)
    have hpayload : byteLength (OperationBatch.mk sampleInserts []).json = 578 := by
      decide +kernel
    omega
  · unfold sampleInserts at hsize ⊢
    simp only [forall_mem_cons] at hsize
    simp [chunkImportOperations, Import.chunkImportOperations, operationStream, chunkBySize, chunkStep,
      hsize, OperationBatch.ofStream]

end HVault.ImportRequests
