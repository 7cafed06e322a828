import HVault.Backup.RoundTrip

/-!
# The metadata of a document

What a document is called and how it is cut into segments, as the schema checks it and as JSON. It is
sealed as text and read again (`documentMetaSchema_written`): of what is read, the numbers and the
digest are those that were written.
-/

namespace HVault.DocumentCrypto

open Json Reader Documents Backup List

/-! ## The record -/

/-- The provenance of a transform that was made before the upload. -/
structure DocumentTransform where
  formatted : Bool
  repaired : Bool
  tool : Utf16
  toolVersion : Utf16
  originalSha256 : Utf16

structure DocumentMeta where
  name : Utf16
  originalName : Option Utf16
  restoredFrom : Option Utf16
  mime : Utf16
  ext : Utf16
  plaintextBytes : ℕ
  sha256 : Utf16
  chunkPlaintextBytes : ℕ
  chunkCount : ℕ
  tags : List Utf16
  note : Option Utf16
  transform : Option DocumentTransform
  capturedAt : Utf16

def DocumentTransform.properties (transform : DocumentTransform) : List (String × Option Value) :=
  [("formatted", some (.bool transform.formatted)), ("repaired", some (.bool transform.repaired)),
    ("tool", some (.string transform.tool)), ("toolVersion", some (.string transform.toolVersion)),
    ("originalSha256", some (.string transform.originalSha256))]

def DocumentTransform.json (transform : DocumentTransform) : Value :=
  .object (present transform.properties)

namespace DocumentMeta

def properties (documentMeta : DocumentMeta) : List (String × Option Value) :=
  [("name", some (.string documentMeta.name)),
    ("originalName", documentMeta.originalName.map .string),
    ("restoredFrom", documentMeta.restoredFrom.map .string),
    ("mime", some (.string documentMeta.mime)), ("ext", some (.string documentMeta.ext)),
    ("plaintextBytes", some (number documentMeta.plaintextBytes)),
    ("sha256", some (.string documentMeta.sha256)),
    ("chunkPlaintextBytes", some (number documentMeta.chunkPlaintextBytes)),
    ("chunkCount", some (number documentMeta.chunkCount)),
    ("tags", some (.array (documentMeta.tags.map .string))),
    ("note", documentMeta.note.map .string),
    ("transform", documentMeta.transform.map DocumentTransform.json),
    ("capturedAt", some (.string documentMeta.capturedAt))]

def json (documentMeta : DocumentMeta) : Value := .object (present documentMeta.properties)

/-- The bytes that are sealed. -/
def encoded (documentMeta : DocumentMeta) : Bytes := encodeText (stringify documentMeta.json)

end DocumentMeta

/-! ## The schema -/

def maxDocumentNameLength : ℕ := 255
def maxDocumentMimeLength : ℕ := 255
def maxDocumentExtLength : ℕ := 32
def maxDocumentNoteLength : ℕ := 10000
def maxDocumentTags : ℕ := 20
def maxTagLength : ℕ := 50
def maxDocumentTransformLabelLength : ℕ := 64
def maxDocumentTimestampLength : ℕ := 40
def maxDocumentMetaJsonBytes : ℕ := 38400

/-- A string of `low` to `high` code units. -/
def text (low high : ℕ) : Value → Checked Utf16 :=
  stringThat fun s => low ≤ s.length ∧ s.length ≤ high

def tag (v : Value) : Checked Utf16 := do
  let s ← string v
  text 1 maxTagLength (.string (trim s))

def tags (v : Value) : Checked (List Utf16) := do
  let tags ← array tag v
  if tags.length ≤ maxDocumentTags then return tags else .error .wrong

def documentTransformSchema (v : Value) : Checked DocumentTransform := do
  let fields ← object v
  let formatted ← required "formatted" boolean fields
  let repaired ← required "repaired" boolean fields
  let tool ← required "tool" (text 1 maxDocumentTransformLabelLength) fields
  let toolVersion ← required "toolVersion" (text 1 maxDocumentTransformLabelLength) fields
  let originalSha256 ← required "originalSha256" (stringThat (isHex 64)) fields
  return { formatted, repaired, tool, toolVersion, originalSha256 }

/-- Is `chunkCount` the count this plaintext size implies? -/
def DocumentMeta.hasConsistentFraming (documentMeta : DocumentMeta) : Bool :=
  documentMeta.chunkPlaintextBytes = 0 ∨ documentMeta.chunkCount =
    documentChunkCountFor documentMeta.plaintextBytes documentMeta.chunkPlaintextBytes

def documentMetaJsonByteLength (documentMeta : DocumentMeta) : ℕ := documentMeta.encoded.length

/-- The two refinements: the numbers against each other, and the size of the whole. -/
def refineMeta (documentMeta : DocumentMeta) : Checked DocumentMeta :=
  if ¬ documentMeta.hasConsistentFraming then .error ⟨["chunkCount"], none⟩
  else if maxDocumentMetaJsonBytes < documentMetaJsonByteLength documentMeta then .error .wrong
  else .ok documentMeta

def documentMetaSchema (formats : Formats) (v : Value) : Checked DocumentMeta := do
  let fields ← object v
  let name ← required "name" (text 1 maxDocumentNameLength) fields
  let originalName ← optional "originalName" (text 1 maxDocumentNameLength) fields
  let restoredFrom ← optional "restoredFrom" (stringThat (isHex 24)) fields
  let mime ← required "mime" (text 0 maxDocumentMimeLength) fields
  let ext ← required "ext" (text 0 maxDocumentExtLength) fields
  let plaintextBytes ← required "plaintextBytes" (atLeast 0) fields
  let sha256 ← required "sha256" (stringThat (isHex 64)) fields
  let chunkPlaintextBytes ← required "chunkPlaintextBytes" (atLeast 1) fields
  let chunkCount ← required "chunkCount" (between 1 maxDocumentChunkCount) fields
  let tags ← required "tags" tags fields
  let note ← optional "note" (text 0 maxDocumentNoteLength) fields
  let transform ← optional "transform" documentTransformSchema fields
  let capturedAt ← required "capturedAt"
    (stringThat fun s => formats.datetime s ∧ s.length ≤ maxDocumentTimestampLength) fields
  refineMeta {
    name, originalName, restoredFrom, mime, ext, plaintextBytes, sha256, chunkPlaintextBytes,
    chunkCount, tags, note, transform, capturedAt }

/-! ## What is written is read -/

/-- The part of the metadata that a read of the document goes by. -/
structure SameFraming (documentMeta documentMeta' : DocumentMeta) : Prop where
  plaintextBytes : documentMeta.plaintextBytes = documentMeta'.plaintextBytes
  chunkPlaintextBytes : documentMeta.chunkPlaintextBytes = documentMeta'.chunkPlaintextBytes
  chunkCount : documentMeta.chunkCount = documentMeta'.chunkCount
  sha256 : documentMeta.sha256 = documentMeta'.sha256

variable (documentMeta : DocumentMeta)

theorem DocumentMeta.nodup : (documentMeta.properties.map (·.1)).Nodup := by
  show List.Nodup ["name", "originalName", "restoredFrom", "mime", "ext", "plaintextBytes", "sha256",
    "chunkPlaintextBytes", "chunkCount", "tags", "note", "transform", "capturedAt"]
  decide

theorem documentMetaSchema_written {formats : Formats} {documentMeta read : DocumentMeta}
    (h : documentMetaSchema formats documentMeta.json.written = .ok read) :
    SameFraming read documentMeta := by
  obtain ⟨fields, hfields, h⟩ := bind_ok h
  cases hfields
  obtain ⟨name, -, h⟩ := bind_ok h
  obtain ⟨originalName, -, h⟩ := bind_ok h
  obtain ⟨restoredFrom, -, h⟩ := bind_ok h
  obtain ⟨mime, -, h⟩ := bind_ok h
  obtain ⟨ext, -, h⟩ := bind_ok h
  replace h := required_bind documentMeta.plaintextBytes documentMeta.nodup (atLeast_rereads _) (by
    simp [DocumentMeta.properties]) h
  replace h := required_bind documentMeta.sha256 documentMeta.nodup (stringThat_rereads _) (by
    simp [DocumentMeta.properties]) h
  replace h := required_bind documentMeta.chunkPlaintextBytes documentMeta.nodup (atLeast_rereads _)
    (by simp [DocumentMeta.properties]) h
  replace h := required_bind documentMeta.chunkCount documentMeta.nodup (between_rereads _ _) (by
    simp [DocumentMeta.properties]) h
  obtain ⟨tags, -, h⟩ := bind_ok h
  obtain ⟨note, -, h⟩ := bind_ok h
  obtain ⟨transform, -, h⟩ := bind_ok h
  obtain ⟨capturedAt, -, h⟩ := bind_ok h
  unfold refineMeta at h
  split_ifs at h
  cases h
  exact ⟨rfl, rfl, rfl, rfl⟩

theorem ordered_transform (transform : DocumentTransform) : Ordered transform.json := by
  refine ordered_present ?_ (fun name hname => ?_) ?_
  · show List.Nodup ["formatted", "repaired", "tool", "toolVersion", "originalSha256"]
    decide
  · have hnames : ∀ name ∈ ["formatted", "repaired", "tool", "toolVersion", "originalSha256"],
        isName (units name) := by decide
    exact hnames name hname
  · intro property hproperty v hv
    simp only [DocumentTransform.properties, mem_cons, not_mem_nil, or_false] at hproperty
    rcases hproperty with rfl | rfl | rfl | rfl | rfl
    all_goals cases hv; constructor

theorem ordered_meta : Ordered documentMeta.json := by
  refine ordered_present documentMeta.nodup (fun name hname => ?_) ?_
  · have hnames : ∀ name ∈ ["name", "originalName", "restoredFrom", "mime", "ext",
        "plaintextBytes", "sha256", "chunkPlaintextBytes", "chunkCount", "tags", "note",
        "transform", "capturedAt"], isName (units name) := by decide
    exact hnames name hname
  · have hstring : ∀ (s : Option Utf16), ∀ v ∈ s.map Value.string, Ordered v := by
      rintro (_ | s) v hv
      · cases hv
      · cases hv
        exact .string s
    intro property hproperty v hv
    simp only [DocumentMeta.properties, mem_cons, not_mem_nil, or_false] at hproperty
    rcases hproperty with rfl | rfl | rfl | rfl | rfl | rfl | rfl | rfl | rfl | rfl | rfl | rfl | rfl
    · cases hv; constructor
    · exact hstring _ v hv
    · exact hstring _ v hv
    · cases hv; constructor
    · cases hv; constructor
    · cases hv; exact ordered_number _
    · cases hv; constructor
    · cases hv; exact ordered_number _
    · cases hv; exact ordered_number _
    · cases hv
      refine .array fun v hv => ?_
      obtain ⟨s, -, rfl⟩ := mem_map.1 hv
      exact .string s
    · exact hstring _ v hv
    · obtain ⟨transform, -, rfl⟩ := Option.map_eq_some_iff.1 hv
      exact ordered_transform transform
    · cases hv; constructor

/-- The text of a record parses as the record, and its bytes decode as the text. -/
theorem parse_encoded :
    (decodeText documentMeta.encoded).bind parse = some documentMeta.json.written := by
  have hdecode : decodeText documentMeta.encoded = some (stringify documentMeta.json) := by
    unfold DocumentMeta.encoded DocumentMeta.json stringify
    rw [Value.text]
    exact decodeText_encodeText (by decide)
  rw [hdecode, Option.bind_some, parse_stringify (ordered_meta documentMeta)]

end HVault.DocumentCrypto
