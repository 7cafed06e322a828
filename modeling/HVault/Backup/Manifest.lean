import HVault.Documents.Framing
import HVault.Json.Reader

/-!
# The manifest of a full backup

What a full backup says about the documents it holds, as the schemas check it and as JSON.

* `documentResponseSchema`, `manifestSchema`: what is accepted, and the path of the first thing that
  is not; a schema drops the properties that it does not name, but for those of the vault backup;
* `DocumentResponse.json`, `FullBackupManifest.properties`: what is written.

The checks of a date and of Base64 belong to the schema library and are parameters.
-/

namespace HVault.Backup

open Json Reader Documents

/-! ## Strings -/

/-- The string checks of the schema library. -/
structure Formats where
  datetime : Utf16 → Bool
  base64 : Utf16 → Bool

/-- So many lower-case hexadecimal digits. -/
def isHex (length : ℕ) (s : Utf16) : Bool :=
  s.length = length ∧ s.all fun u =>
    (0x30 ≤ u.toNat ∧ u.toNat ≤ 0x39) ∨ (0x61 ≤ u.toNat ∧ u.toNat ≤ 0x66)

/-- Padded standard base64 of exactly `bytes` raw bytes. -/
def base64OfBytes (formats : Formats) (bytes : ℕ) : Value → Checked Utf16 :=
  let length := (bytes + 2) / 3 * 4
  let padding := (3 - bytes % 3) % 3
  let pad := 0x3D
  stringThat fun s => formats.base64 s ∧ s.length = length ∧
    List.replicate padding pad <:+ s ∧ ¬ List.replicate (padding + 1) pad <:+ s

/-! ## Document rows -/

def documentStreamSaltBytes : ℕ := 32

def documentNoncePrefixBytes : ℕ := 7

def maxDocumentChunkCount : ℕ := 10000

/-- A document row as the API sends it. -/
structure DocumentResponse where
  id : Utf16
  folderId : Option Utf16
  favorite : Bool
  encryptedDek : Utf16
  dekIv : Utf16
  dekTag : Utf16
  streamSalt : Utf16
  noncePrefix : Utf16
  encryptedMeta : Utf16
  metaIv : Utf16
  metaTag : Utf16
  chunkPlaintextBytes : ℕ
  chunkCount : ℕ
  ciphertextBytes : ℕ
  plaintextBytes : ℕ
  purgePending : Option Bool
  deletedAt : Option Utf16
  createdAt : Utf16
  updatedAt : Utf16
  deriving DecidableEq

namespace DocumentResponse

/-- Is `chunkCount` the count this plaintext size implies? -/
def hasConsistentFraming (row : DocumentResponse) : Bool :=
  row.chunkPlaintextBytes = 0 ∨
    row.chunkCount = documentChunkCountFor row.plaintextBytes row.chunkPlaintextBytes

@[simp] def properties (row : DocumentResponse) : List (String × Option Value) :=
  [("_id", some (.string row.id)), ("folderId", row.folderId.map .string),
    ("favorite", some (.bool row.favorite)), ("encryptedDek", some (.string row.encryptedDek)),
    ("dekIv", some (.string row.dekIv)), ("dekTag", some (.string row.dekTag)),
    ("streamSalt", some (.string row.streamSalt)), ("noncePrefix", some (.string row.noncePrefix)),
    ("encryptedMeta", some (.string row.encryptedMeta)), ("metaIv", some (.string row.metaIv)),
    ("metaTag", some (.string row.metaTag)),
    ("chunkPlaintextBytes", some (number row.chunkPlaintextBytes)),
    ("chunkCount", some (number row.chunkCount)),
    ("ciphertextBytes", some (number row.ciphertextBytes)),
    ("plaintextBytes", some (number row.plaintextBytes)),
    ("purgePending", row.purgePending.map .bool), ("deletedAt", row.deletedAt.map .string),
    ("createdAt", some (.string row.createdAt)), ("updatedAt", some (.string row.updatedAt))]

def json (row : DocumentResponse) : Value := .object (present row.properties)

end DocumentResponse

/-- The two refinements of a row: its numbers against each other. -/
def refineRow (row : DocumentResponse) : Checked DocumentResponse :=
  if ¬ row.hasConsistentFraming then .error ⟨["chunkCount"], none⟩
  else if row.plaintextBytes ≠ documentPlaintextBytesFor row.ciphertextBytes row.chunkCount then
    .error ⟨["ciphertextBytes"], none⟩
  else .ok row

def documentResponseSchema (formats : Formats) (v : Value) : Checked DocumentResponse := do
  let fields ← object v
  let id ← required "_id" (stringThat (isHex 24)) fields
  let folderId ← optional "folderId" string fields
  let favorite ← required "favorite" boolean fields
  let encryptedDek ← required "encryptedDek" nonEmpty fields
  let dekIv ← required "dekIv" nonEmpty fields
  let dekTag ← required "dekTag" nonEmpty fields
  let streamSalt ← required "streamSalt" (base64OfBytes formats documentStreamSaltBytes) fields
  let noncePrefix ← required "noncePrefix" (base64OfBytes formats documentNoncePrefixBytes) fields
  let encryptedMeta ← required "encryptedMeta" nonEmpty fields
  let metaIv ← required "metaIv" nonEmpty fields
  let metaTag ← required "metaTag" nonEmpty fields
  let chunkPlaintextBytes ← required "chunkPlaintextBytes" (atLeast 1) fields
  let chunkCount ← required "chunkCount" (between 1 maxDocumentChunkCount) fields
  let ciphertextBytes ← required "ciphertextBytes" (atLeast documentTagBytes) fields
  let plaintextBytes ← required "plaintextBytes" (atLeast 0) fields
  let purgePending ← optional "purgePending" boolean fields
  let deletedAt ← optional "deletedAt" string fields
  let createdAt ← required "createdAt" nonEmpty fields
  let updatedAt ← required "updatedAt" nonEmpty fields
  refineRow {
    id, folderId, favorite, encryptedDek, dekIv, dekTag, streamSalt, noncePrefix, encryptedMeta,
    metaIv, metaTag, chunkPlaintextBytes, chunkCount, ciphertextBytes, plaintextBytes, purgePending,
    deletedAt, createdAt, updatedAt }

/-! ## The manifest -/

/-- The header's length, which is also where the document region starts. -/
def fullBackupHeaderBytes : ℕ := 16

/-- The footer's length. -/
def fullBackupFooterBytes : ℕ := 16

/-- The `format` every manifest names. -/
def fullBackupFormat : String := "hvault-full-backup"

/-- The one format version this release writes and reads. -/
def fullBackupFormatVersion : ℕ := 1

/-- Why a document is in a full backup's `omitted` list rather than its region. -/
inductive OmittedReason where
  | unreadable
  | deleted
  | contentsMissing
  deriving DecidableEq, Repr

def OmittedReason.text : OmittedReason → String
  | .unreadable => "unreadable"
  | .deleted => "deleted"
  | .contentsMissing => "contents-missing"

/-- A document the run could not include: its id and why. -/
structure OmittedDocument where
  id : Utf16
  reason : OmittedReason
  deriving DecidableEq

@[simp] def OmittedDocument.properties (omitted : OmittedDocument) : List (String × Option Value) :=
  [("id", some (.string omitted.id)), ("reason", some (.string (units omitted.reason.text)))]

def OmittedDocument.json (omitted : OmittedDocument) : Value := .object (present omitted.properties)

/-- One included document: its row, and where its stored object sits in the file. -/
structure FullBackupEntry where
  row : DocumentResponse
  offset : ℕ
  length : ℕ
  deriving DecidableEq

@[simp] def FullBackupEntry.properties (entry : FullBackupEntry) : List (String × Option Value) :=
  [("row", some entry.row.json), ("offset", some (number entry.offset)),
    ("length", some (number entry.length))]

def FullBackupEntry.json (entry : FullBackupEntry) : Value := .object (present entry.properties)

/-- The manifest without the format and its version, which are always the same. `vault` is the
server's own backup. -/
structure FullBackupManifest where
  createdAt : Utf16
  vault : List (Utf16 × Value)
  documents : List FullBackupEntry
  omitted : List OmittedDocument
  unlisted : ℕ

@[simp] def FullBackupManifest.properties (manifest : FullBackupManifest) :
    List (String × Option Value) :=
  [("format", some (.string (units fullBackupFormat))),
    ("formatVersion", some (number fullBackupFormatVersion)),
    ("createdAt", some (.string manifest.createdAt)), ("vault", some (.object manifest.vault)),
    ("documents", some (.array (manifest.documents.map FullBackupEntry.json))),
    ("omitted", some (.array (manifest.omitted.map OmittedDocument.json))),
    ("unlisted", some (number manifest.unlisted))]

/-- A literal of a schema. -/
def literal (text : String) (v : Value) : Checked Unit := do
  let s ← string v
  if s = units text then return () else .error .wrong

def reason (v : Value) : Checked OmittedReason := do
  let s ← string v
  if s = units "unreadable" then return .unreadable
  else if s = units "deleted" then return .deleted
  else if s = units "contents-missing" then return .contentsMissing
  else .error .wrong

def entrySchema (formats : Formats) (v : Value) : Checked FullBackupEntry := do
  let fields ← object v
  let row ← required "row" (documentResponseSchema formats) fields
  let offset ← required "offset" (atLeast fullBackupHeaderBytes) fields
  let length ← required "length" (atLeast documentTagBytes) fields
  return { row, offset, length }

def omittedSchema (v : Value) : Checked OmittedDocument := do
  let fields ← object v
  let id ← required "id" (stringThat (isHex 24)) fields
  let reason ← required "reason" reason fields
  return { id, reason }

/-- The manifest and its signature. -/
def manifestSchema (formats : Formats) (v : Value) : Checked (FullBackupManifest × Utf16) := do
  let fields ← object v
  let _ ← required "format" (literal fullBackupFormat) fields
  let _ ← required "formatVersion" (between fullBackupFormatVersion fullBackupFormatVersion) fields
  let createdAt ← required "createdAt" (stringThat formats.datetime) fields
  let vault ← required "vault" object fields
  let documents ← required "documents" (array (entrySchema formats)) fields
  let omitted ← required "omitted" (array omittedSchema) fields
  let unlisted ← required "unlisted" (between 0 maxDocumentsPerRotation) fields
  let integrity ← required "integrity" (stringThat (isHex 64)) fields
  return ({ createdAt, vault, documents, omitted, unlisted }, integrity)

end HVault.Backup
