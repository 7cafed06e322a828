import HVault.Backup.Manifest
import HVault.Data.Tiling
import HVault.Json.RoundTrip

/-!
# The full backup file

Its layout, the one writer and the one reader:

* `[0, 16)`: the header, eight bytes of magic, the format version, four zero bytes;
* `[16, M)`: the document region, the stored object of each document in the order of the manifest;
* `[M, size - 16)`: the manifest, UTF-8 JSON;
* `[size - 16, size)`: the footer, eight bytes of magic and the length of the manifest.

The numbers are natural numbers where the code has doubles: the schema lets only safe integers
through, and a sum of them that is compared with another, or with a place in the file, is exact where
the comparison holds.
-/

namespace HVault.Backup

open Json Reader Documents

abbrev Bytes := List UInt8

/-! ## Text and numbers as bytes -/

/-- `TextEncoder`. -/
def encodeText (cs : List Char) : Bytes := cs.flatMap String.utf8EncodeChar

/-- Text without a byte order mark. -/
def withoutMark : List Char → List Char
  | [] => []
  | c :: cs => if c = '\uFEFF' then cs else c :: cs

/-- `TextDecoder`, which refuses what is not UTF-8 and drops a byte order mark. -/
def decodeText (bytes : Bytes) : Option (List Char) :=
  bytes.toByteArray.utf8Decode?.map fun cs => withoutMark cs.toList

/-- The number that bytes are, the highest first. -/
def bigEndian (bytes : Bytes) : ℕ := bytes.foldl (fun n byte => 256 * n + byte.toNat) 0

/-- The lowest `width` bytes of a number, the highest of them first. -/
def bigEndianBytes : ℕ → ℕ → Bytes
  | 0, _ => []
  | width + 1, n => bigEndianBytes width (n / 256) ++ [.ofNat n]

/-! ## Layout -/

def maxFullBackupSegmentPlaintextBytes : ℕ := 64 * 1024 * 1024

def maxRestoreDataLength : ℕ := 26214400

def maxFullBackupManifestBytes : ℕ := maxRestoreDataLength + maxDocumentsPerRotation * 56 * 1024

def fullBackupMagic : Bytes := [0x48, 0x56, 0x46, 0x42, 0x0d, 0x0a, 0x1a, 0x0a]

def footerMagic : Bytes := [0x48, 0x56, 0x46, 0x42, 0x45, 0x4e, 0x44, 0x00]

def fullBackupHeader : Bytes :=
  fullBackupMagic ++ bigEndianBytes 4 fullBackupFormatVersion ++ [0, 0, 0, 0]

def fullBackupFooter (manifestBytes : ℕ) : Bytes := footerMagic ++ bigEndianBytes 8 manifestBytes

/-- Why a document row cannot go into, or come out of, a full backup. -/
def unbackupableRow (row : DocumentResponse) : Option String :=
  if row.deletedAt.isSome ∨ row.purgePending = some true then
    some "it lists a document that is in the trash or being deleted"
  else if maxFullBackupSegmentPlaintextBytes < row.chunkPlaintextBytes then
    some "it lists a document framed in segments larger than this version reads"
  else none

/-- Whether a vault backup is larger than a restore accepts. -/
def vaultBackupTooLarge (vault : List (Utf16 × Value)) : Bool :=
  maxRestoreDataLength < (utf16 (stringify (.object vault))).length

/-- The canonical JSON a manifest is signed over: everything but `integrity`. -/
def canonicalManifest (manifest : List (Utf16 × Value)) : List Char :=
  stringify (.object (without (units "integrity") manifest))

/-! ## Reading -/

/-- What a full backup file is refused with. -/
def fullBackupFormatError (reason : String) : String :=
  s!"This file is not a full backup this version of H-Vault can read: {reason}. Nothing was restored."

def bytesOf (file : Bytes) (start stop : ℕ) : Bytes := (Span.mk start stop).slice file

/-- The length of the manifest that the footer declares. -/
def declaredManifestBytes (file : Bytes) : ℕ :=
  bigEndian ((bytesOf file (file.length - fullBackupFooterBytes) file.length).drop footerMagic.length)

/-- Where the manifest starts. -/
def manifestStart (file : Bytes) : ℕ :=
  file.length - fullBackupFooterBytes - declaredManifestBytes file

/-- What is wrong with the header or the footer. -/
def checkLayout (file : Bytes) : Except String Unit :=
  let header := bytesOf file 0 fullBackupHeaderBytes
  let footer := bytesOf file (file.length - fullBackupFooterBytes) file.length
  let version := bigEndian ((header.drop 8).take 4)
  let room := file.length - fullBackupHeaderBytes - fullBackupFooterBytes
  if file.length < fullBackupHeaderBytes + fullBackupFooterBytes + 2 then .error "it is too short"
  else if ¬ fullBackupMagic <+: header then .error "it does not start like one"
  else if fullBackupFormatVersion < version then
    .error "it was made by a newer version of H-Vault"
  else if version ≠ fullBackupFormatVersion ∨ bigEndian (header.drop 12) ≠ 0 then
    .error "its header is damaged"
  else if ¬ footerMagic <+: footer then
    .error "its end is missing, so it is incomplete or damaged"
  else if min maxFullBackupManifestBytes room < declaredManifestBytes file then
    .error "its table of contents is larger than the file allows"
  else .ok ()

/-- The manifest's JSON. -/
def readManifest (file : Bytes) : Except String Value :=
  match (decodeText (bytesOf file (manifestStart file) (file.length - fullBackupFooterBytes))).bind
    parse with
  | some raw => .ok raw
  | none => .error "its table of contents is not readable"

/-- How many elements a property has that is an array. -/
def lengthOf (name : String) (raw : Value) : ℕ :=
  match raw with
  | .object fields =>
    match lookup (units name) fields with
    | some (.array items) => items.length
    | _ => 0
  | _ => 0

/-- The path of the first issue, in the words of the error. -/
def invalidAt (issue : Issue) : String :=
  if issue.path = [] then "its table of contents is invalid"
  else "its table of contents is invalid at " ++ ".".intercalate issue.path

/-- The documents from `expectedOffset` on, given the ids `seen` before: those seen after them, and
where they end. -/
def lineUp : List FullBackupEntry → List Utf16 → ℕ → Except String (List Utf16 × ℕ)
  | [], seen, expectedOffset => .ok (seen, expectedOffset)
  | entry :: documents, seen, expectedOffset =>
    match unbackupableRow entry.row with
    | some refusal => .error refusal
    | none =>
      if entry.row.id ∈ seen then .error "it lists a document twice"
      else if entry.offset ≠ expectedOffset ∨ entry.length ≠ entry.row.ciphertextBytes then
        .error "its documents do not line up with its contents"
      else lineUp documents (entry.row.id :: seen) (expectedOffset + entry.length)

def omittedOnce : List OmittedDocument → List Utf16 → Except String Unit
  | [], _ => .ok ()
  | omitted :: rest, seen =>
    if omitted.id ∈ seen then .error "it lists a document twice"
    else omittedOnce rest (omitted.id :: seen)

/-- What is wrong with a manifest, in a file whose manifest starts at `start`. -/
def checkContents (manifest : FullBackupManifest) (start : ℕ) : Except String Unit := do
  if vaultBackupTooLarge manifest.vault then
    .error "its vault backup is larger than a restore accepts"
  let (seen, expectedOffset) ← lineUp manifest.documents [] fullBackupHeaderBytes
  if expectedOffset ≠ start then .error "its documents do not line up with its contents"
  omittedOnce manifest.omitted seen

/-- The bytes of a file that are segment `index` of a document. -/
def segmentSpan (entry : FullBackupEntry) (index : ℕ) : Span :=
  strideSpan entry.offset (entry.offset + entry.length)
    (entry.row.chunkPlaintextBytes + documentTagBytes) index

/-- Read segment `index` of `entry`, sealed, straight from the file. -/
def readSegment (file : Bytes) (entry : FullBackupEntry) (index : ℚ) : Except String Bytes :=
  if index.den ≠ 1 ∨ index < 0 ∨ entry.row.chunkCount ≤ index then
    .error (fullBackupFormatError "a document asked for a part it does not have")
  else .ok ((segmentSpan entry index.num.toNat).slice file)

/-- A full backup the reader accepted. -/
structure OpenedFullBackup where
  manifest : FullBackupManifest
  signature : Utf16
  signedPayload : List Char
  readSegment : FullBackupEntry → ℚ → Except String Bytes

/-- The manifest as JSON, once its schema has accepted it, and what the file is opened as. -/
def openManifest (formats : Formats) (file : Bytes) (raw : Value) :
    Except String OpenedFullBackup := do
  if maxDocumentsPerRotation < lengthOf "documents" raw + lengthOf "omitted" raw then
    .error "it lists more documents than an account can hold"
  let (manifest, integrity) ← (manifestSchema formats raw).mapError invalidAt
  checkContents manifest (manifestStart file)
  let fields ← (object raw).mapError invalidAt
  return ⟨manifest, integrity, canonicalManifest fields, readSegment file⟩

/-- Open `file` as a full backup, or refuse it. -/
def openFullBackupFile (formats : Formats) (file : Bytes) : Except String OpenedFullBackup :=
  (do
    checkLayout file
    let raw ← readManifest file
    openManifest formats file raw).mapError fullBackupFormatError

/-! ## Writing -/

/-- What a finished full backup holds, for the summary. -/
structure WrittenFullBackup where
  bytes : ℕ
  documentCount : ℕ
  deriving DecidableEq, Repr

/-- The one writer; `target` is what its sink has stored. -/
structure FullBackupWriter where
  target : Bytes
  documents : List FullBackupEntry
  offset : ℕ

namespace FullBackupWriter

def new : FullBackupWriter := ⟨[], [], fullBackupHeaderBytes⟩

def write (bytes : Bytes) (w : FullBackupWriter) : FullBackupWriter :=
  { w with target := w.target ++ bytes }

/-- Write the header. -/
def begin (w : FullBackupWriter) : FullBackupWriter := w.write fullBackupHeader

/-- Bytes the file would hold with nothing more written but a manifest of `manifestBytes`. -/
def sizeWith (manifestBytes : ℕ) (w : FullBackupWriter) : ℕ :=
  w.offset + manifestBytes + fullBackupFooterBytes

/-- Append one document's stored object, given as its sealed segments. -/
def addDocument (row : DocumentResponse) (segments : List Bytes) (w : FullBackupWriter) :
    Except String FullBackupWriter :=
  match unbackupableRow row with
  | some refusal => .error s!"A full backup cannot hold this document: {refusal}."
  | none =>
    if w.documents.any fun entry => entry.row.id = row.id then
      .error "A full backup cannot hold the same document twice."
    else
      let length := (segments.map List.length).sum
      if length ≠ row.ciphertextBytes then
        .error "A document read for the full backup did not add up to its stored size."
      else
        .ok { w.write segments.flatten with
          documents := w.documents ++ [⟨row, w.offset, length⟩]
          offset := w.offset + length }

/-- What the caller of `finish` gives: the rest of the manifest. The vault backup is the server's
own JSON. -/
structure Fields where
  createdAt : Utf16
  vault : Json.Object
  omitted : List OmittedDocument
  unlisted : ℕ

/-- The manifest that `finish` writes. -/
def manifest (fields : Fields) (w : FullBackupWriter) : FullBackupManifest :=
  ⟨fields.createdAt, fields.vault.fields, w.documents, fields.omitted, fields.unlisted⟩

/-- What `finish` signs. -/
def canonical (fields : Fields) (w : FullBackupWriter) : List Char :=
  stringify (.object (present (w.manifest fields).properties))

/-- What `finish` writes as the manifest, with its signature. -/
def encoded (integrity : Utf16) (fields : Fields) (w : FullBackupWriter) : Bytes :=
  encodeText (stringify (.object
    (present ((w.manifest fields).properties ++ [("integrity", some (.string integrity))]))))

/-- Sign and write the manifest, then the footer. Answers the file's size. -/
def finish (sign : List Char → Utf16) (fields : Fields) (w : FullBackupWriter) :
    Except String (FullBackupWriter × WrittenFullBackup) :=
  if fields.omitted.any fun left => w.documents.any fun entry => entry.row.id = left.id then
    .error "A full backup cannot list a document both as included and as left out."
  else
    let encoded := w.encoded (sign (w.canonical fields)) fields
    if maxFullBackupManifestBytes < encoded.length then
      .error "The full backup's table of contents would be larger than a restore reads."
    else .ok ((w.write encoded).write (fullBackupFooter encoded.length),
      ⟨w.sizeWith encoded.length, w.documents.length⟩)

/-- The documents of a backup, added one after the other. -/
def addDocuments (documents : List (DocumentResponse × List Bytes)) (w : FullBackupWriter) :
    Except String FullBackupWriter :=
  documents.foldlM (fun w document => w.addDocument document.1 document.2) w

end FullBackupWriter

end HVault.Backup
