import HVault.Crypto.Aead
import HVault.Crypto.DocumentMeta
import HVault.Data.Base64
import HVault.Data.Utf8
import HVault.Restore.Rows

/-!
# How a document is sealed

Three keys are derived for every document, each from its own text with the id in it: one wraps the
document's own key, one seals its metadata and one the segments of its contents. The nonce of a
segment holds its place (`segmentIv`), and no two places have one nonce (`segmentIv_injective`).
-/

namespace HVault.DocumentCrypto

open Base64 (base64ToBytes base64ToBytes_btoa)
open Json Documents Backup Restore

/-- The browser's own cryptography: the cipher, HKDF with SHA-256, and the digest of a file as
hexadecimal text. -/
structure Primitives (Key : Type) where
  aead : Aead Key
  hkdf : (keyMaterial salt info : Bytes) → Key
  sha256 : Bytes → Utf16

/-- What a read is refused with, in the order of the checks. -/
inductive Fault where
  | sourceWithoutRow
  | locked
  | rowUnavailable
  | rowSchema (issue : Issue)
  | identity
  | cancelled
  | documentId
  | invalidCharacter
  | operation
  | dekLength
  | metaText
  | metaSchema (issue : Issue)
  | framing (fields : List String)
  | segmentUnavailable
  | segmentLength
  | noncePrefix
  | segmentIndex
  | sink
  | digest
deriving DecidableEq

/-! ## Keys -/

def documentStreamInfoPrefix : Utf16 := units "hvault/doc/stream/v1|"

def documentMetaInfoPrefix : Utf16 := units "hvault/doc/meta/v1|"

def documentDekWrapInfoPrefix : Utf16 := units "hvault/doc/dek-wrap/v1|"

def dekBytes : ℕ := 32

def normalizeDocumentId (documentId : Utf16) : Except Fault Utf16 :=
  if isHexString documentId then .ok (documentId.map lowerDigit) else .error .documentId

def assertDekLength (dek : Bytes) : Except Fault Unit :=
  if dek.length = dekBytes then .ok () else .error .dekLength

section Keys

variable {Key : Type} (p : Primitives Key)

def deriveDocumentKey (ikm salt : Bytes) (infoPrefix documentId : Utf16) : Key :=
  p.hkdf ikm salt (Utf8.encode (infoPrefix ++ documentId))

def deriveWrapKey (vaultKey : Bytes) (documentId : Utf16) : Except Fault Key := do
  let id ← normalizeDocumentId documentId
  return deriveDocumentKey p vaultKey [] documentDekWrapInfoPrefix id

def deriveStreamKey (dek streamSalt : Bytes) (documentId : Utf16) : Except Fault Key := do
  assertDekLength dek
  return deriveDocumentKey p dek streamSalt documentStreamInfoPrefix
    (← normalizeDocumentId documentId)

def deriveMetaKey (dek streamSalt : Bytes) (documentId : Utf16) : Except Fault Key := do
  assertDekLength dek
  return deriveDocumentKey p dek streamSalt documentMetaInfoPrefix
    (← normalizeDocumentId documentId)

end Keys

/-! ## Opening -/

section Opening

variable {Key : Type} (p : Primitives Key)

/-- `decrypt`, which rejects what does not open. -/
def decrypt (key : Key) (iv sealed : Bytes) : Except Fault Bytes :=
  (p.aead.decrypt key iv [] sealed).elim (.error .operation) .ok

/-- The three fields that a sealed value is stored in. -/
def openFromFields (key : Key) (encrypted iv tag : Utf16) : Except Fault Bytes := do
  let ciphertext ← base64ToBytes Fault.invalidCharacter encrypted
  let iv ← base64ToBytes Fault.invalidCharacter iv
  let tag ← base64ToBytes Fault.invalidCharacter tag
  decrypt p key iv (ciphertext ++ tag)

def unwrapDek (row : DocumentResponse) (wrapKey : Key) : Except Fault Bytes := do
  let dek ← openFromFields p wrapKey row.encryptedDek row.dekIv row.dekTag
  assertDekLength dek
  return dek

/-- The text is UTF-8, the JSON is JSON and the record is one the schema accepts. -/
def decryptMeta (formats : Formats) (metaKey : Key) (row : DocumentResponse) :
    Except Fault DocumentMeta := do
  let bytes ← openFromFields p metaKey row.encryptedMeta row.metaIv row.metaTag
  match (decodeText bytes).bind parse with
  | none => .error .metaText
  | some v => (documentMetaSchema formats v).mapError .metaSchema

end Opening

/-! ## Segments -/

/-- Where a segment sits in its document. -/
structure SegmentFraming where
  noncePrefix : Bytes
  index : ℚ
  isLast : Bool

/-- The largest index that four bytes hold. -/
def maxSegmentIndex : ℕ := 0xFFFFFFFF

/-- The byte that makes a truncated file fail to open. -/
def lastFlag (isLast : Bool) : UInt8 := if isLast then 0x01 else 0x00

/-- `noncePrefix(7) || u32be(index) || flag(1)`. -/
def segmentIv (framing : SegmentFraming) : Except Fault Bytes :=
  if framing.noncePrefix.length ≠ documentNoncePrefixBytes then .error .noncePrefix
  else if framing.index.den ≠ 1 ∨ framing.index < 0 ∨ maxSegmentIndex < framing.index then
    .error .segmentIndex
  else .ok (framing.noncePrefix ++ bigEndianBytes 4 framing.index.num.toNat ++
    [lastFlag framing.isLast])

section Segments

variable {Key : Type} (p : Primitives Key)

def encryptSegment (streamKey : Key) (framing : SegmentFraming) (plaintext : Bytes) :
    Except Fault Bytes := do
  let iv ← segmentIv framing
  return p.aead.encrypt ⟨streamKey, iv, [], plaintext⟩

def decryptSegment (streamKey : Key) (framing : SegmentFraming) (ciphertext : Bytes) :
    Except Fault Bytes := do
  if ciphertext.length < documentTagBytes then .error .segmentLength
  let iv ← segmentIv framing
  decrypt p streamKey iv ciphertext

end Segments

/-! ## What opens -/

theorem normalizeDocumentId_ok {documentId id : Utf16} (h : normalizeDocumentId documentId = .ok id) :
    isHexString documentId ∧ id = documentId.map lowerDigit := by
  unfold normalizeDocumentId at h
  split_ifs at h with hhex
  exact ⟨hhex, (Except.ok.inj h).symm⟩

section Opens

variable {Key : Type} {p : Primitives Key}

theorem decrypt_ok {key : Key} {iv sealed plaintext : Bytes}
    (h : decrypt p key iv sealed = .ok plaintext) :
    p.aead.decrypt key iv [] sealed = some plaintext := by
  unfold decrypt at h
  cases hopen : p.aead.decrypt key iv [] sealed with
  | none => rw [hopen] at h; cases h
  | some plaintext' =>
    rw [hopen] at h
    exact congrArg some (Except.ok.inj h)

theorem openFromFields_ok {key : Key} {encrypted iv tag : Utf16} {plaintext : Bytes}
    (h : openFromFields p key encrypted iv tag = .ok plaintext) :
    ∃ nonce sealed, p.aead.decrypt key nonce [] sealed = some plaintext := by
  obtain ⟨ciphertext, -, h⟩ := bind_ok h
  obtain ⟨nonce, -, h⟩ := bind_ok h
  obtain ⟨tag, -, h⟩ := bind_ok h
  exact ⟨nonce, ciphertext ++ tag, decrypt_ok h⟩

variable {row : DocumentResponse}

theorem unwrapDek_ok {wrapKey : Key} {dek : Bytes} (h : unwrapDek p row wrapKey = .ok dek) :
    ∃ nonce sealed, p.aead.decrypt wrapKey nonce [] sealed = some dek := by
  obtain ⟨dek', hopen, h⟩ := bind_ok h
  obtain ⟨-, -, h⟩ := bind_ok h
  cases h
  exact openFromFields_ok hopen

theorem decryptMeta_ok {formats : Formats} {metaKey : Key} {documentMeta : DocumentMeta}
    (h : decryptMeta p formats metaKey row = .ok documentMeta) :
    ∃ nonce sealed plaintext v, p.aead.decrypt metaKey nonce [] sealed = some plaintext ∧
      (decodeText plaintext).bind parse = some v ∧
      documentMetaSchema formats v = .ok documentMeta := by
  obtain ⟨plaintext, hopen, h⟩ := bind_ok h
  obtain ⟨nonce, sealed, hopen⟩ := openFromFields_ok hopen
  cases hread : (decodeText plaintext).bind parse with
  | none => rw [hread] at h; cases h
  | some v =>
    rw [hread] at h
    exact ⟨nonce, sealed, plaintext, v, hopen, hread, mapError_ok h⟩

theorem decryptMeta_eq_ok {formats : Formats} {metaKey : Key} {bytes : Bytes} {v : Value}
    {documentMeta : DocumentMeta}
    (hopen : openFromFields p metaKey row.encryptedMeta row.metaIv row.metaTag = .ok bytes)
    (hread : (decodeText bytes).bind parse = some v)
    (hschema : documentMetaSchema formats v = .ok documentMeta) :
    decryptMeta p formats metaKey row = .ok documentMeta := by
  unfold decryptMeta
  simp only [hopen, bind, Except.bind, hread, hschema, Except.mapError]

theorem decryptSegment_ok {streamKey : Key} {framing : SegmentFraming} {ciphertext segment : Bytes}
    (h : decryptSegment p streamKey framing ciphertext = .ok segment) :
    ∃ iv, segmentIv framing = .ok iv ∧
      p.aead.decrypt streamKey iv [] ciphertext = some segment := by
  obtain ⟨-, h⟩ := guard_ok h
  obtain ⟨iv, hiv, h⟩ := bind_ok h
  exact ⟨iv, hiv, decrypt_ok h⟩

end Opens

/-! ## The nonce of a segment -/

/-- A place that has a nonce, and its nonce. -/
theorem segmentIv_ok {framing : SegmentFraming} {iv : Bytes} (h : segmentIv framing = .ok iv) :
    framing.noncePrefix.length = documentNoncePrefixBytes ∧
      ∃ n : ℕ, framing.index = n ∧ n ≤ maxSegmentIndex ∧
        iv = framing.noncePrefix ++ bigEndianBytes 4 n ++ [lastFlag framing.isLast] := by
  unfold segmentIv at h
  split_ifs at h with hlength hindex
  push Not at hlength hindex
  obtain ⟨hint, hlow, hhigh⟩ := hindex
  have hnum : framing.index = (framing.index.num : ℚ) := ((Rat.den_eq_one_iff _).1 hint).symm
  obtain ⟨n, hn⟩ := Int.eq_ofNat_of_zero_le (Rat.num_nonneg.2 hlow)
  have hnat : framing.index = n := by
    rw [hnum, hn]
    rfl
  refine ⟨hlength, n, hnat, ?_, ?_⟩
  · rw [hnat] at hhigh
    exact_mod_cast hhigh
  · rw [← Except.ok.inj h, hn]
    rfl

/-- Over all indexes that are admitted, no two places share a nonce. -/
theorem segmentIv_injective {framing framing' : SegmentFraming} {iv : Bytes}
    (h : segmentIv framing = .ok iv) (h' : segmentIv framing' = .ok iv) : framing = framing' := by
  obtain ⟨hlength, n, hn, hmax, hiv⟩ := segmentIv_ok h
  obtain ⟨hlength', n', hn', hmax', hiv'⟩ := segmentIv_ok h'
  obtain ⟨hfront, hflag⟩ := List.append_inj' (hiv.symm.trans hiv') rfl
  obtain ⟨hnonce, hindex⟩ := List.append_inj hfront (hlength.trans hlength'.symm)
  have hbound : maxSegmentIndex < 256 ^ 4 := by decide
  have hsame : n = n' := by
    rw [← bigEndian_bytes (hmax.trans_lt hbound), hindex, bigEndian_bytes (hmax'.trans_lt hbound)]
  have hlast : framing.isLast = framing'.isLast := by
    revert hflag
    cases framing.isLast <;> cases framing'.isLast <;> decide
  obtain ⟨noncePrefix, index, isLast⟩ := framing
  obtain ⟨noncePrefix', index', isLast'⟩ := framing'
  obtain rfl : noncePrefix = noncePrefix' := hnonce
  obtain rfl : isLast = isLast' := hlast
  obtain rfl : index = index' := by
    rw [show index = n from hn, hsame]
    exact hn'.symm
  rfl

end HVault.DocumentCrypto
