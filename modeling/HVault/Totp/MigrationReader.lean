import HVault.Data.ProtoWire
import HVault.Export.ArchiveNames

/-!
# Reading an authenticator's export

The reader of an export of Google Authenticator: a protobuf message, read by hand. A message is walked
field by field (`eachField`), the payload's fields and those of each account in it.

A cursor is the bytes that are left. What the tables of Unicode say of the composition of characters
is a parameter (`nfc`).
-/

namespace HVault.Totp

open Json Backup DocumentCrypto Archive

/-! ## Errors -/

inductive MigrationParseCode
  | tooLarge
  | malformed
  | unsupportedField
  | noEntries
  | tooManyEntries
  | badSecret
  | badEnum
  | badBatch
deriving DecidableEq

structure MigrationParseError where
  code : MigrationParseCode
  message : String
deriving DecidableEq

/-- What the reader's code throws; a `DataView` throws a `RangeError` where its bytes end. -/
inductive Thrown
  | migration (error : MigrationParseError)
  | rangeError
deriving DecidableEq

def malformed : Thrown :=
  .migration ⟨.malformed, "That code is not a readable Google Authenticator export."⟩

/-! ## What is read -/

inductive MigrationAlgorithm
  | sha1
  | sha256
  | sha512
  | md5
deriving DecidableEq

inductive OtpType
  | totp
  | hotp
deriving DecidableEq

/-- `counter` is a decimal numeral. -/
structure MigrationEntry where
  type : OtpType
  secret : Bytes
  name : Utf16
  issuer : Utf16
  algorithm : MigrationAlgorithm
  digits : ℕ
  counter : Option Utf16
deriving DecidableEq

structure MigrationPayload where
  entries : List MigrationEntry
  version : ℤ
  batchSize : ℤ
  batchIndex : ℤ
  batchId : ℤ
deriving DecidableEq

def maxMigrationPayloadBytes : ℕ := 4096
def maxOtpParameters : ℕ := 64
def maxFieldsPerMessage : ℕ := 256
def maxVarintBytes : ℕ := 10
def maxFinalVarintByte : ℕ := 0x01
def maxUint32 : ℕ := 2 ^ 32 - 1
def maxUint32VarintBytes : ℕ := 5
def maxInt32 : ℕ := 2 ^ 31 - 1
def minSignExtendedInt32 : ℕ := 2 ^ 64 - 2 ^ 31
def minSecretBytes : ℕ := 1
def maxSecretBytes : ℕ := 128
def maxLabelBytes : ℕ := 512
def maxLabelLength : ℕ := 256
def maxBatchSize : ℤ := 32

def algorithms : ℤ → Option MigrationAlgorithm
  | 0 => some .sha1
  | 1 => some .sha1
  | 2 => some .sha256
  | 3 => some .sha512
  | 4 => some .md5
  | _ => none

def digitCounts : ℤ → Option ℕ
  | 0 => some 6
  | 1 => some 6
  | 2 => some 8
  | _ => none

def otpTypes : ℤ → Option OtpType
  | 0 => some .totp
  | 1 => some .hotp
  | 2 => some .totp
  | _ => none

/-! ## The cursor -/

/-- The bytes that are left. -/
abbrev Cursor := Bytes

/-- Code that moves a cursor. -/
abbrev Reader := StateT Cursor (Except Thrown)

def byte : Reader ℕ
  | [] => .error .rangeError
  | b :: rest => .ok (b.toNat, rest)

/-- A varint from where its reading stands, with `left` bytes before the tenth. -/
def spelledFrom : ℕ → ℕ → ℕ → Reader (ℕ × ℕ)
  | 0, value, shift => do
    let last ← byte
    if last > maxFinalVarintByte then throw malformed
    return (value ||| last <<< shift, maxVarintBytes)
  | left + 1, value, shift => do
    let byte ← byte
    let value := value ||| (byte &&& 0x7F) <<< shift
    if byte &&& 0x80 = 0 then return (value, maxVarintBytes - (left + 1))
    spelledFrom left value (shift + 7)

/-- A varint, and how many bytes spelled it. -/
def spelledVarint : Reader (ℕ × ℕ) := spelledFrom (maxVarintBytes - 1) 0 0

def varint : Reader ℕ := do
  let spelled ← spelledVarint
  return spelled.1

def uint32 : Reader ℕ := do
  let (value, width) ← spelledVarint
  if width > maxUint32VarintBytes ∨ value > maxUint32 then throw malformed
  return value

/-- `BigInt.asIntN(64, n)`. -/
def asInt64 (n : ℕ) : ℤ := if n % 2 ^ 64 < 2 ^ 63 then (n % 2 ^ 64 : ℕ) else (n % 2 ^ 64 : ℕ) - 2 ^ 64

def int32 : Reader ℤ := do
  let (value, width) ← spelledVarint
  if value ≤ maxInt32 ∧ width ≤ maxUint32VarintBytes then return value
  if value ≥ minSignExtendedInt32 then return asInt64 value
  throw malformed

def slice (length : ℕ) : Reader Bytes := fun c =>
  if length > c.length then .error malformed else .ok (c.take length, c.drop length)

/-- `cursor.slice(cursor.length())`. -/
def sized : Reader Bytes := do
  let length ← uint32
  slice length

def nonNegative (value : ℤ) : Reader ℤ := if value < 0 then throw malformed else return value

def unsupportedField : Thrown :=
  .migration ⟨.unsupportedField, "That export uses a field type this app does not read."⟩

def skipField : ℕ → Reader Unit
  | 0 => do
    let _ ← varint
  | 1 => do
    let _ ← slice 8
  | 2 => do
    let _ ← sized
  | 5 => do
    let _ ← slice 4
  | _ => throw unsupportedField

/-- The cursor has come on since `before`. -/
def advanced (before : Cursor) : Reader Unit := fun c =>
  if c.length ≥ before.length then .error malformed else .ok ((), c)

/-- One message, from what `visit` has kept of the fields before, with `left` fields to go. -/
def eachField {σ : Type} (visit : ℕ → ℕ → σ → Reader σ) : ℕ → σ → Reader σ
  | _, read, [] => .ok (read, [])
  | 0, _, _ :: _ => .error malformed
  | left + 1, read, b :: rest => (do
      let tag ← uint32
      let fieldNumber := tag >>> 3
      if fieldNumber = 0 then throw malformed
      let read ← visit fieldNumber (tag &&& 0x07) read
      advanced (b :: rest)
      eachField visit left read : Reader σ) (b :: rest)

/-! ## Labels -/

def strippedCodepointRanges : List (ℕ × ℕ) :=
  [(0x0000, 0x001F), (0x007F, 0x009F), (0x200B, 0x200F), (0x202A, 0x202E), (0x2066, 0x2069),
    (0xFEFF, 0xFEFF)]

def isStripped (codePoint : ℕ) : Bool :=
  strippedCodepointRanges.any fun (low, high) => low ≤ codePoint ∧ codePoint ≤ high

/-- `char.codePointAt(0)` of what an iteration over a string gives. -/
def codePointAt : Utf16 → ℕ
  | [] => 0
  | [u] => u.toNat
  | u :: v :: _ => if isHigh u ∧ isLow v then (combine u v).toNat else u.toNat

section Labels

variable (nfc : Utf16 → Utf16)

/-- What is kept of a label's text. -/
def cleanLabel (text : Utf16) : Utf16 :=
  (trim (nfc ((codePoints text).filter fun char => !isStripped (codePointAt char)).flatten)).take
    maxLabelLength

def decodeLabel (bytes : Bytes) : Reader Utf16 :=
  if bytes.length > maxLabelBytes then throw malformed else return cleanLabel nfc (Utf8.decode bytes)

def colon : UInt16 := 0x3A

/-- `replace(/^ +/, '')`. -/
def dropSpaces (s : Utf16) : Utf16 := s.dropWhile (· = space)

/-- The issuer and the account. -/
def splitLabel (name issuer : Utf16) : Utf16 × Utf16 :=
  if issuer.length > 0 then
    if (issuer ++ [colon]).isPrefixOf name then (issuer, dropSpaces (name.drop (issuer.length + 1)))
    else (issuer, name)
  else if colon ∈ name then
    (trim (name.takeWhile (· ≠ colon)), dropSpaces (name.drop (name.idxOf colon + 1)))
  else ([], name)

/-! ## The accounts -/

structure OtpFields where
  secret : Option Bytes
  name : Option Utf16
  issuer : Option Utf16
  algorithm : Option MigrationAlgorithm
  digits : Option ℕ
  type : Option OtpType
  counter : Option Utf16
deriving DecidableEq

def OtpFields.empty : OtpFields := ⟨none, none, none, none, none, none, none⟩

/-- `get` of a table, and the error where it has nothing. -/
def resolve {α : Type} (table : ℤ → Option α) (message : String) : Reader α := do
  let value ← int32
  match table value with
  | some resolved => return resolved
  | none => throw (.migration ⟨.badEnum, message⟩)

def visitOtpParameter (fieldNumber wireType : ℕ) (read : OtpFields) : Reader OtpFields :=
  match fieldNumber with
  | 1 => do
    if wireType ≠ 2 ∨ read.secret.isSome then throw malformed
    let secret ← sized
    return { read with secret := some secret }
  | 2 => do
    if wireType ≠ 2 ∨ read.name.isSome then throw malformed
    let bytes ← sized
    let name ← decodeLabel nfc bytes
    return { read with name := some name }
  | 3 => do
    if wireType ≠ 2 ∨ read.issuer.isSome then throw malformed
    let bytes ← sized
    let issuer ← decodeLabel nfc bytes
    return { read with issuer := some issuer }
  | 4 => do
    if wireType ≠ 0 ∨ read.algorithm.isSome then throw malformed
    let algorithm ← resolve algorithms "That export uses an unknown hash algorithm."
    return { read with algorithm := some algorithm }
  | 5 => do
    if wireType ≠ 0 ∨ read.digits.isSome then throw malformed
    let digits ← resolve digitCounts "That export uses an unknown code length."
    return { read with digits := some digits }
  | 6 => do
    if wireType ≠ 0 ∨ read.type.isSome then throw malformed
    let type ← resolve otpTypes "That export uses an unknown code type."
    return { read with type := some type }
  | 7 => do
    if wireType ≠ 0 ∨ read.counter.isSome then throw malformed
    let counter ← varint
    return { read with counter := some (decimal counter) }
  | _ => do
    skipField wireType
    return read

/-- What an account's fields make. -/
def entryOf (read : OtpFields) (secret : Bytes) : MigrationEntry :=
  let split := splitLabel (read.name.getD []) (read.issuer.getD [])
  { type := read.type.getD .totp
    secret := secret
    name := split.2
    issuer := split.1
    algorithm := read.algorithm.getD .sha1
    digits := read.digits.getD 6
    counter := if read.type = some .hotp then read.counter else none }

def noSecret : Thrown := .migration ⟨.badSecret, "One of those accounts has no secret key."⟩

def oversizedSecret : Thrown :=
  .migration ⟨.badSecret, "One of those accounts has an oversized key."⟩

def readOtpParameters (bytes : Bytes) : Except Thrown MigrationEntry := do
  let (read, _) ← eachField (visitOtpParameter nfc) maxFieldsPerMessage .empty bytes
  match read.secret with
  | none => throw noSecret
  | some secret =>
    if secret.length < minSecretBytes then throw noSecret
    if secret.length > maxSecretBytes then throw oversizedSecret
    return entryOf read secret

/-! ## The payload -/

structure PayloadFields where
  entries : List MigrationEntry
  version : ℤ
  batchSize : ℤ
  batchIndex : ℤ
  batchId : ℤ
deriving DecidableEq

def PayloadFields.empty : PayloadFields := ⟨[], 0, 0, 0, 0⟩

def tooManyEntries : Thrown :=
  .migration ⟨.tooManyEntries, "That export holds more accounts than this app will read at once."⟩

def visitPayload (fieldNumber wireType : ℕ) (read : PayloadFields) : Reader PayloadFields :=
  match fieldNumber with
  | 1 => do
    if wireType ≠ 2 then throw malformed
    if read.entries.length ≥ maxOtpParameters then throw tooManyEntries
    let bytes ← sized
    let entry ← readOtpParameters nfc bytes
    return { read with entries := read.entries ++ [entry] }
  | 2 => do
    if wireType ≠ 0 then throw malformed
    let version ← int32 >>= nonNegative
    return { read with version }
  | 3 => do
    if wireType ≠ 0 then throw malformed
    let batchSize ← int32 >>= nonNegative
    return { read with batchSize }
  | 4 => do
    if wireType ≠ 0 then throw malformed
    let batchIndex ← int32 >>= nonNegative
    return { read with batchIndex }
  | 5 => do
    if wireType ≠ 0 then throw malformed
    let batchId ← int32
    return { read with batchId }
  | _ => do
    skipField wireType
    return read

/-- Where the bytes end too soon, they are malformed. -/
def caught {α : Type} : Except Thrown α → Except Thrown α
  | .error .rangeError => .error malformed
  | outcome => outcome

def tooLarge : Thrown := .migration ⟨.tooLarge, "That export is larger than this app will read."⟩

def noEntries : Thrown := .migration ⟨.noEntries, "That code carries no accounts."⟩

def badBatch : Thrown := .migration ⟨.badBatch, "That export describes an unusable set of codes."⟩

def readMigrationPayload (bytes : Bytes) : Except Thrown MigrationPayload := do
  if bytes.length > maxMigrationPayloadBytes then throw tooLarge
  let (read, _) ← caught (eachField (visitPayload nfc) maxFieldsPerMessage .empty bytes)
  if read.entries.length = 0 then throw noEntries
  let size := if read.batchSize = 0 then 1 else read.batchSize
  if size > maxBatchSize ∨ read.batchIndex ≥ size then throw badBatch
  return ⟨read.entries, read.version, size, read.batchIndex, read.batchId⟩

end Labels

end HVault.Totp
