import HVault.Backup.FullBackup
import HVault.Data.Crc32
import HVault.Data.LittleEndian
import HVault.Data.Utf8

/-!
# The archive writer

Stored entries only, without Zip64: the headers hold the true sizes, offsets and counts, and a file
that would need more is refused before anything of it is written.

* `crc32`, `dosDateTime`: the two values that are computed of a file;
* `StoredZipWriter.addFile`, `finish`: the writer. Its sink may fail at any write.
-/

namespace HVault.Zip

open Json Backup List Crc32 BitVec

/-! ## The checksum -/

/-- Of every byte, its eight bits shifted out. -/
def crcTable : List (BitVec 32) :=
  (List.range 256).map fun index => Crc32.shiftByte (BitVec.ofNat 32 index)

/-- CRC-32 of some bytes, continuing from that of everything before them. -/
def crc32 (bytes : Bytes) (previous : BitVec 32) : BitVec 32 :=
  ~~~bytes.foldl
    (fun crc byte =>
      crcTable.getD ((crc ^^^ byte.toBitVec.setWidth 32) &&& 0xFF#32).toNat 0 ^^^ (crc >>> 8))
    (~~~previous)

theorem crcTable_getD {x : BitVec 32} (h : x.toNat < 256) :
    crcTable.getD x.toNat 0 = shiftByte x := by
  unfold crcTable
  rw [getD_eq_getElem?_getD, getElem?_map, getElem?_range h, Option.map_some,
    Option.getD_some, ofNat_toNat, setWidth_eq]

theorem crc32_step (crc : BitVec 32) (byte : UInt8) :
    crcTable.getD ((crc ^^^ byte.toBitVec.setWidth 32) &&& 0xFF#32).toNat 0 ^^^ (crc >>> 8) =
      shiftByte (crc ^^^ byte.toBitVec.setWidth 32) := by
  have hlow : ((crc ^^^ byte.toBitVec.setWidth 32) &&& 0xFF#32).toNat < 256 := by
    rw [toNat_and]
    exact Nat.lt_of_le_of_lt Nat.and_le_right (by decide)
  have hbyte : (byte.toBitVec.setWidth 32 : BitVec 32) >>> 8 = 0 := by
    ext i hi
    rw [getElem_ushiftRight, getLsbD_setWidth,
      getLsbD_of_ge byte.toBitVec (8 + i) (by omega), Bool.and_false]
    simp
  rw [crcTable_getD hlow, shiftByte_eq (crc ^^^ byte.toBitVec.setWidth 32),
    ushiftRight_xor_distrib, hbyte]
  simp

theorem crc32_eq (bytes : Bytes) (previous : BitVec 32) :
    crc32 bytes previous = ~~~register (~~~previous) bytes := by
  unfold crc32 register
  congr 1
  exact foldl_ext _ _ _ fun crc byte _ => crc32_step crc byte

/-- A file can be checksummed as it arrives. -/
theorem crc32_append (bytes bytes' : Bytes) (previous : BitVec 32) :
    crc32 bytes' (crc32 bytes previous) = crc32 (bytes ++ bytes') previous := by
  rw [crc32_eq, crc32_eq, crc32_eq, BitVec.not_not, register_append]

theorem crc32_checksum (bytes : Bytes) : crc32 bytes 0 = checksum bytes := crc32_eq bytes 0

/-! ## Dates -/

/-- The local calendar fields of a date. -/
structure Calendar where
  year : ℤ
  month : ℕ
  day : ℕ
  hours : ℕ
  minutes : ℕ
  seconds : ℕ
  month_lt : month < 12
  day_range : 1 ≤ day ∧ day ≤ 31
  hours_lt : hours < 24
  minutes_lt : minutes < 60
  seconds_lt : seconds < 60

def dosFirstYear : ℤ := 1980

def dosLastYear : ℤ := 2107

/-- The time and date fields of a moment; a date that is not valid has no calendar. -/
def dosDateTime : Option Calendar → ℕ × ℕ
  | none => (0, (1 <<< 5) ||| 1)
  | some moment =>
    if ¬dosFirstYear ≤ moment.year then (0, (1 <<< 5) ||| 1)
    else if dosLastYear < moment.year then
      ((23 <<< 11) ||| (59 <<< 5) ||| 29,
        ((dosLastYear - dosFirstYear).toNat <<< 9) ||| (12 <<< 5) ||| 31)
    else
      ((moment.hours <<< 11) ||| (moment.minutes <<< 5) ||| (moment.seconds >>> 1),
        ((moment.year - dosFirstYear).toNat <<< 9) ||| ((moment.month + 1) <<< 5) ||| moment.day)

/-! ## The writer -/

def localHeaderBytes : ℕ := 30
def centralRecordBytes : ℕ := 46
def endRecordBytes : ℕ := 22
def localHeaderSignature : ℕ := 0x04034b50
def centralRecordSignature : ℕ := 0x02014b50
def endRecordSignature : ℕ := 0x06054b50
def versionMadeBy : ℕ := 0x0014
def versionNeeded : ℕ := 10
def flagUtf8Name : ℕ := 0x0800
def methodStored : ℕ := 0
def zip32MaxArchiveBytes : ℕ := 0xfffffffe
def zip32MaxEntries : ℕ := 0xfffe
def zipMaxNameBytes : ℕ := 0xffff

/-- One file to add; its checksum was computed as its bytes were read. -/
structure ZipFileEntry where
  path : Utf16
  modified : Option Calendar
  chunks : List Bytes
  crc : BitVec 32
  crc_eq : crc = Crc32.checksum chunks.flatten

/-- What the central directory needs to remember about one written entry. -/
structure CentralRecord where
  name : Bytes
  time : ℕ
  date : ℕ
  crc : BitVec 32
  size : ℕ
  offset : ℕ

/-- What a sink has taken, and how many writes there were. -/
structure Target where
  written : Bytes
  writes : ℕ

structure StoredZipWriter where
  limitBytes : ℕ
  target : Target
  records : List CentralRecord
  offset : ℕ
  centralBytes : ℕ

/-- Why a call of the writer was rejected. -/
inductive ZipError where
  | nameTooLong
  | needsZip64
  | sink
deriving DecidableEq

def ZipError.message : ZipError → String
  | .nameTooLong => "This file name is too long for a ZIP archive."
  | .needsZip64 => "This archive cannot hold another file without the Zip64 format."
  | .sink => ""

namespace ZipFileEntry

def name (entry : ZipFileEntry) : Bytes := Utf8.encode entry.path

def size (entry : ZipFileEntry) : ℕ := (entry.chunks.map List.length).sum

/-- The local header of a file, with its name. -/
def header (entry : ZipFileEntry) : Bytes :=
  LittleEndian.record
    [(4, localHeaderSignature), (2, versionNeeded), (2, flagUtf8Name), (2, methodStored),
      (2, (dosDateTime entry.modified).1), (2, (dosDateTime entry.modified).2),
      (4, entry.crc.toNat), (4, entry.size), (4, entry.size), (2, entry.name.length), (2, 0)] ++
    entry.name

/-- What the writer remembers of a file whose header starts at `offset`. -/
def record (entry : ZipFileEntry) (offset : ℕ) : CentralRecord where
  name := entry.name
  time := (dosDateTime entry.modified).1
  date := (dosDateTime entry.modified).2
  crc := entry.crc
  size := entry.size
  offset := offset

end ZipFileEntry

/-- The record of a file in the central directory, with its name. -/
def CentralRecord.bytes (record : CentralRecord) : Bytes :=
  LittleEndian.record
    [(4, centralRecordSignature), (2, versionMadeBy), (2, versionNeeded), (2, flagUtf8Name),
      (2, methodStored), (2, record.time), (2, record.date), (4, record.crc.toNat),
      (4, record.size), (4, record.size), (2, record.name.length), (2, 0), (2, 0), (2, 0), (2, 0),
      (4, 0), (4, record.offset)] ++
    record.name

/-- Writes chunks one after the other, as long as the sink takes them. -/
def Target.writeAll (takes : ℕ → Bool) : List Bytes → Target → Target × Bool
  | [], target => (target, true)
  | chunk :: chunks, target =>
    if takes target.writes then
      Target.writeAll takes chunks ⟨target.written ++ chunk, target.writes + 1⟩
    else (⟨target.written, target.writes + 1⟩, false)

namespace StoredZipWriter

def new (limitBytes : ℕ) : StoredZipWriter := ⟨limitBytes, ⟨[], 0⟩, [], 0, 0⟩

def entryCount (w : StoredZipWriter) : ℕ := w.records.length

/-- The finished archive's size if one more file were added. -/
def projectedBytes (pathBytes size : ℕ) (w : StoredZipWriter) : ℕ :=
  w.offset + localHeaderBytes + pathBytes + size + w.centralBytes + centralRecordBytes + pathBytes +
    endRecordBytes

/-- Whether a file keeps the finished archive within the soft limit. -/
def fits (pathBytes size : ℕ) (w : StoredZipWriter) : Bool :=
  if w.entryCount = 0 then true
  else w.entryCount < zip32MaxEntries ∧ w.projectedBytes pathBytes size ≤ w.limitBytes

/-- Write one file: its local header, then its bytes. -/
def addFile (takes : ℕ → Bool) (entry : ZipFileEntry) (w : StoredZipWriter) :
    StoredZipWriter × Option ZipError :=
  if zipMaxNameBytes < entry.name.length then (w, some .nameTooLong)
  else if zip32MaxEntries ≤ w.entryCount ∨
      zip32MaxArchiveBytes < w.projectedBytes entry.name.length entry.size then
    (w, some .needsZip64)
  else
    match w.target.writeAll takes (entry.header :: entry.chunks) with
    | (target, false) => ({ w with target }, some .sink)
    | (target, true) =>
      ({ w with
          target
          offset := w.offset + (entry.header.length + entry.size)
          records := w.records ++ [entry.record w.offset]
          centralBytes := w.centralBytes + (centralRecordBytes + entry.name.length) }, none)

/-- The end record. -/
def endRecord (w : StoredZipWriter) : Bytes :=
  LittleEndian.record
    [(4, endRecordSignature), (2, 0), (2, 0), (2, w.records.length), (2, w.records.length),
      (4, w.centralBytes), (4, w.offset), (2, 0)]

/-- Write the central directory and the end record. -/
def finish (takes : ℕ → Bool) (w : StoredZipWriter) : StoredZipWriter × Option ZipError :=
  match w.target.writeAll takes [(w.records.map CentralRecord.bytes).flatten ++ w.endRecord] with
  | (target, false) => ({ w with target }, some .sink)
  | (target, true) => ({ w with target }, none)

/-- The files of a run, added one after the other: the writer at the end, and those of them that
were accepted. -/
def addFiles (takes : ℕ → Bool) : List ZipFileEntry → StoredZipWriter →
    StoredZipWriter × List ZipFileEntry
  | [], w => (w, [])
  | entry :: entries, w =>
    match w.addFile takes entry with
    | (w', none) =>
      let (w'', accepted) := addFiles takes entries w'
      (w'', entry :: accepted)
    | (w', some _) => addFiles takes entries w'

end StoredZipWriter

end HVault.Zip
