import HVault.Export.ZipArchive

/-!
# Archives as a reader finds them

A reader that follows the format: it looks for the end record from the end of the file, reads the
central directory that the record names, and every file from the local header that its record names.
It takes stored files only, whose name is UTF-8, and no value that stands for one of Zip64.

`zip_round_trip` says that it finds in a finished archive the files that were accepted. The writer's
invariant is `Holds`: what it has written are the files, and its numbers are theirs.
-/

namespace HVault.Zip

open Json Backup List StoredZipWriter LittleEndian ZipFileEntry

/-! ## Dates -/

/-- A moment as an archive has it. -/
structure DosMoment where
  year : ℕ
  month : ℕ
  day : ℕ
  hours : ℕ
  minutes : ℕ
  seconds : ℕ
deriving DecidableEq

def readDosMoment (time date : ℕ) : DosMoment where
  year := 1980 + date / 512
  month := date / 32 % 16
  day := date % 32
  hours := time / 2048
  minutes := time / 32 % 64
  seconds := time % 32 * 2

/-- The nearest moment that an archive can have. -/
def clampMoment : Option Calendar → DosMoment
  | none => ⟨1980, 1, 1, 0, 0, 0⟩
  | some moment =>
    if moment.year < 1980 then ⟨1980, 1, 1, 0, 0, 0⟩
    else if 2107 < moment.year then ⟨2107, 12, 31, 23, 59, 58⟩
    else ⟨moment.year.toNat, moment.month + 1, moment.day, moment.hours, moment.minutes,
      moment.seconds / 2 * 2⟩

/-! ## The reader -/

/-- A file as it is found in an archive. -/
structure ZipMember where
  name : Bytes
  modified : DosMoment
  crc : ℕ
  size : ℕ
  bytes : Bytes
deriving DecidableEq

/-- What the central directory says of a file. -/
structure Listed where
  name : Bytes
  time : ℕ
  date : ℕ
  crc : ℕ
  size : ℕ
  offset : ℕ

/-- The end record, and where it was found. -/
structure EndRecord where
  disk : ℕ
  directoryDisk : ℕ
  diskEntries : ℕ
  entries : ℕ
  size : ℕ
  offset : ℕ
  position : ℕ

/-- Neither encrypted nor followed by a descriptor, and the name is UTF-8. -/
def plainFlags (flags : ℕ) : Bool := flags % 2 = 0 ∧ flags / 8 % 2 = 0 ∧ flags / 2048 % 2 = 1

/-- The marker of Zip64 in a field of four bytes. -/
def marker32 : ℕ := 0xFFFFFFFF

/-- The marker of Zip64 in a field of two bytes. -/
def marker16 : ℕ := 0xFFFF

def endRecordAt (file : Bytes) (commentLength : ℕ) : Option EndRecord :=
  if file.length < 22 + commentLength then none
  else
    match LittleEndian.read [4, 2, 2, 2, 2, 4, 4, 2]
        (file.drop (file.length - (22 + commentLength))) with
    | some ([signature, disk, directoryDisk, diskEntries, entries, size, offset, comment], _) =>
      if signature = 0x06054b50 ∧ comment = commentLength then
        some ⟨disk, directoryDisk, diskEntries, entries, size, offset,
          file.length - (22 + commentLength)⟩
      else none
    | _ => none

/-- The end record is the last place that looks like one. -/
def findEndRecord (file : Bytes) : Option EndRecord :=
  (List.range 0x10000).findSome? (endRecordAt file)

def readCentralRecord (bs : Bytes) : Option (Listed × Bytes) :=
  match LittleEndian.read [4, 2, 2, 2, 2, 2, 2, 4, 4, 4, 2, 2, 2, 2, 2, 4, 4] bs with
  | some ([signature, _, _, flags, method, time, date, crc, compressed, size, nameLength,
      extraLength, commentLength, disk, _, _, offset], rest) =>
    if signature = 0x02014b50 ∧ plainFlags flags ∧ method = 0 ∧ compressed = size ∧
        size ≠ marker32 ∧ disk = 0 ∧ offset ≠ marker32 then do
      let (name, rest) ← LittleEndian.readBytes nameLength rest
      let (_, rest) ← LittleEndian.readBytes extraLength rest
      let (_, rest) ← LittleEndian.readBytes commentLength rest
      return (⟨name, time, date, crc, size, offset⟩, rest)
    else none
  | _ => none

def readCentralDirectory : ℕ → Bytes → Option (List Listed × Bytes)
  | 0, bs => some ([], bs)
  | count + 1, bs => do
    let (listed, bs) ← readCentralRecord bs
    let (rest, bs) ← readCentralDirectory count bs
    return (listed :: rest, bs)

/-- The file that a record of the central directory names. -/
def readMember (file : Bytes) (listed : Listed) : Option ZipMember :=
  match LittleEndian.read [4, 2, 2, 2, 2, 2, 4, 4, 4, 2, 2] (file.drop listed.offset) with
  | some ([signature, _, flags, method, time, date, crc, compressed, size, nameLength, extraLength],
      rest) =>
    if signature = 0x04034b50 ∧ plainFlags flags ∧ method = 0 ∧ time = listed.time ∧
        date = listed.date ∧ crc = listed.crc ∧ compressed = listed.size ∧ size = listed.size then do
      let (name, rest) ← LittleEndian.readBytes nameLength rest
      let (_, rest) ← LittleEndian.readBytes extraLength rest
      let (bytes, _) ← LittleEndian.readBytes size rest
      if name = listed.name ∧ (Crc32.checksum bytes).toNat = crc then
        return ⟨name, readDosMoment time date, crc, size, bytes⟩
      else none
    else none
  | _ => none

def readZip (file : Bytes) : Option (List ZipMember) := do
  let last ← findEndRecord file
  if last.disk = 0 ∧ last.directoryDisk = 0 ∧ last.diskEntries = last.entries ∧
      last.entries ≠ marker16 ∧ last.size ≠ marker32 ∧ last.offset ≠ marker32 ∧
      last.offset + last.size = last.position then do
    let (listed, rest) ←
      readCentralDirectory last.entries ((file.drop last.offset).take last.size)
    if rest = [] then listed.mapM (readMember file) else none
  else none

/-! ## Dates are read as they were written -/

/-- Three numbers in one field: the lowest of five bits, the next of `k`. -/
theorem or_fields {a b c k : ℕ} (hb : b < 2 ^ k) (hc : c < 32) :
    (a <<< (k + 5)) ||| (b <<< 5) ||| c = a * 2 ^ (k + 5) + b * 32 + c := by
  have hlow : (b <<< 5) ||| c = b * 32 + c := by
    rw [Nat.shiftLeft_eq, mul_comm, ← Nat.two_pow_add_eq_or_of_lt (by omega : c < 2 ^ 5)]
  have hroom : b * 32 + c < 2 ^ (k + 5) := by
    rw [pow_add]
    omega
  rw [Nat.or_assoc, hlow, Nat.shiftLeft_eq, mul_comm, ← Nat.two_pow_add_eq_or_of_lt hroom,
    add_assoc]

/-- Both fields hold what is written into them, and the moment in them is the nearest one. -/
theorem dosDateTime_spec (moment : Option Calendar) :
    (dosDateTime moment).1 < 0x10000 ∧ (dosDateTime moment).2 < 0x10000 ∧
      readDosMoment (dosDateTime moment).1 (dosDateTime moment).2 = clampMoment moment := by
  cases moment with
  | none => exact ⟨by decide, by decide, by decide⟩
  | some moment =>
    have hday := moment.day_range
    have hmonth := moment.month_lt
    have hhours := moment.hours_lt
    have hminutes := moment.minutes_lt
    have hseconds := moment.seconds_lt
    unfold dosDateTime clampMoment
    dsimp only
    by_cases hearly : moment.year < 1980
    · rw [if_pos (by unfold dosFirstYear; omega), if_pos hearly]
      exact ⟨by decide, by decide, by decide⟩
    · rw [if_neg (by unfold dosFirstYear; omega), if_neg hearly]
      by_cases hlate : 2107 < moment.year
      · rw [if_pos (show dosLastYear < moment.year from hlate), if_pos hlate]
        exact ⟨by decide, by decide, by decide⟩
      · rw [if_neg (show ¬dosLastYear < moment.year from hlate), if_neg hlate]
        have hhalf : moment.seconds >>> 1 = moment.seconds / 2 := Nat.shiftRight_eq_div_pow _ 1
        have hfirst : dosFirstYear = 1980 := rfl
        obtain ⟨year, hyear⟩ := Int.eq_ofNat_of_zero_le (by omega : 0 ≤ moment.year - dosFirstYear)
        have htoNat : (moment.year - dosFirstYear).toNat = year := by omega
        have hall : moment.year.toNat = 1980 + year := by omega
        rw [hhalf, htoNat, hall, or_fields (by omega) (by omega),
          or_fields (by omega) (by omega)]
        refine ⟨by omega, by omega, ?_⟩
        unfold readDosMoment
        congr 1
        all_goals omega

/-! ## The writer's invariant -/

namespace ZipFileEntry

/-- What is written of a file. -/
def localBytes (entry : ZipFileEntry) : Bytes := entry.header ++ entry.chunks.flatten

/-- What a reader finds of a file. -/
def member (entry : ZipFileEntry) : ZipMember where
  name := Utf8.encode entry.path
  modified := clampMoment entry.modified
  crc := (Crc32.checksum entry.chunks.flatten).toNat
  size := entry.chunks.flatten.length
  bytes := entry.chunks.flatten

theorem size_eq (entry : ZipFileEntry) : entry.size = entry.chunks.flatten.length := by
  rw [length_flatten]
  rfl

theorem length_header (entry : ZipFileEntry) :
    entry.header.length = localHeaderBytes + entry.name.length := by
  unfold header
  rw [length_append, length_record]
  rfl

end ZipFileEntry

theorem CentralRecord.length_bytes (record : CentralRecord) :
    record.bytes.length = centralRecordBytes + record.name.length := by
  unfold CentralRecord.bytes
  rw [length_append, length_record]
  rfl

/-- The records of files that are written from `offset` on. -/
def recordsFrom : ℕ → List ZipFileEntry → List CentralRecord
  | _, [] => []
  | offset, entry :: entries =>
    entry.record offset :: recordsFrom (offset + entry.localBytes.length) entries

theorem recordsFrom_append (offset : ℕ) (entries entries' : List ZipFileEntry) :
    recordsFrom offset (entries ++ entries') = recordsFrom offset entries ++
      recordsFrom (offset + (entries.flatMap localBytes).length) entries' := by
  induction entries generalizing offset with
  | nil => rfl
  | cons entry entries ih =>
    rw [cons_append, recordsFrom, ih, recordsFrom, flatMap_cons, length_append,
      add_assoc, cons_append]

theorem length_recordsFrom (offset : ℕ) (entries : List ZipFileEntry) :
    (recordsFrom offset entries).length = entries.length := by
  induction entries generalizing offset with
  | nil => rfl
  | cons entry entries ih => rw [recordsFrom, length_cons, length_cons, ih]

/-- A sink that takes everything. -/
def takesAll : ℕ → Bool := fun _ => true

theorem writeAll_takesAll (chunks : List Bytes) (target : Target) :
    target.writeAll takesAll chunks =
      (⟨target.written ++ chunks.flatten, target.writes + chunks.length⟩, true) := by
  induction chunks generalizing target with
  | nil => rw [Target.writeAll, flatten_nil, append_nil]; rfl
  | cons chunk chunks ih =>
    have htakes : takesAll target.writes = true := rfl
    rw [Target.writeAll, if_pos htakes, ih, flatten_cons, append_assoc, length_cons]
    congr 2
    show target.writes + 1 + chunks.length = target.writes + (chunks.length + 1)
    omega

/-! ### Sinks that may fail -/

variable {takes : ℕ → Bool}

/-- What a sink takes does not depend on what it would not have taken. -/
theorem writeAll_takes {chunks : List Bytes} {target target' : Target}
    (h : target.writeAll takes chunks = (target', true)) :
    target.writeAll takesAll chunks = (target', true) := by
  induction chunks generalizing target with
  | nil => exact h
  | cons chunk chunks ih =>
    rw [Target.writeAll] at h ⊢
    split_ifs at h with htakes
    · exact ih h
    · cases (Prod.mk.inj h).2

variable {w : StoredZipWriter} {entry : ZipFileEntry} {w' : StoredZipWriter}

theorem addFile_takes (h : w.addFile takes entry = (w', none)) :
    w.addFile takesAll entry = (w', none) := by
  unfold addFile at h ⊢
  split_ifs at h ⊢ with hname hfull
  · cases (Prod.mk.inj h).2
  · cases (Prod.mk.inj h).2
  · generalize hwrite : w.target.writeAll takes (entry.header :: entry.chunks) = result at h
    obtain ⟨target, _ | _⟩ := result
    · cases (Prod.mk.inj h).2
    · rw [writeAll_takes hwrite]
      exact h

theorem finish_takes (h : w.finish takes = (w', none)) : w.finish takesAll = (w', none) := by
  unfold finish at h ⊢
  generalize hwrite : w.target.writeAll takes _ = result at h
  obtain ⟨target, _ | _⟩ := result
  · cases (Prod.mk.inj h).2
  · rw [writeAll_takes hwrite]
    exact h

/-- The bytes of an archive that is finished now. -/
def StoredZipWriter.finishedBytes (w : StoredZipWriter) : ℕ :=
  w.offset + w.centralBytes + endRecordBytes

/-- What a writer holds after these files were accepted. -/
structure Holds (accepted : List ZipFileEntry) (w : StoredZipWriter) : Prop where
  written : w.target.written = accepted.flatMap ZipFileEntry.localBytes
  offset : w.offset = (accepted.flatMap ZipFileEntry.localBytes).length
  records : w.records = recordsFrom 0 accepted
  centralBytes : w.centralBytes = (w.records.map CentralRecord.bytes).flatten.length
  names : ∀ entry ∈ accepted, entry.name.length ≤ zipMaxNameBytes
  count : accepted.length ≤ zip32MaxEntries
  size : w.finishedBytes ≤ zip32MaxArchiveBytes

theorem holds_new (limitBytes : ℕ) : Holds [] (new limitBytes) where
  written := rfl
  offset := rfl
  records := rfl
  centralBytes := rfl
  names := nofun
  count := Nat.zero_le _
  size := (by decide : 0 + 0 + endRecordBytes ≤ zip32MaxArchiveBytes)

/-- What a call of the writer does whose sink takes everything: a file is refused, and nothing
changes, or all of it is written. -/
theorem addFile_takesAll (entry : ZipFileEntry) (w : StoredZipWriter) :
    (∃ error, w.addFile takesAll entry = (w, some error)) ∨
      (entry.name.length ≤ zipMaxNameBytes ∧ w.entryCount < zip32MaxEntries ∧
        w.projectedBytes entry.name.length entry.size ≤ zip32MaxArchiveBytes ∧
        w.addFile takesAll entry = ({ w with
          target := ⟨w.target.written ++ entry.localBytes,
            w.target.writes + (entry.chunks.length + 1)⟩
          offset := w.offset + entry.localBytes.length
          records := w.records ++ [entry.record w.offset]
          centralBytes := w.centralBytes + (centralRecordBytes + entry.name.length) }, none)) := by
  unfold addFile
  by_cases hname : zipMaxNameBytes < entry.name.length
  · exact .inl ⟨_, if_pos hname⟩
  rw [if_neg hname]
  by_cases hfull : zip32MaxEntries ≤ w.entryCount ∨
      zip32MaxArchiveBytes < w.projectedBytes entry.name.length entry.size
  · exact .inl ⟨_, if_pos hfull⟩
  rw [if_neg hfull, writeAll_takesAll]
  refine .inr ⟨by omega, by omega, by omega, ?_⟩
  have hlocal : entry.localBytes.length = entry.header.length + entry.size := by
    rw [localBytes, length_append, entry.size_eq]
  rw [hlocal]
  rfl

/-- One more file that is accepted makes an archive of the size that was projected. -/
theorem finishedBytes_addFile (h : w.addFile takesAll entry = (w', none)) :
    w'.finishedBytes = w.projectedBytes entry.name.length entry.size := by
  rcases addFile_takesAll entry w with ⟨error, hrefused⟩ | ⟨-, -, -, haccepted⟩
  · rw [hrefused] at h
    cases h
  · rw [haccepted] at h
    obtain ⟨rfl, -⟩ := Prod.mk.inj h
    unfold finishedBytes projectedBytes
    simp only [localBytes, length_append, entry.length_header, ← entry.size_eq]
    omega

variable {accepted : List ZipFileEntry}

theorem Holds.addFile (h : Holds accepted w) (hadd : w.addFile takesAll entry = (w', none)) :
    Holds (accepted ++ [entry]) w' := by
  have hsize := finishedBytes_addFile hadd
  rcases addFile_takesAll entry w with ⟨error, hrefused⟩ | ⟨hname, hcount, hlimit, haccepted⟩
  · rw [hrefused] at hadd
    cases hadd
  · rw [haccepted] at hadd
    obtain ⟨rfl, -⟩ := Prod.mk.inj hadd
    have hlast : [entry].flatMap localBytes = entry.localBytes := by
      rw [flatMap_cons, flatMap_nil, append_nil]
    refine ⟨?_, ?_, ?_, ?_, ?_, ?_, hsize.trans_le hlimit⟩
    · rw [flatMap_append, hlast, ← h.written]
    · rw [flatMap_append, length_append, hlast, ← h.offset]
    · rw [recordsFrom_append, ← h.records, zero_add, ← h.offset]
      rfl
    · simp only [map_append, flatten_append, length_append, ← h.centralBytes,
        map_cons, map_nil, flatten_cons, flatten_nil, length_nil,
        CentralRecord.length_bytes]
      rfl
    · intro entry' hentry'
      rcases mem_append.1 hentry' with hentry' | hentry'
      · exact h.names entry' hentry'
      · rw [mem_singleton.1 hentry']
        exact hname
    · have hrecords : w.entryCount = accepted.length := by
        unfold entryCount
        rw [h.records, length_recordsFrom]
      rw [length_append, length_singleton]
      omega

theorem Holds.addFiles (h : Holds accepted w) (entries : List ZipFileEntry) :
    Holds (accepted ++ (w.addFiles takesAll entries).2) (w.addFiles takesAll entries).1 := by
  induction entries generalizing accepted w with
  | nil =>
    rw [addFiles, append_nil]
    exact h
  | cons entry entries ih =>
    rw [addFiles]
    match hadd : w.addFile takesAll entry with
    | (w', none) =>
      have hrest := ih (h.addFile hadd)
      rw [append_assoc] at hrest
      exact hrest
    | (w', some error) =>
      rcases addFile_takesAll entry w with ⟨_, hrefused⟩ | ⟨-, -, -, haccepted⟩
      · obtain ⟨rfl, -⟩ := Prod.mk.inj (hrefused.symm.trans hadd)
        exact ih h
      · cases haccepted.symm.trans hadd

/-! ## Reading a finished archive -/

/-- What a reader learns of a record. -/
def CentralRecord.listed (record : CentralRecord) : Listed :=
  ⟨record.name, record.time, record.date, record.crc.toNat, record.size, record.offset⟩

/-- A record whose values its fields hold, and none of them is a marker. -/
structure InFields (record : CentralRecord) : Prop where
  name : record.name.length < 0x10000
  time : record.time < 0x10000
  date : record.date < 0x10000
  size : record.size < marker32
  offset : record.offset < marker32

theorem readCentralRecord_bytes {record : CentralRecord} (h : InFields record) (rest : Bytes) :
    readCentralRecord (record.bytes ++ rest) = some (record.listed, rest) := by
  obtain ⟨hname, htime, hdate, hsize, hoffset⟩ := h
  have hcrc : record.crc.toNat < 0x100000000 := record.crc.isLt
  unfold marker32 at hsize hoffset
  have hread := read_record_of_lt
    [(4, centralRecordSignature), (2, versionMadeBy), (2, versionNeeded),
      (2, flagUtf8Name), (2, methodStored), (2, record.time), (2, record.date),
      (4, record.crc.toNat), (4, record.size), (4, record.size), (2, record.name.length), (2, 0),
      (2, 0), (2, 0), (2, 0), (4, 0), (4, record.offset)] (record.name ++ rest) (by
        simp only [forall_mem_cons]
        refine ⟨by decide, by decide, by decide, by decide, by decide, htime, hdate, hcrc, ?_, ?_,
          hname, by decide, by decide, by decide, by decide, by decide, ?_, nofun⟩
        · show record.size < 0x100000000
          omega
        · show record.size < 0x100000000
          omega
        · show record.offset < 0x100000000
          omega)
  simp only [map_cons, map_nil] at hread
  unfold readCentralRecord CentralRecord.bytes
  rw [append_assoc, hread]
  have hmarker : record.size ≠ marker32 ∧ record.offset ≠ marker32 := by
    unfold marker32
    omega
  dsimp only
  rw [if_pos ⟨rfl, rfl, rfl, rfl, hmarker.1, rfl, hmarker.2⟩, readBytes_append]
  rfl

theorem readCentralDirectory_bytes {records : List CentralRecord}
    (h : ∀ record ∈ records, InFields record) (rest : Bytes) :
    readCentralDirectory records.length ((records.map CentralRecord.bytes).flatten ++ rest) =
      some (records.map CentralRecord.listed, rest) := by
  induction records with
  | nil => rfl
  | cons record records ih =>
    obtain ⟨hrecord, hrecords⟩ := forall_mem_cons.1 h
    rw [length_cons, readCentralDirectory, map_cons, flatten_cons, append_assoc,
      readCentralRecord_bytes hrecord]
    show (readCentralDirectory records.length _ >>= _) = _
    rw [ih hrecords]
    rfl

theorem readMember_localBytes {file before after : Bytes}
    (hfile : file = before ++ (entry.localBytes ++ after))
    (h : InFields (entry.record before.length)) :
    readMember file (entry.record before.length).listed = some entry.member := by
  obtain ⟨hname, htime, hdate, hsize, -⟩ := h
  have hname : entry.name.length < 0x10000 := hname
  have htime : (dosDateTime entry.modified).1 < 0x10000 := htime
  have hdate : (dosDateTime entry.modified).2 < 0x10000 := hdate
  have hsize : entry.size < 0x100000000 := lt_trans hsize (by decide)
  have hcrc : entry.crc.toNat < 0x100000000 := entry.crc.isLt
  have hread := read_record_of_lt
    [(4, localHeaderSignature), (2, versionNeeded), (2, flagUtf8Name),
      (2, methodStored), (2, (dosDateTime entry.modified).1), (2, (dosDateTime entry.modified).2),
      (4, entry.crc.toNat), (4, entry.size), (4, entry.size), (2, entry.name.length), (2, 0)]
    (entry.name ++ (entry.chunks.flatten ++ after)) (by
        simp only [forall_mem_cons]
        exact ⟨by decide, by decide, by decide, by decide, htime, hdate, hcrc, hsize, hsize, hname,
          by decide, nofun⟩)
  simp only [map_cons, map_nil] at hread
  have hdrop : file.drop before.length = record
      [(4, localHeaderSignature), (2, versionNeeded), (2, flagUtf8Name), (2, methodStored),
        (2, (dosDateTime entry.modified).1), (2, (dosDateTime entry.modified).2),
        (4, entry.crc.toNat), (4, entry.size), (4, entry.size), (2, entry.name.length), (2, 0)] ++
      (entry.name ++ (entry.chunks.flatten ++ after)) := by
    rw [hfile, drop_left, localBytes, header]
    simp only [append_assoc]
  have hbytes : readBytes entry.size (entry.chunks.flatten ++ after) =
      some (entry.chunks.flatten, after) := by
    rw [entry.size_eq]
    exact readBytes_append _ _
  have hempty : readBytes 0 (entry.chunks.flatten ++ after) =
      some ([], entry.chunks.flatten ++ after) := readBytes_append [] _
  unfold readMember
  rw [show (entry.record before.length).listed.offset = before.length from rfl, hdrop, hread]
  dsimp only
  rw [if_pos ⟨rfl, rfl, rfl, rfl, rfl, rfl, rfl, rfl⟩, readBytes_append]
  simp only [Option.bind_eq_bind, Option.bind_some, hempty, hbytes]
  have hchecksum : (Crc32.checksum entry.chunks.flatten).toNat = entry.crc.toNat := by
    rw [entry.crc_eq]
  refine (if_pos ⟨rfl, hchecksum⟩).trans ?_
  rw [(dosDateTime_spec entry.modified).2.2, entry.size_eq, ← hchecksum]
  rfl

/-- Every file of an archive is read from the record that was made of it. -/
theorem mapM_readMember {file : Bytes} (before : Bytes) {after : Bytes}
    (hfile : file = before ++ (accepted.flatMap localBytes ++ after))
    (h : ∀ record ∈ recordsFrom before.length accepted, InFields record) :
    ((recordsFrom before.length accepted).map CentralRecord.listed).mapM (readMember file) =
      some (accepted.map member) := by
  induction accepted generalizing before with
  | nil => rfl
  | cons entry accepted ih =>
    rw [flatMap_cons, append_assoc] at hfile
    obtain ⟨hentry, hrest⟩ := forall_mem_cons.1 h
    have hnext : before.length + entry.localBytes.length = (before ++ entry.localBytes).length :=
      length_append.symm
    rw [recordsFrom, map_cons, mapM_cons, readMember_localBytes hfile hentry]
    rw [hnext] at hrest ⊢
    show (mapM (readMember file) _ >>= _) = _
    rw [ih (before ++ entry.localBytes) (by rw [hfile, append_assoc]) hrest]
    rfl

/-- A record of a file lies before the place where the files end. -/
theorem recordsFrom_inFields {offset : ℕ} (stop : ℕ)
    (hnames : ∀ entry ∈ accepted, entry.name.length ≤ zipMaxNameBytes)
    (hstop : offset + (accepted.flatMap localBytes).length ≤ stop)
    (hmarker : stop < marker32) : ∀ record ∈ recordsFrom offset accepted, InFields record := by
  induction accepted generalizing offset with
  | nil => intro record h; cases h
  | cons entry accepted ih =>
    rw [flatMap_cons, length_append] at hstop
    obtain ⟨hname, hnames⟩ := forall_mem_cons.1 hnames
    intro record hrecord
    rcases mem_cons.1 hrecord with rfl | hrecord
    · have hlength : entry.localBytes.length = entry.header.length + entry.size := by
        rw [localBytes, length_append, entry.size_eq]
      obtain ⟨htime, hdate, -⟩ := dosDateTime_spec entry.modified
      refine ⟨?_, htime, hdate, ?_, ?_⟩
      · exact Nat.lt_succ_of_le hname
      · show entry.size < marker32
        omega
      · show offset < marker32
        omega
    · exact ih hnames (by omega) record hrecord

/-! ## The law -/

section Finished

variable {accepted : List ZipFileEntry} {w : StoredZipWriter}

theorem Holds.finish (h : Holds accepted w) :
    (w.finish takesAll).2 = none ∧ (w.finish takesAll).1.target.written =
      accepted.flatMap localBytes ++
        ((w.records.map CentralRecord.bytes).flatten ++ w.endRecord) := by
  unfold StoredZipWriter.finish
  rw [writeAll_takesAll, ← h.written]
  refine ⟨rfl, ?_⟩
  show w.target.written ++ [_].flatten = _
  rw [flatten_cons, flatten_nil, append_nil]

theorem Holds.length_finish (h : Holds accepted w) :
    (w.finish takesAll).1.target.written.length = w.finishedBytes := by
  have hend : w.endRecord.length = endRecordBytes := by
    unfold endRecord
    rw [length_record]
    rfl
  rw [h.finish.2, length_append, length_append, hend, ← h.offset, ← h.centralBytes,
    ← add_assoc]
  rfl

/-- Every number in an archive is what it stands for: its field holds it, and it is no marker. -/
structure Zip32 (w : StoredZipWriter) : Prop where
  entries : w.records.length < marker16
  centralBytes : w.centralBytes < marker32
  offset : w.offset < marker32
  records : ∀ record ∈ w.records, InFields record

theorem Holds.zip32 (h : Holds accepted w) : Zip32 w := by
  have hsize := h.size
  unfold finishedBytes at hsize
  have hmax : zip32MaxArchiveBytes < marker32 := by decide
  refine ⟨?_, by omega, by omega, ?_⟩
  · rw [h.records, length_recordsFrom]
    exact Nat.lt_succ_of_le h.count
  · rw [h.records]
    exact recordsFrom_inFields w.offset h.names (by rw [h.offset]; omega) (by omega)

theorem Holds.findEndRecord (h : Holds accepted w) :
    findEndRecord (w.finish takesAll).1.target.written =
      some ⟨0, 0, w.records.length, w.records.length, w.centralBytes, w.offset,
        w.offset + w.centralBytes⟩ := by
  have hlength := h.length_finish
  unfold finishedBytes at hlength
  obtain ⟨hentries, hcentral, hoffset, -⟩ := h.zip32
  unfold marker16 at hentries
  unfold marker32 at hcentral hoffset
  have hposition : (w.finish takesAll).1.target.written.length - (22 + 0) =
      w.offset + w.centralBytes := by
    rw [hlength]
    rfl
  have hdrop : (w.finish takesAll).1.target.written.drop (w.offset + w.centralBytes) =
      w.endRecord ++ [] := by
    rw [h.finish.2, ← append_assoc, append_nil]
    refine drop_left' ?_
    rw [length_append, ← h.offset, ← h.centralBytes]
  have hread := read_record_of_lt
    [(4, endRecordSignature), (2, 0), (2, 0), (2, w.records.length),
      (2, w.records.length), (4, w.centralBytes), (4, w.offset), (2, 0)] [] (by
        simp only [forall_mem_cons]
        refine ⟨by decide, by decide, by decide, ?_, ?_, ?_, ?_, by decide, nofun⟩
        · show w.records.length < 0x10000
          omega
        · show w.records.length < 0x10000
          omega
        · show w.centralBytes < 0x100000000
          omega
        · show w.offset < 0x100000000
          omega)
  simp only [map_cons, map_nil] at hread
  have hfirst : endRecordAt (w.finish takesAll).1.target.written 0 =
      some ⟨0, 0, w.records.length, w.records.length, w.centralBytes, w.offset,
        w.offset + w.centralBytes⟩ := by
    unfold endRecordAt
    rw [if_neg (by rw [hlength]; unfold endRecordBytes; omega), hposition, hdrop]
    unfold endRecord
    rw [hread]
    rfl
  unfold Zip.findEndRecord
  rw [show 0x10000 = 0xFFFF + 1 from rfl, range_succ_eq_map, findSome?_cons, hfirst]

theorem Holds.readZip (h : Holds accepted w) :
    readZip (w.finish takesAll).1.target.written = some (accepted.map member) := by
  obtain ⟨hentries, hcentral, hoffset, hrecords⟩ := h.zip32
  have hdirectory : ((w.finish takesAll).1.target.written.drop w.offset).take w.centralBytes =
      (w.records.map CentralRecord.bytes).flatten ++ [] := by
    rw [h.finish.2, drop_left' h.offset.symm, take_left' h.centralBytes.symm,
      append_nil]
  unfold Zip.readZip
  rw [h.findEndRecord]
  show (if _ then _ else none) = _
  rw [if_pos ⟨rfl, rfl, rfl, hentries.ne, hcentral.ne, hoffset.ne, rfl⟩]
  show (readCentralDirectory w.records.length
    (((w.finish takesAll).1.target.written.drop w.offset).take w.centralBytes) >>= _) = _
  rw [hdirectory, readCentralDirectory_bytes hrecords]
  show (if ([] : Bytes) = [] then _ else none) = _
  rw [if_pos rfl]
  have hfile := h.finish.2
  rw [h.records] at hfile hrecords ⊢
  exact mapM_readMember [] hfile hrecords

end Finished

/-- Whatever files a writer is given, one that is refused changes nothing; and the archive, when it
is finished, has the accepted ones in order, each with its name, its bytes, their number and their
checksum. No number in it wraps or is a marker, and its size is the one that was projected. -/
theorem zip_round_trip (limitBytes : ℕ) (entries : List ZipFileEntry) :
    (∀ entry w' error,
      ((StoredZipWriter.new limitBytes).addFiles takesAll entries).1.addFile takesAll entry =
          (w', some error) →
        w' = ((StoredZipWriter.new limitBytes).addFiles takesAll entries).1) ∧
    (∀ entry w',
      ((StoredZipWriter.new limitBytes).addFiles takesAll entries).1.addFile takesAll entry =
          (w', none) →
        (w'.finish takesAll).1.target.written.length =
          ((StoredZipWriter.new limitBytes).addFiles takesAll entries).1.projectedBytes
            entry.name.length entry.size) ∧
    Zip32 ((StoredZipWriter.new limitBytes).addFiles takesAll entries).1 ∧
    (((StoredZipWriter.new limitBytes).addFiles takesAll entries).1.finish takesAll).2 = none ∧
    readZip (((StoredZipWriter.new limitBytes).addFiles takesAll entries).1.finish
        takesAll).1.target.written =
      some (((StoredZipWriter.new limitBytes).addFiles takesAll entries).2.map
        ZipFileEntry.member) := by
  have hholds := (holds_new limitBytes).addFiles entries
  rw [nil_append] at hholds
  refine ⟨fun entry w' error hrefused => ?_, fun entry w' hadd => ?_, hholds.zip32,
    hholds.finish.1, hholds.readZip⟩
  · rcases addFile_takesAll entry ((new limitBytes).addFiles takesAll entries).1
      with ⟨_, hsame⟩ | ⟨-, -, -, haccepted⟩
    · exact (Prod.mk.inj (hrefused.symm.trans hsame)).1
    · cases haccepted.symm.trans hrefused
  · rw [(hholds.addFile hadd).length_finish, finishedBytes_addFile hadd]

end HVault.Zip
