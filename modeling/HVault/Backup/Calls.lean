import HVault.Backup.Acceptance
import HVault.Backup.Laws

/-!
# What a writer may be asked for

The writer is called in any order with anything (`Call`), and a file is what a last `finish` left.
The reader accepts it exactly when the calls satisfy `Readable` (`full_backup_accepted`): the writer
checks the rows against the reader's rule, their sizes and ids, and the size of the manifest, but not
what it is given for the rest of the manifest, nor that it was begun once.

`Called` is the writer after some calls; from its places alone the reader finds out that the header
was written once and no manifest before the last (`Called.begun`).
-/

namespace HVault.Backup

open Json Reader Documents List FullBackupWriter

/-! ## Signatures -/

/-- A hexadecimal digit, in lower case. -/
def hexDigit (n : ℕ) : UInt16 := .ofNat (if n < 10 then 0x30 + n else 0x57 + n)

/-- `toString(16).padStart(2, '0')`. -/
def hexByte (byte : UInt8) : Utf16 := [hexDigit (byte.toNat / 16), hexDigit (byte.toNat % 16)]

/-- The signature of a manifest in lower-case hexadecimal; `hmac` is HMAC-SHA-256 under its key. -/
def signFullBackupManifest (hmac : Bytes → Bytes) (canonicalJson : List Char) : Utf16 :=
  (hmac (encodeText canonicalJson)).flatMap hexByte

theorem hexDigit_isHex {n : ℕ} (h : n < 16) : isHex 1 [hexDigit n] := by
  revert n
  decide

theorem isHex_append {n m : ℕ} {s t : Utf16} (hs : isHex n s) (ht : isHex m t) :
    isHex (n + m) (s ++ t) := by
  unfold isHex at hs ht ⊢
  rw [decide_eq_true_iff] at hs ht ⊢
  rw [length_append, all_append, hs.1, ht.1, hs.2, ht.2]
  exact ⟨rfl, rfl⟩

theorem hexByte_isHex (byte : UInt8) : isHex 2 (hexByte byte) := by
  have hlt : byte.toNat < 256 := byte.toNat_lt
  exact isHex_append (hexDigit_isHex (by omega)) (hexDigit_isHex (Nat.mod_lt _ (by decide)))

theorem flatMap_hexByte_isHex (bytes : Bytes) : isHex (2 * bytes.length) (bytes.flatMap hexByte) := by
  induction bytes with
  | nil => rfl
  | cons byte bytes ih =>
    rw [flatMap_cons, length_cons, Nat.mul_succ, Nat.add_comm]
    exact isHex_append (hexByte_isHex byte) ih

/-! ## Calls -/

/-- A call of the writer. -/
inductive Call where
  | begin
  | addDocument (row : DocumentResponse) (segments : List Bytes)
  | finish (fields : FullBackupWriter.Fields)

namespace Call

def isBegin : Call → Bool
  | begin => true
  | _ => false

def isFinish : Call → Bool
  | finish _ => true
  | _ => false

/-- The row that a call adds. -/
def row : Call → Option DocumentResponse
  | addDocument row _ => some row
  | _ => none

/-- What a call other than `finish` writes. -/
def bytes : Call → Bytes
  | begin => fullBackupHeader
  | addDocument _ segments => segments.flatten
  | finish _ => []

end Call

/-- The rows that calls add, in order. -/
def rows (calls : List Call) : List DocumentResponse := calls.filterMap Call.row

namespace FullBackupWriter

def call (sign : List Char → Utf16) (w : FullBackupWriter) :
    Call → Except String FullBackupWriter
  | .begin => .ok w.begin
  | .addDocument row segments => w.addDocument row segments
  | .finish fields => (w.finish sign fields).map (·.1)

/-- Calls one after the other, none of which fails. -/
def calls (sign : List Char → Utf16) (cs : List Call) (w : FullBackupWriter) :
    Except String FullBackupWriter :=
  cs.foldlM (call sign) w

end FullBackupWriter

/-- What has to hold of the calls before the last `finish`, and of what that is given, for the file
to be one that the reader accepts. -/
structure Readable (formats : Formats) (calls : List Call) (fields : FullBackupWriter.Fields) :
    Prop where
  begun : calls.countP Call.isBegin = 1
  unfinished : calls.countP Call.isFinish = 0
  header : fullBackupHeader <+: calls.flatMap Call.bytes
  rows : ∀ row ∈ rows calls, documentResponseSchema formats row.json.written = .ok row
  starts : ∀ span ∈ spansFrom fullBackupHeaderBytes
    ((Backup.rows calls).map DocumentResponse.ciphertextBytes), span.start < 2 ^ 53
  createdAt : formats.datetime fields.createdAt
  vault : vaultBackupTooLarge fields.vault.fields = false
  ids : ∀ omitted ∈ fields.omitted, isHex 24 omitted.id
  once : (fields.omitted.map OmittedDocument.id).Nodup
  few : (Backup.rows calls).length + fields.omitted.length ≤ maxDocumentsPerRotation
  unlisted : fields.unlisted ≤ maxDocumentsPerRotation

/-! ## What the reader checks of the contents -/

theorem lineUp_append (before after : List FullBackupEntry) (seen : List Utf16) (start : ℕ) :
    lineUp (before ++ after) seen start =
      lineUp before seen start >>= fun lined => lineUp after lined.1 lined.2 := by
  induction before generalizing seen start with
  | nil => rfl
  | cons entry before ih =>
    rw [cons_append, lineUp, lineUp]
    split
    · rfl
    · split_ifs
      · rfl
      · rfl
      · exact ih _ _

theorem omittedOnce_iff {omitted : List OmittedDocument} {seen : List Utf16} :
    omittedOnce omitted seen = .ok () ↔
      (omitted.map OmittedDocument.id).Nodup ∧ ∀ left ∈ omitted, left.id ∉ seen := by
  induction omitted generalizing seen with
  | nil => exact ⟨fun _ => ⟨.nil, nofun⟩, fun _ => rfl⟩
  | cons left omitted ih =>
    unfold omittedOnce
    rw [map_cons, nodup_cons, forall_mem_cons]
    split_ifs with hseen
    · exact ⟨fun h => (by cases h), fun h => absurd hseen h.2.1⟩
    · rw [ih]
      constructor
      · rintro ⟨hnodup, hrest⟩
        refine ⟨⟨fun hmem => ?_, hnodup⟩, hseen, fun later hlater hin => ?_⟩
        · obtain ⟨later, hlater, hid⟩ := mem_map.1 hmem
          exact hrest later hlater (hid ▸ mem_cons_self)
        · exact hrest later hlater (mem_cons_of_mem _ hin)
      · rintro ⟨⟨hnot, hnodup⟩, -, hrest⟩
        refine ⟨hnodup, fun later hlater hin => ?_⟩
        rcases mem_cons.1 hin with hid | hin
        · exact hnot (hid ▸ mem_map_of_mem hlater)
        · exact hrest later hlater hin

/-- The contents of a manifest whose documents line up are in order exactly when the rest is. -/
theorem checkContents_iff {manifest : FullBackupManifest} {start stop : ℕ} {seen : List Utf16}
    (hlines : lineUp manifest.documents [] fullBackupHeaderBytes = .ok (seen, stop)) :
    checkContents manifest start = .ok () ↔
      vaultBackupTooLarge manifest.vault = false ∧ stop = start ∧
        omittedOnce manifest.omitted seen = .ok () := by
  unfold checkContents
  constructor
  · intro h
    obtain ⟨hvault, h⟩ := guard_ok h
    rw [hlines] at h
    obtain ⟨hstop, h⟩ := guard_ok h
    exact ⟨Bool.eq_false_iff.2 hvault, not_not.1 hstop, h⟩
  · rintro ⟨hvault, hstop, honce⟩
    rw [if_neg (Bool.eq_false_iff.1 hvault), hlines]
    show (do
      if stop ≠ start then Except.error _
      omittedOnce manifest.omitted seen) = _
    rw [if_neg (not_not.2 hstop)]
    exact honce

theorem bigEndianBytes_bigEndian (bytes : Bytes) :
    bigEndianBytes bytes.length (bigEndian bytes) = bytes := by
  induction bytes using reverseRecOn with
  | nil => rfl
  | append_singleton bytes byte ih =>
    have hlt : byte.toNat < 256 := byte.toNat_lt
    rw [length_append, length_singleton, bigEndian_append, bigEndianBytes,
      show (256 * bigEndian bytes + byte.toNat) / 256 = bigEndian bytes by omega, ih]
    refine congrArg (bytes ++ [·]) (UInt8.toNat_inj.1 ?_)
    rw [UInt8.toNat_ofNat']
    omega

/-- A file of the right layout starts with the header that is written. -/
theorem header_of_checkLayout {file : Bytes} (h : checkLayout file = .ok ()) :
    fullBackupHeader <+: file := by
  obtain ⟨hsize, -⟩ := checkLayout_spec h
  unfold checkLayout at h
  dsimp only at h
  split_ifs at h with hshort hmagic hnewer hheader
  have htake : bytesOf file 0 fullBackupHeaderBytes = file.take fullBackupHeaderBytes := rfl
  rw [htake] at hmagic hheader
  rw [not_or, not_not, not_not] at hheader
  obtain ⟨rest, hrest⟩ := hmagic
  have hlength : fullBackupMagic.length + rest.length = fullBackupHeaderBytes := by
    rw [← length_append, hrest, length_take]
    omega
  have hmagic8 : fullBackupMagic.length = 8 := rfl
  unfold fullBackupHeaderBytes at hlength hsize
  rw [← hrest, drop_left' hmagic8, show 12 = fullBackupMagic.length + 4 from rfl,
    drop_length_add_append] at hheader
  have hfirst := bigEndianBytes_bigEndian (rest.take 4)
  have hlast := bigEndianBytes_bigEndian (rest.drop 4)
  rw [hheader.1, length_take, show min 4 rest.length = 4 by omega] at hfirst
  rw [hheader.2, length_drop, show rest.length - 4 = 4 by omega] at hlast
  have heq : fullBackupHeader = file.take fullBackupHeaderBytes := by
    rw [← hrest, ← take_append_drop 4 rest, ← hfirst, ← hlast]
    rfl
  rw [heq]
  exact take_prefix _ _

/-! ## What the calls leave -/

variable {w : FullBackupWriter}

theorem addDocument_spec {row : DocumentResponse} {segments : List Bytes} {w' : FullBackupWriter}
    (h : w.addDocument row segments = .ok w') :
    unbackupableRow row = none ∧ row.id ∉ w.documents.map (·.row.id) ∧
      segments.flatten.length = row.ciphertextBytes ∧
      w' = ⟨w.target ++ segments.flatten, w.documents ++ [⟨row, w.offset, row.ciphertextBytes⟩],
        w.offset + row.ciphertextBytes⟩ := by
  unfold addDocument at h
  split at h
  · cases h
  · rename_i hrow
    dsimp only at h
    split_ifs at h with htwice hlength
    rw [not_not] at hlength
    refine ⟨hrow, fun hmem => ?_, ?_, ?_⟩
    · obtain ⟨entry, hentry, hid⟩ := mem_map.1 hmem
      exact htwice (any_eq_true.2 ⟨entry, hentry, decide_eq_true hid⟩)
    · rw [length_flatten, hlength]
    · rw [← Except.ok.inj h, hlength]
      rfl

/-- What `finish` adds to what is stored, and what it leaves. -/
theorem finish_keeps {sign : List Char → Utf16} {fields : FullBackupWriter.Fields}
    {w' : FullBackupWriter} {summary : WrittenFullBackup}
    (h : w.finish sign fields = .ok (w', summary)) :
    w'.documents = w.documents ∧ w'.offset = w.offset ∧
      w.target.length + 18 ≤ w'.target.length ∧
      ∀ left ∈ fields.omitted, left.id ∉ w.documents.map (·.row.id) := by
  obtain ⟨-, hfile⟩ := finish_spec h
  have htwo : 2 ≤ (w.encoded (sign (w.canonical fields)) fields).length := two_le_encodeText _
  rw [hfile, length_append, length_append, length_fullBackupFooter]
  unfold finish at h
  dsimp only at h
  split_ifs at h with hboth hlarge
  obtain ⟨rfl, -⟩ := Prod.mk.inj (Except.ok.inj h)
  refine ⟨rfl, rfl, by unfold fullBackupFooterBytes; omega, fun left hleft hmem => ?_⟩
  obtain ⟨entry, hentry, hid⟩ := mem_map.1 hmem
  exact hboth (any_eq_true.2 ⟨left, hleft, any_eq_true.2
    ⟨entry, hentry, decide_eq_true hid⟩⟩)

theorem finish_ok {sign : List Char → Utf16} {fields : FullBackupWriter.Fields}
    (hapart : ∀ left ∈ fields.omitted, ∀ entry ∈ w.documents, entry.row.id ≠ left.id)
    (hsmall : (w.encoded (sign (w.canonical fields)) fields).length ≤ maxFullBackupManifestBytes) :
    w.finish sign fields = .ok
      ((w.write (w.encoded (sign (w.canonical fields)) fields)).write
          (fullBackupFooter (w.encoded (sign (w.canonical fields)) fields).length),
        ⟨w.sizeWith (w.encoded (sign (w.canonical fields)) fields).length,
          w.documents.length⟩) := by
  unfold finish
  rw [if_neg fun hany => ?_]
  · exact if_neg (not_lt.2 hsmall)
  · obtain ⟨left, hleft, hany⟩ := any_eq_true.1 hany
    obtain ⟨entry, hentry, hid⟩ := any_eq_true.1 hany
    exact hapart left hleft entry hentry (of_decide_eq_true hid)

/-- The writer after these calls. -/
structure Called (calls : List Call) (w : FullBackupWriter) : Prop where
  rows : w.documents.map FullBackupEntry.row = rows calls
  lines : lineUp w.documents [] fullBackupHeaderBytes =
    .ok ((w.documents.map (·.row.id)).reverse, w.offset)
  target : calls.countP Call.isFinish = 0 → w.target = calls.flatMap Call.bytes
  exact : calls.countP Call.isFinish = 0 →
    w.target.length + 16 = w.offset + 16 * calls.countP Call.isBegin
  longer : w.offset + 16 * calls.countP Call.isBegin + 18 * calls.countP Call.isFinish ≤
    w.target.length + 16

theorem called_new : Called [] new :=
  ⟨rfl, rfl, fun _ => rfl, fun _ => rfl, le_rfl⟩

theorem Called.begin {calls : List Call} (h : Called calls w) :
    Called (calls ++ [.begin]) w.begin := by
  have hlength : w.begin.target.length = w.target.length + 16 := length_append
  have hexact := h.exact
  have hlonger := h.longer
  refine ⟨?_, h.lines, fun hnone => ?_, fun hnone => ?_, ?_⟩
  · rw [Backup.rows, filterMap_append, show w.begin.documents = w.documents from rfl, h.rows]
    exact (append_nil _).symm
  · rw [countP_append] at hnone
    rw [flatMap_append, ← h.target (by omega)]
    rfl
  · rw [countP_append] at hnone
    have hbegun : (calls ++ [Call.begin]).countP Call.isBegin = calls.countP Call.isBegin + 1 :=
      countP_append
    have hoffset : w.begin.offset = w.offset := rfl
    omega
  · have hbegun : (calls ++ [Call.begin]).countP Call.isBegin = calls.countP Call.isBegin + 1 :=
      countP_append
    have hfinished : (calls ++ [Call.begin]).countP Call.isFinish = calls.countP Call.isFinish :=
      countP_append
    have hoffset : w.begin.offset = w.offset := rfl
    omega

theorem Called.addDocument {calls : List Call} {w' : FullBackupWriter} (h : Called calls w)
    {row : DocumentResponse} {segments : List Bytes} (hadd : w.addDocument row segments = .ok w') :
    Called (calls ++ [.addDocument row segments]) w' := by
  obtain ⟨hrow, hnew, hlength, rfl⟩ := addDocument_spec hadd
  have hbegun : (calls ++ [Call.addDocument row segments]).countP Call.isBegin =
      calls.countP Call.isBegin := countP_append
  have hfinished : (calls ++ [Call.addDocument row segments]).countP Call.isFinish =
      calls.countP Call.isFinish := countP_append
  have hexact := h.exact
  have hlonger := h.longer
  refine ⟨?_, ?_, fun hnone => ?_, fun hnone => ?_, ?_⟩
  · rw [Backup.rows, filterMap_append, map_append, h.rows]
    rfl
  · have hunseen : row.id ∉ (w.documents.map (·.row.id)).reverse := by rwa [mem_reverse]
    show lineUp (w.documents ++ [_]) [] fullBackupHeaderBytes = _
    rw [lineUp_append, h.lines, map_append, reverse_append]
    show lineUp [_] _ _ = _
    rw [lineUp, hrow]
    rw [if_neg hunseen, if_neg (by rw [not_or, not_not, not_not]; exact ⟨rfl, rfl⟩)]
    rfl
  · rw [hfinished] at hnone
    rw [flatMap_append, ← h.target hnone]
    simp only [flatMap_singleton]
    rfl
  · rw [hfinished] at hnone
    rw [length_append]
    show w.target.length + segments.flatten.length + 16 = w.offset + row.ciphertextBytes + _
    omega
  · rw [hbegun, hfinished, length_append]
    show w.offset + row.ciphertextBytes + _ + _ ≤ _
    omega

theorem Called.finish {calls : List Call} {w' : FullBackupWriter} (h : Called calls w)
    {sign : List Char → Utf16} {fields : FullBackupWriter.Fields} {summary : WrittenFullBackup}
    (hfinish : w.finish sign fields = .ok (w', summary)) :
    Called (calls ++ [.finish fields]) w' := by
  obtain ⟨hdocuments, hoffset, hlength, -⟩ := finish_keeps hfinish
  have hbegun : (calls ++ [Call.finish fields]).countP Call.isBegin =
      calls.countP Call.isBegin := countP_append
  have hfinished : (calls ++ [Call.finish fields]).countP Call.isFinish =
      calls.countP Call.isFinish + 1 := countP_append
  have hlonger := h.longer
  refine ⟨?_, ?_, fun hnone => by omega, fun hnone => by omega, by omega⟩
  · rw [Backup.rows, filterMap_append, hdocuments, h.rows]
    exact (append_nil _).symm
  · rw [hdocuments, hoffset]
    exact h.lines

theorem Called.calls {sign : List Char → Utf16} {calls before : List Call} {w' : FullBackupWriter}
    (h : Called before w) (hcalls : w.calls sign calls = .ok w') :
    Called (before ++ calls) w' := by
  induction calls generalizing before w with
  | nil =>
    cases hcalls
    rwa [append_nil]
  | cons call calls ih =>
    unfold FullBackupWriter.calls at hcalls
    rw [foldlM_cons] at hcalls
    obtain ⟨w₁, hfirst, hrest⟩ := bind_ok hcalls
    have hcalled : Called (before ++ [call]) w₁ := by
      cases call with
      | begin =>
        cases hfirst
        exact h.begin
      | addDocument row segments => exact h.addDocument hfirst
      | finish fields =>
        cases hfinish : w.finish sign fields with
        | error refusal =>
          rw [call, hfinish] at hfirst
          cases hfirst
        | ok finished =>
          rw [call, hfinish] at hfirst
          cases hfirst
          exact h.finish hfinish
    have hall := ih hcalled hrest
    rwa [append_assoc] at hall

variable {calls : List Call}

/-- What is stored is as long as the documents' places say only when the header was written once and
no manifest. -/
theorem Called.begun (h : Called calls w) (hlength : w.offset = w.target.length) :
    calls.countP Call.isBegin = 1 ∧ calls.countP Call.isFinish = 0 := by
  have hexact := h.exact
  have hlonger := h.longer
  have hnone : calls.countP Call.isFinish = 0 := by omega
  exact ⟨by omega, hnone⟩

theorem Called.offset (h : Called calls w) (hbegun : calls.countP Call.isBegin = 1)
    (hnone : calls.countP Call.isFinish = 0) :
    w.offset = w.target.length := by
  have hexact := h.exact hnone
  omega

/-- Where the documents start, by their sizes. -/
theorem Called.spans (h : Called calls w) :
    w.documents.map FullBackupEntry.range =
      spansFrom fullBackupHeaderBytes ((Backup.rows calls).map DocumentResponse.ciphertextBytes) := by
  obtain ⟨htiles, hlengths⟩ := lineUp_spec h.lines
  refine htiles.unique (tiles_spansFrom _ _) ?_
  rw [length_spansFrom, ← h.rows, map_map, map_map]
  refine map_congr_left fun entry hentry => ?_
  show entry.offset + entry.length - entry.offset = _
  rw [Nat.add_sub_cancel_left, hlengths entry hentry]
  rfl

/-! ## The law -/

section Law

variable {formats : Formats} {hmac : Bytes → Bytes} {calls : List Call}
  {fields : FullBackupWriter.Fields} {w w' : FullBackupWriter} {summary : WrittenFullBackup}

theorem sign_isHex (hhmac : ∀ message, (hmac message).length = 32) (text : List Char) :
    isHex 64 (signFullBackupManifest hmac text) := by
  have hhex := flatMap_hexByte_isHex (hmac (encodeText text))
  rwa [hhmac] at hhex

/-- What a file says that was opened. -/
theorem readable_of_opened (hcalled : Called calls w)
    (hfinished : w.finish (signFullBackupManifest hmac) fields = .ok (w', summary))
    {opened : OpenedFullBackup} (hopened : openFullBackupFile formats w'.target = .ok opened) :
    Readable formats calls fields := by
  obtain ⟨hlarge, hfile⟩ := finish_spec hfinished
  obtain ⟨raw, hopens⟩ := openFullBackupFile_spec hopened
  have hheader := header_of_checkLayout hopens.layout
  have hcontents := hopens.contents
  obtain rfl := hopens.raw hfinished
  obtain ⟨hsame, hsignature⟩ := @manifestSchema_written _ (w.manifest fields) _ _ _
    fields.vault.written hopens.schema
  have hschema := hopens.schema
  rw [hsame, hsignature, manifestSchema_accepts fields.vault.written] at hschema
  rw [hsame, hfile, manifestStart_file hlarge] at hcontents
  obtain ⟨hvault, hstop, honce⟩ := (checkContents_iff hcalled.lines).1 hcontents
  obtain ⟨hbegun, hnone⟩ := hcalled.begun hstop
  have hrows : ∀ row ∈ Backup.rows calls, documentResponseSchema formats row.json.written = .ok row := by
    rw [← hcalled.rows, forall_mem_map]
    exact fun entry hentry => (hschema.documents entry hentry).1
  refine ⟨hbegun, hnone, ?_, hrows, ?_, hschema.createdAt, hvault, hschema.omitted,
    (omittedOnce_iff.1 honce).1, ?_, hschema.unlisted⟩
  · have htarget := hcalled.target hnone
    have hlong : fullBackupHeader.length ≤ w.target.length := by
      rw [← hstop]
      exact (lineUp_spec hcalled.lines).1.le
    rw [hfile] at hheader
    rw [← htarget]
    exact prefix_of_prefix_length_le hheader (prefix_append _ _) hlong
  · rw [← hcalled.spans, forall_mem_map]
    exact fun entry hentry => (hschema.documents entry hentry).2.1.2
  · have hfew := openFullBackupFile_few hopened hopens.manifest
    rwa [lengthOf_finished, ← length_map FullBackupEntry.row, hcalled.rows] at hfew

theorem opened_of_readable (hhmac : ∀ message, (hmac message).length = 32)
    (hcalled : Called calls w)
    (hfinished : w.finish (signFullBackupManifest hmac) fields = .ok (w', summary))
    (h : Readable formats calls fields) :
    ∃ opened, openFullBackupFile formats w'.target = .ok opened := by
  obtain ⟨-, -, -, hapart⟩ := finish_keeps hfinished
  have hheader : fullBackupHeader <+: w.target := by
    rw [hcalled.target h.unfinished]
    exact h.header
  have hlines := lineUp_spec hcalled.lines
  refine accepted_of_finished hheader hfinished ?_ ?_ ?_
  · rw [← length_map FullBackupEntry.row, hcalled.rows]
    exact h.few
  · rw [(manifestSchema_accepts fields.vault.written).2]
    · rfl
    · refine ⟨h.createdAt, fun entry hentry => ?_, h.ids, h.unlisted, sign_isHex hhmac _⟩
      have hrow : entry.row ∈ Backup.rows calls := by
        rw [← hcalled.rows]
        exact mem_map_of_mem hentry
      have hstart : entry.range ∈ w.documents.map FullBackupEntry.range := mem_map_of_mem hentry
      have hlow := (hlines.1.bounds hstart).1
      rw [hcalled.spans] at hstart
      refine ⟨h.rows _ hrow, ⟨hlow, h.starts _ hstart⟩, ?_⟩
      rw [hlines.2 entry hentry]
      exact ciphertextBytes_accepted (h.rows _ hrow)
  · rw [checkContents_iff hcalled.lines]
    refine ⟨h.vault, hcalled.offset h.begun h.unfinished, omittedOnce_iff.2 ⟨h.once, ?_⟩⟩
    intro left hleft hmem
    exact hapart left hleft (mem_reverse.1 hmem)

/-- **What a writer is asked for decides whether its file can be read**: the reader accepts the file
that a last `finish` completes exactly when the calls before it, and what it is given, are
`Readable`. -/
theorem full_backup_accepted (hhmac : ∀ message, (hmac message).length = 32)
    (hcalls : FullBackupWriter.new.calls (signFullBackupManifest hmac) calls = .ok w)
    (hfinished : w.finish (signFullBackupManifest hmac) fields = .ok (w', summary)) :
    (∃ opened, openFullBackupFile formats w'.target = .ok opened) ↔
      Readable formats calls fields := by
  have hcalled : Called calls w := called_new.calls hcalls
  exact ⟨fun ⟨_, hopened⟩ => readable_of_opened hcalled hfinished hopened,
    opened_of_readable hhmac hcalled hfinished⟩

end Law

/-- A keyed hash of 32 bytes. -/
def sampleHmac : Bytes → Bytes := fun message => List.replicate 32 (.ofNat message.length)

def sampleCalls : List Call := [.begin, .addDocument sampleRow sampleSegments]

theorem sample_called :
    new.calls (signFullBackupManifest sampleHmac) sampleCalls = .ok sampleWriter := by
  rfl

theorem sample_readable : Readable sampleFormats sampleCalls sampleFields where
  begun := rfl
  unfinished := rfl
  header := by decide
  rows := forall_mem_singleton.2 (by decide +kernel)
  starts := by decide
  createdAt := by decide
  vault := by decide
  ids := nofun
  once := .nil
  few := by decide
  unlisted := by decide

theorem full_backup_accepted_sample :
    ∃ w' summary, sampleWriter.finish (signFullBackupManifest sampleHmac) sampleFields =
        .ok (w', summary) ∧
      ∃ opened, openFullBackupFile sampleFormats w'.target = .ok opened := by
  have hsmall : (sampleWriter.encoded (signFullBackupManifest sampleHmac
      (sampleWriter.canonical sampleFields)) sampleFields).length ≤ maxFullBackupManifestBytes := by
    decide +kernel
  have hfinished := finish_ok
    (fun left hleft => absurd hleft not_mem_nil) hsmall
  exact ⟨_, _, hfinished, (full_backup_accepted (fun _ => length_replicate) sample_called
    hfinished).2 sample_readable⟩

/-- One document left out twice. -/
def leftOutTwice : FullBackupWriter.Fields :=
  { sampleFields with omitted := [⟨sampleRow.id, .unreadable⟩, ⟨sampleRow.id, .unreadable⟩] }

/-- The list of what was left out may name a document twice: the writer writes it down, and the file
cannot be opened. -/
theorem full_backup_refused :
    ¬ ∀ (formats : Formats) (hmac : Bytes → Bytes) (calls : List Call)
      (fields : FullBackupWriter.Fields) (w w' : FullBackupWriter) (summary : WrittenFullBackup),
      (∀ message, (hmac message).length = 32) →
      FullBackupWriter.new.calls (signFullBackupManifest hmac) calls = .ok w →
      w.finish (signFullBackupManifest hmac) fields = .ok (w', summary) →
      ∃ opened, openFullBackupFile formats w'.target = .ok opened := by
  intro h
  have hsmall : (new.begin.encoded (signFullBackupManifest sampleHmac
      (new.begin.canonical leftOutTwice)) leftOutTwice).length ≤
        maxFullBackupManifestBytes := by
    decide +kernel
  have hfinished := finish_ok (w := new.begin) nofun hsmall
  have hcalls : new.calls (signFullBackupManifest sampleHmac) [.begin] =
      .ok new.begin := rfl
  obtain ⟨opened, hopened⟩ := h sampleFormats sampleHmac _ _ _ _ _
    (fun _ => length_replicate) hcalls hfinished
  have hreadable := readable_of_opened (called_new.calls hcalls) hfinished hopened
  exact absurd hreadable.once (by decide)

end HVault.Backup
