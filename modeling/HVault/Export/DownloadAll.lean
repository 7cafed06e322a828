import HVault.Documents.Download
import HVault.Export.ArchivePaths
import HVault.Export.ZipReader

/-!
# Downloading all documents

A list of documents is read one after the other, each verified whole before anything of it is
written, and what was read goes into one archive. Every early end but a failure of the archive's own
target saves what has been read so far, and the rest can be continued in a further archive.

* `readForArchive`: one document, again after a short wait where the server limits the rate;
* `archiveRow`, `archiveDocuments`: one turn of the loop, and one leg of the export.

`Keeps` is the invariant of the loop: the rows behind it are the files of the archive and the
failures, in their order. `Accounts` is what a leg comes to.
-/

namespace HVault.DownloadAll

open Json Backup DocumentCrypto Archive Zip List Or

/-! ## One row -/

def maxBulkRetries : ℕ := 3

def maxBulkRetryAfterSeconds : ℕ := 10

def unopenableDocumentName : Utf16 := units "Unopenable document"

def degradedReason : Utf16 :=
  units "Its details could not be opened with this vault key, so there was nothing to download."

def purgePendingReason : Utf16 :=
  units "It is being permanently deleted, so its stored file may already have been removed."

/-- One row that was asked for; `documentMeta` is `none` where its details do not open. -/
structure BulkDownloadCandidate where
  id : Utf16
  documentMeta : Option DocumentMeta
  folderId : Option Utf16
  purgePending : Option Bool
  row : DocumentResponse

structure DocumentDownloadFailure where
  id : Utf16
  name : Utf16
  reason : Utf16
deriving DecidableEq

inductive DocumentDownloadStop where
  | complete
  | stopped
  | vaultLocked
  | rateLimited
  | archiveFull
  | saveFailed
deriving DecidableEq

def BulkDownloadCandidate.displayName (candidate : BulkDownloadCandidate) : Utf16 :=
  match candidate.documentMeta with
  | none => unopenableDocumentName
  | some documentMeta => documentMeta.name

/-- What is parameter of all that follows: the primitives of the cipher, the formats of the schemas,
the tables of Unicode, and the local calendar fields that a date is read as. -/
structure Host (Key : Type) where
  primitives : Primitives Key
  formats : Formats
  unicode : Unicode
  localTime : Utf16 → Option Calendar

/-- What one attempt at a document meets with. The sink refuses a segment where the vault has locked;
`interrupted` is whether it had when the attempt was cancelled, `reason` what is said of its error,
and the last two are looked at after the wait. -/
structure Attempt where
  surroundings : Download.Surroundings
  interrupted : Bool
  tooManyRequests : Bool
  retryAfter : Option ℕ
  reason : Utf16
  abortedAfterWait : Bool
  interruptedAfterWait : Bool

/-- What a leg meets with at a row. -/
structure RowSurroundings where
  aborted : Bool
  interrupted : Bool
  attempts : ℕ → Attempt

/-- What ends a leg in a read. -/
inductive ReadStop where
  | stopped
  | vaultLocked
  | rateLimited
deriving DecidableEq

def ReadStop.stop : ReadStop → DocumentDownloadStop
  | .stopped => .stopped
  | .vaultLocked => .vaultLocked
  | .rateLimited => .rateLimited

/-- How a document's read ended. -/
inductive ReadOutcome where
  | read (documentMeta : DocumentMeta) (chunks : List Bytes) (crc : BitVec 32)
      (crc_eq : crc = Crc32.checksum chunks.flatten)
  | failed (reason : Utf16)
  | stop (why : ReadStop) (detail : Option Utf16)

/-- The checksum of the segments, taken as they arrive. -/
def checksum (chunks : List Bytes) : BitVec 32 :=
  chunks.foldl (fun crc segment => crc32 segment crc) 0

theorem checksum_eq (chunks : List Bytes) : checksum chunks = Crc32.checksum chunks.flatten := by
  have hfold : ∀ (chunks : List Bytes) (before : Bytes),
      chunks.foldl (fun crc segment => crc32 segment crc) (crc32 before 0) =
        crc32 (before ++ chunks.flatten) 0 := by
    intro chunks
    induction chunks with
    | nil =>
      intro before
      rw [flatten_nil, append_nil]
      rfl
    | cons segment chunks ih =>
      intro before
      rw [foldl_cons, crc32_append, ih, flatten_cons, append_assoc]
  rw [← crc32_checksum]
  exact hfold chunks []

/-- Whether the error is an answer that asks to wait. -/
def isRateLimited (attempt : Attempt) (fault : Fault) : Bool :=
  fault = .segmentUnavailable ∧ attempt.tooManyRequests

section Read

variable {Key : Type} (host : Host Key) (candidate : BulkDownloadCandidate)

/-- One attempt, with a collector of its own. -/
def readOnce (attempt : Attempt) : Download.Reading :=
  Download.streamDocumentPlaintext host.primitives host.formats candidate.id
    ⟨some candidate.row, none⟩ attempt.surroundings

/-- What becomes of an attempt; `retry` is what another one comes to, where there is one left. -/
def attemptOutcome (attempt : Attempt) (retry : Option ReadOutcome) : ReadOutcome :=
  let reading := readOnce host candidate attempt
  match reading.result with
  | .ok documentMeta =>
    .read documentMeta reading.written (checksum reading.written) (checksum_eq reading.written)
  | .error fault =>
    if fault = .cancelled ∨ fault = .sink then
      .stop (if attempt.interrupted then .vaultLocked else .stopped) none
    else if ¬isRateLimited attempt fault then .failed attempt.reason
    else match retry, attempt.retryAfter with
      | some outcome, some seconds =>
        if maxBulkRetryAfterSeconds < seconds then .stop .rateLimited (some attempt.reason)
        else if attempt.abortedAfterWait then .stop .stopped none
        else if attempt.interruptedAfterWait then .stop .vaultLocked none
        else outcome
      | _, _ => .stop .rateLimited (some attempt.reason)

/-- The attempts at a document, with so many retries left. -/
def readAttempts (attempts : ℕ → Attempt) : ℕ → ReadOutcome
  | 0 => attemptOutcome host candidate (attempts maxBulkRetries) none
  | left + 1 =>
    attemptOutcome host candidate (attempts (maxBulkRetries - (left + 1)))
      (some (readAttempts attempts left))

def readForArchive (attempts : ℕ → Attempt) : ReadOutcome :=
  readAttempts host candidate attempts maxBulkRetries

end Read

/-! ## One leg -/

inductive TargetKind where
  | file
  | download
deriving DecidableEq

/-- One archive being written: whether each write is taken and the archive saved at the end, and what
is said of a write or a save that is refused. -/
structure ArchiveTarget where
  kind : TargetKind
  name : Utf16
  limitBytes : ℕ
  takes : ℕ → Bool
  commits : Bool
  refusal : Utf16

def ArchiveTarget.message (target : ArchiveTarget) : ZipError → Utf16
  | .sink => target.refusal
  | error => units error.message

structure DocumentArchiveResult where
  total : ℕ
  savedCount : ℕ
  failures : List DocumentDownloadFailure
  stopped : DocumentDownloadStop
  stoppedDetail : Option Utf16
  archive : Option (Utf16 × TargetKind)

/-- What a leg leaves: its result, the allocator for the next, and the archive that was saved. -/
structure Outcome where
  result : DocumentArchiveResult
  allocator : ArchivePathAllocator
  saved : Option Bytes

/-- The variables of the loop. -/
structure Leg where
  allocator : ArchivePathAllocator
  writer : StoredZipWriter
  savedCount : ℕ
  failures : List DocumentDownloadFailure

/-- Why the loop is left before its end. -/
inductive LegEnd where
  | stop (leg : Leg) (why : DocumentDownloadStop) (detail : Option Utf16)
  | threw (leg : Leg) (message : Utf16)

def Leg.refuse (leg : Leg) (candidate : BulkDownloadCandidate) (reason : Utf16) : Leg :=
  { leg with failures := leg.failures ++ [⟨candidate.id, candidate.displayName, reason⟩] }

/-- Wherever a document is to go, there is a place for it. -/
theorem place_isSome (unicode : Unicode) (a : ArchivePathAllocator) (name : Utf16)
    (folderId : Option Utf16) : (a.place unicode name folderId).isSome := by
  have henter : ∀ (chain : List DecryptedFolder) (path directory : Utf16)
      (a : ArchivePathAllocator), (a.enter unicode chain path directory).isSome := by
    intro chain
    induction chain with
    | nil => exact fun _ _ _ => rfl
    | cons folder chain ih =>
      intro path directory a
      obtain ⟨segment, hunique, -, -⟩ := unique_spec unicode a directory folder.name
        (inr rfl : IsFallback fallbackFolderSegment)
      unfold ArchivePathAllocator.enter
      rw [hunique]
      dsimp only
      split
      · exact ih _ _ _
      · exact ih _ _ _
  obtain ⟨⟨directory, a'⟩, hdirectory⟩ := Option.isSome_iff_exists.1
    (henter (chainFor a.chains folderId) [] [] a)
  obtain ⟨segment, hunique, -, -⟩ := unique_spec unicode a' directory name
    (inl rfl : IsFallback fallbackDocumentSegment)
  unfold ArchivePathAllocator.place
  rw [directoryFor_eq, hdirectory]
  show (a'.unique unicode directory _ _ >>= _).isSome
  rw [hunique]
  rfl

/-- `allocator.place(…)`. -/
def placeIn (unicode : Unicode) (a : ArchivePathAllocator) (name : Utf16)
    (folderId : Option Utf16) : ArchivePlacement × ArchivePathAllocator :=
  (a.place unicode name folderId).get (place_isSome unicode a name folderId)

section Archive

variable {Key : Type} (host : Host Key)

/-- A row is given its place, read where the archive has room for it, and added. -/
def readRow (target : ArchiveTarget) (candidate : BulkDownloadCandidate) (listed : DocumentMeta)
    (attempts : ℕ → Attempt) (leg : Leg) : Except LegEnd Leg :=
  let (placement, allocator) :=
    placeIn host.unicode leg.allocator listed.name candidate.folderId
  if ¬leg.writer.fits placement.pathBytes listed.plaintextBytes then
    .error (.stop { leg with allocator } .archiveFull none)
  else match readForArchive host candidate attempts with
    | .stop why detail => .error (.stop { leg with allocator } why.stop detail)
    | .failed reason => .ok ({ leg with allocator }.refuse candidate reason)
    | .read documentMeta chunks crc crc_eq =>
      match leg.writer.addFile target.takes
          ⟨placement.path, host.localTime documentMeta.capturedAt, chunks, crc, crc_eq⟩ with
      | (writer, none) =>
        .ok { leg with
          allocator := allocator.reserve placement
          writer
          savedCount := leg.savedCount + 1 }
      | (writer, some error) =>
        .error (.threw { leg with allocator := allocator.reserve placement, writer }
          (target.message error))

/-- One turn of the loop. -/
def archiveRow (target : ArchiveTarget) (candidate : BulkDownloadCandidate) (row : RowSurroundings)
    (leg : Leg) : Except LegEnd Leg :=
  if row.aborted then .error (.stop leg .stopped none)
  else if row.interrupted then .error (.stop leg .vaultLocked none)
  else match candidate.documentMeta with
    | none => .ok (leg.refuse candidate degradedReason)
    | some listed =>
      if candidate.purgePending = some true then .ok (leg.refuse candidate purgePendingReason)
      else readRow host target candidate listed row.attempts leg

/-- The loop over the rows that are left, each with its position. -/
def archiveRows (target : ArchiveTarget) (rows : ℕ → RowSurroundings)
    (documents : List (BulkDownloadCandidate × ℕ)) (leg : Leg) : Except LegEnd Leg :=
  documents.foldlM (fun leg row => archiveRow host target row.1 (rows row.2) leg) leg

/-- The archive is thrown away, and the whole leg counts as unconsumed. -/
def saveFailed (total : ℕ) (allocator : ArchivePathAllocator) (message : Utf16) : Outcome :=
  ⟨⟨total, 0, [], .saveFailed, some message, none⟩, allocator.dropArchive, none⟩

/-- The archive is finished with what it holds, and saved where it holds anything. -/
def finishLeg (target : ArchiveTarget) (total : ℕ) (leg : Leg) (why : DocumentDownloadStop)
    (detail : Option Utf16) : Outcome :=
  if leg.writer.entryCount = 0 then
    ⟨⟨total, leg.savedCount, leg.failures, why, detail, none⟩, leg.allocator, none⟩
  else match leg.writer.finish target.takes with
    | (_, some error) => saveFailed total leg.allocator (target.message error)
    | (writer, none) =>
      if target.commits then
        ⟨⟨total, leg.savedCount, leg.failures, why, detail, some (target.name, target.kind)⟩,
          leg.allocator.keepArchive, some writer.target.written⟩
      else saveFailed total leg.allocator target.refusal

/-- What comes after the loop. -/
def endLeg (target : ArchiveTarget) (total : ℕ) : Except LegEnd Leg → Outcome
  | .ok leg => finishLeg target total leg .complete none
  | .error (.stop leg why detail) => finishLeg target total leg why detail
  | .error (.threw leg message) => saveFailed total leg.allocator message

def archiveDocuments (documents : List BulkDownloadCandidate) (target : ArchiveTarget)
    (rows : ℕ → RowSurroundings) (allocator : ArchivePathAllocator) : Outcome :=
  endLeg target documents.length
    (archiveRows host target rows documents.zipIdx ⟨allocator, .new target.limitBytes, 0, []⟩)

end Archive

/-! ## What a read has verified -/

section Verified

variable {Key : Type} (host : Host Key) (candidate : BulkDownloadCandidate)

/-- What an attempt comes to: the document, a refusal, the limit of the rate, an end that was asked
for, or what the next attempt comes to. -/
theorem attemptOutcome_cases (attempt : Attempt) (retry : Option ReadOutcome) :
    (∃ documentMeta, (readOnce host candidate attempt).result = .ok documentMeta ∧
      attemptOutcome host candidate attempt retry =
        .read documentMeta (readOnce host candidate attempt).written
          (checksum (readOnce host candidate attempt).written) (checksum_eq _)) ∨
    (∃ reason, attemptOutcome host candidate attempt retry = .failed reason) ∨
    (∃ detail, attemptOutcome host candidate attempt retry = .stop .rateLimited detail) ∨
    (((readOnce host candidate attempt).result = .error .cancelled ∨
        (readOnce host candidate attempt).result = .error .sink ∨
        attempt.abortedAfterWait ∨ attempt.interruptedAfterWait) ∧
      ∃ why, attemptOutcome host candidate attempt retry = .stop why none) ∨
    retry = some (attemptOutcome host candidate attempt retry) := by
  unfold attemptOutcome
  dsimp only
  cases hresult : (readOnce host candidate attempt).result with
  | ok documentMeta => exact inl ⟨documentMeta, rfl, rfl⟩
  | error fault =>
    right
    dsimp only
    by_cases hcancelled : fault = .cancelled ∨ fault = .sink
    · rw [if_pos hcancelled]
      refine inr (inr (inl ⟨?_, _, rfl⟩))
      rcases hcancelled with rfl | rfl
      · exact inl rfl
      · exact inr (inl rfl)
    rw [if_neg hcancelled]
    by_cases hlimited : ¬isRateLimited attempt fault
    · rw [if_pos hlimited]
      exact inl ⟨_, rfl⟩
    rw [if_neg hlimited]
    cases retry with
    | none => exact inr (inl ⟨_, rfl⟩)
    | some outcome =>
      cases attempt.retryAfter with
      | none => exact inr (inl ⟨_, rfl⟩)
      | some seconds =>
        dsimp only
        by_cases hlong : maxBulkRetryAfterSeconds < seconds
        · rw [if_pos hlong]
          exact inr (inl ⟨_, rfl⟩)
        rw [if_neg hlong]
        by_cases haborted : attempt.abortedAfterWait
        · rw [if_pos haborted]
          exact inr (inr (inl ⟨inr (inr (inl haborted)), _, rfl⟩))
        rw [if_neg haborted]
        by_cases hinterrupted : attempt.interruptedAfterWait
        · rw [if_pos hinterrupted]
          exact inr (inr (inl ⟨inr (inr (inr hinterrupted)), _, rfl⟩))
        rw [if_neg hinterrupted]
        exact inr (inr (inr rfl))

/-- The attempts come to what one of them does, being the last. -/
theorem readAttempts_last (attempts : ℕ → Attempt) (left : ℕ) :
    ∃ n retry, readAttempts host candidate attempts left =
        attemptOutcome host candidate (attempts n) retry ∧
      retry ≠ some (attemptOutcome host candidate (attempts n) retry) := by
  induction left with
  | zero => exact ⟨_, none, rfl, nofun⟩
  | succ left ih =>
    by_cases hlast : some (readAttempts host candidate attempts left) =
        some (attemptOutcome host candidate (attempts (maxBulkRetries - (left + 1)))
          (some (readAttempts host candidate attempts left)))
    · obtain ⟨n, retry, hread, hne⟩ := ih
      exact ⟨n, retry, (Option.some.inj hlast).symm.trans hread, hne⟩
    · exact ⟨_, _, rfl, hlast⟩

variable {host candidate}

/-- What is read was read whole, in one of the attempts. -/
theorem readForArchive_read {attempts : ℕ → Attempt} {documentMeta : DocumentMeta}
    {chunks : List Bytes} {crc : BitVec 32} {crc_eq : crc = Crc32.checksum chunks.flatten}
    (h : readForArchive host candidate attempts = .read documentMeta chunks crc crc_eq) :
    ∃ n, (readOnce host candidate (attempts n)).result = .ok documentMeta ∧
      (readOnce host candidate (attempts n)).written = chunks := by
  obtain ⟨n, retry, hlast, hretry⟩ :=
    readAttempts_last host candidate attempts maxBulkRetries
  rw [readForArchive, hlast] at h
  rcases attemptOutcome_cases host candidate (attempts n) retry with
    ⟨read, hresult, heq⟩ | ⟨_, heq⟩ | ⟨_, heq⟩ | ⟨-, _, heq⟩ | heq
  · rw [heq] at h
    obtain ⟨rfl, hchunks, -⟩ := ReadOutcome.read.inj h
    exact ⟨n, hresult, hchunks⟩
  · rw [heq] at h; cases h
  · rw [heq] at h; cases h
  · rw [heq] at h; cases h
  · exact absurd heq hretry

end Verified

/-! ## How rows are settled -/

/-- What a row that was consumed became. -/
inductive RowEnd where
  | archived (entry : ZipFileEntry)
  | refused (failure : DocumentDownloadFailure)

def RowEnd.file : RowEnd → Option ZipFileEntry
  | .archived entry => some entry
  | .refused _ => none

def RowEnd.failure : RowEnd → Option DocumentDownloadFailure
  | .archived _ => none
  | .refused failure => some failure

def archivedOf (ends : List RowEnd) : List ZipFileEntry := ends.filterMap RowEnd.file

def failuresOf (ends : List RowEnd) : List DocumentDownloadFailure := ends.filterMap RowEnd.failure

variable (ends : List RowEnd)

theorem archivedOf_append (ends' : List RowEnd) :
    archivedOf (ends ++ ends') = archivedOf ends ++ archivedOf ends' := filterMap_append

theorem failuresOf_append (ends' : List RowEnd) :
    failuresOf (ends ++ ends') = failuresOf ends ++ failuresOf ends' := filterMap_append

/-- Every row that was consumed is a file or a failure, and not both. -/
theorem length_ends : ends.length = (archivedOf ends).length + (failuresOf ends).length := by
  induction ends with
  | nil => rfl
  | cons e ends ih =>
    unfold archivedOf failuresOf at ih ⊢
    cases e with
    | archived entry | refused failure =>
      simp only [filterMap_cons, RowEnd.file, RowEnd.failure, length_cons]
      omega

section Rows

variable {Key : Type} (host : Host Key)

/-- How a row is settled: what it is refused with before it is read, what its read was refused with,
or, at a place of its own, the file that was read of it and verified. -/
inductive Settles (candidate : BulkDownloadCandidate) (row : RowSurroundings) : RowEnd → Prop where
  | degraded (hmeta : candidate.documentMeta = none) :
      Settles candidate row (.refused ⟨candidate.id, candidate.displayName, degradedReason⟩)
  | purged (hmeta : candidate.documentMeta.isSome) (hpurge : candidate.purgePending = some true) :
      Settles candidate row (.refused ⟨candidate.id, candidate.displayName, purgePendingReason⟩)
  | failed {reason : Utf16} (hmeta : candidate.documentMeta.isSome)
      (hpurge : candidate.purgePending ≠ some true)
      (hread : readForArchive host candidate row.attempts = .failed reason) :
      Settles candidate row (.refused ⟨candidate.id, candidate.displayName, reason⟩)
  | archived {listed documentMeta : DocumentMeta} {chunks : List Bytes} {crc : BitVec 32}
      {crc_eq : crc = Crc32.checksum chunks.flatten} {n : ℕ} (a : ArchivePathAllocator)
      (hmeta : candidate.documentMeta = some listed) (hpurge : candidate.purgePending ≠ some true)
      (hread : readForArchive host candidate row.attempts = .read documentMeta chunks crc crc_eq)
      (hverified : (readOnce host candidate (row.attempts n)).result = .ok documentMeta)
      (hwritten : (readOnce host candidate (row.attempts n)).written = chunks) :
      Settles candidate row (.archived ⟨(placeIn host.unicode a listed.name candidate.folderId).1.path,
        host.localTime documentMeta.capturedAt, chunks, crc, crc_eq⟩)

/-- Why a leg ends at a row that it does not consume: it was stopped or locked before the row, the
row's file was not read as it has no room in the archive, or its read ended before it was verified. -/
inductive StopsAt (candidate : BulkDownloadCandidate) (row : RowSurroundings) :
    DocumentDownloadStop → Prop where
  | aborted (h : row.aborted) : StopsAt candidate row .stopped
  | interrupted (h : row.interrupted) : StopsAt candidate row .vaultLocked
  | full (hmeta : candidate.documentMeta.isSome) : StopsAt candidate row .archiveFull
  | read {why : ReadStop} {detail : Option Utf16}
      (hread : readForArchive host candidate row.attempts = .stop why detail) :
      StopsAt candidate row why.stop

/-- The invariant of the loop: of the rows behind it, the files are in the archive and the others
among the failures. -/
structure Keeps (rows : ℕ → RowSurroundings) (behind : List (BulkDownloadCandidate × ℕ)) (leg : Leg)
    (ends : List RowEnd) : Prop where
  settled : List.Forall₂ (fun row e => Settles host row.1 (rows row.2) e) behind ends
  failures : leg.failures = failuresOf ends
  savedCount : leg.savedCount = (archivedOf ends).length
  holds : Holds (archivedOf ends) leg.writer

variable {host} {rows : ℕ → RowSurroundings} {behind : List (BulkDownloadCandidate × ℕ)} {leg : Leg}
  {ends : List RowEnd} {target : ArchiveTarget}

theorem keeps_new (limitBytes : ℕ) (a : ArchivePathAllocator) :
    Keeps host rows [] ⟨a, .new limitBytes, 0, []⟩ [] where
  settled := .nil
  failures := rfl
  savedCount := rfl
  holds := holds_new limitBytes

theorem Keeps.allocator (h : Keeps host rows behind leg ends) (a : ArchivePathAllocator) :
    Keeps host rows behind { leg with allocator := a } ends :=
  ⟨h.settled, h.failures, h.savedCount, h.holds⟩

theorem forall₂_concat {α β : Type} {R : α → β → Prop} {as : List α} {bs : List β}
    (h : List.Forall₂ R as bs) {a : α} {b : β} (hlast : R a b) :
    List.Forall₂ R (as ++ [a]) (bs ++ [b]) :=
  rel_append h (.cons hlast .nil)

variable {candidate : BulkDownloadCandidate}

theorem Keeps.refuse (h : Keeps host rows behind leg ends) {position : ℕ} {reason : Utf16}
    (hend : Settles host candidate (rows position)
      (.refused ⟨candidate.id, candidate.displayName, reason⟩)) :
    ∃ e, Keeps host rows (behind ++ [(candidate, position)]) (leg.refuse candidate reason)
      (ends ++ [e]) := by
  refine ⟨_, forall₂_concat h.settled hend, ?_, ?_, ?_⟩
  · show leg.failures ++ _ = _
    rw [h.failures, failuresOf_append]
    rfl
  · show leg.savedCount = _
    rw [h.savedCount, archivedOf_append, length_append]
    rfl
  · rw [archivedOf_append]
    exact (append_nil (archivedOf ends)).symm ▸ h.holds

theorem Keeps.archive (h : Keeps host rows behind leg ends) {position : ℕ} {entry : ZipFileEntry}
    {writer : StoredZipWriter} {a : ArchivePathAllocator}
    (hend : Settles host candidate (rows position) (.archived entry))
    (hadd : leg.writer.addFile target.takes entry = (writer, none)) :
    ∃ e, Keeps host rows (behind ++ [(candidate, position)])
      { leg with allocator := a, writer, savedCount := leg.savedCount + 1 } (ends ++ [e]) := by
  have hentries : archivedOf (ends ++ [.archived entry]) = archivedOf ends ++ [entry] :=
    archivedOf_append ends [.archived entry]
  refine ⟨_, forall₂_concat h.settled hend, ?_, ?_, ?_⟩
  · show leg.failures = _
    rw [h.failures, failuresOf_append]
    exact (append_nil _).symm
  · show leg.savedCount + 1 = _
    rw [h.savedCount, hentries, length_append]
    rfl
  · rw [hentries]
    exact h.holds.addFile (addFile_takes hadd)

variable (target : ArchiveTarget)

theorem readRow_spec (h : Keeps host rows behind leg ends) (position : ℕ) {listed : DocumentMeta}
    (hmeta : candidate.documentMeta = some listed) (hpurge : candidate.purgePending ≠ some true) :
    (∀ leg', readRow host target candidate listed (rows position).attempts leg = .ok leg' →
      ∃ e, Keeps host rows (behind ++ [(candidate, position)]) leg' (ends ++ [e])) ∧
    ∀ leg' why detail,
      readRow host target candidate listed (rows position).attempts leg =
        .error (.stop leg' why detail) →
      Keeps host rows behind leg' ends ∧ StopsAt host candidate (rows position) why := by
  have hsome : candidate.documentMeta.isSome := by rw [hmeta]; rfl
  unfold readRow
  dsimp only
  by_cases hfits : ¬leg.writer.fits
      (placeIn host.unicode leg.allocator listed.name candidate.folderId).1.pathBytes
      listed.plaintextBytes
  · rw [if_pos hfits]
    refine ⟨nofun, fun _ _ _ hstop => ?_⟩
    obtain ⟨rfl, rfl, -⟩ := LegEnd.stop.inj (Except.error.inj hstop)
    exact ⟨h.allocator _, .full hsome⟩
  rw [if_neg hfits]
  cases hread : readForArchive host candidate (rows position).attempts with
  | stop why detail =>
    refine ⟨nofun, fun _ _ _ hstop => ?_⟩
    obtain ⟨rfl, rfl, -⟩ := LegEnd.stop.inj (Except.error.inj hstop)
    exact ⟨h.allocator _, .read hread⟩
  | failed reason =>
    refine ⟨fun leg' hnext => ?_, nofun⟩
    cases hnext
    exact (h.allocator _).refuse (.failed hsome hpurge hread)
  | read documentMeta chunks crc crc_eq =>
    obtain ⟨n, hverified, hwritten⟩ := readForArchive_read hread
    dsimp only
    generalize hadd : leg.writer.addFile target.takes _ = added
    obtain ⟨writer, _ | error⟩ := added
    · refine ⟨fun leg' hnext => ?_, nofun⟩
      obtain rfl := Except.ok.inj hnext
      exact h.archive (.archived leg.allocator hmeta hpurge hread hverified hwritten) hadd
    · exact ⟨nofun, nofun⟩

/-- A turn of the loop settles its row, or leaves everything as it was. -/
theorem archiveRow_spec (h : Keeps host rows behind leg ends) (candidate : BulkDownloadCandidate)
    (position : ℕ) :
    (∀ leg', archiveRow host target candidate (rows position) leg = .ok leg' →
      ∃ e, Keeps host rows (behind ++ [(candidate, position)]) leg' (ends ++ [e])) ∧
    ∀ leg' why detail,
      archiveRow host target candidate (rows position) leg = .error (.stop leg' why detail) →
      Keeps host rows behind leg' ends ∧ StopsAt host candidate (rows position) why := by
  unfold archiveRow
  by_cases haborted : (rows position).aborted
  · rw [if_pos haborted]
    refine ⟨nofun, fun _ _ _ hstop => ?_⟩
    obtain ⟨rfl, rfl, -⟩ := LegEnd.stop.inj (Except.error.inj hstop)
    exact ⟨h, .aborted haborted⟩
  rw [if_neg haborted]
  by_cases hinterrupted : (rows position).interrupted
  · rw [if_pos hinterrupted]
    refine ⟨nofun, fun _ _ _ hstop => ?_⟩
    obtain ⟨rfl, rfl, -⟩ := LegEnd.stop.inj (Except.error.inj hstop)
    exact ⟨h, .interrupted hinterrupted⟩
  rw [if_neg hinterrupted]
  cases hmeta : candidate.documentMeta with
  | none =>
    refine ⟨fun leg' hnext => ?_, nofun⟩
    cases hnext
    exact h.refuse (.degraded hmeta)
  | some listed =>
    dsimp only
    by_cases hpurge : candidate.purgePending = some true
    · rw [if_pos hpurge]
      refine ⟨fun leg' hnext => ?_, nofun⟩
      obtain rfl := Except.ok.inj hnext
      exact h.refuse (.purged (by rw [hmeta]; rfl) hpurge)
    · rw [if_neg hpurge]
      exact readRow_spec target h position hmeta hpurge

/-- The loop settles rows from the first on, up to one that it ends at. -/
theorem archiveRows_spec (h : Keeps host rows behind leg ends)
    (documents : List (BulkDownloadCandidate × ℕ)) :
    (∀ leg', archiveRows host target rows documents leg = .ok leg' →
      ∃ more, Keeps host rows (behind ++ documents) leg' (ends ++ more)) ∧
    ∀ leg' why detail,
      archiveRows host target rows documents leg = .error (.stop leg' why detail) →
      ∃ before row after more, documents = before ++ row :: after ∧
        Keeps host rows (behind ++ before) leg' (ends ++ more) ∧
        StopsAt host row.1 (rows row.2) why := by
  induction documents generalizing behind leg ends with
  | nil =>
    refine ⟨fun leg' hdone => ?_, nofun⟩
    cases hdone
    exact ⟨[], by rwa [append_nil, append_nil]⟩
  | cons row documents ih =>
    obtain ⟨hnext, hstop⟩ := archiveRow_spec target h row.1 row.2
    have hunfold : archiveRows host target rows (row :: documents) leg =
        archiveRow host target row.1 (rows row.2) leg >>= archiveRows host target rows documents :=
      foldlM_cons
    rw [hunfold]
    cases hturn : archiveRow host target row.1 (rows row.2) leg with
    | ok leg₁ =>
      obtain ⟨e, hkeeps⟩ := hnext leg₁ hturn
      obtain ⟨hdone, hended⟩ := ih hkeeps
      refine ⟨fun leg' hall => ?_, fun leg' why detail hall => ?_⟩
      · obtain ⟨more, hmore⟩ := hdone leg' hall
        refine ⟨e :: more, ?_⟩
        rwa [append_assoc, append_assoc] at hmore
      · obtain ⟨before, row', after, more, rfl, hmore, hstops⟩ := hended leg' why detail hall
        refine ⟨row :: before, row', after, e :: more, rfl, ?_, hstops⟩
        rwa [append_assoc, append_assoc] at hmore
    | error legEnd =>
      refine ⟨nofun, fun leg' why detail hall => ?_⟩
      cases hall
      obtain ⟨hkeeps, hstops⟩ := hstop leg' why detail hturn
      refine ⟨[], row, documents, [], rfl, ?_, hstops⟩
      rwa [append_nil, append_nil]

end Rows

/-! ## What a leg comes to -/

section Leg

variable {Key : Type} (host : Host Key)

/-- What a leg reports: the failures, and the files as the archive that was saved, if there are any. -/
structure Reports (documents : List BulkDownloadCandidate) (outcome : Outcome)
    (ends : List RowEnd) : Prop where
  total : outcome.result.total = documents.length
  failures : outcome.result.failures = failuresOf ends
  savedCount : outcome.result.savedCount = (archivedOf ends).length
  saved : (archivedOf ends = [] ∧ outcome.saved = none) ∨
    (archivedOf ends ≠ [] ∧ ∃ bytes, outcome.saved = some bytes ∧
      readZip bytes = some ((archivedOf ends).map ZipFileEntry.member))

/-- What a leg comes to: the first of its rows were consumed, and are what it reports; at the next it
has ended, unless there is none or the archive could not be saved. -/
structure Accounts (documents : List BulkDownloadCandidate) (target : ArchiveTarget)
    (rows : ℕ → RowSurroundings) (outcome : Outcome) (ends : List RowEnd) : Prop extends
    Reports documents outcome ends where
  settled : List.Forall₂ (fun row e => Settles host row.1 (rows row.2) e)
    (documents.zipIdx.take ends.length) ends
  archive : outcome.result.archive = outcome.saved.map fun _ => (target.name, target.kind)
  stopped : (outcome.result.stopped = .complete ∧ ends.length = documents.length) ∨
    (outcome.result.stopped = .saveFailed ∧ ends = []) ∨
    ∃ candidate, documents[ends.length]? = some candidate ∧
      StopsAt host candidate (rows ends.length) outcome.result.stopped

variable {host} {documents : List BulkDownloadCandidate} {target : ArchiveTarget}
  {rows : ℕ → RowSurroundings} {outcome : Outcome} {ends : List RowEnd}

theorem StopsAt.ne_saveFailed {candidate : BulkDownloadCandidate} {row : RowSurroundings}
    {why : DocumentDownloadStop} (h : StopsAt host candidate row why) : why ≠ .saveFailed := by
  cases h with
  | aborted h | interrupted h | full hmeta => exact nofun
  | @read why detail hread => cases why <;> exact nofun

/-- A leg that could not be saved counts nothing. -/
theorem Accounts.unsaved (h : Accounts host documents target rows outcome ends)
    (hfailed : outcome.result.stopped = .saveFailed) : ends = [] := by
  rcases h.stopped with ⟨hcomplete, -⟩ | ⟨-, hnone⟩ | ⟨candidate, -, hstops⟩
  · rw [hcomplete] at hfailed
    cases hfailed
  · exact hnone
  · exact absurd hfailed hstops.ne_saveFailed

/-- The rows that were consumed are as many as are reported. -/
theorem Reports.consumed (h : Reports documents outcome ends) :
    outcome.result.savedCount + outcome.result.failures.length = ends.length := by
  rw [length_ends, h.savedCount, h.failures]

theorem accounts_saveFailed (a : ArchivePathAllocator) (message : Utf16) :
    Accounts host documents target rows (saveFailed documents.length a message) [] where
  total := rfl
  settled := .nil
  failures := rfl
  savedCount := rfl
  saved := inl ⟨rfl, rfl⟩
  archive := rfl
  stopped := inr (inl ⟨rfl, rfl⟩)

/-- A leg that is finished saves what it holds, or counts for nothing. -/
theorem finishLeg_spec {leg : Leg} {before after : List (BulkDownloadCandidate × ℕ)}
    (h : Keeps host rows before leg ends) (hsplit : documents.zipIdx = before ++ after)
    {why : DocumentDownloadStop} (detail : Option Utf16)
    (hstopped : (why = .complete ∧ ends.length = documents.length) ∨
      ∃ candidate, documents[ends.length]? = some candidate ∧
        StopsAt host candidate (rows ends.length) why) :
    ∃ ends', Accounts host documents target rows
      (finishLeg target documents.length leg why detail) ends' := by
  have hlength := h.settled.length_eq
  have hsettled : List.Forall₂ (fun row e => Settles host row.1 (rows row.2) e)
      (documents.zipIdx.take ends.length) ends := by
    rw [hsplit, take_left' hlength]
    exact h.settled
  have hstopped' : (why = .complete ∧ ends.length = documents.length) ∨
      (why = .saveFailed ∧ ends = []) ∨
      ∃ candidate, documents[ends.length]? = some candidate ∧
        StopsAt host candidate (rows ends.length) why := hstopped.imp_right inr
  have hcount : leg.writer.entryCount = (archivedOf ends).length := by
    rw [StoredZipWriter.entryCount, h.holds.records, length_recordsFrom]
  unfold finishLeg
  by_cases hempty : leg.writer.entryCount = 0
  · rw [if_pos hempty]
    have hnone : archivedOf ends = [] := eq_nil_of_length_eq_zero (hcount ▸ hempty)
    exact ⟨ends, ⟨rfl, h.failures, h.savedCount, inl ⟨hnone, rfl⟩⟩, hsettled, rfl, hstopped'⟩
  rw [if_neg hempty]
  generalize hfinish : leg.writer.finish target.takes = finished
  obtain ⟨writer, _ | error⟩ := finished
  · dsimp only
    by_cases hcommits : target.commits
    · rw [if_pos hcommits]
      have hread := h.holds.readZip
      rw [finish_takes hfinish] at hread
      have hsome : archivedOf ends ≠ [] := by
        intro hnone
        rw [hnone] at hcount
        exact hempty hcount
      exact ⟨ends, ⟨rfl, h.failures, h.savedCount, inr ⟨hsome, _, rfl, hread⟩⟩, hsettled, rfl,
        hstopped'⟩
    · rw [if_neg hcommits]
      exact ⟨[], accounts_saveFailed _ _⟩
  · exact ⟨[], accounts_saveFailed _ _⟩

/-- Whatever a leg meets with, it accounts for the rows that it consumed. -/
theorem archiveDocuments_accounts (host : Host Key) (documents : List BulkDownloadCandidate)
    (target : ArchiveTarget) (rows : ℕ → RowSurroundings) (a : ArchivePathAllocator) :
    ∃ ends, Accounts host documents target rows (archiveDocuments host documents target rows a)
      ends := by
  obtain ⟨hdone, hended⟩ := archiveRows_spec target
    (keeps_new target.limitBytes a : Keeps host rows [] _ []) documents.zipIdx
  unfold archiveDocuments
  cases hloop : archiveRows host target rows documents.zipIdx
      ⟨a, .new target.limitBytes, 0, []⟩ with
  | ok leg =>
    obtain ⟨ends, hkeeps⟩ := hdone leg hloop
    rw [nil_append, nil_append] at hkeeps
    refine finishLeg_spec hkeeps (append_nil _).symm _ (inl ⟨rfl, ?_⟩)
    rw [← hkeeps.settled.length_eq, length_zipIdx]
  | error legEnd =>
    cases legEnd with
    | threw leg message => exact ⟨[], accounts_saveFailed _ _⟩
    | stop leg why detail =>
      obtain ⟨before, row, after, ends, hsplit, hkeeps, hstops⟩ := hended leg why detail hloop
      rw [nil_append, nil_append] at hkeeps
      refine finishLeg_spec hkeeps hsplit _ (inr ?_)
      have hrow : documents.zipIdx[ends.length]? = some row := by
        rw [hsplit, ← hkeeps.settled.length_eq, getElem?_append_right le_rfl, Nat.sub_self]
        rfl
      rw [getElem?_zipIdx] at hrow
      obtain ⟨candidate, hcandidate, rfl⟩ := Option.map_eq_some_iff.1 hrow
      rw [Nat.zero_add] at hstops
      exact ⟨candidate, hcandidate, hstops⟩

end Leg

end HVault.DownloadAll
