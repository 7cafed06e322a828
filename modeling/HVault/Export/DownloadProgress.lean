import HVault.Export.DownloadRuns

/-!
# Progress of a download

A leg whose target never fails, and that nothing stops, consumes a row, unless the rate is limited at
its first or it comes to a file that no archive can hold. An empty archive is said to have room for
any file (`fits`), and such a file is refused only when it has been read (`addFile`), which is then
reported as a failure of the target: the whole leg counts for nothing, and every further leg does the
same.

`ComesToOversized` tells by the sizes alone when this happens, `archiveRows_threw` that it does.
-/

namespace HVault.DownloadAll

open Base64 (base64ToBytes base64ToBytes_btoa)
open Json Backup Restore DocumentCrypto Archive Zip List Bool

/-! ## Sizes -/

/-- A file that is to be read, as an archive sees it. -/
structure Parcel where
  pathBytes : ℕ
  listedBytes : ℕ
  outcome : ReadOutcome

/-- What a file takes in an archive, with its header and its record. -/
def entryBytes (pathBytes size : ℕ) : ℕ :=
  localHeaderBytes + pathBytes + size + (centralRecordBytes + pathBytes)

/-- A file that the format cannot take up where the files before it take `taken` bytes. -/
def Oversized (pathBytes size taken : ℕ) : Prop :=
  zipMaxNameBytes < pathBytes ∨
    zip32MaxArchiveBytes < taken + entryBytes pathBytes size + endRecordBytes

/-- Whether an archive with a soft limit has room, by its listed size, for one more file. -/
def HasRoom (limit count taken : ℕ) (parcel : Parcel) : Prop :=
  count = 0 ∨ count < zip32MaxEntries ∧
    taken + entryBytes parcel.pathBytes parcel.listedBytes + endRecordBytes ≤ limit

def sizeOf (chunks : List Bytes) : ℕ := (chunks.map List.length).sum

/-- Of these files one is read, as there seems to be room for it and for all that are read before,
that the format cannot take up. -/
def ComesToOversized (limit : ℕ) : (count taken : ℕ) → List Parcel → Prop
  | _, _, [] => False
  | count, taken, parcel :: parcels =>
    HasRoom limit count taken parcel ∧
      match parcel.outcome with
      | .stop _ _ => False
      | .failed _ => ComesToOversized limit count taken parcels
      | .read _ chunks _ _ =>
        Oversized parcel.pathBytes (sizeOf chunks) taken ∨
          ComesToOversized limit (count + 1) (taken + entryBytes parcel.pathBytes (sizeOf chunks))
            parcels

/-- A file that is what it is listed as, and that an archive of its own can hold. -/
def Parcel.FitsAlone (parcel : Parcel) : Prop :=
  ∀ documentMeta chunks crc crc_eq, parcel.outcome = .read documentMeta chunks crc crc_eq →
    sizeOf chunks = parcel.listedBytes ∧ ¬Oversized parcel.pathBytes parcel.listedBytes 0

/-- Where there is no more than the format allows, a file that an archive of its own can hold finds
room in the one being written, or in the next. -/
theorem not_comesToOversized {limit count taken : ℕ} {parcels : List Parcel}
    (hlimit : limit ≤ zip32MaxArchiveBytes) (hempty : count = 0 → taken = 0)
    (halone : ∀ parcel ∈ parcels, parcel.FitsAlone) :
    ¬ComesToOversized limit count taken parcels := by
  induction parcels generalizing count taken with
  | nil => exact id
  | cons parcel parcels ih =>
    have hrest : ∀ other ∈ parcels, other.FitsAlone :=
      fun other hother => halone other (mem_cons_of_mem _ hother)
    have hparcel := halone parcel mem_cons_self
    rw [ComesToOversized]
    rintro ⟨hroom, hcomes⟩
    cases houtcome : parcel.outcome with
    | stop why detail =>
      rw [houtcome] at hcomes
      exact hcomes
    | failed reason =>
      rw [houtcome] at hcomes
      exact ih hempty hrest hcomes
    | read documentMeta chunks crc crc_eq =>
      rw [houtcome] at hcomes
      obtain ⟨hsize, hfits⟩ := hparcel _ _ _ _ houtcome
      rcases hcomes with hover | hcomes
      · rw [hsize] at hover
        unfold Oversized at hover hfits
        rcases hroom with hzero | ⟨-, hroom⟩
        · rw [hempty hzero] at hover
          exact hfits hover
        · omega
      · exact ih (fun hzero => absurd hzero (Nat.succ_ne_zero count)) hrest hcomes

/-! ## The files of a list -/

/-- The metadata of a document that is to be read. -/
def BulkDownloadCandidate.wanted (candidate : BulkDownloadCandidate) : Option DocumentMeta :=
  if candidate.purgePending = some true then none else candidate.documentMeta

section Parcels

variable {Key : Type} (host : Host Key)

/-- The documents of a list that are to be read, each with the path it is given and its read. -/
def parcels (rows : ℕ → RowSurroundings) :
    List (BulkDownloadCandidate × ℕ) → ArchivePathAllocator → List Parcel
  | [], _ => []
  | (candidate, position) :: documents, a =>
    match candidate.wanted with
    | none => parcels rows documents a
    | some listed =>
      let (placement, a) := placeIn host.unicode a listed.name candidate.folderId
      let outcome := readForArchive host candidate (rows position).attempts
      ⟨placement.pathBytes, listed.plaintextBytes, outcome⟩ ::
        match outcome with
        | .read _ _ _ _ => parcels rows documents (a.reserve placement)
        | _ => parcels rows documents a

/-- Neither a stop nor a lock meets the leg at a row. -/
structure Undisturbed (candidate : BulkDownloadCandidate) (row : RowSurroundings) : Prop where
  aborted : ¬row.aborted
  interrupted : ¬row.interrupted
  uncancelled : ∀ n, (readOnce host candidate (row.attempts n)).result ≠ .error .cancelled ∧
    (readOnce host candidate (row.attempts n)).result ≠ .error .sink
  waits : ∀ n, ¬(row.attempts n).abortedAfterWait ∧ ¬(row.attempts n).interruptedAfterWait

/-- The read of a row is ended by the server's limit. -/
def RateLimitedAt (candidate : BulkDownloadCandidate) (row : RowSurroundings) : Prop :=
  candidate.wanted.isSome ∧
    ∃ detail, readForArchive host candidate row.attempts = .stop .rateLimited detail

/-- A target that takes every write and saves the archive. -/
structure ArchiveTarget.NeverFails (target : ArchiveTarget) : Prop where
  takes : ∀ n, target.takes n
  commits : target.commits

variable {host} {candidate : BulkDownloadCandidate} {row : RowSurroundings} {target : ArchiveTarget}

theorem Undisturbed.stop (h : Undisturbed host candidate row) {why : ReadStop}
    {detail : Option Utf16}
    (hread : readForArchive host candidate row.attempts = .stop why detail) : why = .rateLimited := by
  obtain ⟨n, retry, hlast, hretry⟩ := readAttempts_last host candidate row.attempts maxBulkRetries
  rw [readForArchive, hlast] at hread
  rcases attemptOutcome_cases host candidate (row.attempts n) retry with
    ⟨_, -, heq⟩ | ⟨_, heq⟩ | ⟨_, heq⟩ | ⟨hend, -⟩ | heq
  · rw [heq] at hread; cases hread
  · rw [heq] at hread; cases hread
  · rw [heq] at hread
    exact (ReadOutcome.stop.inj hread).1.symm
  · rcases hend with hcancelled | hsink | haborted | hinterrupted
    · exact absurd hcancelled (h.uncancelled n).1
    · exact absurd hsink (h.uncancelled n).2
    · exact absurd haborted (h.waits n).1
    · exact absurd hinterrupted (h.waits n).2
  · exact absurd heq hretry

/-! ## One turn -/

/-- A row that is not to be read is refused. -/
theorem archiveRow_unwanted (target : ArchiveTarget) (h : Undisturbed host candidate row)
    (hwanted : candidate.wanted = none) (leg : Leg) :
    ∃ reason, archiveRow host target candidate row leg = .ok (leg.refuse candidate reason) := by
  unfold archiveRow
  rw [if_neg h.aborted, if_neg h.interrupted]
  unfold BulkDownloadCandidate.wanted at hwanted
  cases hmeta : candidate.documentMeta with
  | none => exact ⟨_, rfl⟩
  | some listed =>
    rw [hmeta] at hwanted
    dsimp only
    split_ifs at hwanted with hpurge
    rw [if_pos hpurge]
    exact ⟨_, rfl⟩

theorem archiveRow_wanted (h : Undisturbed host candidate row) {listed : DocumentMeta}
    (hwanted : candidate.wanted = some listed) (leg : Leg) :
    archiveRow host target candidate row leg =
      readRow host target candidate listed row.attempts leg := by
  unfold BulkDownloadCandidate.wanted at hwanted
  split_ifs at hwanted with hpurge
  unfold archiveRow
  rw [if_neg h.aborted, if_neg h.interrupted, hwanted]
  exact if_neg hpurge

/-- The bytes that the files of an archive take, with their records. -/
def takenBytes (w : StoredZipWriter) : ℕ := w.offset + w.centralBytes

theorem fits_iff (w : StoredZipWriter) (parcel : Parcel) :
    w.fits parcel.pathBytes parcel.listedBytes ↔
      HasRoom w.limitBytes w.entryCount (takenBytes w) parcel := by
  have hsum : w.projectedBytes parcel.pathBytes parcel.listedBytes =
      takenBytes w + entryBytes parcel.pathBytes parcel.listedBytes + endRecordBytes := by
    unfold StoredZipWriter.projectedBytes takenBytes entryBytes
    omega
  unfold StoredZipWriter.fits HasRoom
  by_cases hcount : w.entryCount = 0
  · rw [if_pos hcount]
    exact iff_of_true rfl (Or.inl hcount)
  · rw [if_neg hcount, decide_eq_true_iff, hsum]
    exact (or_iff_right hcount).symm

/-- A file that there is room for is added, and nothing else changes, or is oversized. -/
theorem addFile_cases (entry : ZipFileEntry) {w : StoredZipWriter} {parcel : Parcel}
    (htakes : ∀ n, target.takes n)
    (hroom : HasRoom w.limitBytes w.entryCount (takenBytes w) parcel)
    (hname : entry.name.length = parcel.pathBytes) :
    (Oversized parcel.pathBytes (sizeOf entry.chunks) (takenBytes w) ∧
      ∃ error, w.addFile target.takes entry = (w, some error)) ∨
    (¬Oversized parcel.pathBytes (sizeOf entry.chunks) (takenBytes w) ∧
      ∃ w', w.addFile target.takes entry = (w', none) ∧ w'.limitBytes = w.limitBytes ∧
        w'.entryCount = w.entryCount + 1 ∧
        takenBytes w' = takenBytes w + entryBytes parcel.pathBytes (sizeOf entry.chunks)) := by
  have hall : target.takes = takesAll := funext htakes
  have hsum : w.projectedBytes entry.name.length entry.size =
      takenBytes w + entryBytes parcel.pathBytes (sizeOf entry.chunks) + endRecordBytes := by
    unfold StoredZipWriter.projectedBytes takenBytes entryBytes
    rw [hname]
    show _ + sizeOf entry.chunks + _ + _ + _ + _ = _
    omega
  have hcount : ¬zip32MaxEntries ≤ w.entryCount := by
    have hmax : 0 < zip32MaxEntries := by decide
    rcases hroom with hzero | ⟨hlt, -⟩
    · omega
    · omega
  rw [hall]
  rcases addFile_takesAll entry w with ⟨error, hrefused⟩ | ⟨hfits, -, hlimit, haccepted⟩
  · refine Or.inl ⟨?_, error, hrefused⟩
    unfold StoredZipWriter.addFile at hrefused
    rw [hname] at hrefused
    by_cases hlong : zipMaxNameBytes < parcel.pathBytes
    · exact Or.inl hlong
    rw [if_neg hlong, ← hname, hsum] at hrefused
    by_cases hover : zip32MaxArchiveBytes <
        takenBytes w + entryBytes parcel.pathBytes (sizeOf entry.chunks) + endRecordBytes
    · exact Or.inr hover
    rw [if_neg (not_or.2 ⟨hcount, hover⟩), writeAll_takesAll] at hrefused
    cases (Prod.mk.inj hrefused).2
  · refine Or.inr ⟨?_, _, haccepted, rfl, ?_, ?_⟩
    · rw [hname] at hfits
      rw [hsum] at hlimit
      exact not_or.2 ⟨Nat.not_lt.2 hfits, Nat.not_lt.2 hlimit⟩
    · exact length_append
    · have hlocal : entry.localBytes.length =
          localHeaderBytes + parcel.pathBytes + sizeOf entry.chunks := by
        rw [ZipFileEntry.localBytes, length_append, entry.length_header, hname,
          ← entry.size_eq]
        rfl
      show w.offset + entry.localBytes.length +
        (w.centralBytes + (centralRecordBytes + entry.name.length)) = _
      unfold takenBytes entryBytes
      rw [hlocal, hname]
      omega

theorem placeIn_pathBytes (unicode : Unicode) (a : ArchivePathAllocator) (name : Utf16)
    (folderId : Option Utf16) :
    (placeIn unicode a name folderId).1.pathBytes =
      (Utf8.encode (placeIn unicode a name folderId).1.path).length := by
  have hplace : a.place unicode name folderId = some (placeIn unicode a name folderId) :=
    (Option.some_get _).symm
  generalize placeIn unicode a name folderId = placed at hplace
  obtain ⟨⟨directory, a'⟩, -, hplace⟩ := Option.bind_eq_some_iff.1 hplace
  obtain ⟨segment, -, hplace⟩ := Option.bind_eq_some_iff.1 hplace
  cases hplace
  rfl

/-! ## The loop -/

variable {rows : ℕ → RowSurroundings}

/-- The loop throws where it comes to an oversized file, and nowhere else. -/
theorem archiveRows_threw (htakes : ∀ n, target.takes n)
    {documents : List (BulkDownloadCandidate × ℕ)}
    (hundisturbed : ∀ row ∈ documents, Undisturbed host row.1 (rows row.2)) (leg : Leg) :
    (∃ leg' message, archiveRows host target rows documents leg = .error (.threw leg' message)) ↔
      ComesToOversized leg.writer.limitBytes leg.writer.entryCount (takenBytes leg.writer)
        (parcels host rows documents leg.allocator) := by
  induction documents generalizing leg with
  | nil => exact iff_of_false nofun id
  | cons row documents ih =>
    obtain ⟨candidate, position⟩ := row
    have hrow : Undisturbed host candidate (rows position) :=
      hundisturbed _ mem_cons_self
    have hrest := ih fun row hmem => hundisturbed row (mem_cons_of_mem _ hmem)
    have hunfold : archiveRows host target rows ((candidate, position) :: documents) leg =
        archiveRow host target candidate (rows position) leg >>=
          archiveRows host target rows documents := foldlM_cons
    rw [hunfold, parcels]
    cases hwanted : candidate.wanted with
    | none =>
      obtain ⟨reason, hturn⟩ := archiveRow_unwanted target hrow hwanted leg
      rw [hturn]
      exact hrest (leg.refuse candidate reason)
    | some listed =>
      rw [archiveRow_wanted hrow hwanted]
      unfold readRow
      dsimp only
      have hpath := placeIn_pathBytes host.unicode leg.allocator listed.name candidate.folderId
      generalize placeIn host.unicode leg.allocator listed.name candidate.folderId = placed at *
      obtain ⟨placement, a⟩ := placed
      rw [ComesToOversized]
      have hfits := fits_iff leg.writer
        ⟨placement.pathBytes, listed.plaintextBytes,
          readForArchive host candidate (rows position).attempts⟩
      by_cases hroom : leg.writer.fits placement.pathBytes listed.plaintextBytes
      · rw [if_neg (not_not.2 hroom), and_iff_right (hfits.1 hroom)]
        cases hread : readForArchive host candidate (rows position).attempts with
        | stop why detail => exact iff_of_false nofun id
        | failed reason => exact hrest ({ leg with allocator := a }.refuse candidate reason)
        | read documentMeta chunks crc crc_eq =>
          rw [hread] at hfits
          dsimp only
          rcases addFile_cases
              ⟨placement.path, host.localTime documentMeta.capturedAt, chunks, crc, crc_eq⟩ htakes
              (hfits.1 hroom) hpath.symm with
            ⟨hover, error, hadd⟩ | ⟨hsmall, w, hadd, hlimit, hcount, htaken⟩
          · rw [hadd]
            exact iff_of_true ⟨_, _, rfl⟩ (Or.inl hover)
          · rw [hadd, or_iff_right hsmall]
            have hnext := hrest
              ⟨a.reserve placement, w, leg.savedCount + 1, leg.failures⟩
            rw [hlimit, hcount, htaken] at hnext
            exact hnext
      · rw [if_pos hroom]
        exact iff_of_false nofun fun h => hroom (hfits.2 h.1)

/-! ## One leg -/

/-- The rows that a leg has consumed. -/
def Outcome.consumed (outcome : Outcome) : ℕ :=
  outcome.result.savedCount + outcome.result.failures.length

variable {leg : Leg}

/-- An archive whose target does not fail is saved, and counts all that is in it. -/
theorem finishLeg_consumed (h : target.NeverFails) {behind : List (BulkDownloadCandidate × ℕ)}
    {ends : List RowEnd} (hkeeps : Keeps host rows behind leg ends) (total : ℕ)
    (why : DocumentDownloadStop) (detail : Option Utf16) :
    (finishLeg target total leg why detail).consumed = behind.length := by
  have hall : target.takes = takesAll := funext h.takes
  have hcount : leg.savedCount + leg.failures.length = behind.length := by
    rw [hkeeps.savedCount, hkeeps.failures, ← length_ends, hkeeps.settled.length_eq]
  unfold finishLeg
  by_cases hempty : leg.writer.entryCount = 0
  · rw [if_pos hempty]
    exact hcount
  · rw [if_neg hempty, hall, StoredZipWriter.finish, writeAll_takesAll]
    dsimp only
    rw [if_pos h.commits]
    exact hcount

/-- A leg ends at its first row where the rate is limited there. -/
theorem readRow_stops_iff (h : Undisturbed host candidate row) {listed : DocumentMeta}
    (hwanted : candidate.wanted = some listed) (hempty : leg.writer.entryCount = 0) :
    (∃ leg' why detail, readRow host target candidate listed row.attempts leg =
      .error (.stop leg' why detail)) ↔ RateLimitedAt host candidate row := by
  unfold RateLimitedAt readRow
  dsimp only
  rw [hwanted, and_iff_right (Option.isSome_some)]
  have hfits : ∀ pathBytes size, leg.writer.fits pathBytes size := fun _ _ => if_pos hempty
  rw [if_neg (not_not.2 (hfits _ _))]
  cases hread : readForArchive host candidate row.attempts with
  | stop why detail =>
    obtain rfl := h.stop hread
    exact iff_of_true ⟨_, _, _, rfl⟩ ⟨detail, rfl⟩
  | failed reason => exact iff_of_false nofun nofun
  | read documentMeta chunks crc crc_eq =>
    dsimp only
    generalize leg.writer.addFile target.takes _ = added
    obtain ⟨writer, _ | error⟩ := added
    · exact iff_of_false nofun nofun
    · exact iff_of_false nofun nofun

theorem archiveRow_stops_iff (h : Undisturbed host candidate row)
    (hempty : leg.writer.entryCount = 0) :
    (∃ leg' why detail, archiveRow host target candidate row leg =
      .error (.stop leg' why detail)) ↔ RateLimitedAt host candidate row := by
  cases hwanted : candidate.wanted with
  | none =>
    obtain ⟨reason, hturn⟩ := archiveRow_unwanted target h hwanted leg
    rw [hturn]
    refine iff_of_false nofun fun ⟨hsome, _⟩ => ?_
    rw [hwanted] at hsome
    cases hsome
  | some listed =>
    rw [archiveRow_wanted h hwanted]
    exact readRow_stops_iff h hwanted hempty

/-- A loop that throws makes its leg count for nothing; any other consumes no less than what is
behind it. -/
theorem endLeg_consumed (h : target.NeverFails) {behind : List (BulkDownloadCandidate × ℕ)}
    {ends : List RowEnd} (hkeeps : Keeps host rows behind leg ends)
    (documents : List (BulkDownloadCandidate × ℕ)) (total : ℕ) :
    ((∃ leg' message, archiveRows host target rows documents leg = .error (.threw leg' message)) ∧
      (endLeg target total (archiveRows host target rows documents leg)).consumed = 0) ∨
    ((¬∃ leg' message, archiveRows host target rows documents leg = .error (.threw leg' message)) ∧
      behind.length ≤
        (endLeg target total (archiveRows host target rows documents leg)).consumed) := by
  obtain ⟨hdone, hended⟩ := archiveRows_spec target hkeeps documents
  cases hloop : archiveRows host target rows documents leg with
  | ok leg' =>
    obtain ⟨more, hmore⟩ := hdone leg' hloop
    refine Or.inr ⟨?_, ?_⟩
    · rintro ⟨_, _, hthrew⟩
      cases hthrew
    · rw [endLeg, finishLeg_consumed h hmore, length_append]
      exact Nat.le_add_right _ _
  | error legEnd =>
    cases legEnd with
    | threw leg' message => exact Or.inl ⟨⟨leg', message, rfl⟩, rfl⟩
    | stop leg' why detail =>
      obtain ⟨before, -, -, more, -, hmore, -⟩ := hended leg' why detail hloop
      refine Or.inr ⟨?_, ?_⟩
      · rintro ⟨_, _, hthrew⟩
        cases hthrew
      · rw [endLeg, finishLeg_consumed h hmore, length_append]
        exact Nat.le_add_right _ _

/-- What is to be true of a leg for it to consume a row: the rate is not limited at its first, and it
comes to no file that the format cannot take up. -/
def Unhindered (host : Host Key) (target : ArchiveTarget) (rows : ℕ → RowSurroundings)
    (documents : List BulkDownloadCandidate) (a : ArchivePathAllocator) : Prop :=
  (∀ candidate ∈ documents.head?, ¬RateLimitedAt host candidate (rows 0)) ∧
    ¬ComesToOversized target.limitBytes 0 0 (parcels host rows documents.zipIdx a)

/-- A leg consumes a row if and only if it is not hindered. -/
theorem consumed_pos_iff (h : target.NeverFails) {documents : List BulkDownloadCandidate}
    (hdocuments : documents ≠ [])
    (hundisturbed : ∀ row ∈ documents.zipIdx, Undisturbed host row.1 (rows row.2))
    (a : ArchivePathAllocator) :
    0 < (archiveDocuments host documents target rows a).consumed ↔
      Unhindered host target rows documents a := by
  obtain ⟨candidate, rest, rfl⟩ := exists_cons_of_ne_nil hdocuments
  have hfirst : Undisturbed host candidate (rows 0) :=
    hundisturbed (candidate, 0) mem_cons_self
  set leg : Leg := ⟨a, .new target.limitBytes, 0, []⟩ with hleg
  have hkeeps : Keeps host rows [] leg [] := keeps_new target.limitBytes a
  have hthrew := archiveRows_threw h.takes hundisturbed leg
  have hstops : (∃ leg' why detail, archiveRow host target candidate (rows 0) leg =
      .error (.stop leg' why detail)) ↔ RateLimitedAt host candidate (rows 0) :=
    archiveRow_stops_iff hfirst rfl
  obtain ⟨hnext, hstop⟩ := archiveRow_spec target hkeeps candidate 0
  have hunfold : archiveRows host target rows (candidate :: rest).zipIdx leg =
      archiveRow host target candidate (rows 0) leg >>=
        archiveRows host target rows (rest.zipIdx 1) := foldlM_cons
  have hhead : (∀ first ∈ (candidate :: rest).head?, ¬RateLimitedAt host first (rows 0)) ↔
      ¬RateLimitedAt host candidate (rows 0) :=
    ⟨fun hall => hall _ rfl, fun hnot first hhead => Option.some.inj hhead ▸ hnot⟩
  unfold Unhindered archiveDocuments
  rw [hhead, ← hleg]
  cases hturn : archiveRow host target candidate (rows 0) leg with
  | error legEnd =>
    rw [hturn] at hunfold
    have hloop : archiveRows host target rows (candidate :: rest).zipIdx leg = .error legEnd := hunfold
    rw [hloop]
    cases legEnd with
    | threw leg' message =>
      exact iff_of_false (Nat.lt_irrefl 0) fun hand => hand.2 (hthrew.1 ⟨leg', message, hloop⟩)
    | stop leg' why detail =>
      obtain ⟨hkeeps', -⟩ := hstop leg' why detail hturn
      refine iff_of_false ?_ fun hand => hand.1 (hstops.1 ⟨leg', why, detail, hturn⟩)
      rw [endLeg, finishLeg_consumed h hkeeps']
      exact Nat.lt_irrefl 0
  | ok leg₁ =>
    obtain ⟨e, hkeeps₁⟩ := hnext leg₁ hturn
    have hlimited : ¬RateLimitedAt host candidate (rows 0) := by
      intro hlimited
      obtain ⟨_, _, _, hended⟩ := hstops.2 hlimited
      rw [hturn] at hended
      cases hended
    rw [hturn] at hunfold
    have hloop : archiveRows host target rows (candidate :: rest).zipIdx leg =
        archiveRows host target rows (rest.zipIdx 1) leg₁ := hunfold
    have hsizes : ComesToOversized target.limitBytes 0 0
          (parcels host rows (candidate :: rest).zipIdx a) ↔
        ∃ leg' message, archiveRows host target rows (rest.zipIdx 1) leg₁ =
          .error (.threw leg' message) := by
      rw [← hloop]
      exact hthrew.symm
    rw [and_iff_right hlimited, hloop, hsizes]
    rcases endLeg_consumed h hkeeps₁ (rest.zipIdx 1) (candidate :: rest).length with
      ⟨hthrown, hnone⟩ | ⟨hkept, hsome⟩
    · rw [hnone]
      exact iff_of_false (Nat.lt_irrefl 0) (not_not.2 hthrown)
    · exact iff_of_true (Nat.lt_of_lt_of_le Nat.zero_lt_one hsome) hkept

end Parcels

/-! ## Runs -/

section Runs

variable {Key : Type} (host : Host Key)

/-- A click whose target never fails, and whose leg is neither disturbed nor hindered. -/
def Advances (state : RunState) (click : Click) : Prop :=
  ∃ target rows, click.dialog = .opened target rows ∧ target.NeverFails ∧
    (∀ row ∈ state.remaining.zipIdx, Undisturbed host row.1 (rows row.2)) ∧
    Unhindered host target rows state.remaining (state.allocator click.folders)

/-- Clicks each of which advances the run from where those before have brought it. -/
def AdvancingRun : RunState → List Click → Prop
  | _, [] => True
  | state, click :: clicks =>
    Advances host state click ∧ AdvancingRun (state.begin host click) clicks

variable {host} {documents : List BulkDownloadCandidate} {state : RunState}

/-- A click that advances the run leaves fewer rows. -/
theorem Advances.remaining_lt {click : Click} (h : Advances host state click)
    (hremaining : state.remaining ≠ []) :
    (state.begin host click).remaining.length < state.remaining.length := by
  obtain ⟨target, rows, hdialog, hnever, hundisturbed, hunhindered⟩ := h
  have hpos := (consumed_pos_iff hnever hremaining hundisturbed (state.allocator click.folders)).2
    hunhindered
  have hlength : 0 < state.remaining.length := length_pos_iff.2 hremaining
  have hbegin : (state.begin host click).remaining = state.remaining.drop
      (archiveDocuments host state.remaining target rows
        (state.allocator click.folders)).consumed := by
    unfold RunState.begin
    rw [hdialog]
    rfl
  rw [hbegin, length_drop]
  omega

/-- As many clicks that advance it as there are rows bring a run to its end. -/
theorem AdvancingRun.remaining_le {clicks : List Click} (h : AdvancingRun host state clicks) :
    (clicks.foldl (RunState.begin host) state).remaining.length ≤
      state.remaining.length - clicks.length := by
  induction clicks generalizing state with
  | nil => exact le_rfl
  | cons click clicks ih =>
    obtain ⟨hclick, hrest⟩ := h
    have hle := ih hrest
    rw [foldl_cons, length_cons]
    by_cases hremaining : state.remaining = []
    · -- nothing is left that a leg could consume
      have hnone : (state.begin host click).remaining.length = 0 := by
        obtain ⟨target, rows, hdialog, -⟩ := hclick
        unfold RunState.begin
        rw [hdialog, hremaining]
        show (state.remaining.drop _).length = 0
        rw [hremaining, drop_nil]
        rfl
      omega
    · have hlt := hclick.remaining_lt hremaining
      omega

end Runs

/-- A leg on a target that never fails, and that nothing disturbs, consumes a row if and only if it is
not hindered; in a run of such legs every row is consumed by as many of them as there are rows. No leg
comes to an oversized file whose files are what they are listed as and fit an archive of their own. -/
theorem download_all_progress {Key : Type} (host : Host Key) :
    (∀ (target : ArchiveTarget) (rows : ℕ → RowSurroundings)
        (documents : List BulkDownloadCandidate) (a : ArchivePathAllocator),
      target.NeverFails → documents ≠ [] →
      (∀ row ∈ documents.zipIdx, Undisturbed host row.1 (rows row.2)) →
      (0 < (archiveDocuments host documents target rows a).consumed ↔
        Unhindered host target rows documents a)) ∧
    (∀ (documents : List BulkDownloadCandidate) (clicks : List Click),
      AdvancingRun host (.start documents) clicks → ∃ ends,
        RunAccounts host documents (.run host documents clicks) ends ∧
        min documents.length clicks.length ≤ ends.length) ∧
    ∀ (limit : ℕ) (files : List Parcel), limit ≤ zip32MaxArchiveBytes →
      (∀ parcel ∈ files, parcel.FitsAlone) → ¬ComesToOversized limit 0 0 files := by
  refine ⟨fun target rows documents a hnever hdocuments hundisturbed => ?_,
    fun documents clicks hrun => ?_, fun limit files hlimit halone => ?_⟩
  · exact consumed_pos_iff hnever hdocuments hundisturbed a
  · obtain ⟨ends, haccounts⟩ := runAccounts_run host documents clicks
    refine ⟨ends, haccounts, ?_⟩
    have hle : (RunState.run host documents clicks).remaining.length ≤
        documents.length - clicks.length := hrun.remaining_le
    rw [haccounts.remaining, length_drop] at hle
    omega
  · exact not_comesToOversized hlimit (fun _ => rfl) halone

/-! ## A document of four gibibytes -/

/-- A cipher that only adds a tag. -/
def nullCipher : Primitives Unit where
  aead :=
    { encrypt s := s.plaintext ++ List.replicate tagBytes 0
      decrypt _ _ _ ciphertext := some (ciphertext.take (ciphertext.length - tagBytes))
      length_encrypt s := by rw [List.length_append, List.length_replicate] }
  hkdf _ _ _ := ()
  sha256 _ := Download.sampleSha256

def sampleHost : Host Unit := ⟨nullCipher, ⟨fun _ => true, fun _ => true⟩, ascii, fun _ => none⟩

/-- The plaintext of a segment as the client cuts it. -/
def sampleChunkBytes : ℕ := 8388592

def sampleChunkCount (bytes : ℕ) : ℕ := Documents.documentChunkCountFor bytes sampleChunkBytes

def sampleMeta (bytes : ℕ) : DocumentMeta :=
  { Download.sampleMeta with
    plaintextBytes := bytes
    chunkPlaintextBytes := sampleChunkBytes
    chunkCount := sampleChunkCount bytes }

def sampleTag : Bytes := List.replicate tagBytes 0

def sampleIv : Bytes := List.replicate 12 0

def sampleRow (id : Utf16) (bytes : ℕ) : DocumentResponse :=
  { Download.sampleRow with
    id
    encryptedDek := Base64.btoa Download.sampleDocument.dek
    dekIv := Base64.btoa sampleIv
    dekTag := Base64.btoa sampleTag
    encryptedMeta := Base64.btoa (sampleMeta bytes).encoded
    metaIv := Base64.btoa sampleIv
    metaTag := Base64.btoa sampleTag
    chunkPlaintextBytes := sampleChunkBytes
    chunkCount := sampleChunkCount bytes
    ciphertextBytes := bytes + Documents.documentTagBytes * sampleChunkCount bytes
    plaintextBytes := bytes }

/-- A document of so many zeros. -/
def sampleCandidate (id : Utf16) (bytes : ℕ) : BulkDownloadCandidate where
  id
  documentMeta := some (sampleMeta bytes)
  folderId := none
  purgePending := none
  row := sampleRow id bytes

def sampleSegment (bytes index : ℕ) : Bytes :=
  List.replicate (min sampleChunkBytes (bytes - index * sampleChunkBytes)) 0

/-- A server that answers with the segments of the document. -/
def sampleSurroundings (bytes : ℕ) : Download.Surroundings where
  vaultKey := some Download.sampleDocument.vaultKey
  document := none
  segment index := some (sampleSegment bytes index ++ sampleTag)
  abortedAtStart := false
  abortedBefore _ := false
  abortedIn _ := false
  writes _ := true

/-- The rows of documents of these sizes, all of them answered. -/
def sampleRows (sizes : List ℕ) (position : ℕ) : RowSurroundings :=
  ⟨false, false, fun _ =>
    ⟨sampleSurroundings (sizes.getD position 0), false, false, none, [], false, false⟩⟩

def sampleTarget : ArchiveTarget :=
  ⟨.file, units "archive.zip", zip32MaxArchiveBytes, fun _ => true, true, []⟩

theorem sampleTarget_neverFails : sampleTarget.NeverFails := ⟨fun _ => rfl, rfl⟩

theorem openFromFields_sample (bs iv : Bytes) :
    openFromFields nullCipher () (Base64.btoa bs) (Base64.btoa iv) (Base64.btoa sampleTag) =
      .ok bs := by
  have htake : (bs ++ sampleTag).take ((bs ++ sampleTag).length - tagBytes) = bs := by
    rw [length_append, sampleTag, length_replicate, Nat.add_sub_cancel, take_left]
  have hdecrypt : decrypt nullCipher () iv (bs ++ sampleTag) = .ok bs := by
    unfold decrypt nullCipher
    dsimp only
    rw [htake]
    rfl
  unfold openFromFields base64ToBytes
  rw [Base64.atob_btoa, Base64.atob_btoa, Base64.atob_btoa]
  exact hdecrypt

theorem decryptMeta_sample (id : Utf16) (bytes : ℕ) :
    decryptMeta nullCipher sampleHost.formats () (sampleRow id bytes) =
      (documentMetaSchema sampleHost.formats (sampleMeta bytes).json.written).mapError
        .metaSchema := by
  have hopen := openFromFields_sample (sampleMeta bytes).encoded sampleIv
  unfold decryptMeta
  simp only [sampleRow, hopen, bind, Except.bind, parse_encoded]

/-- A row opens where the schema accepts its metadata. -/
theorem sample_opens {id : Utf16} (hid : normalizeDocumentId id = .ok id)
    (hlower : id.map lowerDigit = id) (bytes : ℕ) {read : DocumentMeta}
    (hschema : documentMetaSchema sampleHost.formats (sampleMeta bytes).json.written = .ok read) :
    Download.openDocument nullCipher sampleHost.formats id ⟨some (sampleRow id bytes), none⟩
        (sampleSurroundings bytes) =
      .ok ⟨read, (), Download.sampleDocument.noncePrefix⟩ := by
  have hdek : unwrapDek nullCipher (sampleRow id bytes) () = .ok Download.sampleDocument.dek := by
    have hopen := openFromFields_sample Download.sampleDocument.dek sampleIv
    have hlength : assertDekLength Download.sampleDocument.dek = .ok () := by decide
    unfold unwrapDek
    simp only [sampleRow, hopen, bind, Except.bind, hlength]
    rfl
  have hmeta : decryptMeta nullCipher sampleHost.formats () (sampleRow id bytes) = .ok read := by
    rw [decryptMeta_sample, hschema]
    rfl
  have hwrapKey : ∀ vaultKey, deriveWrapKey nullCipher vaultKey id = .ok () := by
    intro vaultKey
    unfold deriveWrapKey
    rw [hid]
    rfl
  have hmetaKey : ∀ salt, deriveMetaKey nullCipher Download.sampleDocument.dek salt id = .ok () := by
    intro salt
    unfold deriveMetaKey
    rw [hid]
    rfl
  have hstreamKey : ∀ salt,
      deriveStreamKey nullCipher Download.sampleDocument.dek salt id = .ok () := by
    intro salt
    unfold deriveStreamKey
    rw [hid]
    rfl
  have hbase64 : ∀ bs, base64ToBytes Fault.invalidCharacter (Base64.btoa bs) = .ok bs := by
    intro bs
    unfold base64ToBytes
    rw [Base64.atob_btoa]
    rfl
  have hframing := documentMetaSchema_written hschema
  have hagrees : Download.disagreements (sampleRow id bytes) read = [] := by
    unfold Download.disagreements
    rw [hframing.chunkPlaintextBytes, hframing.chunkCount, hframing.plaintextBytes]
    simp [sampleRow, sampleMeta]
  have hsalt : base64ToBytes Fault.invalidCharacter (sampleRow id bytes).streamSalt =
      .ok Download.sampleDocument.streamSalt := hbase64 _
  have hstart : base64ToBytes Fault.invalidCharacter (sampleRow id bytes).noncePrefix =
      .ok Download.sampleDocument.noncePrefix := hbase64 _
  have hrowId : (sampleRow id bytes).id = id := rfl
  unfold Download.openDocument
  simp [hlower, Download.ReadDocumentOptions.vaultKey, Download.ReadDocumentOptions.rowOr, hrowId,
    hwrapKey, hdek, hsalt, hmetaKey, hmeta, hagrees, hstreamKey, hstart, sampleSurroundings, bind,
    Except.bind, pure, Except.pure]

theorem decryptSegment_sample (bytes index count : ℕ) (hindex : index ≤ maxSegmentIndex) :
    decryptSegment nullCipher () ⟨Download.sampleDocument.noncePrefix, index, index + 1 = count⟩
      (sampleSegment bytes index ++ sampleTag) = .ok (sampleSegment bytes index) := by
  have hlength : (sampleSegment bytes index ++ sampleTag).length =
      (sampleSegment bytes index).length + tagBytes := by
    rw [length_append, sampleTag, length_replicate]
  have hiv : ∃ iv, segmentIv
      ⟨Download.sampleDocument.noncePrefix, index, index + 1 = count⟩ = .ok iv := by
    unfold segmentIv
    rw [if_neg (not_not.2 (by decide : Download.sampleDocument.noncePrefix.length =
      documentNoncePrefixBytes)), if_neg]
    · exact ⟨_, rfl⟩
    · rintro (hden | hlow | hhigh)
      · exact hden (Rat.den_natCast index)
      · exact absurd hlow (not_lt.2 (Nat.cast_nonneg index))
      · exact absurd hhigh (not_lt.2 (Nat.cast_le.2 hindex))
  obtain ⟨iv, hiv⟩ := hiv
  have hdecrypt : decrypt nullCipher () iv (sampleSegment bytes index ++ sampleTag) =
      .ok (sampleSegment bytes index) := by
    unfold decrypt nullCipher
    dsimp only
    rw [hlength, Nat.add_sub_cancel, take_left]
    rfl
  have hlong : ¬(sampleSegment bytes index ++ sampleTag).length < Documents.documentTagBytes := by
    rw [hlength]
    exact Nat.not_lt.2 (Nat.le_add_left _ _)
  unfold decryptSegment
  rw [if_neg hlong, hiv]
  exact hdecrypt

variable {attempt : Attempt}

/-- A document whose metadata the schema accepts is read whole. -/
theorem sample_reads {id : Utf16} (hid : normalizeDocumentId id = .ok id)
    (hlower : id.map lowerDigit = id) {bytes : ℕ}
    (hcount : sampleChunkCount bytes ≤ maxSegmentIndex)
    (hschema : (documentMetaSchema sampleHost.formats (sampleMeta bytes).json.written).isOk)
    (hattempt : attempt.surroundings = sampleSurroundings bytes) :
    ∃ read, readOnce sampleHost (sampleCandidate id bytes) attempt =
      ⟨(range (sampleChunkCount bytes)).map (sampleSegment bytes), false, .ok read⟩ := by
  cases hread : documentMetaSchema sampleHost.formats (sampleMeta bytes).json.written with
  | error path => rw [hread] at hschema; cases hschema
  | ok read =>
    have hframing := documentMetaSchema_written hread
    have hall := Download.streamDocumentPlaintext_all (sample_opens hid hlower bytes hread)
      (sampleSegment bytes) (fun index hindex => ⟨false_ne_true, rfl, _, rfl, ?_⟩)
      hframing.sha256.symm
    · refine ⟨read, ?_⟩
      unfold readOnce
      rw [hattempt]
      refine Eq.trans hall ?_
      rw [hframing.chunkCount]
      rfl
    · refine decryptSegment_sample bytes index _ ?_
      have hlt : index < read.chunkCount := hindex
      rw [hframing.chunkCount] at hlt
      exact (Nat.le_of_lt hlt).trans hcount

theorem sizeOf_sample (bytes : ℕ) :
    sizeOf ((range (sampleChunkCount bytes)).map (sampleSegment bytes)) =
      ((range (sampleChunkCount bytes)).map fun index =>
        min sampleChunkBytes (bytes - index * sampleChunkBytes)).sum := by
  have hlength : ∀ index, (length ∘ sampleSegment bytes) index =
      min sampleChunkBytes (bytes - index * sampleChunkBytes) := by
    intro index
    rw [Function.comp_apply, sampleSegment, length_replicate]
  unfold sizeOf
  rw [map_map, map_congr_left fun index _ => hlength index]

/-- Just more than the format can take up, in 513 segments. -/
def large : BulkDownloadCandidate := sampleCandidate (List.replicate 24 0x61) 4294967296

def small : BulkDownloadCandidate := sampleCandidate (List.replicate 24 0x62) 3

theorem large_reads (hattempt : attempt.surroundings = sampleSurroundings 4294967296) :
    ∃ read, readOnce sampleHost large attempt =
      ⟨(range (sampleChunkCount 4294967296)).map (sampleSegment 4294967296), false,
        .ok read⟩ :=
  sample_reads rfl (by decide) (by decide) (by decide +kernel) hattempt

theorem small_reads (hattempt : attempt.surroundings = sampleSurroundings 3) :
    ∃ read, readOnce sampleHost small attempt =
      ⟨(range (sampleChunkCount 3)).map (sampleSegment 3), false, .ok read⟩ :=
  sample_reads rfl (by decide) (by decide) (by decide +kernel) hattempt

variable {candidate : BulkDownloadCandidate}

/-- What every attempt reads is undisturbed, and is what the read for the archive comes to. -/
theorem undisturbed_of_reads (row : RowSurroundings) {written : List Bytes}
    (haborted : ¬row.aborted) (hinterrupted : ¬row.interrupted)
    (hwaits : ∀ n, ¬(row.attempts n).abortedAfterWait ∧ ¬(row.attempts n).interruptedAfterWait)
    (hreads : ∀ n, ∃ read,
      readOnce sampleHost candidate (row.attempts n) = ⟨written, false, .ok read⟩) :
    Undisturbed sampleHost candidate row ∧ ∃ read crc_eq,
      readForArchive sampleHost candidate row.attempts =
        .read read written (checksum written) crc_eq := by
  refine ⟨⟨haborted, hinterrupted, fun n => ?_, hwaits⟩, ?_⟩
  · obtain ⟨read, hread⟩ := hreads n
    rw [hread]
    exact ⟨nofun, nofun⟩
  · obtain ⟨read, hread⟩ := hreads 0
    refine ⟨read, checksum_eq written, ?_⟩
    show attemptOutcome sampleHost candidate (row.attempts 0) _ = _
    unfold attemptOutcome
    simp only [hread]

theorem parcels_singleton {Key : Type} {host : Host Key} {rows : ℕ → RowSurroundings}
    {listed : DocumentMeta} (hwanted : candidate.wanted = some listed) (a : ArchivePathAllocator) :
    parcels host rows [candidate].zipIdx a =
      [⟨(placeIn host.unicode a listed.name candidate.folderId).1.pathBytes, listed.plaintextBytes,
        readForArchive host candidate (rows 0).attempts⟩] := by
  rw [zipIdx_singleton, parcels, hwanted]
  cases readForArchive host candidate (rows 0).attempts with
  | read documentMeta chunks crc crc_eq => rfl
  | failed reason => rfl
  | stop why detail => rfl

/-- The small document on its own is read and fits its archive. -/
theorem small_unhindered :
    (∀ row ∈ [small].zipIdx, Undisturbed sampleHost row.1 (sampleRows [3] row.2)) ∧
      Unhindered sampleHost sampleTarget (sampleRows [3]) [small] (.new []) := by
  obtain ⟨hundisturbed, read, crc_eq, hread⟩ := undisturbed_of_reads (sampleRows [3] 0)
    false_ne_true false_ne_true (fun _ => ⟨false_ne_true, false_ne_true⟩)
    fun _ => small_reads rfl
  have hpath : (placeIn ascii (.new []) (sampleMeta 3).name none).1.pathBytes = 7 := by
    decide
  have hsize : sizeOf ((range (sampleChunkCount 3)).map (sampleSegment 3)) = 3 := by
    rw [sizeOf_sample]
    decide
  have hfits : ¬Oversized 7 3 0 := by
    rintro (hpath | hbytes)
    · exact absurd hpath (by decide)
    · exact absurd hbytes (by decide)
  refine ⟨fun row hrow => ?_, fun candidate hcandidate => ?_, ?_⟩
  · obtain rfl := mem_singleton.1 hrow
    exact hundisturbed
  · cases hcandidate
    rintro ⟨-, detail, hstop⟩
    have hclash := hread.symm.trans hstop
    cases hclash
  · refine not_comesToOversized le_rfl (fun _ => rfl) fun parcel hparcel => ?_
    rw [parcels_singleton rfl, hread] at hparcel
    obtain rfl := mem_singleton.1 hparcel
    intro documentMeta chunks crc crc_eq' houtcome
    obtain ⟨-, rfl, -⟩ := ReadOutcome.read.inj houtcome
    refine ⟨hsize, ?_⟩
    have hpath : (placeIn sampleHost.unicode (.new []) (sampleMeta 3).name
        small.folderId).1.pathBytes = 7 := hpath
    rw [hpath]
    exact hfits

theorem download_all_progress_sample :
    0 < (archiveDocuments sampleHost [small] sampleTarget (sampleRows [3]) (.new [])).consumed ∧
    ∃ ends, RunAccounts sampleHost [small]
      (.run sampleHost [small] [⟨[], .opened sampleTarget (sampleRows [3])⟩]) ends ∧
      1 ≤ ends.length := by
  obtain ⟨hundisturbed, hunhindered⟩ := small_unhindered
  refine ⟨((download_all_progress sampleHost).1 sampleTarget (sampleRows [3]) [small] (.new [])
    sampleTarget_neverFails (cons_ne_nil _ _) hundisturbed).2 hunhindered, ?_⟩
  have hadvances : Advances sampleHost (.start [small])
      ⟨[], .opened sampleTarget (sampleRows [3])⟩ :=
    ⟨sampleTarget, sampleRows [3], rfl, sampleTarget_neverFails, hundisturbed, hunhindered⟩
  exact (download_all_progress sampleHost).2.1 [small] _ ⟨hadvances, trivial⟩

/-- A file that is larger than any archive is come to at once. -/
theorem comesToOversized_first {Key : Type} {host : Host Key} {rows : ℕ → RowSurroundings}
    {listed documentMeta : DocumentMeta} {chunks : List Bytes} {crc : BitVec 32}
    {crc_eq : crc = Crc32.checksum chunks.flatten} (hwanted : candidate.wanted = some listed)
    (hread : readForArchive host candidate (rows 0).attempts = .read documentMeta chunks crc crc_eq)
    (hsize : zip32MaxArchiveBytes < sizeOf chunks) (limit : ℕ) (rest : List BulkDownloadCandidate)
    (a : ArchivePathAllocator) :
    ComesToOversized limit 0 0 (parcels host rows (candidate :: rest).zipIdx a) := by
  rw [zipIdx_cons, parcels, hwanted]
  rw [ComesToOversized, hread]
  refine ⟨Or.inl rfl, Or.inl (Or.inr ?_)⟩
  unfold entryBytes
  omega

/-- A leg that comes to a document too large for the format consumes nothing, and neither does any
that continues it, though every document is read and the next one would be archived. -/
theorem download_all_stuck :
    sampleTarget.NeverFails ∧
    (∀ row ∈ [large, small].zipIdx,
      Undisturbed sampleHost row.1 (sampleRows [4294967296, 3] row.2)) ∧
    (∀ a, (archiveDocuments sampleHost [large, small] sampleTarget (sampleRows [4294967296, 3])
      a).consumed = 0) ∧
    (∀ n, (RunState.run sampleHost [large, small]
      (replicate n ⟨[], .opened sampleTarget (sampleRows [4294967296, 3])⟩)).remaining =
        [large, small]) ∧
    0 < (archiveDocuments sampleHost [small] sampleTarget (sampleRows [3]) (.new [])).consumed := by
  obtain ⟨hlarge, read, crc_eq, hread⟩ := undisturbed_of_reads
    (sampleRows [4294967296, 3] 0) false_ne_true false_ne_true
    (fun _ => ⟨false_ne_true, false_ne_true⟩) fun _ => large_reads rfl
  obtain ⟨hsmall, -⟩ := undisturbed_of_reads (sampleRows [4294967296, 3] 1)
    false_ne_true false_ne_true (fun _ => ⟨false_ne_true, false_ne_true⟩)
    fun _ => small_reads rfl
  have hundisturbed : ∀ row ∈ [large, small].zipIdx,
      Undisturbed sampleHost row.1 (sampleRows [4294967296, 3] row.2) :=
    forall_mem_cons.2 ⟨hlarge, forall_mem_singleton.2 hsmall⟩
  have hsize : zip32MaxArchiveBytes <
      sizeOf ((range (sampleChunkCount 4294967296)).map (sampleSegment 4294967296)) := by
    rw [sizeOf_sample]
    decide +kernel
  have hnone : ∀ a, (archiveDocuments sampleHost [large, small] sampleTarget
      (sampleRows [4294967296, 3]) a).consumed = 0 := by
    intro a
    refine Nat.eq_zero_of_not_pos fun hpos => ?_
    have hunhindered := (consumed_pos_iff sampleTarget_neverFails (cons_ne_nil _ _) hundisturbed
      a).1 hpos
    exact hunhindered.2 (comesToOversized_first rfl hread hsize _ _ _)
  refine ⟨sampleTarget_neverFails, hundisturbed, hnone, fun n => ?_, ?_⟩
  · have hstuck : ∀ (n : ℕ) (state : RunState), state.remaining = [large, small] →
        ((replicate n ⟨[], .opened sampleTarget (sampleRows [4294967296, 3])⟩).foldl
          (RunState.begin sampleHost) state).remaining = [large, small] := by
      intro n
      induction n with
      | zero => exact fun state hstate => hstate
      | succ n ih =>
        intro state hstate
        rw [replicate_succ, foldl_cons]
        refine ih _ ?_
        show state.remaining.drop (archiveDocuments sampleHost state.remaining _ _ _).consumed = _
        rw [hstate, hnone, drop_zero]
    exact hstuck n _ rfl
  · exact (consumed_pos_iff sampleTarget_neverFails (cons_ne_nil _ _) small_unhindered.1 _).2
      small_unhindered.2

end HVault.DownloadAll
