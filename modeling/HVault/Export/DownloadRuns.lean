import HVault.Export.DownloadAll

/-!
# Continuing a download

A run is a series of clicks, each of which opens a target for one more archive and continues with the
rows that the legs before have not consumed (`begin`). Its summary adds up what the legs report.

* `download_all_accounts`: whatever the legs meet with, every row has been consumed once, or is left;
* `download_all_progress`: what it takes for each leg to consume a row.
-/

namespace HVault.DownloadAll

open Json Backup DocumentCrypto Archive Zip List Option

/-! ## Runs -/

/-- Everything one run has done, across every archive its continuations added. -/
structure RunSummary where
  total : ℕ
  savedCount : ℕ
  failures : List DocumentDownloadFailure
  stopped : DocumentDownloadStop
  stoppedDetail : Option Utf16
  archives : List (Utf16 × TargetKind)
  latestSaved : Bool
  allocator : ArchivePathAllocator

/-- Where a run is: what it has done, if anything was begun, what it has not settled yet, and the
archives that have been saved. -/
structure RunState where
  summary : Option RunSummary
  remaining : List BulkDownloadCandidate
  saved : List Bytes

/-- What becomes of the save dialog: it is dismissed, or the page is left while it is open; it is
refused; or a target is opened, and this is what its leg meets with. -/
inductive Dialog where
  | dismissed
  | refused (message : Utf16)
  | opened (target : ArchiveTarget) (rows : ℕ → RowSurroundings)

/-- A click that starts or continues a run; the first leg names its paths against the folders. -/
structure Click where
  folders : List DecryptedFolder
  dialog : Dialog

/-- One leg's result folded into the run so far. -/
def merge (carried : Option RunSummary) (outcome : Outcome) : RunSummary where
  total := carried.elim outcome.result.total RunSummary.total
  savedCount := carried.elim 0 RunSummary.savedCount + outcome.result.savedCount
  failures := carried.elim [] RunSummary.failures ++ outcome.result.failures
  stopped := outcome.result.stopped
  stoppedDetail := outcome.result.stoppedDetail
  archives := carried.elim [] RunSummary.archives ++ outcome.result.archive.toList
  latestSaved := outcome.result.archive.isSome
  allocator := outcome.allocator

namespace RunState

def start (documents : List BulkDownloadCandidate) : RunState := ⟨none, documents, []⟩

def savedCount (state : RunState) : ℕ := state.summary.elim 0 RunSummary.savedCount

def failures (state : RunState) : List DocumentDownloadFailure :=
  state.summary.elim [] RunSummary.failures

def archives (state : RunState) : List (Utf16 × TargetKind) :=
  state.summary.elim [] RunSummary.archives

/-- The names of a run are those of its first leg's allocator. -/
def allocator (state : RunState) (folders : List DecryptedFolder) : ArchivePathAllocator :=
  state.summary.elim (.new folders) RunSummary.allocator

def settle (state : RunState) (outcome : Outcome) : RunState where
  summary := some (merge state.summary outcome)
  remaining :=
    state.remaining.drop (outcome.result.savedCount + outcome.result.failures.length)
  saved := state.saved ++ outcome.saved.toList

section Begin

variable {Key : Type} (host : Host Key)

/-- One leg over what remains. -/
def begin (state : RunState) (click : Click) : RunState :=
  let allocator := state.allocator click.folders
  match click.dialog with
  | .dismissed => state
  | .refused message =>
    state.settle ⟨⟨state.remaining.length, 0, [], .saveFailed, some message, none⟩, allocator, none⟩
  | .opened target rows =>
    state.settle (archiveDocuments host state.remaining target rows allocator)

def run (documents : List BulkDownloadCandidate) (clicks : List Click) : RunState :=
  clicks.foldl (begin host) (start documents)

end Begin

end RunState

/-! ## What a run accounts for -/

section Accounting

variable {Key : Type} (host : Host Key)

/-- What a run says of the rows it was given: the first of them were consumed, each in a leg of its
own surroundings, and the others remain; what the summary counts and what the archives hold, one
after the other, are these ends. -/
structure RunAccounts (documents : List BulkDownloadCandidate) (state : RunState)
    (ends : List RowEnd) : Prop where
  settled : List.Forall₂ (fun candidate e => ∃ row, Settles host candidate row e)
    (documents.take ends.length) ends
  remaining : state.remaining = documents.drop ends.length
  savedCount : state.savedCount = (archivedOf ends).length
  failures : state.failures = failuresOf ends
  total : state.summary.elim documents.length RunSummary.total = documents.length
  begun : state.summary = none → ends = []
  saved : ∃ parts : List (List ZipFileEntry), parts.flatten = archivedOf ends ∧ [] ∉ parts ∧
    state.saved.map readZip = parts.map fun part => some (part.map ZipFileEntry.member)
  archives : state.archives.length = state.saved.length

variable {host} {documents : List BulkDownloadCandidate} {state : RunState} {ends : List RowEnd}

theorem runAccounts_start (documents : List BulkDownloadCandidate) :
    RunAccounts host documents (.start documents) [] where
  settled := .nil
  remaining := rfl
  savedCount := rfl
  failures := rfl
  total := rfl
  begun := fun _ => rfl
  saved := ⟨[], rfl, nofun, rfl⟩
  archives := rfl

theorem RunAccounts.length_le (h : RunAccounts host documents state ends) :
    ends.length ≤ documents.length := by
  have hlength := h.settled.length_eq
  rw [length_take] at hlength
  omega

/-- A leg over what remains adds its ends to those of the run. -/
theorem RunAccounts.settle (h : RunAccounts host documents state ends) {outcome : Outcome}
    {more : List RowEnd} (hleg : Reports state.remaining outcome more)
    (hsettled : List.Forall₂ (fun candidate e => ∃ row, Settles host candidate row e)
      (state.remaining.take more.length) more)
    (harchive : outcome.result.archive.isSome = outcome.saved.isSome) :
    RunAccounts host documents (state.settle outcome) (ends ++ more) := by
  refine ⟨?_, ?_, ?_, ?_, ?_, nofun, ?_, ?_⟩
  · rw [length_append, take_add, ← h.remaining]
    exact rel_append h.settled hsettled
  · show state.remaining.drop _ = _
    rw [hleg.consumed, h.remaining, drop_drop, length_append]
  · show state.savedCount + _ = _
    rw [h.savedCount, hleg.savedCount, archivedOf_append, length_append]
  · show state.failures ++ _ = _
    rw [h.failures, hleg.failures, failuresOf_append]
  · show state.summary.elim outcome.result.total RunSummary.total = documents.length
    have htotal := h.total
    cases hcarried : state.summary with
    | some carried =>
      rw [hcarried] at htotal
      exact htotal
    | none =>
      show outcome.result.total = documents.length
      rw [hleg.total, h.remaining, h.begun hcarried]
      rfl
  · obtain ⟨parts, hflatten, hnil, hread⟩ := h.saved
    show ∃ parts : List (List ZipFileEntry), parts.flatten = _ ∧ [] ∉ parts ∧
      (state.saved ++ outcome.saved.toList).map readZip = _
    rw [archivedOf_append]
    rcases hleg.saved with ⟨hempty, hnone⟩ | ⟨hne, bytes, hsome, hbytes⟩
    · refine ⟨parts, ?_, hnil, ?_⟩
      · rw [hempty, hflatten, append_nil]
      · rw [hnone, toList_none, append_nil, hread]
    · refine ⟨parts ++ [archivedOf more], ?_, ?_, ?_⟩
      · rw [flatten_append, hflatten, flatten_singleton]
      · rw [mem_append, mem_singleton]
        exact not_or.2 ⟨hnil, hne.symm⟩
      · rw [hsome, toList_some, map_append, map_append, hread, map_singleton,
          map_singleton, hbytes]
  · show (state.archives ++ _).length = (state.saved ++ _).length
    rw [length_append, length_append, h.archives, length_toList,
      length_toList, harchive]

/-- A leg that consumed these rows adds them to the run. -/
theorem RunAccounts.leg (h : RunAccounts host documents state ends) {target : ArchiveTarget}
    {rows : ℕ → RowSurroundings} {outcome : Outcome} {more : List RowEnd}
    (hleg : Accounts host state.remaining target rows outcome more) :
    RunAccounts host documents (state.settle outcome) (ends ++ more) := by
  have hfst : state.remaining.take more.length =
      (state.remaining.zipIdx.take more.length).map (·.1) := by
    rw [map_take, zipIdx_map_fst]
  refine h.settle hleg.toReports ?_ (by rw [hleg.archive, isSome_map])
  rw [hfst, forall₂_map_left_iff]
  exact hleg.settled.imp fun row e hend => ⟨rows row.2, hend⟩

/-- A click adds its ends to those of the run. -/
theorem RunAccounts.begin (h : RunAccounts host documents state ends) (click : Click) :
    ∃ more, RunAccounts host documents (state.begin host click) (ends ++ more) := by
  unfold RunState.begin
  cases click.dialog with
  | dismissed => exact ⟨[], by rwa [append_nil]⟩
  | refused message =>
    exact ⟨[], h.settle ⟨rfl, rfl, rfl, Or.inl ⟨rfl, rfl⟩⟩ .nil rfl⟩
  | opened target rows =>
    obtain ⟨more, hleg⟩ := archiveDocuments_accounts host state.remaining target rows
      (state.allocator click.folders)
    exact ⟨more, h.leg hleg⟩

theorem runAccounts_run (host : Host Key) (documents : List BulkDownloadCandidate) (clicks : List Click) :
    ∃ ends, RunAccounts host documents (.run host documents clicks) ends := by
  have hclicks : ∀ (clicks : List Click) (state : RunState) (ends : List RowEnd),
      RunAccounts host documents state ends →
        ∃ ends', RunAccounts host documents (clicks.foldl (RunState.begin host) state) ends' := by
    intro clicks
    induction clicks with
    | nil => exact fun state ends h => ⟨ends, h⟩
    | cons click clicks ih =>
      intro state ends h
      obtain ⟨more, hmore⟩ := h.begin click
      exact ih _ _ hmore
  exact hclicks clicks _ _ (runAccounts_start documents)

end Accounting

/-- At every end of a leg, the rows that it consumed are as many as it counts, the archive holds the
documents among them that were read and verified, and a leg that could not be saved counts nothing;
so in a run every row is consumed once, or remains. -/
theorem download_all_accounts {Key : Type} (host : Host Key) :
    (∀ (documents : List BulkDownloadCandidate) (target : ArchiveTarget)
        (rows : ℕ → RowSurroundings) (a : ArchivePathAllocator), ∃ ends,
      Accounts host documents target rows (archiveDocuments host documents target rows a) ends ∧
      ((archiveDocuments host documents target rows a).result.stopped = .saveFailed → ends = []) ∧
      (archiveDocuments host documents target rows a).result.savedCount +
        (archiveDocuments host documents target rows a).result.failures.length = ends.length) ∧
    ∀ (documents : List BulkDownloadCandidate) (clicks : List Click), ∃ ends,
      RunAccounts host documents (.run host documents clicks) ends ∧
      (RunState.run host documents clicks).savedCount +
        (RunState.run host documents clicks).failures.length = ends.length ∧
      ends.length ≤ documents.length := by
  refine ⟨fun documents target rows a => ?_, fun documents clicks => ?_⟩
  · obtain ⟨ends, hleg⟩ := archiveDocuments_accounts host documents target rows a
    exact ⟨ends, hleg, hleg.unsaved, hleg.consumed⟩
  · obtain ⟨ends, hrun⟩ := runAccounts_run host documents clicks
    refine ⟨ends, hrun, ?_, hrun.length_le⟩
    rw [hrun.savedCount, hrun.failures, ← length_ends]

end HVault.DownloadAll
