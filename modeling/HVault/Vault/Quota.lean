import Mathlib.Data.Finset.Sort
import HVault.Vault.Store

/-!
# The byte quota and the row caps

`User.vaultBytes` counts the bytes an account's rows occupy and `User.counters` the rows
themselves. Every operation that writes a counted row reserves its growth with one
conditional update, writes its rows (a write to an existing row pinned on the image it was
measured from), and settles the exact difference. This module has those operations as the
source orders their statements:

* `reserveVaultWrite`, `settleVaultWrite`, `releaseVaultWrite`, and the inline install;
* `updateCountedRow`, `createCountedRow`, `deleteCountedRow`, `withdrawCountedRow`,
  `deleteCountedItems`, and the two handlers that delete, `permanentDelete` and `emptyTrash`;
* `recountVaultQuotas`, the hourly correction, for one account.
-/

namespace HVault

open Interleave

variable {K : Type}

/-! ## Totals -/

/-- What one stored row adds to each counter. -/
def rowWeight (key : RowKey) (row : Row K) : Counts
  | .vaultBytes => countedBytes key.kind row
  | .items => if key.kind = .item then 1 else 0
  | .folders => if key.kind = .folder then 1 else 0

/-- The counted bytes and the number of the stored rows of each kind. -/
def storedTotals (rows : Table K) : Counts := rows.tally rowWeight

/-- One aggregate of `storedVaultTotals`: the counted bytes and the rows of one collection. -/
def kindTotals (kind : Kind) (rows : Table K) : ℤ × ℤ :=
  rows.tally fun key row => if key.kind = kind then ((countedBytes kind row : ℤ), (1 : ℤ)) else 0

/-- The totals two aggregates make. -/
def totalsOf (items folders : ℤ × ℤ) : Counts
  | .vaultBytes => items.1 + folders.1
  | .items => items.2
  | .folders => folders.2

/-- The counted bytes and the number of every row, one aggregate per collection. -/
def storedVaultTotals : Req K Counts := do
  let items ← .read (.measureTotals .item) fun s => kindTotals .item s.rows
  let folders ← .read (.measureTotals .folder) fun s => kindTotals .folder s.rows
  pure (totalsOf items folders)

/-! ## Installing the counters -/

/-- The counters with every missing one taken from `totals`: an install never overwrites. -/
def keepCounters (totals : Counts) (counters : CounterPath → Option ℤ) :
    CounterPath → Option ℤ := fun p => some ((counters p).getD (totals p))

/-- Installs whichever counter is missing, in one compare-and-set. -/
def installStatement (totals : Counts) (s : Store K) : Bool × Store K :=
  s.updateUser (fun u => decide (∃ p, u.counters p = none)) fun u =>
    { u with
      counters := keepCounters totals u.counters
      quotaRecountedAt := some s.clock
      vaultBytesWrittenAt := some s.clock
      quotaEpoch := some (u.quotaEpoch.getD 0 + 1) }

/-- Installs the missing counters with the database's own totals. -/
def installVaultCounters : Req K Unit := do
  let totals ← storedVaultTotals
  let _ ← .db .installCounters (installStatement totals)
  pure ()

/-! ## Reserving -/

/-- Rows of each kind and bytes a reservation names. -/
abbrev Reservation := CounterPath → ℕ

/-- The per-account cap of each row counter, and the quota for the bytes. -/
def ceiling (quota : ℤ) : CounterPath → ℤ
  | .vaultBytes => quota
  | .items => 10000
  | .folders => 500

/-- The filter on one counter: installed, and with room for `amount` below `ceiling` when it
grows. -/
def counterRoom (amount : ℕ) (ceiling : ℤ) : Option ℤ → Bool
  | none => false
  | some stored => amount = 0 || decide (stored ≤ ceiling - amount)

/-- Adds `delta` to the installed counters and marks the account busy. -/
def User.addCounts (delta : Counts) (now : ℕ) (u : User) : User :=
  { u with
    counters := fun p => (u.counters p).map (· + delta p)
    quotaEpoch := some (u.quotaEpoch.getD 0 + 1)
    vaultBytesWrittenAt := some now }

/-- The conditional update of a reservation: the bytes and both caps decided together. -/
def reserveStatement (quota : ℤ) (want : Reservation) (s : Store K) : Bool × Store K :=
  s.updateUser (fun u => decide (∀ p, counterRoom (want p) (ceiling quota p) (u.counters p)))
    (User.addCounts (fun p => want p) s.clock)

/-- All three counters, when all are installed. -/
def installed? (counters : CounterPath → Option ℤ) : Option Counts :=
  match counters .vaultBytes, counters .items, counters .folders with
  | some bytes, some items, some folders =>
    some fun
      | .vaultBytes => bytes
      | .items => items
      | .folders => folders
  | _, _, _ => none

/-- The refusal of a growing reservation the counters have no room for: a row cap first. -/
def refusalOf (quota : ℤ) (want : Reservation) (stored : Counts) : Option VaultError :=
  if 0 < want .items ∧ ceiling quota .items < stored .items + want .items then
    some (.rowLimit .item (stored .items))
  else if 0 < want .folders ∧ ceiling quota .folders < stored .folders + want .folders then
    some (.rowLimit .folder (stored .folders))
  else if 0 < want .vaultBytes ∧ ceiling quota .vaultBytes < stored .vaultBytes + want .vaultBytes
    then some .quotaExceeded
  else none

/-- The refusal kept for the case that every attempt misses: the first thing that grows. -/
def lastRefusalOf (want : Reservation) (stored : Counts) : Option VaultError :=
  if 0 < want .items then some (.rowLimit .item (stored .items))
  else if 0 < want .folders then some (.rowLimit .folder (stored .folders))
  else if 0 < want .vaultBytes then some .quotaExceeded
  else none

/-- The attempts of a reservation that are left, with the refusal kept so far. -/
def reserveAttempts (quota : ℤ) (want : Reservation) :
    ℕ → Option VaultError → Req K Reservation
  | 0, last => .raise (last.getD .counterUntouched)
  | n + 1, last => do
    let matched ← .db .reserve (reserveStatement quota want)
    if matched then pure want
    else do
      let stored ← .read .readCounters fun s => s.user.map (·.counters)
      match stored with
      | none => .raise .userNotFound
      | some counters =>
        match installed? counters with
        | none => do
          installVaultCounters
          reserveAttempts quota want n last
        | some stored =>
          match refusalOf quota want stored with
          | some refusal => .raise refusal
          | none => reserveAttempts quota want n (lastRefusalOf want stored)

/-- Attempts a reservation makes before deciding: an install, and an install race. -/
def reserveAttemptCount : ℕ := 3

/-- Reserves growth for the account before the operation writes its first row. -/
def reserveVaultWrite (quota : ℤ) (want : Reservation) : Req K Reservation :=
  reserveAttempts quota want reserveAttemptCount none

/-- A reservation of bytes alone. -/
def bytesOnly (bytes : ℕ) : Reservation
  | .vaultBytes => bytes
  | .items => 0
  | .folders => 0

/-- A reservation of one row of `kind` and its bytes. -/
def oneRowOf (kind : Kind) (bytes : ℕ) : Reservation
  | .vaultBytes => bytes
  | .items => if kind = .item then 1 else 0
  | .folders => if kind = .folder then 1 else 0

/-! ## Settling -/

/-- Adds `delta` to the counters it moves, provided all of these are installed. -/
def addCountsStatement (delta : Counts) (s : Store K) : Bool × Store K :=
  s.updateUser (fun u => decide (∀ p, delta p ≠ 0 → (u.counters p).isSome))
    (User.addCounts delta s.clock)

/-- Adds `delta` to installed counters; a zero delta writes nothing. -/
def addVaultCounts (delta : Counts) : Req K Bool :=
  if ∀ p, delta p = 0 then pure true else .db .settle (addCountsStatement delta)

/-- Applies what the operation actually wrote, less what it reserved. A failure is logged
and never fails the operation it closes. -/
def settleVaultWrite (reservation : Reservation) (actual : Counts) : Req K Unit := do
  let _ ← (addVaultCounts fun p => actual p - reservation p).attempt
  pure ()

/-- Hands a reservation back whole: the operation wrote nothing. -/
def releaseVaultWrite (reservation : Reservation) : Req K Unit :=
  settleVaultWrite reservation fun _ => 0

/-- Releases `reservation` when `error` is a definite failure, then rethrows it. -/
def releaseOnDefiniteFailure {α : Type} (reservation : Reservation) (error : VaultError) :
    Req K α :=
  if isDefiniteWriteFailure error then do
    releaseVaultWrite reservation
    .raise error
  else .raise error

/-- A change in bytes alone. -/
def bytesDelta (bytes : ℤ) : Counts
  | .vaultBytes => bytes
  | .items => 0
  | .folders => 0

/-! ## The counted operations -/

/-- How often a pinned update re-reads and retries a row another request changed. -/
def pinnedUpdateAttempts : ℕ := 3

/-- What a pinned update reserves: its predicted growth, never less than zero. -/
def predictedGrowth (kind : Kind) (measure : RowMeasure) (update : CountedUpdate K) : ℕ :=
  (deltaOfPinnedUpdate kind measure update).toNat

/-- The attempts of a pinned update that are left; `first` is the image measured first. -/
def updateAttempts (quota : ℤ) (key : RowKey) (update : CountedUpdate K)
    (beforeWrite : Req K Unit) : ℕ → Option RowMeasure → Req K (Option (Row K))
  | 0, _ => .raise .rowChanged
  | n + 1, first => do
    let measured ← .read .measureRow fun s =>
      (s.rows.lookup key).map fun row => measureImage key.kind row update
    match measured with
    | none => pure none
    | some measure =>
      if sameIncarnation measure (first.getD measure) then do
        beforeWrite
        let reservation ← reserveVaultWrite quota
          (bytesOnly (predictedGrowth key.kind measure update))
        let after ← (Prog.db .writeRow fun s => s.updateRow key
          (fun row => decide (versionPin measure row)) fun now row => row.written update now).attempt
        match after with
        | .error error => releaseOnDefiniteFailure reservation error
        | .ok none => do
          releaseVaultWrite reservation
          updateAttempts quota key update beforeWrite n (some (first.getD measure))
        | .ok (some row) => do
          settleVaultWrite reservation (bytesDelta (countedBytes key.kind row - measure.counted))
          pure (some row)
      else pure none

/-- Updates one existing counted row and keeps the counter exact. An update that writes no
counted field is applied as it is: no accounting, no pin, no `__v` bump. -/
def updateCountedRow (quota : ℤ) (key : RowKey) (update : CountedUpdate K)
    (beforeWrite : Req K Unit) : Req K (Option (Row K)) :=
  if writesCountedField key.kind update then
    updateAttempts quota key update beforeWrite pinnedUpdateAttempts none
  else .db .placeRow fun s =>
    s.updateRow key (fun _ => true) fun now row => row.placed update now

/-- Creates one counted row: reserves its predicted size and its place under the cap, saves
it, settles the size of what was stored. -/
def createCountedRow (quota : ℤ) (key : RowKey) (fields : Field → Option Bson)
    (sealedUnder : K) : Req K (Row K) := do
  let reservation ← reserveVaultWrite quota
    (oneRowOf key.kind (countedBytesOfNew key.kind fields))
  let created ← (Prog.db .insertRow fun s => s.insertRow key fields sealedUnder).attempt
  match created with
  | .error error => releaseOnDefiniteFailure reservation error
  | .ok none => releaseOnDefiniteFailure reservation .duplicateId
  | .ok (some row) => do
    settleVaultWrite reservation fun p => oneRowOf key.kind (countedBytes key.kind row) p
    pure row

/-- Deletes one counted row that matches `filter` and returns it. -/
def deleteCountedRow (key : RowKey) (filter : Row K → Bool) : Req K (Option (Row K)) :=
  .db .deleteRow fun s => s.deleteRow key filter

/-- Takes back one row this request has just created, named by its id and its creation. For
an account that is gone or being erased it only deletes. -/
def withdrawCountedRow (quota : ℤ) (key : RowKey) (createdAt : Option ℕ)
    (accountLive : Bool) : Req K Bool :=
  let filter := fun row : Row K => decide (row.createdAt = createdAt)
  if accountLive then do
    let reservation ← reserveVaultWrite quota (bytesOnly 0)
    let gone ← deleteCountedRow key filter
    match gone with
    | some row => do
      settleVaultWrite reservation fun p => -rowWeight key row p
      pure true
    | none => do
      releaseVaultWrite reservation
      pure false
  else do
    let gone ← deleteCountedRow key filter
    pure gone.isSome

/-- Whether a row is in the trash: its `deletedAt` is there and not null. -/
def Row.trashed (row : Row K) : Bool :=
  match row.fields .deletedAt with
  | none => false
  | some .null => false
  | some _ => true

/-- Whether a row was trashed no later than `time`. -/
def Row.trashedBy (time : ℤ) (row : Row K) : Bool :=
  match row.fields .deletedAt with
  | some (.date ms) => decide (ms ≤ time)
  | _ => false

/-- Permanently deletes one item from the trash. -/
def permanentDelete (quota : ℤ) (id : ℕ) : Req K Unit := do
  let reservation ← reserveVaultWrite quota (bytesOnly 0)
  let gone ← deleteCountedRow ⟨.item, id⟩ Row.trashed
  match gone with
  | some row => settleVaultWrite reservation fun p => -rowWeight ⟨.item, id⟩ row p
  | none => .raise .notInTrash

/-- Candidate ids one round of `deleteCountedItems` reads. -/
def countedDeleteBatch : ℕ := 500

/-- The next candidates: the matching items past `after`, by id, at most a batch of them. -/
def nextBatch (filter : Row K → Bool) (ids : Option (Finset ℕ)) (after : Option ℕ)
    (rows : Table K) : List ℕ :=
  let matching := rows.keys.filter fun key => key.kind = .item ∧
    ((rows.lookup key).any filter) ∧ (∀ s ∈ ids, key.id ∈ s) ∧ (∀ a ∈ after, a < key.id)
  ((matching.image (·.id)).sort (· ≤ ·)).take countedDeleteBatch

/-- Deletes the candidates row by row, adding to `tally` what each call removed. An access
that fails ends the walk; the tally so far is kept. -/
def deleteBatch (filter : Row K → Bool) :
    List ℕ → Counts → Req K (Counts × Option VaultError)
  | [], tally => pure (tally, none)
  | id :: rest, tally => do
    let gone ← (deleteCountedRow ⟨.item, id⟩ filter).attempt
    match gone with
    | .error error => pure (tally, some error)
    | .ok none => deleteBatch filter rest tally
    | .ok (some row) => deleteBatch filter rest fun p => tally p + rowWeight ⟨.item, id⟩ row p

/-- Deletes the matching items batch by batch. `rounds` bounds the walk: a walk that has used
them up ends as one whose next read failed. -/
def deleteCountedItems (filter : Row K → Bool) (ids : Option (Finset ℕ)) :
    ℕ → Option ℕ → Counts → Req K (Counts × Option VaultError)
  | 0, _, tally => pure (tally, some (.database false))
  | n + 1, after, tally => do
    let batch ← (Prog.read .findRows fun s => nextBatch filter ids after s.rows).attempt
    match batch with
    | .error error => pure (tally, some error)
    | .ok batch => do
      let walked ← deleteBatch filter batch tally
      match walked with
      | (tally, some error) => pure (tally, some error)
      | (tally, none) =>
        if batch.length < countedDeleteBatch then pure (tally, none)
        else deleteCountedItems filter ids n batch.getLast? tally

/-- Permanently deletes every item trashed before the request started. A failure part-way
still settles the rows it removed. -/
def emptyTrash (quota : ℤ) (startTime : ℤ) (rounds : ℕ) : Req K Unit := do
  let reservation ← reserveVaultWrite quota (bytesOnly 0)
  let purged ← deleteCountedItems (Row.trashedBy startTime) none rounds none 0
  settleVaultWrite reservation fun p => -purged.1 p
  match purged.2 with
  | some error => .raise error
  | none => pure ()

/-! ## The recount -/

/-- What the recount reads of an account it may take: one that is not being erased and has
been quiet since `quietSince`. -/
def recountCandidate (quietSince : ℕ) (s : Store K) : Option (Option ℕ × Option ℕ) :=
  s.user.bind fun u =>
    if !u.deletionPending && (u.vaultBytesWrittenAt.all fun t => decide (t < quietSince)) then
      some (u.quotaEpoch, u.vaultBytesWrittenAt)
    else none

/-- Writes the measured totals, provided no counted write has begun since the account was
read. -/
def recountStatement (epoch writtenAt : Option ℕ) (totals : Counts) (s : Store K) :
    Bool × Store K :=
  s.updateUser (fun u => decide (u.quotaEpoch = epoch) && decide (u.vaultBytesWrittenAt = writtenAt))
    fun u => { u with
      counters := fun p => some (totals p)
      quotaRecountedAt := some s.clock
      quotaEpoch := some (u.quotaEpoch.getD 0 + 1) }

/-- The recount of one account; says whether it wrote. -/
def recountVaultQuotas (quietSince : ℕ) : Req K Bool := do
  let candidate ← .read .recountRead (recountCandidate quietSince)
  match candidate with
  | none => pure false
  | some (epoch, writtenAt) =>
    Prog.orElse
      (do
        let totals ← storedVaultTotals
        .db .recountWrite (recountStatement epoch writtenAt totals))
      fun _ => do
        let _ ← (Prog.db .recountDefer fun s =>
          s.updateUser (fun _ => true) fun u =>
            { u with quotaRecountedAt := some s.clock }).attempt
        pure false

end HVault
