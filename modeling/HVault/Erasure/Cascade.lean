import Mathlib.Data.Int.Notation
import Mathlib.Data.Nat.Notation
import HVault.Interleave.Prog

/-!
# The erasure of an account

An account is erased by `cascadeDeleteUser`: the rows of the account go collection by collection, in
batches, then in one sweep of what was written meanwhile, and the account's own row goes last. Three
callers start it (the owner, the job that finishes interrupted erasures, the reaper of accounts that
were never verified), and any number of runs may overlap.

The store holds one account, the rows of every account, and the records of this account's erasure.
Stored objects and mails are left out.
-/

namespace HVault.Erasure

open Interleave

/-! ## The store -/

/-- The collections whose rows belong to an account. -/
inductive Collection where
  | auditLog
  | vaultItem
  | folder
  | document
  | documentUpload
  | refreshToken
  | backupLog
  | deviceProof
  | invitation
  | challenge
  | trustedDevice
  deriving DecidableEq, Repr

/-- A row of a collection. `email` is the address an invitation names. -/
structure Row where
  id : ℕ
  collection : Collection
  userId : Option String
  email : Option String
  deriving DecidableEq, Repr

structure User where
  email : String
  /-- A row stored before the field existed has none. -/
  emailVerified : Option Bool
  deletionPending : Bool
  createdAt : ℤ
  deriving DecidableEq, Repr

inductive AuditAction where
  | accountDelete
  | deletionCleanup
  | unverifiedAccountReaped
  deriving DecidableEq, Repr

/-- The system row that outlives the account. -/
structure DeletionRecord where
  action : AuditAction
  deletedUserId : String
  maskedEmail : String
  deriving DecidableEq, Repr

/-- A delete of the last sweep: what the account owns in a collection, or the invitations that name
its address. -/
inductive Sweep where
  | owned (c : Collection)
  | naming (email : String)
  deriving DecidableEq, Repr

/-- What a statement did, as the proofs remember it. `run` is the request that made it. -/
inductive Event where
  | verify (landed : Bool)
  | claim (run : ℕ) (landed : Bool)
  | mark (run : ℕ) (landed : Bool)
  /-- The first write of a cascade; `turned` if the flag was not up yet. -/
  | pend (run : ℕ) (turned : Bool)
  | batch (run : ℕ) (c : Collection)
  /-- `found` are the rows stored when the statement ran. -/
  | sweep (run : ℕ) (sw : Sweep) (found : List Row)
  | remove (run : ℕ) (user : User)
  deriving DecidableEq

/-- What no program reads: the statements so far (latest first), the rows written and deleted. -/
structure History where
  log : List Event
  written : ℕ
  deleted : ℕ

structure Store where
  user : Option User
  rows : List Row
  /-- Where fresh row ids are taken from. -/
  nextId : ℕ
  records : List DeletionRecord
  history : History

/-- The statements of the requests. -/
inductive Site where
  | readUser
  | verify
  | audit
  | mark
  | readMarked
  | readPage
  | readOwned (c : Collection)
  | claim
  | readPending
  | pend
  | readBatch (c : Collection)
  | deleteBatch (c : Collection)
  /-- The model's loop has run out of fuel. -/
  | exhausted (c : Collection)
  | sweep (sw : Sweep)
  | remove
  | record
  | startSession
  | transaction
  | endSession
  | reassert
  | write
  | drop
  deriving DecidableEq

inductive ErasureError where
  | tokenInvalid
  | userNotFound
  | passwordRefused
  | codeRefused
  | alreadyInProgress
  | partiallyFailed
  | noProgress (c : Collection)
  | exhausted
  | unavailable
  deriving DecidableEq

abbrev Req := Prog Store Site ErasureError

/-- What the requests of one deployment share. -/
structure Deployment where
  /-- The account all of this is about. -/
  userId : String
  supportsTransactions : Bool
  unverifiedAccountTtlDays : ℤ
  generateStateHash : String → String
  /-- `trim().toLowerCase()`, as addresses are stored. -/
  canonicalEmail : String → String

/-! ## Statements -/

def Store.note (e : Event) (s : Store) : Store :=
  { s with history := { s.history with log := e :: s.history.log } }

/-- A conditional update of the account; answers with the row it matched. -/
def Store.updateUser (filter : User → Bool) (update : User → User) (event : Bool → Event)
    (s : Store) : Option User × Store :=
  match s.user.filter filter with
  | some u => (some u, { s with user := some (update u) }.note (event true))
  | none => (none, s.note (event false))

/-- Deletes the rows in `p`; answers with how many there were. -/
def Store.deleteMany (p : Row → Bool) (s : Store) : ℕ × Store :=
  (s.rows.countP p,
    { s with
      rows := s.rows.filter fun r => !p r
      history := { s.history with deleted := s.history.deleted + s.rows.countP p } })

/-- Inserts a row under a fresh id. -/
def Store.insert (collection : Collection) (userId email : Option String) (s : Store) : Store :=
  { s with
    rows := s.rows ++ [⟨s.nextId, collection, userId, email⟩]
    nextId := s.nextId + 1
    history := { s.history with written := s.history.written + 1 } }

/-- Sets `deletionPending`, whoever has set it before. -/
def Store.pend (run : ℕ) (s : Store) : Store :=
  let marked : Store := { s with user := s.user.map fun u => { u with deletionPending := true } }
  marked.note (.pend run (s.user.any fun u => !u.deletionPending))

/-- `findByIdAndDelete`. -/
def Store.remove (run : ℕ) (s : Store) : Bool × Store :=
  match s.user with
  | some u => (true, { s with user := none }.note (.remove run u))
  | none => (false, s)

def Row.ownedBy (userId : String) (c : Collection) (r : Row) : Bool :=
  r.collection = c && r.userId = some userId

def Sweep.matches (userId : String) : Sweep → Row → Bool
  | .owned c, r => r.ownedBy userId c
  | .naming email, r => r.collection = .invitation && r.email = some email

def Store.sweep (userId : String) (run : ℕ) (sw : Sweep) (s : Store) : Store :=
  (s.deleteMany (sw.matches userId)).2.note (.sweep run sw s.rows)

/-! ## The cascade -/

def cascadeBatchSize : ℕ := 1000

/-- The collections that are erased in batches, in this order. -/
def batchedTenantModels : List Collection :=
  [.auditLog, .vaultItem, .folder, .document, .documentUpload, .refreshToken, .backupLog,
    .deviceProof, .invitation, .challenge]

/-- The ids of the next batch. -/
def Store.batch (userId : String) (c : Collection) (s : Store) : List ℕ :=
  ((s.rows.filter (Row.ownedBy userId c)).take cascadeBatchSize).map (·.id)

def Store.deleteBatch (userId : String) (run : ℕ) (c : Collection) (ids : List ℕ) (s : Store) :
    ℕ × Store :=
  let deleted := s.deleteMany fun r => r.ownedBy userId c && ids.contains r.id
  (deleted.1, deleted.2.note (.batch run c))

/-- The batches of one collection. The loop of the source has no bound; `fuel` bounds this one, and
running out of it is a statement of its own. -/
def eraseCollection (env : Deployment) (run : ℕ) (c : Collection) : ℕ → Bool → Req Unit
  | 0, _ => (Prog.read (.exhausted c) fun _ => ()).bind fun _ => .raise .exhausted
  | fuel + 1, stalled =>
    (Prog.read (.readBatch c) (·.batch env.userId c)).bind fun batch =>
    if batch.length = 0 then .ret ()
    else (Prog.db (.deleteBatch c) (·.deleteBatch env.userId run c batch)).bind fun deletedCount =>
      if batch.length < cascadeBatchSize then .ret ()
      else if deletedCount = 0 then
        -- the second batch in a row that another run, or nobody, could remove
        if stalled then .raise (.noProgress c) else eraseCollection env run c fuel true
      else eraseCollection env run c fuel false

def eraseCollections (env : Deployment) (run fuel : ℕ) : List Collection → Req Unit
  | [] => .ret ()
  | c :: cs => (eraseCollection env run c fuel false).bind fun _ => eraseCollections env run fuel cs

def eraseInBatches (env : Deployment) (run fuel : ℕ) : Req Unit :=
  (Prog.db .pend fun s => ((), s.pend run)).bind fun _ =>
  eraseCollections env run fuel batchedTenantModels

/-- The deletes of the last sweep, in this order. -/
def remainingRows (env : Deployment) (userEmail : String) : List Sweep :=
  [.owned .auditLog, .owned .vaultItem, .owned .folder, .owned .document, .owned .documentUpload,
    .owned .refreshToken, .owned .backupLog, .owned .invitation,
    .naming (env.canonicalEmail userEmail), .owned .challenge, .owned .deviceProof,
    .owned .trustedDevice]

def sweepRows (env : Deployment) (run : ℕ) : List Sweep → Req Unit
  | [] => .ret ()
  | sw :: sws =>
    (Prog.db (.sweep sw) fun s => ((), s.sweep env.userId run sw)).bind fun _ =>
    sweepRows env run sws

def sweepRemainingRows (env : Deployment) (run : ℕ) (userEmail : String) : Req Unit :=
  sweepRows env run (remainingRows env userEmail)

/-- The address with its local part masked. -/
def maskEmail (email : String) : String :=
  let fromEnd := email.toList.reverse
  let domain := String.ofList ('@' :: (fromEnd.takeWhile (· ≠ '@')).reverse)
  match ((fromEnd.dropWhile (· ≠ '@')).drop 1).reverse with
  | [] => "***"
  | [first] => String.ofList [first] ++ "***" ++ domain
  | first :: rest =>
    String.ofList [first] ++ "***" ++ String.ofList (rest.getLast?.toList) ++ domain

structure CascadeDeleteOptions where
  userEmail : String
  auditAction : AuditAction
  /-- How many batches of a collection the model's loop may make. -/
  fuel : ℕ
  /-- The record's insert inside the transaction works; its failure is swallowed. -/
  recordStored : Bool

def deletionRecord (env : Deployment) (opts : CascadeDeleteOptions) : DeletionRecord where
  action := opts.auditAction
  deletedUserId := env.userId
  maskedEmail := maskEmail opts.userEmail

def Store.record (r : DeletionRecord) (s : Store) : Store :=
  { s with records := r :: s.records }

/-- A failed run says so, and the flag is put up again so that the job tries once more. Its own
failure is only logged. -/
def reassertDeletionPending (run : ℕ) : Req Bool :=
  (Prog.db .reassert fun s => ((), s.pend run)).attempt.bind fun _ => .ret false

/-- The straggler sweep, the account's row and the record, as one statement. -/
def Store.commitErasure (env : Deployment) (run : ℕ) (opts : CascadeDeleteOptions) (s : Store) :
    Store :=
  let swept := (remainingRows env opts.userEmail).foldl (fun s sw => s.sweep env.userId run sw) s
  let removed := swept.remove run
  if removed.1 && opts.recordStored then removed.2.record (deletionRecord env opts) else removed.2

def cascadeDeleteTransactional (env : Deployment) (run : ℕ) (opts : CascadeDeleteOptions) :
    Req Bool :=
  (eraseInBatches env run opts.fuel).attempt.bind fun
  | .error _ => reassertDeletionPending run
  | .ok _ => (Prog.read .startSession fun _ => ()).attempt.bind fun
    | .error _ => reassertDeletionPending run
    | .ok _ =>
      (Prog.db .transaction fun s => ((), s.commitErasure env run opts)).attempt.bind fun outcome =>
      (match outcome with
        | .ok _ => .ret true
        | .error _ => reassertDeletionPending run : Req Bool).bind fun erased =>
      (Prog.read .endSession fun _ => ()).bind fun _ => .ret erased

/-- `createAuditLog` for the system: it never throws. -/
def createDeletionRecord (env : Deployment) (opts : CascadeDeleteOptions) : Req Unit :=
  (Prog.db .record fun s => ((), s.record (deletionRecord env opts))).attempt.bind fun _ => .ret ()

/-- The row of the account, and the record if this run removed it. -/
def removeUser (env : Deployment) (run : ℕ) (opts : CascadeDeleteOptions) : Req Unit :=
  (Prog.db .remove (·.remove run)).bind fun removed =>
  if removed then createDeletionRecord env opts else .ret ()

def cascadeDeleteSequential (env : Deployment) (run : ℕ) (opts : CascadeDeleteOptions) : Req Bool :=
  ((eraseInBatches env run opts.fuel).bind fun _ =>
    (sweepRemainingRows env run opts.userEmail).bind fun _ =>
    removeUser env run opts).attempt.bind fun
  | .ok _ => .ret true
  | .error _ => reassertDeletionPending run

/-- Whether the account's rows are gone. -/
def cascadeDeleteUser (env : Deployment) (run : ℕ) (opts : CascadeDeleteOptions) : Req Bool :=
  if env.supportsTransactions then cascadeDeleteTransactional env run opts
  else cascadeDeleteSequential env run opts

/-! ## The requests -/

/-- `createAuditLog` for the account: one row of its log, and never an error. -/
def createAuditLog (env : Deployment) : Req Unit :=
  (Prog.db .audit fun s => ((), s.insert .auditLog (some env.userId) none)).attempt.bind fun _ =>
  .ret ()

/-- The contents of a verified token. -/
structure JwtEmailPayload where
  purpose : String
  stateHash : String

/-- `none` for a token that does not verify. -/
structure VerifyRequest where
  payload : Option JwtEmailPayload

/-- `emailVerified` as a loaded document has it: the schema's default fills a missing field. -/
def User.isVerified (u : User) : Bool := u.emailVerified.getD false

def verifyEmail (env : Deployment) (r : VerifyRequest) : Req Unit :=
  match r.payload with
  | none => .raise .tokenInvalid
  | some payload =>
    if payload.purpose ≠ "email_verification" then .raise .tokenInvalid
    else (Prog.read .readUser (·.user)).bind fun
      | none => .raise .tokenInvalid
      | some user =>
        if user.deletionPending then .raise .tokenInvalid
        else if payload.stateHash ≠ env.generateStateHash (toString user.isVerified) then
          .raise .tokenInvalid
        else if user.isVerified then .ret ()
        else
          (Prog.db .verify (·.updateUser
            (fun u => u.emailVerified ≠ some true && !u.deletionPending)
            (fun u => { u with emailVerified := some true }) .verify)).bind fun
          | none => .raise .tokenInvalid
          | some _ => createAuditLog env

/-- What the checks before the mark answer: the password's comparison with the loaded row, the
second factor's verdict (`none` where the account has no second factor), and whether the code is
still unspent when the mark is made. -/
structure DeleteRequest where
  isMatch : User → Bool
  secondFactor : Option (Except ErasureError Unit)
  codeUnspent : Bool
  fuel : ℕ
  recordStored : Bool

def deleteAccount (env : Deployment) (run : ℕ) (r : DeleteRequest) : Req Bool :=
  (Prog.read .readUser (·.user)).bind fun
  | none => .raise .userNotFound
  | some user =>
    if r.isMatch user then
      (Prog.ofExcept (r.secondFactor.getD (.ok ()))).bind fun _ =>
      (Prog.db .mark (·.updateUser
        (fun u => !u.deletionPending && (r.secondFactor.isNone || r.codeUnspent))
        (fun u => { u with deletionPending := true }) (.mark run))).bind fun
      | none =>
        (Prog.read .readMarked (·.user.any fun u => !u.deletionPending)).bind fun live =>
        if live then .raise .codeRefused else .raise .alreadyInProgress
      | some _ =>
        (cascadeDeleteUser env run
          ⟨user.email, .accountDelete, r.fuel, r.recordStored⟩).bind fun deleted =>
        if deleted then .ret true else .raise .partiallyFailed
    else (createAuditLog env).bind fun _ => .raise .passwordRefused

/-- The job that finishes interrupted erasures. -/
def finishPendingDeletion (env : Deployment) (run fuel : ℕ) (recordStored : Bool) : Req Bool :=
  (Prog.read .readPending (·.user.filter (·.deletionPending))).bind fun
  | none => .ret false
  | some zombie =>
    (cascadeDeleteUser env run
      ⟨zombie.email, .deletionCleanup, fuel, recordStored⟩).attempt.bind fun
    | .ok deleted => .ret deleted
    | .error _ => .ret false

def dayMs : ℤ := 24 * 60 * 60 * 1000

/-- `overBudget` when the run's time is up before it comes to this account. -/
structure ReapRequest where
  now : ℤ
  overBudget : Bool
  fuel : ℕ
  recordStored : Bool

def ownedRowModels : List Collection := [.vaultItem, .folder, .document, .documentUpload]

def ownsRows (env : Deployment) : List Collection → Req Bool
  | [] => .ret false
  | c :: cs =>
    (Prog.read (.readOwned c) (·.rows.any (Row.ownedBy env.userId c))).bind fun found =>
    if found then .ret true else ownsRows env cs

/-- An account the reaper may take: `emailVerified` exactly `false`, old enough, not pending. -/
def User.provisional (cutoff : ℤ) (u : User) : Bool :=
  u.emailVerified = some false && u.createdAt < cutoff && !u.deletionPending

/-- The claim, and the cascade for a claim that landed. -/
def reapAccount (env : Deployment) (run : ℕ) (r : ReapRequest) (cutoff : ℤ) : Req Bool :=
  (ownsRows env ownedRowModels).bind fun owns =>
  if owns then .ret false
  else (Prog.db .claim (·.updateUser (User.provisional cutoff)
      (fun u => { u with deletionPending := true }) (.claim run))).bind fun
    | none => .ret false
    | some claimed =>
      cascadeDeleteUser env run ⟨claimed.email, .unverifiedAccountReaped, r.fuel, r.recordStored⟩

/-- The reaper at this account: whether it is on the page the run has read, and what becomes of it.
Failures of one account are only logged. -/
def reapUnverifiedAccounts (env : Deployment) (run : ℕ) (r : ReapRequest) : Req Bool :=
  let cutoff := r.now - env.unverifiedAccountTtlDays * dayMs
  (Prog.read .readPage (·.user.any (User.provisional cutoff))).bind fun picked =>
  if picked && !r.overBudget then
    (reapAccount env run r cutoff).attempt.bind fun
    | .ok erased => .ret erased
    | .error _ => .ret false
  else .ret false

/-- A request on the account. Besides those that erase it, anybody may write and delete rows. -/
inductive Request where
  | verifyEmail (r : VerifyRequest)
  | deleteAccount (r : DeleteRequest)
  | finishPendingDeletion (fuel : ℕ) (recordStored : Bool)
  | reap (r : ReapRequest)
  | cascade (opts : CascadeDeleteOptions)
  | write (collection : Collection) (userId email : Option String)
  | drop (id : ℕ)

/-- The request as the program of `run`; it answers whether it has erased the account. -/
def Request.prog (env : Deployment) (run : ℕ) : Request → Req Bool
  | .verifyEmail r => (Erasure.verifyEmail env r).bind fun _ => .ret false
  | .deleteAccount r => Erasure.deleteAccount env run r
  | .finishPendingDeletion fuel recordStored =>
    Erasure.finishPendingDeletion env run fuel recordStored
  | .reap r => reapUnverifiedAccounts env run r
  | .cascade opts => cascadeDeleteUser env run opts
  | .write collection userId email =>
    .db .write fun s => (false, s.insert collection userId email)
  | .drop id => .db .drop fun s => (false, (s.deleteMany fun r => r.id = id).2)

/-- How many batches of a collection the request's cascade may make. -/
def Request.fuel : Request → ℕ
  | .deleteAccount r => r.fuel
  | .finishPendingDeletion fuel _ => fuel
  | .reap r => r.fuel
  | .cascade opts => opts.fuel
  | _ => 0

def Request.reaps : Request → Bool
  | .reap _ => true
  | _ => false

end HVault.Erasure
