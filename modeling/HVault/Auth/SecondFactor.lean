import HVault.Account.Lockout
import HVault.Data.Document
import HVault.Interleave.Pool

/-!
# The second factor

The one verifier of TOTP and backup codes and the requests that use it. A request loads the
account, lets `verifySecondFactor` check the code on what it loaded, and spends the code by one
conditional write of its own, built from the verdict by `withSecondFactorCas`.

The lockout of the second factor is the brake's (`Lockout`): its operations run on the part of the
document that they see.

The store keeps a log of the writes of the account that were applied, each with the verdict it
spent, which no request reads.
-/

namespace HVault.Auth

open Interleave DocStore
open Lockout (LockoutFactor FactorState)

/-! ## The account -/

/-- The paths of the account document that the second factor uses. The last four are the
members of `secondFactorLockout`. -/
inductive Path where
  | id
  | authHash
  | twoFactorEnabled
  | twoFactorSecret
  | pendingTwoFactorSecret
  | pendingTwoFactorExpiry
  | backupCodes
  | lastTotpTimestamp
  | deletionPending
  | lockoutFailedAttempts
  | lockoutUntil
  | lockoutEpisodeId
  | lockoutNotifiedAt
  deriving DecidableEq

/-- An account document. -/
abbrev User := Document Path

/-- A text that is there and not empty. -/
def User.text (u : User) (p : Path) : Option String :=
  match u p with
  | some (.text s) => if s.isEmpty then none else some s
  | _ => none

/-- Whether a flag is set. -/
def User.flag (u : User) (p : Path) : Bool := u p = some (.bool true)

/-- A number that is there. -/
def User.number (u : User) (p : Path) : Option ℤ :=
  match u p with
  | some (.number n) => some n
  | _ => none

/-- A list of texts, empty when it is not there. -/
def User.texts (u : User) (p : Path) : List String :=
  match u p with
  | some (.texts l) => l
  | _ => []

/-- The paths a query does not load unless it names them. -/
def Path.hidden : Path → Bool
  | authHash | twoFactorSecret | pendingTwoFactorSecret | pendingTwoFactorExpiry | backupCodes
  | lockoutFailedAttempts | lockoutUntil | lockoutEpisodeId | lockoutNotifiedAt => true
  | _ => false

/-- The document as a query that names `selected` loads it. -/
def User.select (u : User) (selected : List Path) : User := fun p =>
  if p.hidden && !selected.contains p then none else u p

/-! ## What a code check decides -/

/-- A successful check: a TOTP step of a secret, or a stored backup code. -/
inductive Verdict where
  | totp (enrolment : Bool) (secretCiphertext : String) (step : ℤ)
  | backupCode (matched : String)

/-- A refused check. -/
inductive Refusal where
  | locked
  | invalid (attempts : ℕ)

/-- The sites that verify a second factor. -/
inductive SecondFactorSite where
  | login2fa
  | verify2fa
  | disable2fa
  | regenerateBackupCodes
  | deleteAccount
  deriving DecidableEq

/-- The conditions a verdict puts on the write that spends it. A step is bound to the exact
secret it was checked against and must lie after the last one accepted; a backup code must
still be there. -/
def Verdict.casFilter : Verdict → DocStore.Filter Path
  | totp enrolment secretCiphertext step =>
    { paths := .ofList <|
        if enrolment then
          [(.twoFactorEnabled, .eq (.bool false)),
            (.pendingTwoFactorSecret, .eq (.text secretCiphertext))]
        else
          [(.twoFactorEnabled, .eq (.bool true)), (.twoFactorSecret, .eq (.text secretCiphertext))]
      or := some [(.lastTotpTimestamp, .absent), (.lastTotpTimestamp, .null),
        (.lastTotpTimestamp, .lt step)]
      and := none }
  | backupCode stored =>
    .ofList [(.twoFactorEnabled, .eq (.bool true)), (.backupCodes, .eq (.text stored))]

/-- What the write that spends a verdict writes. -/
def Verdict.casUpdate : Verdict → Update Path
  | totp _ _ step => { Update.none with set := .ofList [(.lastTotpTimestamp, .number step)] }
  | backupCode stored => { Update.none with pull := .ofList [(.backupCodes, .text stored)] }

/-- Merges a verdict into a caller's own write. Operators are merged path by path, a caller's
`$unset` wins over a `$set`, and two `$or` clauses are combined under `$and`. -/
def withSecondFactorCas (filter : DocStore.Filter Path) (update : Update Path) (verdict : Verdict) :
    DocStore.Filter Path × Update Path :=
  let cas := verdict.casUpdate
  let unset := update.unset.spread cas.unset
  let merged : Update Path :=
    { set := (update.set.spread cas.set).filterKeys fun p => !unset.has p
      unset
      pull := update.pull.spread cas.pull
      inc := update.inc.spread cas.inc }
  let paths := filter.paths.spread verdict.casFilter.paths
  match filter.or, verdict.casFilter.or with
  | some callerOr, some fragmentOr =>
    ({ paths, or := none, and := some (filter.and.getD [] ++ [callerOr, fragmentOr]) }, merged)
  | callerOr, fragmentOr =>
    ({ paths, or := fragmentOr.or callerOr, and := verdict.casFilter.and.or filter.and }, merged)

/-! ## The store -/

/-- An applied write of the account: the verdict it spent, if any, and the document it found and
left. -/
structure Applied where
  verdict : Option Verdict
  before : User
  after : Option User

/-- The account, the sign-in challenges that are open, and the log. -/
structure Store where
  user : Option User
  openChallenges : List String
  log : List Applied

/-- Writes the account if `filter` selects it; answers the document afterwards. -/
def Store.write (verdict : Option Verdict) (filter : DocStore.Filter Path) (change : User → User)
    (s : Store) : Option User × Store :=
  match s.user with
  | some u =>
    if filter.selects u then
      (some (change u),
        { s with user := some (change u), log := s.log ++ [⟨verdict, u, some (change u)⟩] })
    else (none, s)
  | none => (none, s)

/-- Removes the account. -/
def Store.erase (s : Store) : Unit × Store :=
  match s.user with
  | some u => ((), { s with user := none, log := s.log ++ [⟨none, u, none⟩] })
  | none => ((), s)

/-- Consumes an open challenge; says whether it was open. -/
def Store.consume (challengeId : String) (s : Store) : Bool × Store :=
  if s.openChallenges.contains challengeId then
    (true, { s with openChallenges := s.openChallenges.filter (· ≠ challengeId) })
  else (false, s)

/-- The errors a request answers with. -/
inductive AuthError where
  | badRequest (message : String)
  | unauthorized (message : String)
  | forbidden (message : String)
  | notFound (message : String)
  | conflict (message : String)
  | internal
  deriving DecidableEq

/-- The accesses a request makes. -/
inductive Site where
  | load
  | challenge
  | lockout
  | account
  | spend

/-- A request over the store. -/
abbrev AuthReq (α : Type) := Prog Store Site AuthError α

/-- What the code uses of other packages: `bcrypt.compare`, the decryption of a stored secret
(absent when it throws) and the delta `TOTP.validate` finds within one step. -/
structure Crypto where
  compare : String → String → Bool
  decryptText : String → Option String
  validate : String → String → ℤ → Option ℤ

/-! ## The lockout of the second factor -/

/-- `lockoutClearUpdate('second_factor').$unset`, member by member. -/
def lockoutPaths : List (Path × Unit) :=
  [(.lockoutFailedAttempts, ()), (.lockoutUntil, ()), (.lockoutEpisodeId, ()),
    (.lockoutNotifiedAt, ())]

/-- Whether a lockout deadline is still running. -/
def isLockoutRunning (deadline : Option ℤ) (now : ℤ) : Bool :=
  deadline.any fun t => decide (now < t)

/-- The filter that names the account. -/
def byId (userId : String) : List (Path × Cond) := [(.id, .eq (.text userId))]

/-- What the brake sees of the document: the second factor's state. -/
def User.brake (u : User) : Lockout.User where
  state
    | .password => Lockout.lockoutClearUpdate .password
    | .secondFactor =>
      { failedAttempts := (u.number .lockoutFailedAttempts).map Int.toNat
        deadline := u.number .lockoutUntil
        episodeId := match u .lockoutEpisodeId with
          | some (.text s) => some s
          | _ => none
        notifiedAt := u.number .lockoutNotifiedAt }
  deletionPending := u.flag .deletionPending

/-- The document with the second factor's state as the brake left it. -/
def User.withState (u : User) (state : FactorState) : User
  | .lockoutFailedAttempts => state.failedAttempts.map fun n => .number n
  | .lockoutUntil => state.deadline.map .number
  | .lockoutEpisodeId => state.episodeId.map .text
  | .lockoutNotifiedAt => state.notifiedAt.map .number
  | p => u p

/-- The account with this id, as the brake sees it. -/
def Store.toLockout (userId : String) (s : Store) : Lockout.Store :=
  (s.user.filter fun u => u .id = some (.text userId)).map User.brake

/-- Puts back what the brake wrote. -/
def Store.putLockout (after : Lockout.Store) (s : Store) : Store :=
  match s.user, after with
  | some u, some l =>
    let u' := u.withState (l.state .secondFactor)
    { s with user := some u', log := s.log ++ [⟨none, u, some u'⟩] }
  | _, _ => s

/-- A request of the brake, on the account. -/
def onLockout {α : Type} (userId : String) (p : Lockout.Req AuthError α) : AuthReq α :=
  p.zoom (Store.toLockout userId) Store.putLockout fun _ => .lockout

/-! ## The verifier -/

/-- The length of a TOTP step. -/
def totpPeriodSeconds : ℤ := 30

/-- Six digits. -/
def totpShaped (code : String) : Bool := code.length = 6 && code.toList.all Char.isDigit

/-- The stored hash a code belongs to: the last that matches. -/
def findMatchingBackupCode (K : Crypto) (code : String) (hashedCodes : List String) :
    Option String := (hashedCodes.filter fun hashed => K.compare code hashed).getLast?

/-- Checks a code on a loaded document: a code of six digits as a TOTP code, any other as a
backup code. A secret that does not decrypt is an error. -/
def checkCode (K : Crypto) (now : ℤ) (user : User) (code : String) (enrolment : Bool)
    (acceptBackupCodes : Bool) : Except AuthError (Option Verdict) :=
  if totpShaped code then
    match user.text (if enrolment then .pendingTwoFactorSecret else .twoFactorSecret) with
    | none => .ok none
    | some secretCiphertext =>
      match K.decryptText secretCiphertext with
      | none => .error .internal
      | some secret =>
        match K.validate secret code now with
        | none => .ok none
        | some delta =>
          let step := now / (1000 * totpPeriodSeconds) + delta
          if (user.number .lastTotpTimestamp).any fun last => decide (step ≤ last) then .ok none
          else .ok (some (.totp enrolment secretCiphertext step))
  else if acceptBackupCodes then
    .ok ((findMatchingBackupCode K code (user.texts .backupCodes)).map .backupCode)
  else .ok none

/-- Where a request reads the clock. -/
inductive Reading where
  | status
  | verify
  | expiry
  | lock
  | completion

/-- What a request reads off the clock, and the identity it would give a new lock episode. -/
structure Env where
  clock : Reading → ℤ
  episodeId : String

/-- The deadline of the second factor's lockout, read afresh; enrolment does not ask. -/
def secondFactorDeadline (enrolment : Bool) : AuthReq (Option ℤ) :=
  if enrolment then .ret none
  else .read .lockout fun s => s.user.bind fun u => u.number .lockoutUntil

/-- Discharges the lockout of a deadline that was there and has passed. -/
def dischargeIfServed (env : Env) (userId : String) (deadline : Option ℤ) : AuthReq Unit :=
  if deadline.isSome then
    onLockout userId (Lockout.dischargeServedSecondFactor (env.clock .verify))
  else .ret ()

/-- Answers a check: a right code with its verdict, a wrong one with the count. -/
def answerCheck (env : Env) (userId : String) (enrolment : Bool) :
    Except AuthError (Option Verdict) → AuthReq (Except Refusal Verdict)
  | .error error => .raise error
  | .ok (some verdict) => .ret (.ok verdict)
  | .ok none =>
    if enrolment then .ret (.error (.invalid 0))
    else do
      let attempts ← onLockout userId
        (Lockout.registerFailedAuthAttempt .secondFactor (env.clock .lock) env.episodeId)
      pure (.error (.invalid attempts))

/-- Checks `code` for `user` at `site`, counting a failure where the site counts. Never writes a
success. -/
def verifySecondFactor (K : Crypto) (env : Env) (userId : String) (user : User) (code : String)
    (site : SecondFactorSite) (acceptBackupCodes : Bool) : AuthReq (Except Refusal Verdict) := do
  let enrolment := decide (site = .verify2fa)
  let deadline ← secondFactorDeadline enrolment
  if isLockoutRunning deadline (env.clock .verify) then pure (.error .locked)
  else do
    dischargeIfServed env userId deadline
    answerCheck env userId enrolment
      (checkCode K (env.clock .verify) user code enrolment acceptBackupCodes)

/-! ## The requests -/

/-- How many backup codes are generated. -/
def backupCodesCount : ℕ := 8

/-- What a request answers. -/
inductive Answer where
  | signedIn (remaining : ℕ)
  | pendingSecret
  | enabled (backupCodes : List String)
  | disabled
  | regenerated (backupCodes : List String)
  | deleted

/-- Generated backup codes: the codes, and their hashes in the same order. -/
def generateBackupCodes (generated : ℕ → String × String) : List String × List String :=
  ((List.range backupCodesCount).map fun n => (generated n).1,
    (List.range backupCodesCount).map fun n => (generated n).2)

/-- Loads the account with the paths a query names. -/
def loadUser (selected : List Path) : AuthReq (Option User) :=
  .read .load fun s => s.user.map fun u => u.select selected

/-- How a signed-in site answers a refusal. -/
def throwSecondFactorRefusal {α : Type} : Refusal → AuthReq α
  | .locked => .raise (.forbidden "ACCOUNT_LOCKED")
  | .invalid _ => .raise (.badRequest "Invalid verification code")

/-- The message of a wrong master password. -/
def masterPasswordProofRefused : AuthError := .unauthorized "Current password is incorrect"

/-- Whether the password is the account's. -/
def passwordMatches (K : Crypto) (password : String) (user : User) : Bool :=
  (user.text .authHash).any fun hash => K.compare password hash

variable (K : Crypto) (env : Env) (userId : String)

/-- The second step of a sign-in. The challenge is consumed first, then the code. -/
def login2fa (challengeId code : String) : AuthReq Answer := do
  let isOpen ← .read .challenge fun s => s.openChallenges.contains challengeId
  if !isOpen then .raise (.unauthorized "TOKEN_INVALID")
  else do
    let loaded ← loadUser [.twoFactorSecret, .backupCodes, .lockoutFailedAttempts, .lockoutUntil,
      .lockoutEpisodeId, .lockoutNotifiedAt]
    match loaded with
    | none => .raise (.unauthorized "TOKEN_INVALID")
    | some user =>
      if user.flag .deletionPending then .raise (.unauthorized "TOKEN_INVALID")
      else if !user.flag .twoFactorEnabled || (user.text .twoFactorSecret).isNone then
        .raise (.badRequest "TWO_FA_NOT_ENABLED")
      else do
        let secondFactorLocked :=
          isLockoutRunning (user.number .lockoutUntil) (env.clock .status)
        let verdict ← verifySecondFactor K env userId user code .login2fa true
        match verdict with
        | .error .locked => .raise (.forbidden "ACCOUNT_LOCKED")
        | .error (.invalid _) => .raise (.unauthorized "TWO_FA_INVALID")
        | .ok verdict => do
          let consumedChallenge ← .db .challenge (Store.consume challengeId)
          if !consumedChallenge then .raise (.unauthorized "TOKEN_INVALID")
          else do
            let filter : DocStore.Filter Path :=
              { verdict.casFilter with
                paths := (OrderedMap.ofList (byId userId)).spread verdict.casFilter.paths }
            let consumed ← .db .spend <| Store.write (some verdict) filter verdict.casUpdate.apply
            match consumed with
            | none => .raise (.unauthorized "TOKEN_INVALID")
            | some after => do
              onLockout userId (Lockout.dischargeCompleted .secondFactor user.brake
                secondFactorLocked (env.clock .completion))
              pure (.signedIn (after.texts .backupCodes).length)

/-- Mints a pending secret. -/
def setup2fa (password newSecret : String) (expiry : ℤ) : AuthReq Answer := do
  let loaded ← loadUser [.authHash]
  match loaded with
  | none => .raise (.notFound "User not found")
  | some user =>
    if !passwordMatches K password user then .raise masterPasswordProofRefused
    else if user.flag .twoFactorEnabled then
      .raise (.conflict "Two-factor authentication is already enabled")
    else do
      let _ ← .db .account <| Store.write none (.ofList (byId userId))
        { Update.none with set := .ofList [(Path.pendingTwoFactorSecret, .text newSecret),
            (Path.pendingTwoFactorExpiry, .number expiry)] }.apply
      pure .pendingSecret

/-- Enables the pending secret, with the code's step and new backup codes in one write. -/
def verify2fa (code : String) (generated : ℕ → String × String) : AuthReq Answer := do
  let loaded ← loadUser [.pendingTwoFactorSecret, .pendingTwoFactorExpiry]
  match loaded with
  | none => .raise (.notFound "User not found")
  | some user =>
    if user.flag .twoFactorEnabled then
      .raise (.conflict "Two-factor authentication is already enabled")
    else
      match user.text .pendingTwoFactorSecret, user.number .pendingTwoFactorExpiry with
      | some encryptedSecret, some expiry =>
        if expiry < env.clock .expiry then do
          let _ ← .db .account <| Store.write none (.ofList (byId userId))
            { Update.none with unset := .ofList [(Path.pendingTwoFactorSecret, ()),
                (Path.pendingTwoFactorExpiry, ())] }.apply
          .raise (.badRequest "2FA setup has expired. Please start the setup process again.")
        else do
          let verdict ← verifySecondFactor K env userId user code .verify2fa false
          match verdict with
          | .error _ => .raise (.badRequest "Invalid verification code")
          | .ok verdict => do
            let codes := generateBackupCodes generated
            let cas := withSecondFactorCas
              (.ofList (byId userId ++ [(.twoFactorEnabled, .eq (.bool false))]))
              { Update.none with
                set := .ofList [(.twoFactorSecret, .text encryptedSecret),
                  (.backupCodes, .texts codes.2), (.twoFactorEnabled, .bool true)]
                unset := .ofList ([(.pendingTwoFactorSecret, ()), (.pendingTwoFactorExpiry, ())]
                  ++ lockoutPaths) }
              verdict
            let updated ← .db .spend <| Store.write (some verdict) cas.1 cas.2.apply
            match updated with
            | none => .raise (.conflict "Two-factor authentication is already enabled")
            | some _ => pure (.enabled codes.1)
      | _, _ => .raise (.badRequest
          "No pending 2FA setup found. Please start the setup process first.")

/-- Removes the factor. -/
def disable2fa (password code : String) : AuthReq Answer := do
  let loaded ← loadUser [.authHash, .twoFactorSecret, .backupCodes]
  match loaded with
  | none => .raise (.notFound "User not found")
  | some user =>
    if !passwordMatches K password user then .raise masterPasswordProofRefused
    else if !user.flag .twoFactorEnabled || (user.text .twoFactorSecret).isNone then
      .raise (.badRequest "Two-factor authentication is not enabled")
    else do
      let verdict ← verifySecondFactor K env userId user code .disable2fa false
      match verdict with
      | .error refusal => throwSecondFactorRefusal refusal
      | .ok verdict => do
        let cas := withSecondFactorCas (.ofList (byId userId))
          { Update.none with
            set := .ofList [(.twoFactorEnabled, .bool false)]
            unset := .ofList ([(.twoFactorSecret, ()), (.backupCodes, ()),
              (.lastTotpTimestamp, ())] ++ lockoutPaths) }
          verdict
        let disabled ← .db .spend <| Store.write (some verdict) cas.1 cas.2.apply
        match disabled with
        | none => .raise (.badRequest "Invalid verification code")
        | some _ => pure .disabled

/-- Replaces the backup codes. An account with two-factor on and no stored secret has nothing
to check a code against. -/
def regenerateBackupCodes (password : String) (code : Option String)
    (generated : ℕ → String × String) : AuthReq Answer := do
  let loaded ← loadUser [.authHash, .twoFactorSecret]
  match loaded with
  | none => .raise (.notFound "User not found")
  | some user =>
    if !user.flag .twoFactorEnabled then
      .raise (.badRequest "Two-factor authentication is not enabled")
    else if !passwordMatches K password user then .raise masterPasswordProofRefused
    else
      let codes := generateBackupCodes generated
      let enabled := DocStore.Filter.ofList (byId userId ++ [(.twoFactorEnabled, .eq (.bool true))])
      let store : Update Path := { Update.none with set := .ofList [(.backupCodes, .texts codes.2)] }
      if (user.text .twoFactorSecret).isSome then
        match code with
        | none => .raise (.badRequest "Two-factor authentication code is required")
        | some code => do
          let checked ← verifySecondFactor K env userId user code .regenerateBackupCodes false
          match checked with
          | .error refusal => throwSecondFactorRefusal refusal
          | .ok verdict => do
            let cas := withSecondFactorCas enabled store verdict
            let updated ← .db .spend <| Store.write (some verdict) cas.1 cas.2.apply
            match updated with
            | none => .raise (.badRequest "Invalid verification code")
            | some _ => pure (.regenerated codes.1)
      else do
        let updated ← .db .account <| Store.write none enabled store.apply
        match updated with
        | none => .raise (.badRequest "Two-factor authentication is not enabled")
        | some _ => pure (.regenerated codes.1)

/-- Erases a marked account, or says why the mark did not apply. -/
def finishDeletion (marked : Option User) : AuthReq Answer :=
  match marked with
  | some _ => do
    .db .account Store.erase
    pure .deleted
  | none => do
    let present ← .read .load fun s => s.user.any fun u => !u.flag .deletionPending
    if present then .raise (.badRequest "Invalid verification code")
    else .raise (.conflict "Account deletion is already in progress.")

/-- Marks the account for deletion and erases it. -/
def deleteAccount (password : String) (code : Option String) : AuthReq Answer := do
  let loaded ← loadUser [.authHash, .twoFactorSecret]
  match loaded with
  | none => .raise (.notFound "User not found")
  | some user =>
    if !passwordMatches K password user then .raise masterPasswordProofRefused
    else
      let notYetPending := DocStore.Filter.ofList (byId userId ++ [(.deletionPending, .ne (.bool true))])
      let mark : Update Path := { Update.none with set := .ofList [(.deletionPending, .bool true)] }
      if user.flag .twoFactorEnabled && (user.text .twoFactorSecret).isSome then
        match code with
        | none => .raise (.badRequest "Two-factor authentication code is required")
        | some code => do
          let checked ← verifySecondFactor K env userId user code .deleteAccount false
          match checked with
          | .error refusal => throwSecondFactorRefusal refusal
          | .ok verdict => do
            let cas := withSecondFactorCas notYetPending mark verdict
            let marked ← .db .spend <| Store.write (some verdict) cas.1 cas.2.apply
            finishDeletion marked
      else do
        let marked ← .db .account <| Store.write none notYetPending mark.apply
        finishDeletion marked

/-- A request on the account. `newSecret` and `generated` are what the request draws at random:
an encrypted secret, and backup codes with their hashes. -/
inductive Request where
  | login2fa (challengeId code : String)
  | setup2fa (password newSecret : String) (expiry : ℤ)
  | verify2fa (code : String) (generated : ℕ → String × String)
  | disable2fa (password code : String)
  | regenerateBackupCodes (password : String) (code : Option String)
      (generated : ℕ → String × String)
  | deleteAccount (password : String) (code : Option String)

/-- The program of a request. -/
def Request.prog : Request → AuthReq Answer
  | login2fa challengeId code => Auth.login2fa K env userId challengeId code
  | setup2fa password newSecret expiry => Auth.setup2fa K userId password newSecret expiry
  | verify2fa code generated => Auth.verify2fa K env userId code generated
  | disable2fa password code => Auth.disable2fa K env userId password code
  | regenerateBackupCodes password code generated =>
    Auth.regenerateBackupCodes K env userId password code generated
  | deleteAccount password code => Auth.deleteAccount K env userId password code

/-- The secrets a request mints. -/
def Request.newSecrets : Request → List String
  | setup2fa _ newSecret _ => [newSecret]
  | _ => []

/-- The hashes of the backup codes a request generates. -/
def Request.newCodes : Request → List String
  | verify2fa _ generated => (generateBackupCodes generated).2
  | regenerateBackupCodes _ _ generated => (generateBackupCodes generated).2
  | _ => []

/-- Requests on one account, each with its own clock; an access may fail in any of the given
ways. -/
def authSystem {ι : Type} (faults : Site → AuthError → Bool → Prop)
    (requests : ι → Env × Request) : System ι Store Site AuthError Answer where
  admits i p := p = (requests i).2.prog K (requests i).1 userId
  faults

/-! ## The codes that were spent -/

/-- The TOTP steps of a secret that a verdict spends. -/
def Verdict.stepOf (secret : String) : Verdict → Option ℤ
  | totp _ s step => if s = secret then some step else none
  | backupCode _ => none

/-- The backup code a verdict spends. -/
def Verdict.codeOf : Verdict → Option String
  | totp _ _ _ => none
  | backupCode stored => some stored

/-- The steps of a secret whose writes were applied, in order. -/
def totpSteps (secret : String) (log : List Applied) : List ℤ :=
  log.filterMap fun w => w.verdict.bind (Verdict.stepOf secret)

/-- The backup codes whose writes were applied, in order. -/
def spentCodes (log : List Applied) : List String :=
  log.filterMap fun w => w.verdict.bind Verdict.codeOf

/-- An account document has the secret, enrolled or pending. -/
def HasSecret (secret : String) (row : Option User) : Prop :=
  row.bind (· .twoFactorSecret) = some (.text secret) ∨
    row.bind (· .pendingTwoFactorSecret) = some (.text secret)

end HVault.Auth
