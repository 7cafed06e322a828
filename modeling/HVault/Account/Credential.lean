import HVault.Account.Recipients
import HVault.Account.Sessions

/-!
# Requests that a proof of the password allows

`changePassword`, `resetPassword`, `updateNotificationPreferences` and `updateBackupRecipients`: each
reads the account, checks a proof (or a link) against the stored credential, and writes later.

A request remembers how many credentials had been stored when it read the account, and names its
statements with it. What it writes after its own new credential rests on that one. No program acts
on the number.
-/

namespace HVault.Account

open Interleave Lockout

/-! ## The vault-key exclusion lock -/

def vaultRotationLockTtlMs : ℤ := 5 * 60 * 1000

/-- Takes the lock if it is free or has expired. A new holder has not raised the fence. -/
def Store.acquireLock (lockId : String) (now : ℤ) (s : Store) : Bool × Store :=
  if isVaultRotationLockHeld now s then (false, s)
  else (true, { s with
    rotationLock := some ⟨lockId, now + vaultRotationLockTtlMs⟩
    history := { s.history with
      acquisitions := s.history.acquisitions + 1
      raised := s.history.raised.filter (· ≠ lockId) } })

/-- Takes the lock or refuses; answers how often it was taken. -/
def acquireVaultRotationLock (lockId : String) (now : ℤ) : Req ℕ := do
  let (acquired, taken) ← .db .acquireLock fun s =>
    let (acquired, s') := s.acquireLock lockId now
    ((acquired, s'.history.acquisitions), s')
  if acquired then pure taken
  else .raise .rotationLockBusy

/-- Frees the lock if it is still this holder's. -/
def releaseVaultRotationLock (lockId : String) : Req Unit :=
  .db .releaseLock fun s => ((), { s with
    rotationLock := s.rotationLock.filter fun lock => decide (lock.lockedBy ≠ lockId) })

/-! ## Guards -/

/-- The generation of the vault key. -/
def vaultKeyVersionOf (u : User) : ℕ := u.vaultKeyVersion.getD 0

/-- Judges the generation a request names. -/
def judgeVaultKeyVersion (current : ℕ) : Option ℕ → Except AccountError ℕ
  | none => if 0 < current then .error (.staleVaultKey current .unnamed) else .ok current
  | some supplied =>
    if current < supplied then .error (.staleVaultKey current .unreached)
    else if supplied ≠ current then .error (.staleVaultKey current .rotated)
    else .ok current

/-- The account, if it is there and not being erased. -/
def readLive (site : Site) : Req User := do
  let found ← .read site fun s => s.user.filter fun u => !u.deletionPending
  match found with
  | none => .raise .sessionInvalid
  | some u => pure u

def assertVaultNotRotating : Req Unit := do
  let u ← readLive .readFence
  if u.rotationInProgress then .raise .rotationInProgress
  else pure ()

def assertVaultKeyVersion (supplied : Option ℕ) : Req ℕ := do
  let u ← readLive .readGeneration
  .ofExcept (judgeVaultKeyVersion (vaultKeyVersionOf u) supplied)

/-! ## The end of the old sessions -/

namespace Store

/-- Notes that the rows of a kind were ended, and under which credential. -/
def logEnded (kind : RowKind) (s : Store) : Store :=
  match s.user with
  | none => s
  | some u => { s with history := { s.history with
      ended := (kind, u.authHash) :: s.history.ended } }

def endSessions (s : Store) : Store := { s with tokens := [] }.logEnded .session

def endDevices (s : Store) : Store := s.revokeTrustedDevices.2.logEnded .device

def endChallenges (s : Store) : Store := s.revokeTwoFactorChallenges.2.logEnded .challenge

/-- Stores a new credential, and whatever comes with it, on an account that passes. -/
def storeCredential (filter : User → Bool) (update : User → User) (s : Store) : Bool × Store :=
  match s.updateUser filter update with
  | (none, _) => (false, s)
  | (some u, s') =>
    (true, { s' with history := { s'.history with
      credentials := (update u).authHash :: s.history.credentials } })

theorem storeCredential_cases (filter : User → Bool) (update : User → User) (s : Store) :
    s.storeCredential filter update = (false, s) ∨ ∃ u, s.user = some u ∧ filter u = true ∧
      s.storeCredential filter update = (true, { s with
        user := some (update u)
        history := { s.history with
          credentials := (update u).authHash :: s.history.credentials } }) := by
  unfold storeCredential
  rcases s.updateUser_cases filter update with heq | ⟨u, hu, hfilter, heq⟩
  · rw [heq]
    exact .inl rfl
  · rw [heq]
    exact .inr ⟨u, hu, hfilter, rfl⟩

end Store

/-- Ends what the old password granted: sessions, devices, proofs, waiting sign-ins, and the
approval of the backup recipients. -/
def revokeGranted (provenWith : String) (since : ℕ) (nonceBase : String) : Req Unit := do
  .db (.revokeTokens provenWith since) fun s => ((), s.endSessions)
  .db (.revokeDevices provenWith since) fun s => ((), s.endDevices)
  let _ ← .db (.revokeProofs provenWith since) Store.revokeDeviceProofs
  .db (.revokeChallenges provenWith since) fun s => ((), s.endChallenges)
  let _ ← .db (.suspendFor provenWith since) (suspendThirdPartyRecipients nonceBase)

/-- The same, as part of a transaction. -/
def Store.revokeGranted (nonceBase : String) (s : Store) : Store :=
  (suspendThirdPartyRecipients nonceBase
    s.endSessions.endDevices.revokeDeviceProofs.2.endChallenges).2

/-! ## Change of the password -/

/-- A change of the master password. `newHash` is the bcrypt hash of the new one. -/
structure ChangePasswordRequest where
  currentAuthHash : String
  newHash : String
  newVaultKey : WrappedKey
  newPendingVaultKey : Option WrappedKey
  vaultKeyVersion : Option ℕ
  passwordChangedAt : ℤ
  lockId : String
  lockedAt : ℤ
  attempts : ℕ
  nonceBase : ℕ → String
  lastNonceBase : String

/-- What a change stores: the two wrappers move together, if there are two. -/
def ChangePasswordRequest.store (r : ChangePasswordRequest) (outstanding : Bool) (u : User) : User :=
  { u with
    authHash := r.newHash
    vaultKey := r.newVaultKey
    passwordChangedAt := some r.passwordChangedAt
    pendingVaultKey := if outstanding && r.newPendingVaultKey.isSome then r.newPendingVaultKey
      else u.pendingVaultKey }

/-- The conditional write of a change: the generation is still the one that was judged. -/
def ChangePasswordRequest.write (r : ChangePasswordRequest) (version : ℕ) (outstanding : Bool) :
    Store → Bool × Store :=
  Store.storeCredential (fun u => decide (vaultKeyVersionOf u = version)) (r.store outstanding)

/-- One run of the transaction of a change: all of it or nothing. -/
def changeOnce (r : ChangePasswordRequest) (version : ℕ) (outstanding : Bool) (attempt : ℕ)
    (s : Store) : Bool × Store :=
  match r.write version outstanding (s.revokeGranted (r.nonceBase attempt)) with
  | (true, s') => (true, s')
  | (false, _) => (false, s)

/-- The transaction of a change, run again while it fails for a reason known to have undone it. -/
def changeInTransaction (r : ChangePasswordRequest) (provenWith : String) (since version : ℕ)
    (outstanding : Bool) : ℕ → Req Bool
  | 0 => .db (.writeCredential provenWith since (some version)) (changeOnce r version outstanding 0)
  | attempts + 1 =>
    (Prog.db (.writeCredential provenWith since (some version))
      (changeOnce r version outstanding (attempts + 1))).orElse fun
      | .database true => changeInTransaction r provenWith since version outstanding attempts
      | e => .raise e

/-- Once more after the new credential is stored: a list approved with the old one may have
landed in between. -/
def suspendAgain (newHash : String) (since : ℕ) (nonceBase : String) (written : Bool) : Req Bool :=
  if written then do
    let _ ← .db (.suspendFor newHash (since + 1)) (suspendThirdPartyRecipients nonceBase)
    pure written
  else pure written

/-- The change without a transaction: the old sessions end first. -/
def changeSequentially (r : ChangePasswordRequest) (provenWith : String) (since version : ℕ)
    (outstanding : Bool) : Req Bool := do
  revokeGranted provenWith since (r.nonceBase 0)
  let written ← .db (.writeCredential provenWith since (some version)) (r.write version outstanding)
  suspendAgain r.newHash since r.lastNonceBase written

/-- A change that lost against a rotation names the generation the account has now. -/
def refuseSuperseded : Req Unit := do
  let current ← .read .readGeneration fun s => (s.user.map vaultKeyVersionOf).getD 0
  .raise (.staleVaultKey current .rotated)

/-- The part of a change that holds the lock; says whether the change was stored. -/
def changeUnderLock (env : Deployment) (r : ChangePasswordRequest) (provenWith : String)
    (since : ℕ) : Req Bool := do
  assertVaultNotRotating
  let version ← assertVaultKeyVersion r.vaultKeyVersion
  let outstanding ← .read .readPending fun s => (s.user.bind (·.pendingVaultKey)).isSome
  if outstanding && r.newPendingVaultKey.isNone then .raise .interruptedRotation
  else if env.supportsTransactions then
    changeInTransaction r provenWith since version outstanding r.attempts
  else changeSequentially r provenWith since version outstanding

/-- The account as a request finds it, and how many credentials have been stored. -/
def loadAccount : Req (Option User × ℕ) :=
  .read .loadUser fun s => (s.user, s.history.credentials.length)

/-- Loads the account, checks the proof of the password, and goes on with what it found. -/
def withProof {α : Type} (env : Deployment) (authHash : String) (next : User → ℕ → Req α) :
    Req α := do
  let (loaded, since) ← loadAccount
  match loaded with
  | none => .raise .userNotFound
  | some user =>
    if env.bcryptCompare authHash user.authHash then next user since
    else .raise .proofRefused

/-- A change whose proof was right: under the lock, which is released before the answer. -/
def changeProven (env : Deployment) (r : ChangePasswordRequest) (provenWith : String) (since : ℕ) :
    Req Unit := do
  let _ ← acquireVaultRotationLock r.lockId r.lockedAt
  let written ← (changeUnderLock env r provenWith since).andFinally (releaseVaultRotationLock r.lockId)
  if written then pure ()
  else refuseSuperseded

def changePassword (env : Deployment) (r : ChangePasswordRequest) : Req Unit :=
  withProof env r.currentAuthHash fun user since => changeProven env r user.authHash since

/-! ## Reset of the password -/

/-- A reset by a mailed link. `stateHash` is what a genuine link of the right purpose names. -/
structure ResetPasswordRequest where
  stateHash : Option String
  email : String
  newHash : String
  newVaultKey : WrappedKey
  passwordChangedAt : ℤ
  nonceBase : String
  lastNonceBase : String

/-- A path of a saved document: it is written only if it was changed since it was loaded. -/
def savePath {α : Type} [DecidableEq α] (loaded new stored : α) : α :=
  if new = loaded then stored else new

/-- The wrapped key of a saved document, its three paths each on its own. -/
def saveKey (loaded new stored : WrappedKey) : WrappedKey where
  encryptedVaultKey :=
    savePath loaded.encryptedVaultKey new.encryptedVaultKey stored.encryptedVaultKey
  vaultKeyIv := savePath loaded.vaultKeyIv new.vaultKeyIv stored.vaultKeyIv
  vaultKeyTag := savePath loaded.vaultKeyTag new.vaultKeyTag stored.vaultKeyTag

/-- The brake of a saved document. -/
def saveFactor (loaded new stored : FactorState) : FactorState where
  failedAttempts := savePath loaded.failedAttempts new.failedAttempts stored.failedAttempts
  deadline := savePath loaded.deadline new.deadline stored.deadline
  episodeId := savePath loaded.episodeId new.episodeId stored.episodeId
  notifiedAt := savePath loaded.notifiedAt new.notifiedAt stored.notifiedAt

/-- What a reset saves: a new credential and key, no unfinished rotation, no fence, no lockout of
the password. -/
def ResetPasswordRequest.save (r : ResetPasswordRequest) (loaded u : User) : User :=
  { u with
    authHash := savePath loaded.authHash r.newHash u.authHash
    vaultKey := saveKey loaded.vaultKey r.newVaultKey u.vaultKey
    pendingVaultKey := savePath loaded.pendingVaultKey none u.pendingVaultKey
    rotationInProgress := savePath loaded.rotationInProgress false u.rotationInProgress
    lockout := fun factor =>
      if factor = .password then
        saveFactor (loaded.lockout factor) (lockoutClearUpdate factor) (u.lockout factor)
      else u.lockout factor
    passwordChangedAt :=
      savePath loaded.passwordChangedAt (some r.passwordChangedAt) u.passwordChangedAt }

/-- The notices that a reset switches on again. -/
def criticalSecurityNotificationEvents : List String :=
  ["locked_sign_in_correct_password", "password_reset", "password_changed", "two_factor_enabled",
    "two_factor_disabled", "second_factor_lockout", "backup_recipients_changed",
    "token_reuse_detected"]

def clearOptOuts : Store → Option User × Store :=
  Store.updateUser (fun _ => true) fun u => { u with
    notifications := fun event =>
      if event ∈ criticalSecurityNotificationEvents then none else u.notifications event }

/-- What a reset does once its credential is stored. -/
def finishReset (r : ResetPasswordRequest) (since : ℕ) : Req Unit := do
  -- an erasure may have claimed the account meanwhile
  let live ← .read .existsUser fun s => s.user.any fun u => !u.deletionPending
  if live then do
    let _ ← .db (.clearOptOuts r.newHash (since + 1)) clearOptOuts
    let _ ← .db (.suspendFor r.newHash (since + 1)) (suspendThirdPartyRecipients r.lastNonceBase)
  else .raise .tokenInvalid

/-- A reset whose link is good: the old sessions end, then the document is saved. -/
def resetLinked (r : ResetPasswordRequest) (loaded : User) (since : ℕ) : Req Unit := do
  revokeGranted loaded.authHash since r.nonceBase
  let saved ← .db (.writeCredential loaded.authHash since none) <|
    Store.storeCredential (fun _ => true) (r.save loaded)
  if saved then finishReset r since
  else .raise .tokenInvalid

def resetPassword (env : Deployment) (r : ResetPasswordRequest) : Req Unit :=
  match r.stateHash with
  | none => .raise .tokenInvalid
  | some stateHash => do
    let (loaded, since) ← loadAccount
    match loaded with
    | none => .raise .tokenInvalid
    | some user =>
      if user.deletionPending then .raise .tokenInvalid
      else if env.toLowerCase r.email ≠ env.toLowerCase user.email then .raise .emailMismatch
      else if stateHash ≠ env.generateStateHash user.authHash then .raise .tokenInvalid
      else resetLinked r user since

/-! ## Settings behind a proof -/

/-- The security notices to switch, with the value each gets. -/
structure NotificationRequest where
  authHash : String
  changes : List (String × Bool)

/-- The notices after a change. -/
def notificationFields (changes : List (String × Bool)) (u : User) : User :=
  { u with notifications := fun event =>
      match changes.find? fun change => decide (change.1 = event) with
      | some change => some change.2
      | none => u.notifications event }

def updateNotificationPreferences (env : Deployment) (r : NotificationRequest) : Req Unit :=
  if r.changes.isEmpty then .raise .nothingToUpdate
  else withProof env r.authHash fun user _ => do
    let updated ← .db (.writeNotifications user.authHash) <|
      Store.updateUser (fun u => decide (u.authHash = user.authHash)) (notificationFields r.changes)
    match updated with
    | none => .raise .staleProof
    | some _ => pure ()

/-- Replaces the backup recipients by an approved list. -/
def updateBackupRecipients (env : Deployment) (authHash : String) (r : RecipientListRequest) :
    Req RecipientListUpdate :=
  withProof env authHash fun user _ =>
    applyRecipientList env { r with provenAuthHash := user.authHash }

end HVault.Account
