import HVault.Account.Lockout

/-!
# The account and its sessions

One account as the sign-in code sees it: its user document, the refresh tokens, trusted devices,
device proofs and second-factor challenges it owns, and the per-user vault-key exclusion lock. A
request is a program whose accesses are single database statements, each named by its `Site`; a
transaction is one access.

A session, a device and a challenge carry one thing the server never stores: the stored password
hash that the sign-in they stem from was proven against (`provenWith`). A program only copies it
from one row to the next. The store also keeps a `History` that no program acts on; the laws of
the runs are stated with it.
-/

namespace HVault.Account

open Interleave Lockout

/-! ## Rows -/

/-- What a session or a device is known by. -/
structure DeviceInfo where
  userAgent : String
  ip : String
  fingerprint : String
  deriving DecidableEq, Repr

/-- A row of the refresh tokens. Once rotated it stays, with `usedAt` set, to detect reuse. -/
structure RefreshToken where
  id : ℕ
  tokenHash : String
  familyId : String
  deviceInfo : DeviceInfo
  usedAt : Option ℤ
  expiresAt : ℤ
  absoluteExpiresAt : Option ℤ
  provenWith : String
  deriving DecidableEq, Repr

/-- A row that lets a browser skip the second factor. -/
structure TrustedDevice where
  id : ℕ
  tokenHash : String
  deviceInfo : DeviceInfo
  expiresAt : ℤ
  lastUsedAt : Option ℤ
  provenWith : String
  deriving DecidableEq, Repr

/-- A row that exempts a browser from the password lockout. -/
structure DeviceProof where
  id : ℕ
  tokenHash : String
  expiresAt : ℤ
  singleUse : Bool
  failures : ℕ
  failuresSince : Option ℤ
  deriving DecidableEq, Repr

/-- A sign-in that waits for its second factor. -/
structure Challenge where
  jti : String
  expiresAt : ℤ
  consumedAt : Option ℤ
  provenWith : String
  deriving DecidableEq, Repr

/-- A vault key wrapped under the account's master key. -/
structure WrappedKey where
  encryptedVaultKey : String
  vaultKeyIv : String
  vaultKeyTag : String
  deriving DecidableEq, Repr

/-- Where a backup recipient stands. -/
inductive RecipientState where
  | pending
  | confirmed
  | suspended
  deriving DecidableEq, Repr

/-- An address a backup may be mailed to. -/
structure Recipient where
  email : String
  state : RecipientState
  confirmedAt : Option ℤ
  approvedAt : Option ℤ
  confirmationDue : Bool
  confirmationSentAt : Option ℤ
  confirmationAttempts : Option ℕ
  nonce : String
  deriving DecidableEq, Repr

/-- The user document, as far as the code modelled here reads and writes it. -/
structure User where
  email : String
  emailVerified : Option Bool
  authHash : String
  passwordChangedAt : Option ℤ
  vaultKey : WrappedKey
  /-- The key of an unfinished rotation. -/
  pendingVaultKey : Option WrappedKey
  /-- Absent on an account created before the field existed. -/
  vaultKeyVersion : Option ℕ
  rotationInProgress : Bool
  lastRotationKey : Option String
  deletionPending : Bool
  twoFactorEnabled : Bool
  lockout : LockoutFactor → FactorState
  /-- The security notices switched off or on, by event. -/
  notifications : String → Option Bool
  backupRecipients : List Recipient
  recipientsRevision : Option ℕ
  undeliverableNoticedAt : Option ℤ

/-- A lock that is held: by whom, and until when. -/
structure JobLock where
  lockedBy : String
  expiresAt : ℤ
  deriving DecidableEq, Repr

/-- A recorded detection of a replayed refresh token. `replayed` is the value that was replayed,
which the stored record does not carry. -/
structure ReuseRecord where
  familyId : String
  sessionsRevoked : ℕ
  trustedDevicesRevoked : ℕ
  revokedDeviceInfo : DeviceInfo
  replayed : String
  deriving DecidableEq, Repr

/-- A kind of row that a password change ends. -/
inductive RowKind where
  | session
  | device
  | challenge
  deriving DecidableEq, Repr

/-- What happened so far. No program acts on it. -/
structure History where
  /-- The refresh tokens issued, by hash. -/
  issued : List String
  /-- The families swept after a detected reuse. -/
  swept : List String
  /-- The kinds of rows ended by a password change, and the credential stored at that moment. -/
  ended : List (RowKind × String)
  /-- The credentials stored, the latest first. -/
  credentials : List String
  /-- How often the exclusion lock was taken. -/
  acquisitions : ℕ
  /-- The holders of the exclusion lock that have raised the fence and not lowered it. -/
  raised : List String
  /-- How many suspensions of the recipients were written. -/
  suspensions : ℕ
  /-- How many of them the last written list was computed after. -/
  approved : ℕ
  /-- Every nonce a recipient ever carried. -/
  nonces : List String
  /-- The nonces some recipient had carried when the last suspension was written. -/
  retired : List String
  /-- The confirmations that took, by address and nonce. -/
  confirmations : List (String × String)
  /-- The time. -/
  now : ℤ

/-- One account. -/
structure Store where
  user : Option User
  tokens : List RefreshToken
  trustedDevices : List TrustedDevice
  deviceProofs : List DeviceProof
  challenges : List Challenge
  rotationLock : Option JobLock
  reuseRecords : List ReuseRecord
  nextId : ℕ
  history : History

/-! ## Requests -/

/-- What the configuration and the libraries give: digests, addresses, topology, lifetimes. -/
structure Deployment where
  hashToken : String → String
  bcryptCompare : String → String → Bool
  /-- The digest of a credential that a reset link carries. -/
  generateStateHash : String → String
  /-- An address trimmed and in lower case. -/
  normalizeEmail : String → String
  toLowerCase : String → String
  supportsTransactions : Bool
  refreshTokenDays : ℕ
  refreshTokenRememberDays : ℕ
  trustedDeviceDays : ℕ

/-- What is wrong with the vault-key generation a request names: it is behind the account's, ahead of
it, or missing on an account that has rotated. -/
inductive StaleReason where
  | rotated
  | unreached
  | unnamed
  deriving DecidableEq, Repr

/-- What a request may be answered with besides its result. -/
inductive AccountError where
  /-- A failed database access; `transient` when a transaction is known not to have committed
  and may be run again. -/
  | database (transient : Bool)
  | tokenMissing
  | tokenInvalid
  | tokenExpired
  | tokenReuseDetected (familyId : String)
  | issueFailed
  | invalidCredentials
  | emailNotVerified
  | secondFactorInvalid
  | accountLocked
  | twoFactorNotEnabled
  | userNotFound
  | proofRefused
  | staleProof
  | recipientsChanged
  | rotationLockBusy
  | rotationInProgress
  | staleVaultKey (current : ℕ) (reason : StaleReason)
  | sessionInvalid
  | nothingToUpdate
  | interruptedRotation
  | rotationRefused
  | resealKeyMoved
  | credentialMoved
  | emailMismatch
  deriving DecidableEq, Repr

/-- The database statements. Where a law of the runs speaks of a statement, its name carries what
the law needs: the credential the request was proven with, or the row it has found. -/
inductive Site where
  | lockout (l : Lockout.Site)
  | loadUser | readLockout
  | readProof | consumeProof | openProofWindow | chargeProof | revokeProof | mintProof
  | countProofs | oldestProofs | evictProofs | extendProof
  | createToken (provenWith : String)
  | countSessions | oldestSessions | evictSessions
  | claimDevice | createDevice (provenWith : String)
  | countDevices | oldestDevices | evictDevices
  | createChallenge (provenWith : String)
  | readChallenge | consumeChallenge | spendCode
  | readClaimable | readRefusal | claimToken | rotateTransaction
  | createSuccessor (claimed : RefreshToken)
  | lookup | deleteExpired (found : RefreshToken)
  | reuseDeleteLive (found : RefreshToken)
  | reuseRevokeDevices (found : RefreshToken)
  | reuseRevokeProofs (found : RefreshToken)
  | reuseRevokeChallenges (found : RefreshToken)
  | reuseClaim (found : RefreshToken)
  | reuseRecord (found : RefreshToken)
  | reuseSweep (found : RefreshToken)
  | logoutToken | cleanExpired | cleanConsumed
  | readRecipients
  | writeRecipients (provenWith : String) (base : List Recipient)
  | suspendRecipients
  | confirmRecipient (email nonce : String)
  | readDue | claimDue | handBack
  | readFence | readGeneration | readPending | readWrapper | readRotationKey | reserveWrite
  /-- The writes that a proof of the password allows, with the credential it was checked against
  and how many credentials had been stored by then. -/
  | revokeTokens (provenWith : String) (since : ℕ)
  | revokeDevices (provenWith : String) (since : ℕ)
  | revokeProofs (provenWith : String) (since : ℕ)
  | revokeChallenges (provenWith : String) (since : ℕ)
  | suspendFor (provenWith : String) (since : ℕ)
  | writeCredential (provenWith : String) (since : ℕ) (version : Option ℕ)
  | clearOptOuts (provenWith : String) (since : ℕ)
  | writeNotifications (provenWith : String)
  | commitRotation (provenWith : String) (since : ℕ) (lowers : Option ℕ)
  | commitReseal (provenWith : String) (since : ℕ) (key : String) (version : ℕ) (lowers : Option ℕ)
  | existsUser | setCredential
  | acquireLock | releaseLock
  | probeLock (now : ℤ)
  | raiseFence
  /-- What lowers the fence names how often the lock had been taken when it was found free, or when
  the request itself had taken it; so does a commit that lowers it. -/
  | lowerFence (taken : ℕ)
  | recoverFence (taken : ℕ)
  | tick
  deriving DecidableEq, Repr

/-- A request with answer `α`. -/
abbrev Req (α : Type) := Prog Store Site AccountError α

/-! ## Statements on the user document -/

namespace Store

/-- Updates the user document when there is one and it passes `filter`; answers it as it was. -/
def updateUser (filter : User → Bool) (update : User → User) (s : Store) :
    Option User × Store :=
  match s.user with
  | some u => if filter u then (some u, { s with user := some (update u) }) else (none, s)
  | none => (none, s)

theorem updateUser_cases (filter : User → Bool) (update : User → User) (s : Store) :
    s.updateUser filter update = (none, s) ∨ ∃ u, s.user = some u ∧ filter u = true ∧
      s.updateUser filter update = (some u, { s with user := some (update u) }) := by
  unfold updateUser
  cases hu : s.user with
  | none => exact .inl rfl
  | some u =>
    by_cases hf : filter u = true
    · exact .inr ⟨u, rfl, hf, by simp [hf]⟩
    · exact .inl (by simp [hf])

/-- The account as the brake sees it. -/
def toLockout (s : Store) : Lockout.Store := s.user.map fun u => ⟨u.lockout, u.deletionPending⟩

/-- Puts back what the brake wrote. -/
def putLockout (after : Lockout.Store) (s : Store) : Store :=
  match s.user, after with
  | some u, some l => { s with user := some { u with lockout := l.state } }
  | _, _ => s

end Store

/-- A request of the brake, on the account. -/
def onLockout {α : Type} (p : Lockout.Req AccountError α) : Req α :=
  p.zoom Store.toLockout Store.putLockout .lockout

/-! ## A plain account -/

/-- A deployment for the runs written down: tokens are their own digests. -/
def plainDeployment (supportsTransactions : Bool) : Deployment where
  hashToken raw := raw
  bcryptCompare presented stored := decide (presented = stored)
  generateStateHash authHash := authHash
  normalizeEmail email := email
  toLowerCase email := email
  supportsTransactions
  refreshTokenDays := 7
  refreshTokenRememberDays := 30
  trustedDeviceDays := 30

/-- A verified account with the given recipients. -/
def plainUser (recipients : List Recipient) : User where
  email := "owner"
  emailVerified := some true
  authHash := "old"
  passwordChangedAt := none
  vaultKey := ⟨"key", "iv", "tag"⟩
  pendingVaultKey := none
  vaultKeyVersion := some 0
  rotationInProgress := false
  lastRotationKey := none
  deletionPending := false
  twoFactorEnabled := false
  lockout := fun factor => Lockout.lockoutClearUpdate factor
  notifications := fun _ => none
  backupRecipients := recipients
  recipientsRevision := some 0
  undeliverableNoticedAt := none

/-- Nothing happened yet but that recipients carry the given nonces. -/
def plainHistory (nonces : List String) : History where
  issued := []
  swept := []
  ended := []
  credentials := []
  acquisitions := 0
  raised := []
  suspensions := 0
  approved := 0
  nonces
  retired := []
  confirmations := []
  now := 0

/-- An account with no rows beside it. -/
def plainStore (u : User) : Store where
  user := some u
  tokens := []
  trustedDevices := []
  deviceProofs := []
  challenges := []
  rotationLock := none
  reuseRecords := []
  nextId := 0
  history := plainHistory (u.backupRecipients.map (·.nonce))

end HVault.Account
