import HVault.Data.FirstMatch
import HVault.Account.Store

/-!
# Signing in and staying signed in

The requests that make sessions and keep them: `login`, `login2fa`, `refresh`, `logout`, and the
housekeeping of the session rows. What a request reads off the clock and draws at random is part
of the request.

A refresh token is rotated by marking its row used and inserting a successor of the same family.
Where the database has transactions both are one statement; otherwise they are two. A row that was
used stays, so that presenting its value again is recognised as reuse.
-/

namespace HVault.Account

open Interleave Lockout FirstMatch

/-! ## Lifetimes -/

def dayMs : ℤ := 24 * 60 * 60 * 1000

/-- The most live sessions of an account. -/
def maxSessions : ℕ := 50

/-- The most trusted devices of an account. -/
def maxTrustedDevices : ℕ := 10

/-- The most device proofs of an account. -/
def maxDeviceProofsPerUser : ℕ := 50

/-- Wrong passwords a device proof survives inside its window. -/
def maxDeviceProofFailures : ℕ := 5

def deviceProofMs : ℤ := 30 * dayMs

def failureWindowMs : ℤ := 15 * 60 * 1000

def reuseDetectionWindowMs : ℤ := 7 * dayMs

def twoFactorChallengeSeconds : ℤ := 300

/-- How long a refresh token lives. -/
structure RefreshLifetime where
  expiresAt : ℤ
  absoluteExpiresAt : Option ℤ
  maxAgeMs : ℤ
  deriving DecidableEq, Repr

/-- An absolute deadline is carried forward unchanged; without one, a remembered sign-in mints
one and any other token slides. -/
def resolveRefreshLifetime (env : Deployment) (now : ℤ) (remember : Bool)
    (absoluteExpiresAt : Option ℤ) : RefreshLifetime :=
  match absoluteExpiresAt with
  | some existing => ⟨existing, some existing, max 0 (existing - now)⟩
  | none =>
    if remember then
      let rememberMs := env.refreshTokenRememberDays * dayMs
      ⟨now + rememberMs, some (now + rememberMs), rememberMs⟩
    else
      let standardMs := env.refreshTokenDays * dayMs
      ⟨now + standardMs, none, standardMs⟩

/-! ## Statements on the session rows -/

namespace Store

/-- Inserts a session row. -/
def insertToken (tokenHash familyId : String) (deviceInfo : DeviceInfo)
    (lifetime : RefreshLifetime) (provenWith : String) (s : Store) : Store :=
  { s with
    tokens := s.tokens ++ [⟨s.nextId, tokenHash, familyId, deviceInfo, none, lifetime.expiresAt,
      lifetime.absoluteExpiresAt, provenWith⟩]
    nextId := s.nextId + 1
    history := { s.history with issued := tokenHash :: s.history.issued } }

/-- Whether a row may be exchanged at `now`. -/
def claimable (tokenHash : String) (now : ℤ) (row : RefreshToken) : Bool :=
  decide (row.tokenHash = tokenHash) && row.usedAt.isNone && decide (now < row.expiresAt)

/-- Marks the row of a presented token used; answers it as it was. -/
def claimToken (tokenHash : String) (now usedAt : ℤ) (s : Store) : Option RefreshToken × Store :=
  let (claimed, tokens) :=
    findModify (claimable tokenHash now) (fun row => { row with usedAt := some usedAt }) s.tokens
  (claimed, { s with tokens })

/-- Deletes the session rows that pass; answers how many. -/
def deleteTokens (filter : RefreshToken → Bool) (s : Store) : ℕ × Store :=
  (s.tokens.countP filter, { s with tokens := s.tokens.filter fun row => !filter row })

/-- Deletes the first session row that passes; says whether there was one. -/
def deleteToken (filter : RefreshToken → Bool) (s : Store) : Bool × Store :=
  (s.tokens.any filter, { s with tokens := s.tokens.eraseP filter })

/-- A claim marks the first claimable row used, or finds none. -/
theorem claimToken_cases (tokenHash : String) (now usedAt : ℤ) (s : Store) :
    (s.claimToken tokenHash now usedAt = (none, s) ∧
        ∀ row ∈ s.tokens, claimable tokenHash now row = false) ∨
      ∃ row before after, s.tokens = before ++ row :: after ∧
        claimable tokenHash now row = true ∧
        s.claimToken tokenHash now usedAt = (some row,
          { s with tokens := before ++ { row with usedAt := some usedAt } :: after }) := by
  unfold claimToken
  rcases findModify_cases (claimable tokenHash now)
      (fun row => { row with usedAt := some usedAt }) s.tokens with
    ⟨heq, hnone⟩ | ⟨row, before, after, htokens, hrow, -, heq⟩
  · rw [heq]
    exact .inl ⟨rfl, hnone⟩
  · rw [heq]
    exact .inr ⟨row, before, after, htokens, hrow, rfl⟩

theorem of_claimable {tokenHash : String} {now : ℤ} {row : RefreshToken}
    (h : claimable tokenHash now row = true) :
    row.tokenHash = tokenHash ∧ row.usedAt = none ∧ now < row.expiresAt := by
  simpa [claimable, and_assoc] using h

def revokeTrustedDevices (s : Store) : ℕ × Store :=
  (s.trustedDevices.length, { s with trustedDevices := [] })

def revokeDeviceProofs (s : Store) : ℕ × Store :=
  (s.deviceProofs.length, { s with deviceProofs := [] })

def revokeTwoFactorChallenges (s : Store) : ℕ × Store :=
  (s.challenges.length, { s with challenges := [] })

end Store

/-! ## Caps -/

/-- Evicts the oldest rows over a cap. `ids` lists the rows counted, oldest first; `remove` deletes
those of the given ids that still count. -/
def enforceCap (count oldest evict : Site) (cap : ℕ) (ids : Store → List ℕ)
    (remove : List ℕ → Store → Store) : Req Unit := do
  let live ← .read count fun s => (ids s).length
  if live ≤ cap then pure ()
  else do
    let excess ← .read oldest fun s => (ids s).take (live - cap)
    .db evict fun s => ((), remove excess s)

/-- The cap on sessions counts and evicts unused rows alone. -/
def enforceSessionCap : Req Unit :=
  enforceCap .countSessions .oldestSessions .evictSessions maxSessions
    (fun s => (s.tokens.filter (·.usedAt.isNone)).map (·.id))
    fun excess s => (s.deleteTokens fun row => row.usedAt.isNone && excess.contains row.id).2

def enforceTrustedDeviceCap : Req Unit :=
  enforceCap .countDevices .oldestDevices .evictDevices maxTrustedDevices
    (fun s => s.trustedDevices.map (·.id))
    fun excess s => { s with
      trustedDevices := s.trustedDevices.filter fun row => !excess.contains row.id }

def enforceDeviceProofCap : Req Unit :=
  enforceCap .countProofs .oldestProofs .evictProofs maxDeviceProofsPerUser
    (fun s => s.deviceProofs.map (·.id))
    fun excess s => { s with
      deviceProofs := s.deviceProofs.filter fun row => !excess.contains row.id }

/-! ## Device proofs -/

/-- The live row a presented device proof names, if any. -/
def findPresentedDeviceProof (env : Deployment) (cookie : Option String) (now : ℤ) :
    Req (Option DeviceProof) :=
  match cookie with
  | none => pure none
  | some raw => .read .readProof fun s => s.deviceProofs.find? fun row =>
      decide (row.tokenHash = env.hashToken raw) && decide (now < row.expiresAt)

/-- Deletes one proof; says whether this call did. -/
def consumeDeviceProof (proof : DeviceProof) : Req Bool :=
  .db .consumeProof fun s => (s.deviceProofs.any fun row => decide (row.id = proof.id),
    { s with deviceProofs := s.deviceProofs.filter fun row => decide (row.id ≠ proof.id) })

/-- Inserts a proof. -/
def mint (env : Deployment) (raw : String) (now lifetimeMs : ℤ) (singleUse : Bool) : Req Unit := do
  .db .mintProof fun s => ((), { s with
    deviceProofs := s.deviceProofs ++
      [⟨s.nextId, env.hashToken raw, now + lifetimeMs, singleUse, 0, none⟩]
    nextId := s.nextId + 1 })
  enforceDeviceProofCap

/-- Consumes the proof presented, if any. -/
def consumePresented : Option DeviceProof → Req Unit
  | none => pure ()
  | some proof => do
    let _ ← consumeDeviceProof proof

/-- The proof a completed sign-in earns. Best effort: a failure is swallowed. -/
def issueDeviceProof (env : Deployment) (presented : Option DeviceProof) (raw : String) (now : ℤ) :
    Req Unit := do
  let _ ← Prog.attempt do
    consumePresented presented
    mint env raw now deviceProofMs false

/-- Slides the expiry of a presented proof that is not for a single use. -/
def slideProof (now : ℤ) : Option DeviceProof → Req Unit
  | none => pure ()
  | some proof =>
    if proof.singleUse then pure ()
    else .db .extendProof fun s => ((), { s with
      deviceProofs := s.deviceProofs.map fun row =>
        if row.id = proof.id then { row with expiresAt := now + deviceProofMs } else row })

/-- Slides the expiry of the proof a refresh presented. Best effort. -/
def extendPresentedDeviceProof (env : Deployment) (cookie : Option String) (now : ℤ) :
    Req Unit := do
  let _ ← Prog.attempt do
    let presented ← findPresentedDeviceProof env cookie now
    slideProof now presented

/-- The failures a proof has after one more wrong password, if it is still there. -/
def chargeProof (proof : DeviceProof) (now : ℤ) : Req (Option ℕ) := do
  let opened ← .db .openProofWindow fun s =>
    let opens := fun row : DeviceProof => decide (row.id = proof.id) &&
      match row.failuresSince with
      | none => true
      | some since => decide (since ≤ now - failureWindowMs)
    let (found, rows) := findModify opens
      (fun row => { row with failures := 1, failuresSince := some now }) s.deviceProofs
    (found.isSome, { s with deviceProofs := rows })
  if opened then pure (some 1)
  else .db .chargeProof fun s =>
    let (found, rows) := findModify (fun row => decide (row.id = proof.id))
      (fun row => { row with failures := row.failures + 1 }) s.deviceProofs
    (found.map (·.failures + 1), { s with deviceProofs := rows })

/-- Charges a wrong password to the proof it came with, and revokes the proof at the limit. -/
def recordProofFailure (proof : DeviceProof) (now : ℤ) : Req Unit := do
  let failures ← chargeProof proof now
  match failures with
  | none => pure ()
  | some failures =>
    if failures < maxDeviceProofFailures then pure ()
    else .db .revokeProof fun s => ((), { s with
      deviceProofs := s.deviceProofs.filter fun row => decide (row.id ≠ proof.id) })

/-! ## Account status -/

/-- The refusals an account can be in at `now`. -/
structure AccountStatus where
  deletionPending : Bool
  emailUnverified : Bool
  passwordLocked : Bool
  secondFactorLocked : Bool
  deriving DecidableEq, Repr

def evaluateAccountStatus (now : ℤ) (u : User) : AccountStatus where
  deletionPending := u.deletionPending
  emailUnverified := decide (u.emailVerified ≠ some true)
  passwordLocked := !notRunning now (u.lockout .password)
  secondFactorLocked := !notRunning now (u.lockout .secondFactor)

/-! ## Login -/

/-- A sign-in with the password. -/
structure LoginRequest where
  email : String
  authHash : String
  deviceInfo : DeviceInfo
  rememberMe : Bool
  /-- The cookies. -/
  deviceProof : Option String
  trustedDevice : Option String
  /-- What the request draws. -/
  refreshTokenRaw : String
  familyId : String
  trustedDeviceRaw : String
  deviceProofRaw : String
  jti : String
  newEpisodeId : String
  /-- The clock: at the proof lookup, when the status is evaluated, at the probe of the lock, and
  at the end. -/
  presentedAt : ℤ
  statusAt : ℤ
  probedAt : ℤ
  finishedAt : ℤ

/-- What a sign-in is answered with. -/
inductive SignIn where
  | session (refreshToken : String)
  | twoFactorRequired (jti : String)
  deriving DecidableEq, Repr

/-- What a checked password leaves for the rest of the sign-in. -/
structure Checked where
  user : User
  status : AccountStatus
  presented : Option DeviceProof

/-- Whether a proof exempts the sign-in from the lockout. A proof for a single use is spent by the
first right password. -/
def provenBy (isMatch : Bool) : Option DeviceProof → Req Bool
  | none => pure false
  | some proof =>
    if proof.singleUse && isMatch then consumeDeviceProof proof else pure true

/-- The answer to a wrong password, which is counted on the proof or on the account. -/
def refuseWrongPassword (r : LoginRequest) (presented : Option DeviceProof) : Req Checked := do
  match presented with
  | some proof => recordProofFailure proof r.statusAt
  | none => do
    let _ ← onLockout (registerFailedAuthAttempt .password r.statusAt r.newEpisodeId)
  .raise .invalidCredentials

/-- Discharges a password lockout that was served; answers the document as the request goes on
with it. -/
def dischargeServedPassword (status : AccountStatus) (u : User) : Req User :=
  match (u.lockout .password).deadline with
  | none => pure u
  | some deadline =>
    if status.passwordLocked then pure u
    else do
      let _ ← onLockout <| discharge .password (.served deadline) fun l =>
        match (l.state .password).deadline with
        | none => false
        | some t => decide (t ≤ deadline)
      pure { u with lockout := fun factor =>
        if factor = .password then lockoutClearUpdate .password else u.lockout factor }

/-- Whether the exclusion lock is held and unexpired at `now`. -/
def isVaultRotationLockHeld (now : ℤ) (s : Store) : Bool :=
  match s.rotationLock with
  | none => false
  | some lock => decide (now < lock.expiresAt)

/-- Lowers the fence a crashed rotation left up: if it was up when the account was read and the
lock is free when probed. -/
def recoverInterruptedRotation (probedAt : ℤ) (u : User) : Req Unit :=
  if u.rotationInProgress then do
    let (held, taken) ← .read (.probeLock probedAt) fun s =>
      (isVaultRotationLockHeld probedAt s, s.history.acquisitions)
    if held then pure ()
    else do
      let _ ← .db (.recoverFence taken) <|
        Store.updateUser (fun _ => true) fun u => { u with rotationInProgress := false }
  else pure ()

/-- The password step, up to the point where the sign-in may be completed. -/
def checkPassword (env : Deployment) (r : LoginRequest) : Req Checked := do
  let presented ← findPresentedDeviceProof env r.deviceProof r.presentedAt
  let loaded ← .read .loadUser fun s => s.user.filter fun u => decide (u.email = r.email)
  match loaded with
  | none => .raise .invalidCredentials
  | some user =>
    let isMatch := env.bcryptCompare r.authHash user.authHash
    let status := evaluateAccountStatus r.statusAt user
    if status.deletionPending then .raise .invalidCredentials
    else do
      let proven ← provenBy isMatch presented
      if status.passwordLocked && !proven then do
        onLockout (extendPasswordLockout r.statusAt r.statusAt r.newEpisodeId)
        .raise .invalidCredentials
      else if isMatch && status.emailUnverified then .raise .emailNotVerified
      else if !isMatch then refuseWrongPassword r presented
      else do
        let user ← dischargeServedPassword status user
        recoverInterruptedRotation r.probedAt user
        pure ⟨user, status, presented⟩

/-- What a completed sign-in clears of the two factors. -/
def dischargeCompletion (user : User) (status : AccountStatus) (now : ℤ) : Req Unit :=
  onLockout <| dischargeOnCompletion ⟨user.lockout, user.deletionPending⟩
    status.passwordLocked status.secondFactorLocked now

/-- Issues the session of a completed sign-in. -/
def issueSession (env : Deployment) (refreshTokenRaw familyId : String) (deviceInfo : DeviceInfo)
    (remember : Bool) (now : ℤ) (provenWith : String) : Req Unit := do
  let lifetime := resolveRefreshLifetime env now remember none
  .db (.createToken provenWith) fun s =>
    ((), s.insertToken (env.hashToken refreshTokenRaw) familyId deviceInfo lifetime provenWith)
  enforceSessionCap

/-- Completes a sign-in that needs no code. -/
def finishLogin (env : Deployment) (r : LoginRequest) (checked : Checked) : Req SignIn := do
  dischargeCompletion checked.user checked.status r.finishedAt
  issueSession env r.refreshTokenRaw r.familyId r.deviceInfo r.rememberMe r.finishedAt
    checked.user.authHash
  issueDeviceProof env checked.presented r.deviceProofRaw r.finishedAt
  pure (.session r.refreshTokenRaw)

/-- Inserts a trusted device. -/
def createTrustedDevice (env : Deployment) (raw : String) (deviceInfo : DeviceInfo) (expiresAt : ℤ)
    (lastUsedAt : Option ℤ) (provenWith : String) : Req Unit :=
  .db (.createDevice provenWith) fun s => ((), { s with
    trustedDevices := s.trustedDevices ++
      [⟨s.nextId, env.hashToken raw, deviceInfo, expiresAt, lastUsedAt, provenWith⟩]
    nextId := s.nextId + 1 })

/-- Burns a presented trusted device; answers it. -/
def claimTrustedDevice (env : Deployment) (cookie : Option String) (now : ℤ) :
    Req (Option TrustedDevice) :=
  match cookie with
  | none => pure none
  | some raw => .db .claimDevice fun s =>
    let mine := fun row : TrustedDevice =>
      decide (row.tokenHash = env.hashToken raw) && decide (now < row.expiresAt)
    (s.trustedDevices.find? mine, { s with trustedDevices := s.trustedDevices.eraseP mine })

/-- Writes the challenge a code has to answer. -/
def issueTwoFactorChallenge (jti : String) (now : ℤ) (provenWith : String) : Req Unit :=
  .db (.createChallenge provenWith) fun s => ((), { s with
    challenges := s.challenges ++
      [⟨jti, (now / 1000 + twoFactorChallengeSeconds) * 1000, none, provenWith⟩] })

/-- What follows a right password: the sign-in completes, or asks for a code. -/
def completeLogin (env : Deployment) (r : LoginRequest) (checked : Checked) : Req SignIn :=
  if checked.user.twoFactorEnabled then do
    let device ← claimTrustedDevice env r.trustedDevice r.finishedAt
    match device with
    | some record => do
      -- the trust is rotated and its deadline carried forward
      createTrustedDevice env r.trustedDeviceRaw r.deviceInfo record.expiresAt (some r.finishedAt)
        checked.user.authHash
      finishLogin env r checked
    | none => do
      issueTwoFactorChallenge r.jti r.finishedAt checked.user.authHash
      pure (.twoFactorRequired r.jti)
  else finishLogin env r checked

/-- The sign-in with a password. -/
def login (env : Deployment) (r : LoginRequest) : Req SignIn := do
  let checked ← checkPassword env r
  completeLogin env r checked

/-! ## Login with a code -/

/-- What a submitted code was found to be. -/
inductive CodeKind where
  | totp
  | backupCode
  deriving DecidableEq, Repr

/-- A sign-in's second step. The signed token is checked before anything is read: `challengeId`
and `remember` are what a genuine one names. `code` is what the verifier found, `codeUnspent`
whether the compare-and-set of the code lands (`Auth.SecondFactor` is about those two). -/
structure Login2faRequest where
  challengeId : Option String
  remember : Bool
  code : Option CodeKind
  codeUnspent : Bool
  deviceInfo : DeviceInfo
  deviceProof : Option String
  refreshTokenRaw : String
  familyId : String
  trustedDeviceRaw : String
  deviceProofRaw : String
  newEpisodeId : String
  openedAt : ℤ
  statusAt : ℤ
  verifiedAt : ℤ
  consumedAt : ℤ
  finishedAt : ℤ

/-- Whether a challenge may still complete a sign-in. -/
def openChallenge (jti : String) (now : ℤ) (row : Challenge) : Bool :=
  decide (row.jti = jti) && row.consumedAt.isNone && decide (now < row.expiresAt)

/-- Discharges a served second-factor lockout, if there is one. -/
def dischargeServedCode (now : ℤ) (state : FactorState) : Req Unit :=
  match state.deadline with
  | none => pure ()
  | some _ => onLockout (dischargeServedSecondFactor now)

/-- The verifier, on the second factor's state alone. -/
def verifySecondFactor (r : Login2faRequest) : Req CodeKind := do
  let state ← .read .readLockout fun s =>
    (s.user.map fun u => u.lockout .secondFactor).getD (lockoutClearUpdate .secondFactor)
  if !notRunning r.verifiedAt state then .raise .accountLocked
  else do
    dischargeServedCode r.verifiedAt state
    match r.code with
    | some kind => pure kind
    | none => do
      let _ ← onLockout (registerFailedAuthAttempt .secondFactor r.verifiedAt r.newEpisodeId)
      .raise .secondFactorInvalid

/-- Consumes the challenge; answers it as it was. -/
def consumeTwoFactorChallenge (jti : String) (now : ℤ) : Req (Option Challenge) :=
  .db .consumeChallenge fun s =>
    let (found, rows) := findModify (openChallenge jti now)
      (fun row => { row with consumedAt := some now }) s.challenges
    (found, { s with challenges := rows })

/-- Grants the device the right to skip the code. -/
def grantTrustedDevice (env : Deployment) (r : Login2faRequest) (provenWith : String) :
    Req Unit := do
  createTrustedDevice env r.trustedDeviceRaw r.deviceInfo
    (r.finishedAt + env.trustedDeviceDays * dayMs) none provenWith
  enforceTrustedDeviceCap

/-- Grants it on a remembered sign-in with a real code. -/
def grantIfRemembered (env : Deployment) (r : Login2faRequest) (kind : CodeKind)
    (provenWith : String) : Req Unit :=
  if r.remember && decide (kind ≠ .backupCode) then grantTrustedDevice env r provenWith
  else pure ()

/-- Completes a sign-in whose code was right. -/
def finishLogin2fa (env : Deployment) (r : Login2faRequest) (user : User)
    (presented : Option DeviceProof) (kind : CodeKind) (provenWith : String) : Req SignIn := do
  dischargeCompletion user (evaluateAccountStatus r.statusAt user) r.finishedAt
  issueSession env r.refreshTokenRaw r.familyId r.deviceInfo r.remember r.finishedAt provenWith
  issueDeviceProof env presented r.deviceProofRaw r.finishedAt
  grantIfRemembered env r kind provenWith
  pure (.session r.refreshTokenRaw)

/-- Checks the code and consumes the challenge, then the code. -/
def spendChallenge (r : Login2faRequest) (challengeId : String) : Req (CodeKind × String) := do
  let kind ← verifySecondFactor r
  let consumed ← consumeTwoFactorChallenge challengeId r.consumedAt
  match consumed with
  | none => .raise .tokenInvalid
  | some challenge => do
    let spent ← .read .spendCode fun s => s.user.isSome && r.codeUnspent
    if !spent then .raise .tokenInvalid
    else pure (kind, challenge.provenWith)

/-- The second step of a sign-in. -/
def login2fa (env : Deployment) (r : Login2faRequest) : Req SignIn := do
  match r.challengeId with
  | none => .raise .tokenInvalid
  | some challengeId => do
    let isOpen ← .read .readChallenge fun s => s.challenges.any (openChallenge challengeId r.openedAt)
    if !isOpen then .raise .tokenInvalid
    else do
      let loaded ← .read .loadUser (·.user)
      match loaded with
      | none => .raise .tokenInvalid
      | some user =>
        if user.deletionPending then .raise .tokenInvalid
        else if !user.twoFactorEnabled then .raise .twoFactorNotEnabled
        else do
          let presented ← findPresentedDeviceProof env r.deviceProof r.statusAt
          let (kind, provenWith) ← spendChallenge r challengeId
          finishLogin2fa env r user presented kind provenWith

/-! ## Refresh -/

/-- An exchange of a refresh token. `attempts` is how often the transaction is run again at most;
the clock readings of an attempt are indexed by the attempts left after it. -/
structure RefreshRequest where
  token : Option String
  newRefreshTokenRaw : String
  deviceProof : Option String
  attempts : ℕ
  claimableAt : ℤ
  claimedAt : ℕ → ℤ
  usedAt : ℕ → ℤ
  rotatedAt : ℕ → ℤ
  classifiedAt : ℤ
  extendedAt : ℤ

/-- Whether the account may not be served: gone, being erased, or never verified. -/
def accountRefreshRefusal (s : Store) : Bool :=
  match s.user with
  | none => true
  | some u => u.deletionPending || decide (u.emailVerified ≠ some true)

/-- Inserts the successor of a claimed row. -/
def createSuccessor (env : Deployment) (r : RefreshRequest) (now : ℤ) (claimed : RefreshToken)
    (s : Store) : Store :=
  s.insertToken (env.hashToken r.newRefreshTokenRaw) claimed.familyId claimed.deviceInfo
    (resolveRefreshLifetime env now false claimed.absoluteExpiresAt) claimed.provenWith

/-- What one run of the transaction came to. -/
inductive Rotation where
  | nothingClaimed
  | refused
  | rotated
  deriving DecidableEq, Repr

/-- One run of the transaction: the claim and the successor, or neither. -/
def rotateOnce (env : Deployment) (r : RefreshRequest) (tokenHash : String) (attempt : ℕ)
    (s : Store) : Rotation × Store :=
  match s.claimToken tokenHash (r.claimedAt attempt) (r.usedAt attempt) with
  | (none, _) => (.nothingClaimed, s)
  | (some claimed, s') =>
    -- a refusal throws, which undoes the claim
    if accountRefreshRefusal s then (.refused, s)
    else (.rotated, createSuccessor env r (r.rotatedAt attempt) claimed s')

/-- The transaction changed nothing, or claimed a row and inserted its successor. -/
theorem rotateOnce_cases (env : Deployment) (r : RefreshRequest) (tokenHash : String)
    (attempt : ℕ) (s : Store) :
    (rotateOnce env r tokenHash attempt s = (.nothingClaimed, s) ∧
        ∀ row ∈ s.tokens, Store.claimable tokenHash (r.claimedAt attempt) row = false) ∨
      rotateOnce env r tokenHash attempt s = (.refused, s) ∨
      ∃ row before after, s.tokens = before ++ row :: after ∧
        Store.claimable tokenHash (r.claimedAt attempt) row = true ∧
        accountRefreshRefusal s = false ∧
        rotateOnce env r tokenHash attempt s = (.rotated, createSuccessor env r
          (r.rotatedAt attempt) row { s with
            tokens := before ++ { row with usedAt := some (r.usedAt attempt) } :: after }) := by
  unfold rotateOnce
  rcases s.claimToken_cases tokenHash (r.claimedAt attempt) (r.usedAt attempt) with
    ⟨heq, hnone⟩ | ⟨row, before, after, htokens, hrow, heq⟩
  · rw [heq]
    exact .inl ⟨rfl, hnone⟩
  · rw [heq]
    dsimp only
    split
    · exact .inr (.inl rfl)
    · rename_i hserved
      exact .inr (.inr ⟨row, before, after, htokens, hrow, by simpa using hserved, rfl⟩)

/-- The transaction, run again while it fails for a reason that is known to have undone it. -/
def rotateInTransaction (env : Deployment) (r : RefreshRequest) (tokenHash : String) :
    ℕ → Req Rotation
  | 0 => .db .rotateTransaction (rotateOnce env r tokenHash 0)
  | attempts + 1 =>
    (Prog.db .rotateTransaction (rotateOnce env r tokenHash (attempts + 1))).orElse fun
      | .database true => rotateInTransaction env r tokenHash attempts
      | e => .raise e

/-- The account gate of the path without transactions, ahead of the claim. -/
def gateClaimable (r : RefreshRequest) (tokenHash : String) : Req Unit := do
  let found ← .read .readClaimable fun s => s.tokens.any (Store.claimable tokenHash r.claimableAt)
  if found then do
    let refusal ← .read .readRefusal accountRefreshRefusal
    if refusal then .raise .tokenInvalid
    else pure ()
  else pure ()

/-- The claim and the successor, one after the other. -/
def rotateSequentially (env : Deployment) (r : RefreshRequest) (tokenHash : String) :
    Req Rotation := do
  gateClaimable r tokenHash
  let claimed ← .db .claimToken (Store.claimToken tokenHash (r.claimedAt 0) (r.usedAt 0))
  match claimed with
  | none => pure .nothingClaimed
  | some row => do
    let created ← (Prog.db (.createSuccessor row) fun s =>
      ((), createSuccessor env r (r.rotatedAt 0) row s)).attempt
    match created with
    | .ok () => pure .rotated
    | .error _ => .raise .issueFailed

/-- Records a detected reuse, for the request that removed the replayed row. A record that fails is
logged and does not stop the rest. -/
def recordReuse (found : RefreshToken) (live devices : ℕ) (detection : Bool) : Req Unit :=
  if detection then do
    let _ ← (Prog.db (.reuseRecord found) fun s => ((), { s with
      reuseRecords := ⟨found.familyId, live, devices, found.deviceInfo, found.tokenHash⟩ ::
        s.reuseRecords })).attempt
  else pure ()

/-- The detection of a reuse: the family's live rows go, every device, proof and challenge of the
account, then the replayed row itself. Who deletes that one records the reuse. -/
def detectReuse (found : RefreshToken) : Req Unit := do
  let live ← .db (.reuseDeleteLive found) <| Store.deleteTokens fun row =>
    decide (row.familyId = found.familyId) && row.usedAt.isNone
  let devices ← .db (.reuseRevokeDevices found) Store.revokeTrustedDevices
  let _ ← .db (.reuseRevokeProofs found) Store.revokeDeviceProofs
  let _ ← .db (.reuseRevokeChallenges found) Store.revokeTwoFactorChallenges
  let detection ← .db (.reuseClaim found) <| Store.deleteToken fun row => decide (row.id = found.id)
  recordReuse found live devices detection

/-- Deletes every row of a family. -/
def Store.sweepFamily (familyId : String) (s : Store) : ℕ × Store :=
  let (deleted, s') := s.deleteTokens fun row => decide (row.familyId = familyId)
  (deleted, { s' with history := { s'.history with swept := familyId :: s'.history.swept } })

/-- The answer to a replayed token: the detection, then the rest of the family. -/
def endReusedFamily {α : Type} (found : RefreshToken) : Req α := do
  detectReuse found
  let _ ← .db (.reuseSweep found) (Store.sweepFamily found.familyId)
  .raise (.tokenReuseDetected found.familyId)

/-- The answer when nothing could be claimed: the row is gone, expired, or used. -/
def classifyUnclaimed {α : Type} (r : RefreshRequest) (tokenHash : String) : Req α := do
  let existing ← .read .lookup fun s => s.tokens.find? fun row => decide (row.tokenHash = tokenHash)
  match existing with
  | none => .raise .tokenInvalid
  | some found =>
    if found.usedAt.isNone ∧ found.expiresAt < r.classifiedAt then do
      let _ ← .db (.deleteExpired found) <| Store.deleteToken fun row => decide (row.id = found.id)
      .raise .tokenExpired
    else endReusedFamily found

/-- The claim and the successor, as the topology allows. -/
def rotate (env : Deployment) (r : RefreshRequest) (tokenHash : String) : Req Rotation :=
  if env.supportsTransactions then rotateInTransaction env r tokenHash r.attempts
  else rotateSequentially env r tokenHash

/-- Exchanges a refresh token for its successor; answers the successor's raw value. -/
def refresh (env : Deployment) (r : RefreshRequest) : Req String :=
  match r.token with
  | none => .raise .tokenMissing
  | some token => do
    let rotation ← rotate env r (env.hashToken token)
    match rotation with
    | .refused => .raise .tokenInvalid
    | .nothingClaimed => classifyUnclaimed r (env.hashToken token)
    | .rotated => do
      extendPresentedDeviceProof env r.deviceProof r.extendedAt
      pure r.newRefreshTokenRaw

/-! ## Leaving and housekeeping -/

/-- Deletes the session of a presented token. -/
def logout (env : Deployment) (token : Option String) : Req Unit :=
  match token with
  | none => pure ()
  | some token => do
    let _ ← .db .logoutToken <| Store.deleteToken fun row =>
      decide (row.tokenHash = env.hashToken token)

/-- The cleanup of the session rows: expired unused ones, and used ones past the window in which
their reuse is detected. -/
def tokenCleanup (expiredAt consumedAt : ℤ) : Req Unit := do
  let _ ← .db .cleanExpired <| Store.deleteTokens fun row =>
    row.usedAt.isNone && decide (row.expiresAt ≤ expiredAt)
  let _ ← .db .cleanConsumed <| Store.deleteTokens fun row =>
    match row.usedAt with
    | none => false
    | some usedAt => decide (usedAt < consumedAt - reuseDetectionWindowMs)

end HVault.Account
