import HVault.Account.Sessions

/-!
# What a sign-in does, statement by statement

`SignInEffect` lists the statements of `login` and `login2fa` except the one that issues the
session, and the laws below say that every part of the two programs consists of them. The laws of
the runs take what they need from it: which rows a statement may touch, and with which credential a
new row was proven.
-/

namespace HVault.Account

open Interleave Lockout FirstMatch Prog

/-- Whether a statement writes the device proofs. -/
def Site.writesProofs : Site → Bool
  | .consumeProof => true
  | .openProofWindow => true
  | .chargeProof => true
  | .revokeProof => true
  | .mintProof => true
  | .evictProofs => true
  | .extendProof => true
  | _ => false

/-- The end of the oldest sessions over the cap. -/
def Store.evictSessions (excess : List ℕ) (s : Store) : Store :=
  (s.deleteTokens fun row => row.usedAt.isNone && excess.contains row.id).2

/-- Lowers the fence. -/
def Store.recoverFence (s : Store) : Store :=
  (s.updateUser (fun _ => true) fun u => { u with rotationInProgress := false }).2

/-- One statement of a sign-in that does not issue its session. Only where `recovers` is set may it
be the one that lowers a fence. -/
inductive SignInEffect (recovers : Bool) : Site → Store → Store → Prop
  | same (l : Site) (s : Store) : SignInEffect recovers l s s
  | proofs (l : Site) (s : Store) (deviceProofs : List DeviceProof) (nextId : ℕ)
      (hl : l.writesProofs = true) : SignInEffect recovers l s { s with deviceProofs, nextId }
  | lockout (l : Lockout.Site) (s : Store) (after : Lockout.Store) :
      SignInEffect recovers (.lockout l) s (s.putLockout after)
  | recoverFence (taken : ℕ) (s : Store) (hrecovers : recovers = true) :
      SignInEffect recovers (.recoverFence taken) s s.recoverFence
  | evictSessions (s : Store) (excess : List ℕ) :
      SignInEffect recovers .evictSessions s (s.evictSessions excess)
  | createDevice (s : Store) (row : TrustedDevice) :
      SignInEffect recovers (.createDevice row.provenWith) s { s with
        trustedDevices := s.trustedDevices ++ [row], nextId := s.nextId + 1 }
  | claimDevice (s : Store) (mine : TrustedDevice → Bool) :
      SignInEffect recovers .claimDevice s { s with trustedDevices := s.trustedDevices.eraseP mine }
  | evictDevices (s : Store) (stays : TrustedDevice → Bool) :
      SignInEffect recovers .evictDevices s { s with trustedDevices := s.trustedDevices.filter stays }
  | createChallenge (s : Store) (row : Challenge) :
      SignInEffect recovers (.createChallenge row.provenWith) s { s with
        challenges := s.challenges ++ [row] }
  | consumeChallenge (s : Store) (jti : String) (now : ℤ) :
      SignInEffect recovers .consumeChallenge s { s with
        challenges := (findModify (openChallenge jti now)
          (fun row => { row with consumedAt := some now }) s.challenges).2 }

/-- The accesses of a part of a sign-in that does not issue its session. -/
abbrev SignInEach {α : Type} (recovers : Bool) (p : Req α) : Prop :=
  p.Each (fun _ => True) (SignInEffect recovers)

variable {recovers : Bool}

theorem each_signInRead {α : Type} {l : Site} {f : Store → α} : SignInEach recovers (.read l f : Req α) :=
  each_read fun s _ => .same l s

/-- A request of the brake touches the lockout state alone. -/
theorem each_onLockout {α : Type} (p : Lockout.Req AccountError α) : SignInEach recovers (onLockout p) := by
  induction p with
  | ret a | raise e => exact trivial
  | access l f k ih => exact ⟨fun s _ => .lockout l s _, ih⟩

/-! ## Caps and proofs -/

theorem each_enforceCap {count oldest evict : Site} {cap : ℕ} {ids : Store → List ℕ}
    {remove : List ℕ → Store → Store} (h : ∀ excess s, SignInEffect recovers evict s (remove excess s)) :
    SignInEach recovers (enforceCap count oldest evict cap ids remove) := by
  refine .bind each_signInRead fun live => ?_
  split
  · exact each_ret _
  · exact .bind each_signInRead fun excess => each_db fun s _ => h excess s

theorem each_enforceSessionCap : SignInEach recovers enforceSessionCap :=
  each_enforceCap fun excess s => .evictSessions s excess

theorem each_enforceTrustedDeviceCap : SignInEach recovers enforceTrustedDeviceCap :=
  each_enforceCap fun _ s => .evictDevices s _

theorem each_enforceDeviceProofCap : SignInEach recovers enforceDeviceProofCap :=
  each_enforceCap fun _ s => .proofs _ s _ s.nextId rfl

variable (env : Deployment)

theorem each_findPresentedDeviceProof (cookie : Option String) (now : ℤ) :
    SignInEach recovers (findPresentedDeviceProof env cookie now) := by
  unfold findPresentedDeviceProof
  split
  · exact each_ret _
  · exact each_signInRead

theorem each_consumeDeviceProof (proof : DeviceProof) : SignInEach recovers (consumeDeviceProof proof) :=
  each_db fun s _ => .proofs _ s _ s.nextId rfl

theorem each_issueDeviceProof (presented : Option DeviceProof) (raw : String) (now : ℤ) :
    SignInEach recovers (issueDeviceProof env presented raw now) := by
  refine .bind (Prog.Each.attempt (.bind ?_ fun _ => ?_)) fun _ => each_ret _
  · unfold consumePresented
    split
    · exact each_ret _
    · exact .bind (each_consumeDeviceProof _) fun _ => each_ret _
  · exact .bind (each_db fun s _ => .proofs _ s _ (s.nextId + 1) rfl)
      fun _ => each_enforceDeviceProofCap

theorem each_recordProofFailure (proof : DeviceProof) (now : ℤ) :
    SignInEach recovers (recordProofFailure proof now) := by
  refine .bind (.bind (each_db fun s _ => .proofs _ s _ s.nextId rfl) fun opened => ?_)
    fun failures => ?_
  · split
    · exact each_ret _
    · exact each_db fun s _ => .proofs _ s _ s.nextId rfl
  · split
    · exact each_ret _
    · split
      · exact each_ret _
      · exact each_db fun s _ => .proofs _ s _ s.nextId rfl

/-! ## The password step -/

theorem each_provenBy (isMatch : Bool) (presented : Option DeviceProof) :
    SignInEach recovers (provenBy isMatch presented) := by
  unfold provenBy
  split
  · exact each_ret _
  · split
    · exact each_consumeDeviceProof _
    · exact each_ret _

theorem each_refuseWrongPassword (r : LoginRequest) (presented : Option DeviceProof) :
    SignInEach recovers (refuseWrongPassword r presented) := by
  unfold refuseWrongPassword
  split
  · exact .bind (each_recordProofFailure _ _) fun _ => each_raise _
  · exact .bind (each_onLockout _) fun _ => each_raise _

theorem each_dischargeServedPassword (status : AccountStatus) (u : User) :
    SignInEach recovers (dischargeServedPassword status u) := by
  unfold dischargeServedPassword
  split
  · exact each_ret _
  · split
    · exact each_ret _
    · exact .bind (each_onLockout _) fun _ => each_ret _

theorem each_recoverInterruptedRotation (probedAt : ℤ) (u : User) :
    SignInEach true (recoverInterruptedRotation probedAt u) := by
  unfold recoverInterruptedRotation
  split
  · refine .bind each_signInRead fun ⟨held, taken⟩ => ?_
    dsimp only
    split
    · exact each_ret _
    · exact .bind (each_db fun s _ => .recoverFence taken s rfl) fun _ => each_ret _
  · exact each_ret _

theorem each_checkPassword (r : LoginRequest) : SignInEach true (checkPassword env r) := by
  refine .bind (each_findPresentedDeviceProof _ _ _) fun presented => ?_
  refine .bind each_signInRead fun loaded => ?_
  split
  · exact each_raise _
  · dsimp only
    split
    · exact each_raise _
    · refine .bind (each_provenBy _ _) fun proven => ?_
      split
      · exact .bind (each_onLockout _) fun _ => each_raise _
      · split
        · exact each_raise _
        · split
          · exact each_refuseWrongPassword _ _
          · refine .bind (each_dischargeServedPassword _ _) fun user => ?_
            exact .bind (each_recoverInterruptedRotation _ _) fun _ => each_ret _

/-! ## Devices, challenges and codes -/

theorem each_createTrustedDevice (raw : String) (deviceInfo : DeviceInfo) (expiresAt : ℤ)
    (lastUsedAt : Option ℤ) (provenWith : String) :
    SignInEach recovers (createTrustedDevice env raw deviceInfo expiresAt lastUsedAt provenWith) :=
  each_db fun s _ => .createDevice s
    ⟨s.nextId, env.hashToken raw, deviceInfo, expiresAt, lastUsedAt, provenWith⟩

theorem each_claimTrustedDevice (cookie : Option String) (now : ℤ) :
    SignInEach recovers (claimTrustedDevice env cookie now) := by
  unfold claimTrustedDevice
  split
  · exact each_ret _
  · exact each_db fun s _ => .claimDevice s _

theorem each_issueTwoFactorChallenge (jti : String) (now : ℤ) (provenWith : String) :
    SignInEach recovers (issueTwoFactorChallenge jti now provenWith) :=
  each_db fun s _ => .createChallenge s
    ⟨jti, (now / 1000 + twoFactorChallengeSeconds) * 1000, none, provenWith⟩

variable (r : Login2faRequest)

theorem each_verifySecondFactor : SignInEach recovers (verifySecondFactor r) := by
  refine .bind each_signInRead fun state => ?_
  split
  · exact each_raise _
  · refine .bind ?_ fun _ => ?_
    · unfold dischargeServedCode
      split
      · exact each_ret _
      · exact each_onLockout _
    · split
      · exact each_ret _
      · exact .bind (each_onLockout _) fun _ => each_raise _

theorem each_spendChallenge (challengeId : String) :
    SignInEach recovers (spendChallenge r challengeId) := by
  refine .bind (each_verifySecondFactor r) fun kind => ?_
  refine .bind (each_db fun s _ => .consumeChallenge s challengeId r.consumedAt)
    fun consumed => ?_
  split
  · exact each_raise _
  · refine .bind each_signInRead fun spent => ?_
    split
    · exact each_raise _
    · exact each_ret _

theorem each_grantIfRemembered (kind : CodeKind) (provenWith : String) :
    SignInEach recovers (grantIfRemembered env r kind provenWith) := by
  unfold grantIfRemembered
  split
  · exact .bind (each_createTrustedDevice _ _ _ _ _ _) fun _ => each_enforceTrustedDeviceCap
  · exact each_ret _

/-! ## The sign-in around its session -/

/-- The insert of a session. -/
def insertSession (env : Deployment) (refreshTokenRaw familyId : String) (deviceInfo : DeviceInfo)
    (remember : Bool) (now : ℤ) (provenWith : String) (s : Store) : Store :=
  s.insertToken (env.hashToken refreshTokenRaw) familyId deviceInfo
    (resolveRefreshLifetime env now remember none) provenWith

/-- A sign-in as it looks from outside: parts that issue no session, then at most one session,
then parts that issue none. -/
inductive IssuesOnce (recovers : Bool) {α : Type} (env : Deployment) (refreshTokenRaw familyId : String) :
    Req α → Prop
  | done {p : Req α} (hp : SignInEach recovers p) : IssuesOnce recovers env refreshTokenRaw familyId p
  | before {β : Type} {p : Req β} {k : β → Req α} (hp : SignInEach recovers p)
      (hk : ∀ b, IssuesOnce recovers env refreshTokenRaw familyId (k b)) :
      IssuesOnce recovers env refreshTokenRaw familyId (p.bind k)
  | issue {deviceInfo : DeviceInfo} {remember : Bool} {now : ℤ} {provenWith : String}
      {k : Unit → Req α} (hk : ∀ b, SignInEach recovers (k b)) :
      IssuesOnce recovers env refreshTokenRaw familyId
        ((issueSession env refreshTokenRaw familyId deviceInfo remember now provenWith).bind k)

/-- One statement of a sign-in. -/
def SignInStep (recovers : Bool) (env : Deployment) (refreshTokenRaw familyId : String) (l : Site) (s s' : Store) :
    Prop :=
  SignInEffect recovers l s s' ∨ ∃ deviceInfo remember now provenWith, l = .createToken provenWith ∧
    s' = insertSession env refreshTokenRaw familyId deviceInfo remember now provenWith s

theorem IssuesOnce.each {α : Type} {env : Deployment} {refreshTokenRaw familyId : String} {p : Req α}
    (h : IssuesOnce recovers env refreshTokenRaw familyId p) :
    p.Each (fun _ => True) (SignInStep recovers env refreshTokenRaw familyId) := by
  induction h with
  | done hp => exact hp.mono fun _ _ _ _ heffect => .inl heffect
  | before hp _ ih => exact .bind (hp.mono fun _ _ _ _ heffect => .inl heffect) ih
  | issue hk =>
    refine .bind (.bind (each_db fun s _ => .inr ⟨_, _, _, _, rfl, rfl⟩) fun _ => ?_)
      fun b => (hk b).mono fun _ _ _ _ heffect => .inl heffect
    exact each_enforceSessionCap.mono fun _ _ _ _ heffect => .inl heffect

theorem issuesOnce_finishLogin (r : LoginRequest) (checked : Checked) :
    IssuesOnce recovers env r.refreshTokenRaw r.familyId (finishLogin env r checked) := by
  refine .before (each_onLockout _) fun _ => ?_
  exact .issue fun _ => .bind (each_issueDeviceProof _ _ _ _) fun _ => each_ret _

theorem issuesOnce_completeLogin (r : LoginRequest) (checked : Checked) :
    IssuesOnce recovers env r.refreshTokenRaw r.familyId (completeLogin env r checked) := by
  unfold completeLogin
  split
  · refine .before (each_claimTrustedDevice _ _ _) fun device => ?_
    split
    · exact .before (each_createTrustedDevice _ _ _ _ _ _) fun _ => issuesOnce_finishLogin _ _ _
    · exact .done (.bind (each_issueTwoFactorChallenge _ _ _) fun _ => each_ret _)
  · exact issuesOnce_finishLogin _ _ _

theorem issuesOnce_login (r : LoginRequest) :
    IssuesOnce true env r.refreshTokenRaw r.familyId (login env r) :=
  .before (each_checkPassword env r) fun checked => issuesOnce_completeLogin env r checked

theorem issuesOnce_finishLogin2fa (user : User) (presented : Option DeviceProof) (kind : CodeKind)
    (provenWith : String) :
    IssuesOnce recovers env r.refreshTokenRaw r.familyId
      (finishLogin2fa env r user presented kind provenWith) := by
  refine .before (each_onLockout _) fun _ => ?_
  exact .issue fun _ => .bind (each_issueDeviceProof _ _ _ _) fun _ =>
    .bind (each_grantIfRemembered _ _ _ _) fun _ => each_ret _

theorem issuesOnce_login2fa :
    IssuesOnce false env r.refreshTokenRaw r.familyId (login2fa env r) := by
  unfold login2fa
  split
  · exact .done (each_raise _)
  · refine .before each_signInRead fun isOpen => ?_
    split
    · exact .done (each_raise _)
    · refine .before each_signInRead fun loaded => ?_
      split
      · exact .done (each_raise _)
      · split
        · exact .done (each_raise _)
        · split
          · exact .done (each_raise _)
          · refine .before (each_findPresentedDeviceProof _ _ _) fun presented => ?_
            refine .before (each_spendChallenge _ _) fun ⟨kind, provenWith⟩ => ?_
            exact issuesOnce_finishLogin2fa _ _ _ _ _ _

/-- A sign-in of the plain account. -/
def plainLogin : LoginRequest where
  email := "owner"
  authHash := "old"
  deviceInfo := ⟨"browser", "address", "fingerprint"⟩
  rememberMe := false
  deviceProof := none
  trustedDevice := none
  refreshTokenRaw := "session"
  familyId := "family"
  trustedDeviceRaw := "device"
  deviceProofRaw := "proof"
  jti := "jti"
  newEpisodeId := "episode"
  presentedAt := 0
  statusAt := 0
  probedAt := 0
  finishedAt := 0

end HVault.Account
