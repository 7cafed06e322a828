import HVault.Interleave.Schedule
import HVault.Account.Sessions

/-!
# Refresh tokens presented again

What `refresh` does, statement by statement: `RefreshEffect` says it once, and the laws of the
runs are read off it. The first of them is here. After a detected reuse the family is gone
(`reuse_ends_family`), provided no rotation inserts its successor after the sweep: the claim of a
rotation and its insert are two statements where there are no transactions, and the sweep between
them finds nothing to delete.
-/

namespace HVault.Account

open Interleave FirstMatch List Prog

/-! ## What a refresh does, statement by statement -/

/-- One statement of a refresh of the token with digest `h`. -/
inductive RefreshEffect (env : Deployment) (r : RefreshRequest) (h : String) :
    Site → Store → Store → Prop
  | same (l : Site) (s : Store) : RefreshEffect env r h l s s
  | proofs (s : Store) (deviceProofs : List DeviceProof) :
      RefreshEffect env r h .extendProof s { s with deviceProofs }
  | claim (s : Store) :
      RefreshEffect env r h .claimToken s (s.claimToken h (r.claimedAt 0) (r.usedAt 0)).2
  | rotate (s : Store) (attempt : ℕ) :
      RefreshEffect env r h .rotateTransaction s (rotateOnce env r h attempt s).2
  | successor (s : Store) (claimed : RefreshToken) :
      RefreshEffect env r h (.createSuccessor claimed) s
        (createSuccessor env r (r.rotatedAt 0) claimed s)
  | expired (s : Store) (found : RefreshToken) (hfound : found.usedAt = none) :
      RefreshEffect env r h (.deleteExpired found) s
        (s.deleteToken fun row => decide (row.id = found.id)).2
  | deleteLive (s : Store) (found : RefreshToken) :
      RefreshEffect env r h (.reuseDeleteLive found) s (s.deleteTokens fun row =>
        decide (row.familyId = found.familyId) && row.usedAt.isNone).2
  | revokeDevices (s : Store) (found : RefreshToken) :
      RefreshEffect env r h (.reuseRevokeDevices found) s s.revokeTrustedDevices.2
  | revokeProofs (s : Store) (found : RefreshToken) :
      RefreshEffect env r h (.reuseRevokeProofs found) s s.revokeDeviceProofs.2
  | revokeChallenges (s : Store) (found : RefreshToken) :
      RefreshEffect env r h (.reuseRevokeChallenges found) s s.revokeTwoFactorChallenges.2
  | claimReplayed (s : Store) (found : RefreshToken) :
      RefreshEffect env r h (.reuseClaim found) s
        (s.deleteToken fun row => decide (row.id = found.id)).2
  | record (s : Store) (found : RefreshToken) (live devices : ℕ) :
      RefreshEffect env r h (.reuseRecord found) s { s with
        reuseRecords := ⟨found.familyId, live, devices, found.deviceInfo, found.tokenHash⟩ ::
          s.reuseRecords }
  | sweep (s : Store) (found : RefreshToken) :
      RefreshEffect env r h (.reuseSweep found) s (s.sweepFamily found.familyId).2

/-- The row a statement of the reuse branch is about. -/
def Site.reuseOf : Site → Option RefreshToken
  | .reuseDeleteLive found => some found
  | .reuseRevokeDevices found => some found
  | .reuseRevokeProofs found => some found
  | .reuseRevokeChallenges found => some found
  | .reuseClaim found => some found
  | .reuseRecord found => some found
  | .reuseSweep found => some found
  | _ => none

/-- Whether a statement belongs to a rotation. -/
def Site.rotates : Site → Bool
  | .readClaimable => true
  | .readRefusal => true
  | .claimToken => true
  | .rotateTransaction => true
  | .createSuccessor _ => true
  | _ => false

theorem Site.not_rotates {l : Site} {found : RefreshToken} (hl : l.reuseOf = some found) :
    l.rotates = false := by
  cases l <;> simp_all [Site.reuseOf, Site.rotates]

/-- Whether a statement may insert a successor. -/
def Site.inserts : Site → Bool
  | .rotateTransaction => true
  | .createSuccessor _ => true
  | _ => false

/-- What a refresh does after its rotation. -/
def afterRotation (env : Deployment) (r : RefreshRequest) (h : String) : Rotation → Req String
  | .refused => .raise .tokenInvalid
  | .nothingClaimed => classifyUnclaimed r h
  | .rotated => do
    extendPresentedDeviceProof env r.deviceProof r.extendedAt
    pure r.newRefreshTokenRaw

section Effects

variable (env : Deployment) (r : RefreshRequest) (h : String)

/-- The accesses of a program are statements of the refresh. -/
abbrev RefreshEach {α : Type} (p : Req α) : Prop :=
  p.Each (fun _ => True) (RefreshEffect env r h)

variable {env r h}

theorem each_rotateInTransaction (attempts : ℕ) :
    (rotateInTransaction env r h attempts).Each (fun _ => True) fun l s s' =>
      RefreshEffect env r h l s s' ∧ l = .rotateTransaction := by
  induction attempts with
  | zero => exact each_db fun s _ => ⟨.rotate s 0, rfl⟩
  | succ attempts ih =>
    refine .bind (Prog.Each.attempt (each_db fun s _ => ⟨.rotate s (attempts + 1), rfl⟩))
      fun outcome => ?_
    split
    · exact trivial
    · dsimp only
      split
      · exact ih
      · exact trivial

/-- The gate ahead of a claim without a transaction only reads. -/
theorem each_gateClaimable : (gateClaimable r h).Each (fun _ => True) fun l s s' =>
    s' = s ∧ (l = .readClaimable ∨ l = .readRefusal) := by
  refine .bind (each_read fun s _ => ⟨rfl, .inl rfl⟩) fun found => ?_
  split
  · refine .bind (each_read fun s _ => ⟨rfl, .inr rfl⟩) fun refusal => ?_
    split
    · exact each_raise _
    · exact each_ret _
  · exact each_ret _

/-- The path without transactions, after its gate. -/
theorem each_rotateSequentially :
    (rotateSequentially env r h).Each (fun _ => True) fun l s s' =>
      RefreshEffect env r h l s s' ∧ l.rotates = true := by
  have hgate : (gateClaimable r h).Each (fun _ => True) fun l s s' =>
      RefreshEffect env r h l s s' ∧ l.rotates = true := by
    refine each_gateClaimable.mono fun l s s' _ ⟨hread, hl⟩ => ?_
    rw [hread]
    exact ⟨.same l s, by rcases hl with rfl | rfl <;> rfl⟩
  refine .bind hgate fun _ => ?_
  refine .bind (each_db fun s _ => ⟨.claim s, rfl⟩) fun claimed => ?_
  split
  · exact trivial
  · refine .bind (Prog.Each.attempt (each_db fun s _ => ⟨.successor s _, rfl⟩)) fun created => ?_
    split
    · exact trivial
    · exact trivial

theorem each_rotate : (rotate env r h).Each (fun _ => True) fun l s s' =>
    RefreshEffect env r h l s s' ∧ l.rotates = true ∧
      (env.supportsTransactions = true → l = .rotateTransaction) := by
  unfold rotate
  split
  · refine (each_rotateInTransaction r.attempts).mono fun l s s' _ ⟨heffect, hl⟩ => ?_
    exact ⟨heffect, by rw [hl]; rfl, fun _ => hl⟩
  · rename_i htopology
    exact each_rotateSequentially.mono fun l s s' _ ⟨heffect, hl⟩ =>
      ⟨heffect, hl, fun h => (htopology h).elim⟩

/-- Every statement of the detection is about the row that was found, and none is the sweep. -/
theorem each_detectReuse (found : RefreshToken) :
    (detectReuse found).Each (fun _ => True) fun l s s' =>
      RefreshEffect env r h l s s' ∧ l.reuseOf = some found ∧ l ≠ .reuseSweep found := by
  refine .bind (each_db fun s _ => ⟨.deleteLive s found, rfl, nofun⟩) fun live => ?_
  refine .bind (each_db fun s _ => ⟨.revokeDevices s found, rfl, nofun⟩)
    fun devices => ?_
  refine .bind (each_db fun s _ => ⟨.revokeProofs s found, rfl, nofun⟩) fun _ => ?_
  refine .bind (each_db fun s _ => ⟨.revokeChallenges s found, rfl, nofun⟩)
    fun _ => ?_
  refine .bind (each_db fun s _ => ⟨.claimReplayed s found, rfl, nofun⟩)
    fun detection => ?_
  unfold recordReuse
  split
  · refine .bind (Prog.Each.attempt (each_db fun s _ => ?_)) fun _ => trivial
    exact ⟨.record s found live devices, rfl, nofun⟩
  · exact trivial

/-- Every statement of the reuse branch is about the row that was found. -/
theorem each_endReusedFamily {α : Type} (found : RefreshToken) :
    (endReusedFamily found : Req α).Each (fun _ => True) fun l s s' =>
      RefreshEffect env r h l s s' ∧ l.reuseOf = some found := by
  refine .bind ((each_detectReuse found).mono fun _ _ _ _ heffect =>
    ⟨heffect.1, heffect.2.1⟩) fun _ => ?_
  exact .bind (each_db fun s _ => ⟨.sweep s found, rfl⟩) fun _ => trivial

theorem each_classifyUnclaimed {α : Type} :
    (classifyUnclaimed r h : Req α).Each (fun _ => True) fun l s s' =>
      RefreshEffect env r h l s s' ∧ l.rotates = false := by
  refine .bind (each_read fun s _ => ⟨.same _ s, rfl⟩) fun existing => ?_
  split
  · exact trivial
  · split
    · rename_i hexpired
      have hunused := Option.isNone_iff_eq_none.1 hexpired.1
      exact .bind (each_db fun s _ => ⟨.expired s _ hunused, rfl⟩) fun _ => trivial
    · exact (each_endReusedFamily _).mono fun l _ _ _ heffect =>
        ⟨heffect.1, Site.not_rotates heffect.2⟩

/-- The sliding of a device proof reads it and writes it. -/
theorem each_extendPresentedDeviceProof (cookie : Option String) (now : ℤ) :
    (extendPresentedDeviceProof env cookie now).Each (fun _ => True) fun l s s' =>
      RefreshEffect env r h l s s' ∧ (l = .readProof ∨ l = .extendProof) := by
  refine .bind (Prog.Each.attempt (.bind ?_ fun presented => ?_)) fun _ => trivial
  · unfold findPresentedDeviceProof
    split
    · exact trivial
    · exact each_read fun s _ => ⟨.same _ s, .inl rfl⟩
  · unfold slideProof
    split
    · exact trivial
    · split
      · exact trivial
      · exact each_db fun s _ => ⟨.proofs s _, .inr rfl⟩

theorem each_afterRotation_rotated :
    (afterRotation env r h .rotated).Each (fun _ => True) fun l s s' =>
      RefreshEffect env r h l s s' ∧ (l = .readProof ∨ l = .extendProof) :=
  .bind (each_extendPresentedDeviceProof _ _) fun _ => each_ret _

end Effects

/-- The digest of the value a refresh presents, if it presents one. -/
def RefreshRequest.presents (env : Deployment) (r : RefreshRequest) (h : String) : Prop :=
  ∃ token, r.token = some token ∧ env.hashToken token = h

theorem refresh_eq (env : Deployment) (r : RefreshRequest) {token : String}
    (htoken : r.token = some token) :
    refresh env r = (rotate env r (env.hashToken token)).bind
      (afterRotation env r (env.hashToken token)) := by
  unfold refresh
  rw [htoken]
  show (rotate env r (env.hashToken token)).bind _ = _
  congr 1

theorem each_refresh (env : Deployment) (r : RefreshRequest) :
    (refresh env r).Each (fun _ => True) fun l s s' =>
      ∃ h, r.presents env h ∧ RefreshEffect env r h l s s' := by
  cases htoken : r.token with
  | none =>
    unfold refresh
    rw [htoken]
    exact trivial
  | some token =>
    rw [refresh_eq env r htoken]
    have hmono : ∀ {α : Type} {p : Req α}, RefreshEach env r (env.hashToken token) p →
        p.Each (fun _ => True) fun l s s' =>
          ∃ h, r.presents env h ∧ RefreshEffect env r h l s s' := by
      intro α p hp
      exact hp.mono fun l s s' _ heffect => ⟨_, ⟨token, htoken, rfl⟩, heffect⟩
    refine .bind (hmono (each_rotate.mono fun _ _ _ _ heffect => heffect.1)) fun rotation => ?_
    cases rotation with
    | nothingClaimed =>
      exact hmono (each_classifyUnclaimed.mono fun _ _ _ _ heffect => heffect.1)
    | refused => exact trivial
    | rotated => exact hmono (each_afterRotation_rotated.mono fun _ _ _ _ heffect => heffect.1)

/-- Refreshes of any tokens on one account, whose accesses may fail in any of the given ways. -/
def refreshSystem {ι : Type} (env : Deployment) (requests : ι → RefreshRequest)
    (faults : Site → AccountError → Bool → Prop) : System ι Store Site AccountError String where
  admits i p := p = refresh env (requests i)
  faults

/-! ## The rule of a rotation -/

section Rules

variable {ι γ : Type} {R : Protocol ι Store Site γ} {faults : Site → AccountError → Bool → Prop}
  {pre : ι → Site → Store → γ → Prop} {i : ι} {env : Deployment} {r : RefreshRequest} {h : String}
  {P : Store → γ → Prop} {Claimed : RefreshToken → Store → γ → Prop}
  {Q : Except AccountError Rotation → Store → γ → Prop} {s : Store} {g : γ}

variable (R pre i env r h P Claimed Q) in
/-- What is to be shown of a rotation that starts in `P`, is in `Claimed row` between a claim and
its successor, and ends in `Q`: of its statements one by one, whether their answers arrive or not. -/
structure RotationRule : Prop where
  stable : R.Stable i P
  stable_claimed : ∀ row, R.Stable i (Claimed row)
  stay : ∀ {l s g}, l = .readClaimable ∨ l = .readRefusal ∨ l = .claimToken ∨
    l = .rotateTransaction → R.inv s g → P s g → pre i l s g → R.guar i (some l) s g s g
  failed : ∀ {e s g}, P s g → Q (.error e) s g
  transaction : ∀ {n s g}, R.inv s g → P s g → pre i .rotateTransaction s g →
    ∃ g', R.inv (rotateOnce env r h n s).2 g' ∧
      R.guar i (some .rotateTransaction) s g (rotateOnce env r h n s).2 g' ∧
      Q (.ok (rotateOnce env r h n s).1) (rotateOnce env r h n s).2 g' ∧
      ∀ e, Q (.error e) (rotateOnce env r h n s).2 g'
  claim_none : ∀ {s g}, R.inv s g → P s g → pre i .claimToken s g →
    (∀ row ∈ s.tokens, Store.claimable h (r.claimedAt 0) row = false) →
    Q (.ok .nothingClaimed) s g
  claim_some : ∀ {row before after s g}, R.inv s g → P s g → pre i .claimToken s g →
    s.tokens = before ++ row :: after → Store.claimable h (r.claimedAt 0) row = true →
    let s' := { s with tokens := before ++ { row with usedAt := some (r.usedAt 0) } :: after }
    ∃ g', R.inv s' g' ∧ R.guar i (some .claimToken) s g s' g' ∧ Claimed row s' g' ∧
      ∀ e, Q (.error e) s' g'
  successor : ∀ {row s g}, R.inv s g → Claimed row s g → pre i (.createSuccessor row) s g →
    ∃ g', R.inv (createSuccessor env r (r.rotatedAt 0) row s) g' ∧
      R.guar i (some (.createSuccessor row)) s g (createSuccessor env r (r.rotatedAt 0) row s) g' ∧
      Q (.ok .rotated) (createSuccessor env r (r.rotatedAt 0) row s) g' ∧
      Q (.error .issueFailed) (createSuccessor env r (r.rotatedAt 0) row s) g'
  unissued : ∀ {row s g}, R.inv s g → Claimed row s g → pre i (.createSuccessor row) s g →
    ∃ g', R.inv s g' ∧ R.guar i (some (.createSuccessor row)) s g s g' ∧
      Q (.error .issueFailed) s g'

/-- The transaction. One that is run again did not commit. -/
theorem RotationRule.safe_transaction (rule : RotationRule R pre i env r h P Claimed Q)
    (hundone : ¬ faults .rotateTransaction (.database true) true) (attempts : ℕ) (hP : P s g) :
    Safe R faults pre i Q (rotateInTransaction env r h attempts) s g := by
  induction attempts generalizing s g with
  | zero =>
    refine Safe.access P rule.stable hP fun s g hinv hP hpre a s' ho => ?_
    obtain ⟨g', hinv', hguar, hok, herror⟩ := rule.transaction hinv hP hpre
    cases ho with
    | applied => exact ⟨g', hinv', hguar, hok⟩
    | refused _ =>
      exact ⟨g, hinv, rule.stay (.inr (.inr (.inr rfl))) hinv hP hpre, rule.failed hP⟩
    | lost _ => exact ⟨g', hinv', hguar, herror _⟩
  | succ attempts ih =>
    refine Safe.attempt_db_bind P rule.stable hP (fun s g hinv hP hpre => ?_)
      (fun s g e hinv hP hpre _ => ?_) fun s g e hinv hP hpre hf => ?_
    · obtain ⟨g', hinv', hguar, hok, -⟩ := rule.transaction hinv hP hpre
      exact ⟨g', hinv', hguar, hok⟩
    · refine ⟨g, hinv, rule.stay (.inr (.inr (.inr rfl))) hinv hP hpre, ?_⟩
      dsimp only
      split
      · exact ih hP
      · exact rule.failed hP
    · obtain ⟨g', hinv', hguar, -, herror⟩ := rule.transaction (n := attempts + 1) hinv hP hpre
      refine ⟨g', hinv', hguar, ?_⟩
      dsimp only
      split
      · exact (hundone hf).elim
      · exact herror _

theorem RotationRule.keeps_gate (rule : RotationRule R pre i env r h P Claimed Q) :
    Keeps R faults pre i P (fun _ => True) (gateClaimable r h) := by
  refine each_gateClaimable.keeps rule.stable (fun _ _ _ => trivial) ?_
  intro l s g s₁ s' hinv hP hpre ⟨hread, hl⟩ hs'
  have hsame : s' = s := hs'.elim id fun hs' => hs'.trans hread
  subst hsame
  exact ⟨g, hinv, rule.stay (hl.imp id .inl) hinv hP hpre, hP⟩

theorem RotationRule.safe_sequential (rule : RotationRule R pre i env r h P Claimed Q)
    (hP : P s g) : Safe R faults pre i Q (rotateSequentially env r h) s g := by
  refine rule.keeps_gate.before hP (fun _ s g _ hP => ?_) fun e s g _ hP => rule.failed hP
  have hstay : ∀ {s g}, R.inv s g → P s g → pre i .claimToken s g →
      R.guar i (some .claimToken) s g s g := fun hinv hP hpre =>
    rule.stay (.inr (.inr (.inl rfl))) hinv hP hpre
  refine Safe.access P rule.stable hP fun s g hinv hP hpre a s' ho => ?_
  rcases s.claimToken_cases h (r.claimedAt 0) (r.usedAt 0) with
    ⟨heq, hnone⟩ | ⟨row, before, after, htokens, hrow, heq⟩
  · -- nothing to claim: the store stays as it is, whatever is answered
    have hguar := hstay hinv hP hpre
    cases ho with
    | applied =>
      rw [heq]
      exact ⟨g, hinv, hguar, rule.claim_none hinv hP hpre hnone⟩
    | refused _ => exact ⟨g, hinv, hguar, rule.failed hP⟩
    | lost _ =>
      rw [heq]
      exact ⟨g, hinv, hguar, rule.failed hP⟩
  · obtain ⟨g', hinv', hguar, hclaimed, herror⟩ := rule.claim_some hinv hP hpre htokens hrow
    cases ho with
    | applied =>
      rw [heq]
      refine ⟨g', hinv', hguar, ?_⟩
      refine Safe.attempt_db_bind _ (rule.stable_claimed row) hclaimed
        (fun s g hinv hclaimed hpre => ?_) (fun s g e hinv hclaimed hpre _ => ?_)
        fun s g e hinv hclaimed hpre _ => ?_
      · obtain ⟨g', hinv', hguar, hok, -⟩ := rule.successor hinv hclaimed hpre
        exact ⟨g', hinv', hguar, hok⟩
      · exact rule.unissued hinv hclaimed hpre
      · obtain ⟨g', hinv', hguar, -, hissue⟩ := rule.successor hinv hclaimed hpre
        exact ⟨g', hinv', hguar, hissue⟩
    | refused _ => exact ⟨g, hinv, hstay hinv hP hpre, rule.failed hP⟩
    | lost _ =>
      rw [heq]
      exact ⟨g', hinv', hguar, herror _⟩

/-- **A rotation is safe**, on either topology, if its statements are. -/
theorem RotationRule.safe (rule : RotationRule R pre i env r h P Claimed Q)
    (hundone : ¬ faults .rotateTransaction (.database true) true) (hP : P s g) :
    Safe R faults pre i Q (rotate env r h) s g := by
  unfold rotate
  split
  · exact rule.safe_transaction hundone r.attempts hP
  · exact rule.safe_sequential hP

end Rules

/-! ## Reuse ends the family -/

section EndsFamily

variable {env : Deployment} {r : RefreshRequest} {h : String} {l : Site} {s s' : Store}

/-- Where a row comes from: it is a row from before, possibly used since, or the successor that
the statement inserts into the family of a claimed row. -/
theorem RefreshEffect.row_mem (heffect : RefreshEffect env r h l s s') {row' : RefreshToken}
    (hrow' : row' ∈ s'.tokens) :
    (∃ row ∈ s.tokens, row.id = row'.id ∧ row.tokenHash = row'.tokenHash ∧
        row.familyId = row'.familyId ∧ row.expiresAt = row'.expiresAt ∧
        (row'.usedAt = none → row = row')) ∨
      l.inserts = true ∧ row'.tokenHash = env.hashToken r.newRefreshTokenRaw ∧
        ((∃ row ∈ s.tokens, row.familyId = row'.familyId) ∨
          ∃ claimed, l = .createSuccessor claimed ∧ claimed.familyId = row'.familyId) := by
  have hsame : row' ∈ s.tokens → ∃ row ∈ s.tokens, row.id = row'.id ∧
      row.tokenHash = row'.tokenHash ∧ row.familyId = row'.familyId ∧
      row.expiresAt = row'.expiresAt ∧ (row'.usedAt = none → row = row') :=
    fun hmem => ⟨row', hmem, rfl, rfl, rfl, rfl, fun _ => rfl⟩
  -- a claim exchanges one row for the same row used
  have hclaimed : ∀ {row : RefreshToken} {before after : List RefreshToken} {t : ℤ},
      s.tokens = before ++ row :: after →
      row' ∈ before ++ { row with usedAt := some t } :: after →
      ∃ row ∈ s.tokens, row.id = row'.id ∧ row.tokenHash = row'.tokenHash ∧
        row.familyId = row'.familyId ∧ row.expiresAt = row'.expiresAt ∧
        (row'.usedAt = none → row = row') := by
    intro row before after t htokens hmem
    simp only [mem_append, mem_cons] at hmem
    rcases hmem with hmem | rfl | hmem
    · exact hsame (by simp [htokens, hmem])
    · exact ⟨row, by simp [htokens], rfl, rfl, rfl, rfl, nofun⟩
    · exact hsame (by simp [htokens, hmem])
  cases heffect with
  | same | proofs => exact .inl (hsame hrow')
  | claim =>
    rcases s.claimToken_cases h (r.claimedAt 0) (r.usedAt 0) with
      ⟨heq, -⟩ | ⟨row, before, after, htokens, -, heq⟩
    · rw [heq] at hrow'
      exact .inl (hsame hrow')
    · rw [heq] at hrow'
      exact .inl (hclaimed htokens hrow')
  | rotate _ attempt =>
    rcases rotateOnce_cases env r h attempt s with
      ⟨heq, -⟩ | heq | ⟨row, before, after, htokens, -, -, heq⟩
    · rw [heq] at hrow'
      exact .inl (hsame hrow')
    · rw [heq] at hrow'
      exact .inl (hsame hrow')
    · rw [heq] at hrow'
      rcases mem_append.1 hrow' with hold | hnew
      · exact .inl (hclaimed htokens hold)
      · rw [mem_singleton.1 hnew]
        exact .inr ⟨rfl, rfl, .inl ⟨row, by simp [htokens], rfl⟩⟩
  | successor _ claimed =>
    rcases mem_append.1 hrow' with hold | hnew
    · exact .inl (hsame hold)
    · rw [mem_singleton.1 hnew]
      exact .inr ⟨rfl, rfl, .inr ⟨claimed, rfl, rfl⟩⟩
  | expired => exact .inl (hsame (mem_of_mem_eraseP hrow'))
  | deleteLive => exact .inl (hsame (mem_filter.1 hrow').1)
  | revokeDevices | revokeProofs | revokeChallenges => exact .inl (hsame hrow')
  | claimReplayed => exact .inl (hsame (mem_of_mem_eraseP hrow'))
  | record => exact .inl (hsame hrow')
  | sweep => exact .inl (hsame (mem_filter.1 hrow').1)

/-- What a statement logs: the tokens it issued, and the family that it swept and emptied. -/
theorem RefreshEffect.logs (heffect : RefreshEffect env r h l s s') :
    (s'.history.issued = s.history.issued ∨ l.inserts = true ∧
      s'.history.issued = env.hashToken r.newRefreshTokenRaw :: s.history.issued) ∧
    (s'.history.swept = s.history.swept ∨
      ∃ f, s'.history.swept = f :: s.history.swept ∧ ∀ row ∈ s'.tokens, row.familyId ≠ f) := by
  have hquiet : s'.history = s.history →
      (s'.history.issued = s.history.issued ∨ l.inserts = true ∧
        s'.history.issued = env.hashToken r.newRefreshTokenRaw :: s.history.issued) ∧
      (s'.history.swept = s.history.swept ∨
        ∃ f, s'.history.swept = f :: s.history.swept ∧ ∀ row ∈ s'.tokens, row.familyId ≠ f) := by
    intro heq
    rw [heq]
    exact ⟨.inl rfl, .inl rfl⟩
  cases heffect with
  | same | proofs => exact hquiet rfl
  | claim =>
    rcases s.claimToken_cases h (r.claimedAt 0) (r.usedAt 0) with ⟨heq, -⟩ | ⟨_, _, _, -, -, heq⟩
    · exact hquiet (by rw [heq])
    · exact hquiet (by rw [heq])
  | rotate _ attempt =>
    rcases rotateOnce_cases env r h attempt s with ⟨heq, -⟩ | heq | ⟨_, _, _, -, -, -, heq⟩
    · exact hquiet (by rw [heq])
    · exact hquiet (by rw [heq])
    · exact ⟨.inr ⟨rfl, by rw [heq]; rfl⟩, .inl (by rw [heq]; rfl)⟩
  | successor => exact ⟨.inr ⟨rfl, rfl⟩, .inl rfl⟩
  | expired
  | deleteLive | revokeDevices | revokeProofs | revokeChallenges | claimReplayed => exact hquiet rfl
  | record => exact ⟨.inl rfl, .inl rfl⟩
  | sweep _ found =>
    refine ⟨.inl rfl, .inr ⟨found.familyId, rfl, fun row hrow => ?_⟩⟩
    simpa [Store.sweepFamily, Store.deleteTokens] using (mem_filter.1 hrow).2

theorem RefreshEffect.issued (heffect : RefreshEffect env r h l s s') :
    s'.history.issued = s.history.issued ∨ l.inserts = true ∧
      s'.history.issued = env.hashToken r.newRefreshTokenRaw :: s.history.issued := heffect.logs.1

/-- A family is only ever added to the swept ones by the sweep that empties it. -/
theorem RefreshEffect.swept (heffect : RefreshEffect env r h l s s') :
    s'.history.swept = s.history.swept ∨
      ∃ f, s'.history.swept = f :: s.history.swept ∧ ∀ row ∈ s'.tokens, row.familyId ≠ f :=
  heffect.logs.2

variable {faults : Site → AccountError → Bool → Prop}

/-- An answer that reports no reuse. -/
def Unreported {α : Type} (a : Except AccountError α) : Prop :=
  ∀ f, a ≠ .error (.tokenReuseDetected f)

variable (faults) in
/-- What fails is a database access. -/
def DatabaseFaults : Prop := ∀ l e b, faults l e b → ∃ transient, e = .database transient

theorem leaves_db {α : Type} (hfaults : DatabaseFaults faults) {f : Store → α × Store} :
    (Prog.db l f : Req α).Leaves faults Unreported := by
  refine Prog.leaves_db nofun fun e b hf f hb => ?_
  obtain ⟨transient, rfl⟩ := hfaults l e b hf
  cases hb

theorem leaves_read {α : Type} (hfaults : DatabaseFaults faults) {f : Store → α} :
    (Prog.read l f : Req α).Leaves faults Unreported := leaves_db hfaults

theorem leaves_bind {α β : Type} {p : Req β} {k : β → Req α} (hp : p.Leaves faults Unreported)
    (hk : ∀ b, (k b).Leaves faults Unreported) : (p.bind k).Leaves faults Unreported := by
  refine .bind hp (fun b _ => hk b) fun e he f hf => he f ?_
  cases hf
  rfl

/-- A caught failure is no end. -/
theorem leaves_attempt_bind {α β : Type} {p : Req β} {k : Except AccountError β → Req α}
    (hp : p.Leaves faults Unreported)
    (hk : ∀ b, Unreported b → (k b).Leaves faults Unreported) :
    (p.attempt.bind k).Leaves faults Unreported := by
  refine .bind hp.attempt (fun b hb => ?_) nofun
  obtain ⟨b', hb', hunreported⟩ := hb
  cases hb'
  exact hk b hunreported

theorem leaves_ret {α : Type} {a : α} : (Prog.ret a : Req α).Leaves faults Unreported :=
  nofun

theorem leaves_rotateInTransaction (hfaults : DatabaseFaults faults) (attempts : ℕ) :
    (rotateInTransaction env r h attempts).Leaves faults Unreported := by
  induction attempts with
  | zero => exact leaves_db hfaults
  | succ attempts ih =>
    refine leaves_attempt_bind (leaves_db hfaults) fun outcome hout => ?_
    cases outcome with
    | ok rotation => exact leaves_ret
    | error e =>
      dsimp only
      split
      · exact ih
      · exact hout

theorem leaves_gateClaimable (hfaults : DatabaseFaults faults) :
    (gateClaimable r h).Leaves faults Unreported := by
  refine leaves_bind (leaves_read hfaults) fun found => ?_
  split
  · refine leaves_bind (leaves_read hfaults) fun refusal => ?_
    split
    · exact nofun
    · exact leaves_ret
  · exact leaves_ret

theorem leaves_rotateSequentially (hfaults : DatabaseFaults faults) :
    (rotateSequentially env r h).Leaves faults Unreported := by
  refine leaves_bind (leaves_gateClaimable hfaults) fun _ => ?_
  refine leaves_bind (leaves_db hfaults) fun claimed => ?_
  split
  · exact leaves_ret
  · refine leaves_attempt_bind (leaves_db hfaults) fun created _ => ?_
    split
    · exact leaves_ret
    · exact nofun

theorem leaves_rotate (hfaults : DatabaseFaults faults) :
    (rotate env r h).Leaves faults Unreported := by
  unfold rotate
  split
  · exact leaves_rotateInTransaction hfaults r.attempts
  · exact leaves_rotateSequentially hfaults

theorem leaves_detectReuse (hfaults : DatabaseFaults faults) (found : RefreshToken) :
    (detectReuse found).Leaves faults Unreported := by
  refine leaves_bind (leaves_db hfaults) fun live => ?_
  refine leaves_bind (leaves_db hfaults) fun devices => ?_
  refine leaves_bind (leaves_db hfaults) fun _ => ?_
  refine leaves_bind (leaves_db hfaults) fun _ => ?_
  refine leaves_bind (leaves_db hfaults) fun detection => ?_
  unfold recordReuse
  split
  · exact leaves_attempt_bind (leaves_db hfaults) fun _ _ => leaves_ret
  · exact leaves_ret

theorem leaves_extend (cookie : Option String) (now : ℤ) :
    (extendPresentedDeviceProof env cookie now).Leaves faults Unreported := by
  have hattempt : ∀ p : Req Unit, p.attempt.Leaves faults fun a => ∃ b, a = .ok b :=  by
    intro p
    induction p with
    | ret a | raise e => exact ⟨_, rfl⟩
    | access l f k ih => exact ⟨fun b => ih _, fun e b _ => ih _⟩
  exact .bind (hattempt _) (fun _ _ => leaves_ret) nofun

/-- The families that were swept have no rows. -/
def sweptProtocol {ι : Type} : Protocol ι Store Site Unit where
  inv s _ := ∀ f ∈ s.history.swept, ∀ row ∈ s.tokens, row.familyId ≠ f
  guar _ _ s _ s' _ := ∀ f ∈ s.history.swept, f ∈ s'.history.swept

/-- No successor is inserted into a family after it was swept. -/
def BeforeSweep (l : Site) (s : Store) : Prop :=
  ∀ claimed, l = .createSuccessor claimed → claimed.familyId ∉ s.history.swept

variable {ι : Type} {i : ι}

/-- A statement of a refresh keeps the swept families empty, if it comes before the sweep. -/
theorem RefreshEffect.sweptStep (heffect : RefreshEffect env r h l s s')
    (hinv : (sweptProtocol (ι := ι)).inv s ()) (hbefore : BeforeSweep l s) :
    (sweptProtocol (ι := ι)).inv s' () ∧
      (sweptProtocol (ι := ι)).guar i (some l) s () s' () := by
  have hold : ∀ f ∈ s.history.swept, ∀ row ∈ s'.tokens, row.familyId ≠ f := by
    intro f hf row' hrow' heq
    rcases heffect.row_mem hrow' with ⟨row, hrow, -, -, hfamily, -⟩ |
      ⟨-, -, ⟨row, hrow, hfamily⟩ | ⟨claimed, hl, hfamily⟩⟩
    · exact hinv f hf row hrow (hfamily.trans heq)
    · exact hinv f hf row hrow (hfamily.trans heq)
    · refine hbefore claimed hl ?_
      rw [hfamily, heq]
      exact hf
  rcases heffect.swept with hswept | ⟨f, hswept, hempty⟩
  · constructor
    · intro f hf
      exact hold f (hswept ▸ hf)
    · intro f hf
      rw [hswept]
      exact hf
  · constructor
    · intro f' hf'
      rw [hswept] at hf'
      rcases mem_cons.1 hf' with rfl | hf'
      · exact hempty
      · exact hold f' hf'
    · intro f' hf'
      rw [hswept]
      exact mem_cons_of_mem f hf'

/-- A refresh answered with a reuse has swept the family it names. -/
def SweptPost (_ : ι) (a : Except AccountError String) (s : Store) (_ : Unit) : Prop :=
  ∀ f, a = .error (.tokenReuseDetected f) → f ∈ s.history.swept

theorem stable_sweptPost (a : Except AccountError String) :
    (sweptProtocol (ι := ι)).Stable i (SweptPost i a) :=
  fun _ _ _ _ _ _ _ _ hP hg _ f hf => hg f (hP f hf)

theorem keeps_refreshEach {α : Type} {p : Req α} (hp : RefreshEach env r h p)
    {A : Except AccountError α → Prop} (hleaves : p.Leaves faults A) :
    Keeps sweptProtocol faults (fun (_ : ι) l s _ => BeforeSweep l s) i (fun _ _ => True) A p := by
  refine Keeps.leaves (Prog.Each.keeps hp (.const True) (fun _ _ _ => trivial) ?_) hleaves
  intro l s g s₁ s' hinv _ hbefore heffect hs'
  rcases hs' with rfl | rfl
  · exact ⟨(), hinv, fun f hf => hf, trivial⟩
  · obtain ⟨hinv', hguar⟩ := heffect.sweptStep hinv hbefore
    exact ⟨(), hinv', hguar, trivial⟩

/-- A program that reports no reuse. -/
theorem safe_unreported {p : Req String} (hp : RefreshEach env r h p)
    (hleaves : p.Leaves faults Unreported) (s : Store) :
    Safe sweptProtocol faults (fun (_ : ι) l s _ => BeforeSweep l s) i (SweptPost i) p s () :=
  ((keeps_refreshEach hp hleaves) s () trivial).mono fun _ _ _ ha f hf => (ha.2 f hf).elim

theorem safe_endReusedFamily (env : Deployment) (r : RefreshRequest) (h : String)
    (hfaults : DatabaseFaults faults) (found : RefreshToken) (s : Store) :
    Safe sweptProtocol faults (fun (_ : ι) l s _ => BeforeSweep l s) i (SweptPost i)
      (endReusedFamily found) s () := by
  have hsweep : ∀ s, RefreshEffect env r h (.reuseSweep found) s (s.sweepFamily found.familyId).2 :=
    fun s => .sweep s found
  have hdetect : RefreshEach env r h (detectReuse found) :=
    (each_detectReuse found).mono fun _ _ _ _ heffect => heffect.1
  refine (keeps_refreshEach hdetect (leaves_detectReuse hfaults found)).before trivial
    (fun _ s g _ _ => ?_) fun e s g he _ f hf => (he f (by cases hf; rfl)).elim
  have hfailed : ∀ e b s g, faults (.reuseSweep found) e b → SweptPost i (.error e) s g := by
    intro e b s g hf f he
    obtain ⟨transient, rfl⟩ := hfaults _ _ _ hf
    cases he
  refine Safe.db_bind _ (.const True) trivial (fun s g hinv _ hbefore => ?_)
    (fun s g e hinv _ _ hf => ?_) fun s g e hinv _ hbefore hf => ?_
  · obtain ⟨hinv', hguar⟩ := (hsweep s).sweptStep hinv hbefore
    refine ⟨(), hinv', hguar, fun f hf => ?_⟩
    cases hf
    exact mem_cons_self
  · exact ⟨(), hinv, fun f hf => hf, hfailed e false s () hf⟩
  · obtain ⟨hinv', hguar⟩ := (hsweep s).sweptStep (i := i) hinv hbefore
    exact ⟨(), hinv', hguar, hfailed e true _ () hf⟩

theorem safe_classifyUnclaimed (env : Deployment) (hfaults : DatabaseFaults faults) (s : Store) :
    Safe sweptProtocol faults (fun (_ : ι) l s _ => BeforeSweep l s) i (SweptPost i)
      (classifyUnclaimed r h) s () := by
  have hfailed : ∀ e b s g, faults .lookup e b → SweptPost i (.error e) s g := by
    intro e b s g hf f he
    obtain ⟨transient, rfl⟩ := hfaults _ _ _ hf
    cases he
  refine Safe.db_bind _ (.const True) trivial (fun s g hinv _ _ => ⟨(), hinv, fun f hf => hf, ?_⟩)
    (fun s g e hinv _ _ hf => ⟨(), hinv, fun f hf => hf, hfailed e false s () hf⟩)
    fun s g e hinv _ _ hf => ⟨(), hinv, fun f hf => hf, hfailed e true s () hf⟩
  split
  · exact nofun
  · rename_i found _
    split
    · rename_i hexpired
      have hunused : found.usedAt = none := Option.isNone_iff_eq_none.1 hexpired.1
      have heach : RefreshEach env r h ((db (.deleteExpired found) (Store.deleteToken fun row =>
          decide (row.id = found.id))).bind fun _ => (.raise .tokenExpired : Req String)) :=
        .bind (each_db fun s _ => .expired s found hunused) fun _ => each_raise _
      exact safe_unreported heach (leaves_bind (leaves_db hfaults) nofun) s
    · exact safe_endReusedFamily env r h hfaults found s

theorem safe_refresh_swept (hfaults : DatabaseFaults faults) (s : Store) :
    Safe sweptProtocol faults (fun (_ : ι) l s _ => BeforeSweep l s) i (SweptPost i)
      (refresh env r) s () := by
  cases htoken : r.token with
  | none =>
    unfold refresh
    rw [htoken]
    exact nofun
  | some token =>
    rw [refresh_eq env r htoken]
    have hrotate : RefreshEach env r (env.hashToken token) (rotate env r (env.hashToken token)) :=
      each_rotate.mono fun _ _ _ _ heffect => heffect.1
    refine (keeps_refreshEach hrotate (leaves_rotate hfaults)).before trivial
      (fun rotation s g _ _ => ?_) fun e s g he _ f hf => (he f (by cases hf; rfl)).elim
    cases rotation with
    | refused => exact nofun
    | nothingClaimed => exact safe_classifyUnclaimed env hfaults s
    | rotated =>
      have heach : RefreshEach env r (env.hashToken token)
          (afterRotation env r (env.hashToken token) .rotated) :=
        each_afterRotation_rotated.mono fun _ _ _ _ heffect => heffect.1
      exact safe_unreported heach (leaves_bind (leaves_extend _ _) fun _ => leaves_ret) s

/-- **Reuse detection ends the family.** In every run in which no rotation inserts its successor
after its family was swept, a family whose reuse was answered has no row left. -/
theorem reuse_ends_family [DecidableEq ι] (env : Deployment) (requests : ι → RefreshRequest)
    (hfaults : DatabaseFaults faults) {s₀ : Store} (h₀ : s₀.history.swept = [])
    {c : Config ι Store Site AccountError String}
    (hrun : Reaches (refreshSystem env requests faults) (fun c _ l => BeforeSweep l c.store)
      (Config.start s₀) c) {f : String}
    (hf : c.resultOf i = some (.error (.tokenReuseDetected f))) :
    ∀ row ∈ c.store.tokens, row.familyId ≠ f := by
  have hS : Sound (refreshSystem env requests faults) sweptProtocol
      (fun (_ : ι) l s _ => BeforeSweep l s) (fun c _ l => BeforeSweep l c.store)
      (fun _ _ _ => True) SweptPost := by
    refine ⟨fun i p hp s g hinv _ => ?_, fun i => .const True, fun i a => stable_sweptPost a,
      fun c i l g _ _ hok => hok⟩
    have hp' : p = refresh env (requests i) := hp
    rw [hp']
    exact (safe_refresh_swept hfaults s).mono fun _ _ _ ha hinv => ⟨(), hinv, fun f hf => hf, ha⟩
  have hinv₀ : (sweptProtocol (ι := ι)).inv s₀ () := by
    intro f hf
    rw [h₀] at hf
    cases hf
  obtain ⟨g, hat⟩ := hS.reaches_start hinv₀ (fun _ => trivial) hrun
  refine hat.1 f ?_
  obtain ⟨p, hp, hresult⟩ := Option.bind_eq_some_iff.1 hf
  have hknown := (hat.2 i).known
  rw [hp] at hknown
  exact hknown _ hresult f rfl

end EndsFamily

/-! ### A stolen family -/

def somewhere : DeviceInfo := ⟨"browser", "address", "fingerprint"⟩

/-- A family with a value already used and a live one. -/
def stolenFamily : Store :=
  { plainStore (plainUser []) with
    tokens := [⟨0, "spent", "family", somewhere, some 5, 100, none, "old"⟩,
      ⟨1, "live", "family", somewhere, none, 100, none, "old"⟩]
    nextId := 2 }

/-- A refresh at time ten of a value, which would issue another. -/
def presenting (token newRefreshTokenRaw : String) : RefreshRequest where
  token := some token
  newRefreshTokenRaw
  deviceProof := none
  attempts := 0
  claimableAt := 10
  claimedAt := fun _ => 10
  usedAt := fun _ => 10
  rotatedAt := fun _ => 10
  classifiedAt := 10
  extendedAt := 10

/-- The owner's rotation beside the replay of a value already used. -/
def rotationBesideReplay : Bool → RefreshRequest
  | false => presenting "live" "next"
  | true => presenting "spent" "other"

/-- The rotation has claimed its row when the replay runs, and inserts the successor after it. -/
def outrunSchedule : List Bool := List.replicate 3 false ++ List.replicate 10 true ++ [false]

/-- The replay is answered as a reuse, nothing is in flight, and a descendant of the stolen token
can be exchanged. -/
theorem descendant_survives_reuse :
    ∃ c, Reach (refreshSystem (plainDeployment false) rotationBesideReplay fun _ _ _ => False)
        (Config.start stolenFamily) c ∧ c.Quiet ∧
      c.resultOf true = some (.error (.tokenReuseDetected "family")) ∧
      ∃ row ∈ c.store.tokens, row.familyId = "family" ∧ row.usedAt = none := by
  have harrived := (Reaches.opened (refreshSystem (plainDeployment false) rotationBesideReplay
    fun _ _ _ => False) (fun _ _ _ => True) stolenFamily (i := false) rfl).join (i := true) rfl rfl
  refine ⟨_, Reach.follow harrived outrunSchedule, fun i => ?_, rfl, ?_⟩
  · cases i with
    | false => exact Config.not_inFlight rfl
    | true => exact Config.not_inFlight rfl
  · decide

/-- A replay on its own: the family it names is gone. -/
theorem reuse_ends_family_replay :
    ∃ c, Reaches (refreshSystem (plainDeployment false) (fun _ : Unit => presenting "spent" "other")
        fun _ _ _ => False) (fun c _ l => BeforeSweep l c.store) (Config.start stolenFamily) c ∧
      c.resultOf () = some (.error (.tokenReuseDetected "family")) ∧
      ∀ row ∈ c.store.tokens, row.familyId ≠ "family" := by
  have harrived := Reaches.opened (refreshSystem (plainDeployment false)
    (fun _ : Unit => presenting "spent" "other") fun _ _ _ => False)
    (fun c _ l => BeforeSweep l c.store) stolenFamily (i := ()) rfl
  have hrun := harrived.follow (replicate 10 ())
    ⟨fun _ => nofun, fun _ => nofun, fun _ => nofun, fun _ => nofun, fun _ => nofun,
      fun _ => nofun, fun _ => nofun, fun _ => nofun, fun _ => nofun, fun _ => nofun, trivial⟩
  exact ⟨_, hrun, rfl, reuse_ends_family (i := ()) _ _ (fun _ _ _ hf => hf.elim) rfl hrun rfl⟩

end HVault.Account
