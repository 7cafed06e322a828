import HVault.Account.SignIn
import HVault.Account.Reuse
import HVault.Account.Proofs

/-!
# The end of the old sessions

A change or a reset of the password ends every session, every trusted device and every waiting
sign-in before it stores the new credential. A sign-in has checked the password long before it
inserts its row, and a rotation has claimed a row before it inserts the successor, so such a row can
land behind the sweep of its kind. In runs where none does (`Site.Due`), nothing that the old
password granted outlives a change that was answered with success.
-/

namespace HVault.Account

open Interleave FirstMatch List Option Prog EachSilent Store

/-! ## The requests -/

/-- A request that makes or ends sessions. -/
inductive EndingRequest where
  | login (r : LoginRequest)
  | login2fa (r : Login2faRequest)
  | refresh (r : RefreshRequest)
  | change (r : ChangePasswordRequest)
  | reset (r : ResetPasswordRequest)

namespace EndingRequest

/-- The program of a request; only a change or a reset is asked how it ended. -/
def prog (env : Deployment) : EndingRequest → Req Unit
  | login r => (HVault.Account.login env r).bind fun _ => .ret ()
  | login2fa r => (HVault.Account.login2fa env r).bind fun _ => .ret ()
  | refresh r => (HVault.Account.refresh env r).bind fun _ => .ret ()
  | change r => changePassword env r
  | reset r => resetPassword env r

/-- Whether a request replaces the password. -/
def replaces : EndingRequest → Bool
  | change _ => true
  | reset _ => true
  | _ => false

end EndingRequest

section System

variable {ι : Type} (env : Deployment) (requests : ι → EndingRequest)
  (faults : Site → AccountError → Bool → Prop)

def endingSystem : System ι Store Site AccountError Unit where
  admits i p := p = (requests i).prog env
  faults

end System

/-! ## Rows and the credential they were proven with -/

/-- The credentials that the rows of a kind were proven with. -/
def Store.provenBy (kind : RowKind) (s : Store) : List String :=
  match kind with
  | .session => s.tokens.map (·.provenWith)
  | .device => s.trustedDevices.map (·.provenWith)
  | .challenge => s.challenges.map (·.provenWith)

/-- The row a statement inserts, by its kind and credential. A transaction that rotates inserts the
successor of a row that is still there. -/
def Site.grants : Site → Option (RowKind × String)
  | .createToken provenWith => some (.session, provenWith)
  | .createSuccessor claimed => some (.session, claimed.provenWith)
  | .createDevice provenWith => some (.device, provenWith)
  | .createChallenge provenWith => some (.challenge, provenWith)
  | _ => none

/-- The statement does not grant what a change of the password has ended. -/
def Site.Due (s : Store) (l : Site) : Prop := ∀ grant, l.grants = some grant → grant ∉ s.history.ended

variable {l : Site} {s : Store}

theorem Site.Due.of_grants (hl : l.grants = none) : l.Due s := by
  intro grant hgrant
  rw [hl] at hgrant
  exact nomatch hgrant

def Site.storesCredential : Site → Bool
  | .writeCredential _ _ _ => true
  | _ => false

/-- What one statement may do: rows come from rows or are granted, a kind is recorded as ended when
no row of it is left, and only one statement touches the credential. -/
structure EndingStep (l : Site) (s s' : Store) : Prop where
  rows : ∀ kind h, h ∈ s'.provenBy kind → h ∈ s.provenBy kind ∨ l.grants = some (kind, h)
  ended : ∀ kind h, (kind, h) ∈ s'.history.ended →
    (kind, h) ∈ s.history.ended ∨ s'.provenBy kind = []
  grows : ∀ e ∈ s.history.ended, e ∈ s'.history.ended
  credential : l.storesCredential = false → s'.user.map (·.authHash) = s.user.map (·.authHash)

/-- Nothing that was ended is left. -/
def EndedGone (s : Store) : Prop :=
  ∀ kind h, (kind, h) ∈ s.history.ended → h ∉ s.provenBy kind

variable {s' : Store}

theorem EndingStep.gone (h : EndingStep l s s') (hdue : l.Due s) (hs : EndedGone s) :
    EndedGone s' := by
  intro kind credential hended hrow
  rcases h.ended kind credential hended with hbefore | hnone
  · rcases h.rows kind credential hrow with hrow | hgrant
    · exact hs kind credential hbefore hrow
    · exact hdue _ hgrant hbefore
  · rw [hnone] at hrow
    exact not_mem_nil hrow

theorem EndingStep.trans {s'' : Store} (hl : l.grants = none) (h : EndingStep l s s')
    (h' : EndingStep l s' s'') : EndingStep l s s'' where
  rows kind x hx := by
    rcases h'.rows kind x hx with hx | hgrant
    · exact h.rows kind x hx
    · exact .inr hgrant
  ended kind x hx := by
    rcases h'.ended kind x hx with hx | hnone
    · refine (h.ended kind x hx).imp_right fun hnone => ?_
      -- a kind without rows gets none from a statement that grants nothing
      refine eq_nil_iff_forall_not_mem.2 fun y hy => ?_
      rcases h'.rows kind y hy with hy | hgrant
      · rw [hnone] at hy
        exact not_mem_nil hy
      · rw [hl] at hgrant
        exact nomatch hgrant
    · exact .inr hnone
  grows e he := h'.grows e (h.grows e he)
  credential hl := (h'.credential hl).trans (h.credential hl)

theorem Store.provenBy_of_rows (h : SameRows s s') (kind : RowKind) :
    s'.provenBy kind = s.provenBy kind := by
  cases kind with
  | session => exact congrArg (map _) h.tokens
  | device => exact congrArg (map _) h.devices
  | challenge => exact congrArg (map _) h.challenges

/-- A statement on none of the rows. -/
theorem EndingStep.of_rows (h : SameRows s s')
    (hcredential : l.storesCredential = false → s'.user.map (·.authHash) = s.user.map (·.authHash)) :
    EndingStep l s s' where
  rows kind _ hx := .inl (provenBy_of_rows h kind ▸ hx)
  ended _ _ hx := .inl (h.ended ▸ hx)
  grows _ he := h.ended ▸ he
  credential := hcredential

theorem EndingStep.same (l : Site) (s : Store) : EndingStep l s s :=
  .of_rows (.refl s) fun _ => rfl

theorem Silent.ending (h : Silent l s s') : EndingStep l s s' :=
  .of_rows h.rows fun _ => h.same.credential

/-- A statement on one kind of rows that records no end and leaves the account. -/
theorem EndingStep.of_kind (changed : RowKind)
    (hrows : ∀ h ∈ s'.provenBy changed, h ∈ s.provenBy changed ∨ l.grants = some (changed, h))
    (hothers : ∀ kind, kind ≠ changed → s'.provenBy kind = s.provenBy kind)
    (hended : s'.history.ended = s.history.ended) (huser : s'.user = s.user) :
    EndingStep l s s' where
  rows kind h hh := by
    by_cases hkind : kind = changed
    · subst hkind
      exact hrows h hh
    · exact .inl (hothers kind hkind ▸ hh)
  ended _ _ hx := .inl (hended ▸ hx)
  grows _ he := hended ▸ he
  credential _ := by rw [huser]

theorem EndingStep.of_tokens
    (htokens : ∀ row' ∈ s'.tokens, (∃ row ∈ s.tokens, row.provenWith = row'.provenWith) ∨
      l.grants = some (.session, row'.provenWith))
    (hdevices : s'.trustedDevices = s.trustedDevices) (hchallenges : s'.challenges = s.challenges)
    (hended : s'.history.ended = s.history.ended) (huser : s'.user = s.user) :
    EndingStep l s s' := by
  refine .of_kind .session (fun h hh => ?_) (fun kind hkind => ?_) hended huser
  · obtain ⟨row', hrow', rfl⟩ := mem_map.1 hh
    refine (htokens row' hrow').imp_left fun ⟨row, hrow, heq⟩ => ?_
    rw [← heq]
    exact mem_map_of_mem hrow
  · cases kind with
    | session => exact (hkind rfl).elim
    | device => exact congrArg (map _) hdevices
    | challenge => exact congrArg (map _) hchallenges

theorem EndingStep.of_devices {devices : List TrustedDevice} {nextId : ℕ}
    (hdevices : ∀ row' ∈ devices, row' ∈ s.trustedDevices ∨
      l.grants = some (.device, row'.provenWith)) :
    EndingStep l s { s with trustedDevices := devices, nextId } := by
  refine .of_kind .device (fun h hh => ?_) (fun kind hkind => ?_) rfl rfl
  · obtain ⟨row', hrow', rfl⟩ := mem_map.1 hh
    exact (hdevices row' hrow').imp_left mem_map_of_mem
  · cases kind with
    | device => exact (hkind rfl).elim
    | session => rfl
    | challenge => rfl

theorem EndingStep.of_challenges {challenges : List Challenge}
    (hchallenges : ∀ row' ∈ challenges, row'.provenWith ∈ s.challenges.map (·.provenWith) ∨
      l.grants = some (.challenge, row'.provenWith)) :
    EndingStep l s { s with challenges } := by
  refine .of_kind .challenge (fun h hh => ?_) (fun kind hkind => ?_) rfl rfl
  · obtain ⟨row', hrow', rfl⟩ := mem_map.1 hh
    exact hchallenges row' hrow'
  · cases kind with
    | challenge => exact (hkind rfl).elim
    | session => rfl
    | device => rfl

/-! ## Sign-ins and refreshes -/

variable {recovers : Bool}

theorem SignInEffect.ending (h : SignInEffect recovers l s s') : EndingStep l s s' := by
  cases h with
  | same => exact .same l s
  | proofs => exact .of_rows ⟨rfl, rfl, rfl, rfl⟩ fun _ => rfl
  | lockout l _ after =>
    unfold putLockout
    split
    · rename_i u l' hu
      exact .of_rows ⟨rfl, rfl, rfl, rfl⟩ fun _ => by rw [hu]; rfl
    · exact .same _ s
  | recoverFence =>
    have hsame : SameCredential s s.recoverFence := sameCredential_updateUser s fun _ => rfl
    exact .of_rows (sameRows_updateUser s) fun _ => hsame.credential
  | evictSessions _ excess =>
    exact .of_tokens (fun row hrow => .inl ⟨row, (mem_filter.1 hrow).1, rfl⟩) rfl rfl rfl rfl
  | createDevice _ row =>
    refine .of_devices fun row' hrow' => ?_
    rcases mem_append.1 hrow' with hold | hnew
    · exact .inl hold
    · rw [mem_singleton.1 hnew]
      exact .inr rfl
  | claimDevice _ mine => exact .of_devices fun row' hrow' => .inl (mem_of_mem_eraseP hrow')
  | evictDevices _ stays => exact .of_devices fun row' hrow' => .inl (mem_filter.1 hrow').1
  | createChallenge _ row =>
    refine .of_challenges fun row' hrow' => ?_
    rcases mem_append.1 hrow' with hold | hnew
    · exact .inl (mem_map_of_mem hold)
    · rw [mem_singleton.1 hnew]
      exact .inr rfl
  | consumeChallenge _ jti now =>
    refine .of_challenges fun row' hrow' => .inl ?_
    have hproven := map_findModify (p := openChallenge jti now)
      (f := fun row : Challenge => { row with consumedAt := some now }) (l := s.challenges)
      (·.provenWith) fun _ _ => rfl
    rw [← hproven]
    exact mem_map_of_mem hrow'

variable {env : Deployment}

theorem SignInStep.ending {refreshTokenRaw familyId : String}
    (h : SignInStep recovers env refreshTokenRaw familyId l s s') : EndingStep l s s' := by
  rcases h with heffect | ⟨deviceInfo, remember, now, provenWith, rfl, rfl⟩
  · exact heffect.ending
  · refine .of_tokens (fun row' hrow' => ?_) rfl rfl rfl rfl
    rcases mem_append.1 hrow' with hold | hnew
    · exact .inl ⟨row', hold, rfl⟩
    · rw [mem_singleton.1 hnew]
      exact .inr rfl

/-- A claim keeps what a row was proven with. -/
theorem ending_claim (h : String) (now usedAt : ℤ) :
    EndingStep l s (s.claimToken h now usedAt).2 := by
  refine .of_tokens (fun row' hrow' => .inl ?_) rfl rfl rfl rfl
  have hproven := map_findModify (p := claimable h now)
    (f := fun row : RefreshToken => { row with usedAt := some usedAt }) (l := s.tokens)
    (·.provenWith) fun _ _ => rfl
  have hmem : row'.provenWith ∈ s.tokens.map (·.provenWith) := by
    rw [← hproven]
    exact mem_map_of_mem hrow'
  obtain ⟨row, hrow, heq⟩ := mem_map.1 hmem
  exact ⟨row, hrow, heq⟩

theorem RefreshEffect.ending {r : RefreshRequest} {h : String}
    (heffect : RefreshEffect env r h l s s') : EndingStep l s s' := by
  have hsubset : ∀ {tokens : List RefreshToken} {history : History}, (∀ row ∈ tokens, row ∈ s.tokens) →
      history.ended = s.history.ended → EndingStep l s { s with tokens, history } :=
    fun hsub hended => .of_tokens (fun row hrow => .inl ⟨row, hsub row hrow, rfl⟩) rfl rfl hended rfl
  cases heffect with
  | same => exact .same l s
  | proofs => exact .of_rows ⟨rfl, rfl, rfl, rfl⟩ fun _ => rfl
  | claim => exact ending_claim h _ _
  | rotate _ attempt =>
    rcases rotateOnce_cases env r h attempt s with
      ⟨heq, -⟩ | heq | ⟨row, before, after, htokens, -, -, heq⟩
    · rw [heq]
      exact .same _ s
    · rw [heq]
      exact .same _ s
    · rw [heq]
      -- the successor was proven with what the claimed row was proven with
      refine .of_tokens (fun row' hrow' => .inl ?_) rfl rfl rfl rfl
      have hrow : row ∈ s.tokens := by simp [htokens]
      rcases mem_append.1 hrow' with hold | hnew
      · simp only [mem_append, mem_cons] at hold
        rcases hold with hold | rfl | hold
        · exact ⟨row', by simp [htokens, hold], rfl⟩
        · exact ⟨row, hrow, rfl⟩
        · exact ⟨row', by simp [htokens, hold], rfl⟩
      · rw [mem_singleton.1 hnew]
        exact ⟨row, hrow, rfl⟩
  | successor _ claimed =>
    refine .of_tokens (fun row' hrow' => ?_) rfl rfl rfl rfl
    rcases mem_append.1 hrow' with hold | hnew
    · exact .inl ⟨row', hold, rfl⟩
    · rw [mem_singleton.1 hnew]
      exact .inr rfl
  | expired => exact hsubset (fun row hrow => mem_of_mem_eraseP hrow) rfl
  | deleteLive => exact hsubset (fun row hrow => (mem_filter.1 hrow).1) rfl
  | revokeDevices => exact .of_devices nofun
  | revokeProofs => exact .of_rows ⟨rfl, rfl, rfl, rfl⟩ fun _ => rfl
  | revokeChallenges => exact .of_challenges nofun
  | claimReplayed => exact hsubset (fun row hrow => mem_of_mem_eraseP hrow) rfl
  | record => exact .of_rows ⟨rfl, rfl, rfl, rfl⟩ fun _ => rfl
  | sweep => exact hsubset (fun row hrow => (mem_filter.1 hrow).1) rfl

/-- No statement of a sign-in touches the credential. -/
theorem SignInStep.spares {refreshTokenRaw familyId : String}
    (h : SignInStep recovers env refreshTokenRaw familyId l s s') :
    s' = s ∨ l.storesCredential = false := by
  rcases h with heffect | ⟨_, _, _, _, rfl, -⟩
  · cases heffect with
    | same => exact .inl rfl
    | proofs _ _ _ _ hl =>
      right
      cases l with
      | writeCredential _ _ _ => exact nomatch hl
      | _ => rfl
    | _ => exact .inr rfl
  · exact .inr rfl

theorem RefreshEffect.spares {r : RefreshRequest} {h : String}
    (heffect : RefreshEffect env r h l s s') :
    s' = s ∨ l.storesCredential = false := by
  cases heffect with
  | same => exact .inl rfl
  | _ => exact .inr rfl

/-! ## Changes and resets -/

/-- A kind is recorded as ended once no row of it is left. -/
theorem EndingStep.logEnded {kind : RowKind} (h : EndingStep l s s')
    (hnone : s'.provenBy kind = []) : EndingStep l s (s'.logEnded kind) := by
  have hrows : ∀ kind', (s'.logEnded kind).provenBy kind' = s'.provenBy kind' := by
    intro kind'
    unfold Store.logEnded
    split
    · rfl
    · cases kind' <;> rfl
  have hended : ∀ e, e ∈ (s'.logEnded kind).history.ended → e ∈ s'.history.ended ∨ e.1 = kind := by
    intro e he
    unfold Store.logEnded at he
    split at he
    · exact .inl he
    · exact (mem_cons.1 he).symm.imp_right fun heq => by rw [heq]
  have hgrows : ∀ e ∈ s'.history.ended, e ∈ (s'.logEnded kind).history.ended := by
    intro e he
    unfold Store.logEnded
    split
    · exact he
    · exact mem_cons_of_mem _ he
  refine ⟨fun kind' x hx => ?_, fun kind' x hx => ?_, fun e he => hgrows e (h.grows e he), fun hl => ?_⟩
  · rw [hrows] at hx
    exact h.rows kind' x hx
  · rw [hrows]
    rcases hended _ hx with hx | rfl
    · exact h.ended kind' x hx
    · exact .inr hnone
  · rw [user_logEnded]
    exact h.credential hl

theorem ending_endSessions (l : Site) (s : Store) : EndingStep l s s.endSessions := by
  have hrows : EndingStep l s { s with tokens := [] } :=
    .of_tokens nofun rfl rfl rfl rfl
  exact hrows.logEnded rfl

theorem ending_endDevices (l : Site) (s : Store) : EndingStep l s s.endDevices := by
  have hrows : EndingStep l s s.revokeTrustedDevices.2 := .of_devices nofun
  exact hrows.logEnded rfl

theorem ending_endChallenges (l : Site) (s : Store) : EndingStep l s s.endChallenges := by
  have hrows : EndingStep l s s.revokeTwoFactorChallenges.2 :=
    .of_challenges nofun
  exact hrows.logEnded rfl

theorem ending_revokeDeviceProofs (l : Site) (s : Store) : EndingStep l s s.revokeDeviceProofs.2 :=
  .of_rows ⟨rfl, rfl, rfl, rfl⟩ fun _ => rfl

variable (base : String)

theorem sameRows_suspend (s : Store) : SameRows s (suspendThirdPartyRecipients base s).2 := by
  unfold suspendThirdPartyRecipients
  split
  · exact .refl s
  · split
    · exact ⟨rfl, rfl, rfl, rfl⟩
    · exact .refl s

theorem ending_suspend (l : Site) (base : String) (s : Store) :
    EndingStep l s (suspendThirdPartyRecipients base s).2 :=
  .of_rows (sameRows_suspend base s) fun _ => (sameCredential_suspend base s).credential

theorem ending_revokeGranted (hl : l.grants = none) (base : String) (s : Store) :
    EndingStep l s (s.revokeGranted base) := by
  have hsessions := ending_endSessions l s
  have hdevices := hsessions.trans hl (ending_endDevices l _)
  have hproofs := hdevices.trans hl (ending_revokeDeviceProofs l _)
  have hchallenges := hproofs.trans hl (ending_endChallenges l _)
  exact hchallenges.trans hl (ending_suspend l base _)

/-- Storing a credential touches no row. -/
theorem ending_storeCredential (provenWith : String) (since : ℕ) (version : Option ℕ)
    (filter : User → Bool) (update : User → User) (s : Store) :
    EndingStep (.writeCredential provenWith since version) s
      (s.storeCredential filter update).2 := by
  rcases s.storeCredential_cases filter update with heq | ⟨u, -, -, heq⟩
  · rw [heq]
    exact .same _ s
  · rw [heq]
    exact .of_rows ⟨rfl, rfl, rfl, rfl⟩ nofun

theorem ending_changeOnce (r : ChangePasswordRequest) (provenWith : String) (since version : ℕ)
    (outstanding : Bool) (attempt : ℕ) (s : Store) :
    EndingStep (.writeCredential provenWith since (some version)) s
      (changeOnce r version outstanding attempt s).2 := by
  unfold changeOnce
  cases hwrite : r.write version outstanding (s.revokeGranted (r.nonceBase attempt)) with
  | mk written s' =>
    cases written with
    | false => exact .same _ s
    | true =>
      have hrevoked := ending_revokeGranted (l := .writeCredential provenWith since (some version)) rfl
        (r.nonceBase attempt) s
      have hstored := ending_storeCredential provenWith since (some version)
        (fun u => decide (vaultKeyVersionOf u = version)) (r.store outstanding)
        (s.revokeGranted (r.nonceBase attempt))
      have hs' : (storeCredential (fun u => decide (vaultKeyVersionOf u = version))
          (r.store outstanding) (s.revokeGranted (r.nonceBase attempt))).2 = s' :=
        congrArg Prod.snd hwrite
      rw [hs'] at hstored
      exact hrevoked.trans rfl hstored

/-! ## Every statement of every request -/

abbrev EachEnding {α : Type} (p : Req α) : Prop := p.Each (fun _ => True) EndingStep

variable {α : Type} {p : Req α}

theorem EachSilent.ending (hp : EachSilent p) : EachEnding p :=
  hp.mono fun _ _ _ _ h => h.ending

theorem ending_revoke (provenWith : String) (since : ℕ) (base : String) :
    EachEnding (revokeGranted provenWith since base) := by
  refine .bind (each_db fun s _ => ending_endSessions _ s) fun _ => ?_
  refine .bind (each_db fun s _ => ending_endDevices _ s) fun _ => ?_
  refine .bind (each_db fun s _ => ending_revokeDeviceProofs _ s) fun _ => ?_
  refine .bind (each_db fun s _ => ending_endChallenges _ s) fun _ => ?_
  exact .bind (each_db fun s _ => ending_suspend _ base s) fun _ => each_ret _

theorem ending_changeInTransaction (r : ChangePasswordRequest) (provenWith : String)
    (since version : ℕ) (outstanding : Bool) (attempts : ℕ) :
    EachEnding (changeInTransaction r provenWith since version outstanding attempts) := by
  induction attempts with
  | zero => exact each_db fun s _ => ending_changeOnce r provenWith since version outstanding 0 s
  | succ attempts ih =>
    refine .bind (Prog.Each.attempt (each_db fun s _ =>
      ending_changeOnce r provenWith since version outstanding (attempts + 1) s)) fun outcome => ?_
    split
    · exact each_ret _
    · dsimp only
      split
      · exact ih
      · exact each_raise _

theorem ending_suspendAgain (newHash : String) (since : ℕ) (base : String) (written : Bool) :
    EachEnding (suspendAgain newHash since base written) := by
  unfold suspendAgain
  split
  · exact .bind (each_db fun s _ => ending_suspend _ base s) fun _ => each_ret _
  · exact each_ret _

theorem ending_changeUnderLock (env : Deployment) (r : ChangePasswordRequest) (provenWith : String)
    (since : ℕ) : EachEnding (changeUnderLock env r provenWith since) := by
  refine .bind each_assertVaultNotRotating.ending fun _ => ?_
  refine .bind (each_assertVaultKeyVersion _).ending fun version => ?_
  refine .bind (ending (each_silentRead rfl rfl)) fun outstanding => ?_
  split
  · exact each_raise _
  · split
    · exact ending_changeInTransaction _ _ _ _ _ _
    · refine .bind (ending_revoke _ _ _) fun _ => ?_
      refine .bind (each_db fun s _ => ending_storeCredential _ _ _ _ _ s) fun written => ?_
      exact ending_suspendAgain _ _ _ _

theorem ending_changeProven (env : Deployment) (r : ChangePasswordRequest) (provenWith : String)
    (since : ℕ) : EachEnding (changeProven env r provenWith since) := by
  refine .bind (each_acquireVaultRotationLock _ _).ending fun _ => ?_
  refine .bind (.bind (ending_changeUnderLock env r provenWith since).attempt fun outcome => ?_)
    fun written => ?_
  · exact .bind (each_releaseVaultRotationLock _).ending fun _ => each_ofExcept outcome
  · split
    · exact each_ret _
    · exact each_refuseSuperseded.ending

theorem ending_resetLinked (r : ResetPasswordRequest) (loaded : User) (since : ℕ) :
    EachEnding (resetLinked r loaded since) := by
  refine .bind (ending_revoke _ _ _) fun _ => ?_
  refine .bind (each_db fun s _ => ending_storeCredential _ _ _ _ _ s) fun saved => ?_
  split
  · refine .bind (ending (each_silentRead rfl rfl)) fun live => ?_
    split
    · refine .bind (each_db fun s _ => ?_) fun _ => ?_
      · have hsame : SameCredential s (clearOptOuts s).2 := sameCredential_updateUser s fun _ => rfl
        exact .of_rows (sameRows_updateUser s) fun _ => hsame.credential
      · exact .bind (each_db fun s _ => ending_suspend _ _ s) fun _ => each_ret _
    · exact each_raise _
  · exact each_raise _

/-- A statement of a request: the credential is left alone except by a change or a reset. -/
def RequestStep (request : EndingRequest) (l : Site) (s s' : Store) : Prop :=
  EndingStep l s s' ∧ (request.replaces = false → s' = s ∨ l.storesCredential = false)

theorem EachEnding.replacing {request : EndingRequest} (hp : EachEnding p)
    (hreplaces : request.replaces = true) : p.Each (fun _ => True) (RequestStep request) :=
  hp.mono fun _ _ _ _ h => ⟨h, fun hnot => by rw [hreplaces] at hnot; exact nomatch hnot⟩

/-- **Every statement of every request** does what `RequestStep` says. -/
theorem each_endingRequest (env : Deployment) (request : EndingRequest) :
    (request.prog env).Each (fun _ => True) (RequestStep request) := by
  cases request with
  | login r =>
    refine .bind ((issuesOnce_login env r).each.mono fun _ _ _ _ h => ?_) fun _ => each_ret _
    exact ⟨h.ending, fun _ => h.spares⟩
  | login2fa r =>
    refine .bind ((issuesOnce_login2fa env r).each.mono fun _ _ _ _ h => ?_) fun _ => each_ret _
    exact ⟨h.ending, fun _ => h.spares⟩
  | refresh r =>
    refine .bind ((each_refresh env r).mono fun _ _ _ _ ⟨_, _, h⟩ => ?_) fun _ => each_ret _
    exact ⟨h.ending, fun _ => h.spares⟩
  | change r =>
    refine EachEnding.replacing ?_ rfl
    refine .bind (ending (each_silentRead rfl rfl)) fun ⟨loaded, since⟩ => ?_
    dsimp only
    split
    · exact each_raise _
    · split
      · exact ending_changeProven env r _ since
      · exact each_raise _
  | reset r =>
    refine EachEnding.replacing ?_ rfl
    show EachEnding (resetPassword env r)
    unfold resetPassword
    split
    · exact each_raise _
    · refine .bind (ending (each_silentRead rfl rfl)) fun ⟨loaded, since⟩ => ?_
      dsimp only
      split
      · exact each_raise _
      · split
        · exact each_raise _
        · split
          · exact each_raise _
          · split
            · exact each_raise _
            · exact ending_resetLinked r _ since

/-! ## A change that succeeds has ended everything -/

variable {ι : Type} {env : Deployment} {requests : ι → EndingRequest}
  {faults : Site → AccountError → Bool → Prop} {i : ι} {old : String}

variable (requests) in
/-- Ends are recorded for good, and only a change or a reset touches the credential. -/
def endingProtocol : Protocol ι Store Site Unit where
  inv _ _ := True
  guar i _ s _ s' _ := (∀ e ∈ s.history.ended, e ∈ s'.history.ended) ∧
    ((requests i).replaces = false → s'.user.map (·.authHash) = s.user.map (·.authHash))

theorem RequestStep.guar (h : RequestStep (requests i) l s s') :
    (endingProtocol requests).guar i (some l) s () s' () := by
  refine ⟨h.1.grows, fun hnot => ?_⟩
  rcases h.2 hnot with rfl | hl
  · rfl
  · exact h.1.credential hl

/-- The stored credential is `old`. -/
def Old (old : String) (s : Store) : Prop := s.user.map (·.authHash) = some old

/-- The given kinds of rows were ended under `old`. -/
def Ended (old : String) (kinds : List RowKind) (s : Store) : Prop :=
  ∀ kind ∈ kinds, (kind, old) ∈ s.history.ended

/-- The kinds of rows that a change of the password ends. -/
def everyKind : List RowKind := [.challenge, .device, .session]

/-- The only request that replaces the password. -/
structure Replacer (requests : ι → EndingRequest) (i : ι) : Prop where
  replaces : (requests i).replaces = true
  only : ∀ j, (requests j).replaces = true → j = i

theorem stable_hash (hi : Replacer requests i) (hash : Option String) :
    (endingProtocol requests).Stable i fun s _ => s.user.map (·.authHash) = hash := by
  intro j hj l s _ s' _ _ hs hguar _
  have hnot : (requests j).replaces = false := by
    cases hreplaces : (requests j).replaces with
    | false => rfl
    | true => exact (hj (hi.only j hreplaces)).elim
  rw [hguar.2 hnot]
  exact hs

theorem stable_ended (kinds : List RowKind) :
    (endingProtocol requests).Stable i fun s _ => Ended old kinds s :=
  fun _ _ _ _ _ _ _ _ hs hguar _ kind hkind => hguar.1 _ (hs kind hkind)

variable (requests faults i) in
/-- Run among the others, the program ends in `Q`. -/
abbrev EndsIn {α : Type} (Q : Except AccountError α → Store → Prop) (p : Req α) (s : Store) : Prop :=
  Safe (endingProtocol requests) faults (fun _ _ _ _ => True) i (fun r s _ => Q r s) p s ()

/-- One statement of the request that replaces the password, then the rest. -/
theorem endsIn_statement {β : Type} {Q : Except AccountError α → Store → Prop}
    (P P' : Store → Prop) (hi : Replacer requests i)
    (hst : (endingProtocol requests).Stable i fun s _ => P s) (hfail : ∀ e s, Q (.error e) s)
    {f : Store → β × Store} {k : β → Req α} (hf : ∀ s, EndingStep l s (f s).2)
    (hstep : ∀ s, P s → P' (f s).2) (hs : P s)
    (hk : ∀ b s, P' s → EndsIn requests faults i Q (k b) s) :
    EndsIn requests faults i Q ((Prog.db l f).bind k) s := by
  have hguar : ∀ s, (endingProtocol requests).guar i (some l) s () (f s).2 () := fun s =>
    ⟨(hf s).grows, fun hnot => by rw [hi.replaces] at hnot; exact nomatch hnot⟩
  refine Safe.db_bind _ hst hs (fun s _ _ hP _ => ?_) (fun s _ e _ _ _ _ => ?_)
    fun s _ e _ _ _ _ => ?_
  · exact ⟨(), trivial, hguar s, hk _ _ (hstep s hP)⟩
  · exact ⟨(), trivial, ⟨fun _ he => he, fun _ => rfl⟩, hfail e s⟩
  · exact ⟨(), trivial, hguar s, hfail e _⟩

/-- A part of it that touches neither the credential nor the record of ends. -/
theorem EachSilent.endsIn {P : Store → Prop} (hp : EachSilent p)
    (hst : (endingProtocol requests).Stable i fun s _ => P s)
    (hsame : ∀ s s', SameCredential s s' → SameRows s s' → P s → P s') (hs : P s) :
    EndsIn requests faults i (fun _ s => P s) p s := by
  have hkeeps : Keeps (endingProtocol requests) faults (fun _ _ _ _ => True) i (fun s _ => P s)
      (fun _ => True) p := by
    refine Prog.Each.keeps hp hst (fun _ _ _ => trivial) fun l s _ s₁ s' _ hP _ h hs' => ⟨(), trivial, ?_⟩
    rcases hs' with rfl | rfl
    · exact ⟨⟨fun _ he => he, fun _ => rfl⟩, hP⟩
    · exact ⟨⟨h.ending.grows, fun _ => h.same.credential⟩, hsame _ _ h.same h.rows hP⟩
  exact (hkeeps s () hs).mono fun _ _ _ hr => hr.1

variable {kinds : List RowKind}

theorem ended_of_rows (h : SameRows s s') (hs : Ended old kinds s) : Ended old kinds s' :=
  fun kind hkind => h.ended ▸ hs kind hkind

/-- The end of one kind, under the credential stored at that moment. -/
theorem ended_logEnded {kind : RowKind} (hs : Old old s ∧ Ended old kinds s)
    (huser : s'.user = s.user) (hended : s'.history.ended = s.history.ended) :
    Old old (s'.logEnded kind) ∧ Ended old (kind :: kinds) (s'.logEnded kind) := by
  obtain ⟨u, hu, rfl⟩ := map_eq_some_iff.1 hs.1
  rw [← huser] at hu
  have hlog : (s'.logEnded kind).history.ended = (kind, u.authHash) :: s'.history.ended := by
    unfold logEnded
    rw [hu]
  refine ⟨?_, fun kind' hkind' => ?_⟩
  · show (s'.logEnded kind).user.map (·.authHash) = _
    rw [user_logEnded, hu]
    rfl
  · rw [hlog, hended]
    rcases mem_cons.1 hkind' with rfl | hkind'
    · exact mem_cons_self
    · exact mem_cons_of_mem _ (hs.2 kind' hkind')

theorem ended_endSessions (hs : Old old s ∧ Ended old kinds s) :
    Old old s.endSessions ∧ Ended old (.session :: kinds) s.endSessions :=
  ended_logEnded hs rfl rfl

theorem ended_endDevices (hs : Old old s ∧ Ended old kinds s) :
    Old old s.endDevices ∧ Ended old (.device :: kinds) s.endDevices :=
  ended_logEnded hs rfl rfl

theorem ended_endChallenges (hs : Old old s ∧ Ended old kinds s) :
    Old old s.endChallenges ∧ Ended old (.challenge :: kinds) s.endChallenges :=
  ended_logEnded hs rfl rfl

theorem ended_suspend (hs : Old old s ∧ Ended old kinds s) :
    Old old (suspendThirdPartyRecipients base s).2 ∧
      Ended old kinds (suspendThirdPartyRecipients base s).2 :=
  ⟨(sameCredential_suspend base s).credential.trans hs.1,
    ended_of_rows (sameRows_suspend base s) hs.2⟩

/-- All that the old password granted ends, statement by statement. -/
theorem endsIn_revokeGranted (hi : Replacer requests i) (provenWith : String) (since : ℕ)
    (base : String) (hs : Old old s) :
    EndsIn requests faults i (fun r s => r = .ok () → Old old s ∧ Ended old everyKind s)
      (revokeGranted provenWith since base) s := by
  have hst : ∀ kinds, (endingProtocol requests).Stable i fun s _ => Old old s ∧ Ended old kinds s :=
    fun kinds => (stable_hash hi (some old)).and (stable_ended kinds)
  have hfail : ∀ (e : AccountError) (s : Store), Except.error e = Except.ok () →
      Old old s ∧ Ended old everyKind s := fun _ _ => nofun
  have hnone : Old old s ∧ Ended old [] s := ⟨hs, nofun⟩
  refine endsIn_statement _ (fun s => Old old s ∧ Ended old [.session] s) hi (hst []) hfail
    (fun s => ending_endSessions _ s) (fun s hP => ended_endSessions hP) hnone fun _ s hs => ?_
  refine endsIn_statement _ (fun s => Old old s ∧ Ended old [.device, .session] s) hi
    (hst [.session]) hfail (fun s => ending_endDevices _ s) (fun s hP => ended_endDevices hP) hs
    fun _ s hs => ?_
  refine endsIn_statement _ (fun s => Old old s ∧ Ended old [.device, .session] s) hi
    (hst [.device, .session]) hfail (fun s => ending_revokeDeviceProofs _ s) (fun s hP => hP) hs
    fun _ s hs => ?_
  refine endsIn_statement _ (fun s => Old old s ∧ Ended old everyKind s) hi
    (hst [.device, .session]) hfail (fun s => ending_endChallenges _ s)
    (fun s hP => ended_endChallenges hP) hs fun _ s hs => ?_
  exact endsIn_statement _ (fun s => Old old s ∧ Ended old everyKind s) hi (hst everyKind) hfail
    (fun s => ending_suspend _ base s) (fun s hP => ended_suspend base hP) hs fun _ s hs _ => hs

/-- The same, as part of a transaction. -/
theorem ended_revokeGranted (hs : Old old s) :
    Old old (s.revokeGranted base) ∧ Ended old everyKind (s.revokeGranted base) := by
  have hnone : Old old s ∧ Ended old [] s := ⟨hs, nofun⟩
  have hdevices := ended_endDevices (ended_endSessions hnone)
  have hproofs : Old old s.endSessions.endDevices.revokeDeviceProofs.2 ∧
      Ended old [.device, .session] s.endSessions.endDevices.revokeDeviceProofs.2 := hdevices
  exact ended_suspend base (ended_endChallenges hproofs)

theorem EndsIn.bind {β : Type} {Q' : Except AccountError β → Store → Prop}
    {Q : Except AccountError α → Store → Prop} {p : Req β} {k : β → Req α}
    (hp : EndsIn requests faults i Q' p s)
    (hk : ∀ b s, Q' (.ok b) s → EndsIn requests faults i Q (k b) s)
    (hfail : ∀ e s, Q (.error e) s) : EndsIn requests faults i Q (p.bind k) s := by
  refine Safe.bind (hp.mono fun r s _ hr => ?_)
  cases r with
  | ok b => exact hk b s hr
  | error e => exact hfail e s

/-- A silent part ahead of the rest, while the old credential is stored. -/
theorem EachSilent.ahead {β : Type} {Q : Except AccountError α → Store → Prop} {p : Req β}
    {k : β → Req α} (hp : EachSilent p) (hi : Replacer requests i) (hs : Old old s)
    (hk : ∀ b s, Old old s → EndsIn requests faults i Q (k b) s) (hfail : ∀ e s, Q (.error e) s) :
    EndsIn requests faults i Q (p.bind k) s :=
  (hp.endsIn (stable_hash hi (some old)) (fun _ _ h _ hP => h.credential.trans hP) hs).bind hk hfail

/-- What a change or a reset has to show for itself. -/
abbrev EndedAll {α : Type} (old : String) (done : α) (r : Except AccountError α) (s : Store) : Prop :=
  r = .ok done → Ended old everyKind s

theorem endedAll_error {done : α} (e : AccountError) (s : Store) :
    EndedAll old done (.error e) s := nofun

/-- Silent parts lose nothing of what was ended. -/
theorem EachSilent.keepsEnded (hp : EachSilent p) {A : Prop} (hs : A → Ended old everyKind s) :
    EndsIn requests faults i (fun _ s => A → Ended old everyKind s) p s := by
  have hst : (endingProtocol requests).Stable i fun s _ => A → Ended old everyKind s :=
    .imp_const A (stable_ended everyKind)
  exact hp.endsIn hst (fun _ _ _ h hP ha => ended_of_rows h (hP ha)) hs

/-- A transaction of a change that stores the credential has ended everything. -/
theorem ended_changeOnce (r : ChangePasswordRequest) (version : ℕ) (outstanding : Bool)
    (attempt : ℕ) (hs : Old old s ∨ Ended old everyKind s) :
    ((changeOnce r version outstanding attempt s).1 = true →
        Ended old everyKind (changeOnce r version outstanding attempt s).2) ∧
      (Old old (changeOnce r version outstanding attempt s).2 ∨
        Ended old everyKind (changeOnce r version outstanding attempt s).2) := by
  unfold changeOnce ChangePasswordRequest.write
  rcases (s.revokeGranted (r.nonceBase attempt)).storeCredential_cases
    (fun u => decide (vaultKeyVersionOf u = version)) (r.store outstanding) with
    heq | ⟨u, -, -, heq⟩
  · rw [heq]
    exact ⟨nofun, hs⟩
  · rw [heq]
    have hended : Ended old everyKind (s.revokeGranted (r.nonceBase attempt)) := by
      rcases hs with hs | hs
      · exact (ended_revokeGranted _ hs).2
      · have hgrows := (ending_revokeGranted (l := .tick) rfl (r.nonceBase attempt) s).grows
        exact fun kind hkind => hgrows _ (hs kind hkind)
    exact ⟨fun _ => hended, .inr hended⟩

theorem stable_oldOrEnded (hi : Replacer requests i) :
    (endingProtocol requests).Stable i fun s _ => Old old s ∨ Ended old everyKind s := by
  intro j hj l s g s' g' hinv hs hguar hinv'
  rcases hs with hs | hs
  · exact .inl (stable_hash hi (some old) j hj l s g s' g' hinv hs hguar hinv')
  · exact .inr (stable_ended everyKind j hj l s g s' g' hinv hs hguar hinv')

theorem endsIn_changeInTransaction (hi : Replacer requests i) (r : ChangePasswordRequest)
    (provenWith : String) (since version : ℕ) (outstanding : Bool) (attempts : ℕ)
    (hs : Old old s ∨ Ended old everyKind s) :
    EndsIn requests faults i (EndedAll old true)
      (changeInTransaction r provenWith since version outstanding attempts) s := by
  have hguar : ∀ attempt s s', s' = s ∨ s' = (changeOnce r version outstanding attempt s).2 →
      (endingProtocol requests).guar i (some (.writeCredential provenWith since (some version))) s ()
        s' () := by
    intro attempt s s' hs'
    refine ⟨fun e he => ?_, fun hnot => by rw [hi.replaces] at hnot; exact nomatch hnot⟩
    rcases hs' with rfl | rfl
    · exact he
    · exact (ending_changeOnce r provenWith since version outstanding attempt s).grows e he
  induction attempts generalizing s with
  | zero =>
    refine Safe.access _ (stable_oldOrEnded hi) hs fun s _ _ hs _ outcome s' ho =>
      ⟨(), trivial, hguar 0 s s' ho.store_eq, ?_⟩
    cases ho with
    | applied =>
      intro hdone
      exact (ended_changeOnce r version outstanding 0 hs).1 (Except.ok.inj hdone)
    | refused _ | lost _ => exact endedAll_error _ _
  | succ attempts ih =>
    refine Safe.access _ (stable_oldOrEnded hi) hs fun s _ _ hs _ outcome s' ho =>
      ⟨(), trivial, hguar (attempts + 1) s s' ho.store_eq, ?_⟩
    cases ho with
    | applied =>
      intro hdone
      exact (ended_changeOnce r version outstanding (attempts + 1) hs).1 (Except.ok.inj hdone)
    -- whatever became of the failed run, the next one starts where this rule applies again
    | refused _ =>
      dsimp only [attempt, Prog.bind]
      split
      · exact ih hs
      · exact endedAll_error _ _
    | lost _ =>
      dsimp only [attempt, Prog.bind]
      split
      · exact ih (ended_changeOnce r version outstanding (attempts + 1) hs).2
      · exact endedAll_error _ _

theorem ended_storeCredential {filter : User → Bool} {update : User → User}
    (hs : Ended old kinds s) : Ended old kinds (s.storeCredential filter update).2 := by
  rcases s.storeCredential_cases filter update with heq | ⟨u, -, -, heq⟩
  · rw [heq]
    exact hs
  · rw [heq]
    exact hs

/-- Everything ends, and then the credential is stored. -/
theorem endsIn_storeSequentially (hi : Replacer requests i) {done : α} (provenWith : String)
    (since : ℕ) (base : String) (version : Option ℕ) (filter : User → Bool) (update : User → User)
    {k : Bool → Req α} (hs : Old old s)
    (hk : ∀ b s, Ended old everyKind s → EndsIn requests faults i (EndedAll old done) (k b) s) :
    EndsIn requests faults i (EndedAll old done) ((revokeGranted provenWith since base).bind fun _ =>
      (Prog.db (.writeCredential provenWith since version)
        (storeCredential filter update)).bind k) s := by
  refine (endsIn_revokeGranted hi provenWith since base hs).bind (fun _ s hs => ?_) endedAll_error
  exact endsIn_statement (Ended old everyKind) (Ended old everyKind) hi (stable_ended everyKind)
    endedAll_error (fun s => ending_storeCredential provenWith since version filter update s)
    (fun s hs => ended_storeCredential hs) (hs rfl).2 hk

theorem endsIn_suspendAgain (hi : Replacer requests i) (newHash : String) (since : ℕ)
    (base : String) (written : Bool) (hs : Ended old everyKind s) :
    EndsIn requests faults i (EndedAll old true) (suspendAgain newHash since base written) s := by
  unfold suspendAgain
  split
  · exact endsIn_statement (Ended old everyKind) (Ended old everyKind) hi (stable_ended everyKind)
      endedAll_error (fun s => ending_suspend _ base s)
      (fun s hs => ended_of_rows (sameRows_suspend base s) hs) hs fun _ s hs _ => hs
  · exact fun _ => hs

theorem endsIn_changeUnderLock (hi : Replacer requests i) (r : ChangePasswordRequest)
    (provenWith : String) (since : ℕ) (hs : Old old s) :
    EndsIn requests faults i (EndedAll old true) (changeUnderLock env r provenWith since) s := by
  refine each_assertVaultNotRotating.ahead hi hs (fun _ s hs => ?_) endedAll_error
  refine (each_assertVaultKeyVersion _).ahead hi hs (fun version s hs => ?_) endedAll_error
  refine ahead (each_silentRead rfl rfl) hi hs (fun outstanding s hs => ?_) endedAll_error
  split
  · exact endedAll_error _ _
  · split
    · exact endsIn_changeInTransaction hi r provenWith since version outstanding _ (.inl hs)
    · exact endsIn_storeSequentially hi provenWith since _ _ _ _ hs fun written s hs =>
        endsIn_suspendAgain hi _ since _ written hs

theorem endsIn_changeProven (hi : Replacer requests i) (r : ChangePasswordRequest)
    (provenWith : String) (since : ℕ) (hs : Old old s) :
    EndsIn requests faults i (EndedAll old ()) (changeProven env r provenWith since) s := by
  refine (each_acquireVaultRotationLock _ _).ahead hi hs (fun _ s hs => ?_) endedAll_error
  have hlocked : EndsIn requests faults i (EndedAll old true)
      ((changeUnderLock env r provenWith since).andFinally (releaseVaultRotationLock r.lockId)) s := by
    have hchange : EndsIn requests faults i (EndedAll old true)
        (changeUnderLock env r provenWith since) s :=
      endsIn_changeUnderLock hi r provenWith since hs
    refine Safe.bind (Safe.attempt (hchange.mono fun outcome s _ hdone => ?_))
    refine EndsIn.bind ((each_releaseVaultRotationLock r.lockId).keepsEnded hdone)
      (fun _ s hdone => ?_) endedAll_error
    cases outcome with
    | ok written => exact hdone
    | error e => exact endedAll_error e s
  refine hlocked.bind (fun written s hdone => ?_) endedAll_error
  split
  · rename_i hwritten
    exact fun _ => hdone (congrArg _ hwritten)
  · have hread : EndsIn requests faults i (fun _ _ => True)
        (.read .readGeneration fun s => (s.user.map vaultKeyVersionOf).getD 0) s :=
      endsIn (each_silentRead rfl rfl) (.const True) (fun _ _ _ _ h => h) trivial
    exact hread.bind (fun _ s _ => endedAll_error _ s) endedAll_error

theorem endsIn_finishReset (hi : Replacer requests i) (r : ResetPasswordRequest) (since : ℕ)
    (hs : Ended old everyKind s) :
    EndsIn requests faults i (EndedAll old ()) (finishReset r since) s := by
  have hread : EndsIn requests faults i (fun _ s => True → Ended old everyKind s)
      (.read .existsUser fun s => s.user.any fun u => !u.deletionPending) s :=
    keepsEnded (each_silentRead rfl rfl) fun _ => hs
  refine hread.bind (fun live s hs => ?_) endedAll_error
  split
  · refine endsIn_statement (Ended old everyKind) (Ended old everyKind) hi (stable_ended everyKind)
      endedAll_error (fun s => ?_) (fun s hs => ended_of_rows (sameRows_updateUser s) hs) (hs trivial)
      fun _ s hs => ?_
    · have hsame : SameCredential s (clearOptOuts s).2 := sameCredential_updateUser s fun _ => rfl
      exact .of_rows (sameRows_updateUser s) fun _ => hsame.credential
    · exact endsIn_statement (Ended old everyKind) (Ended old everyKind) hi (stable_ended everyKind)
        endedAll_error (fun s => ending_suspend _ _ s)
        (fun s hs => ended_of_rows (sameRows_suspend _ s) hs) hs fun _ s hs _ => hs
  · exact endedAll_error _ _

/-- A request that reads the account finds the old credential. -/
theorem endsIn_loadAccount (hi : Replacer requests i) {hash : Option String}
    {k : Option User × ℕ → Req Unit} (hs : s.user.map (·.authHash) = hash)
    (hgone : ∀ n s, EndsIn requests faults i (fun r _ => r ≠ .ok ()) (k (none, n)) s)
    (hk : ∀ u n s, hash = some u.authHash → Old u.authHash s →
      EndsIn requests faults i (EndedAll u.authHash ()) (k (some u, n)) s) :
    EndsIn requests faults i (fun r s => ∀ old, hash = some old → EndedAll old () r s)
      (loadAccount.bind k) s := by
  refine Safe.read_bind (fun s _ => s.user.map (·.authHash) = hash) (stable_hash hi hash) hs
    (fun _ _ _ _ _ => ⟨fun _ he => he, fun _ => rfl⟩) (fun s _ _ hs => ?_)
    fun s _ e _ _ old _ => endedAll_error e s
  cases hu : s.user with
  | none => exact (hgone _ s).mono fun r s _ hr old _ hok => (hr hok).elim
  | some u =>
    rw [hu, map_some] at hs
    refine (hk u _ s hs.symm (by rw [Old, hu, map_some])).mono fun r s _ hr old hold => ?_
    rw [← hs] at hold
    exact some.inj hold ▸ hr

/-- **A change or a reset that succeeds has ended every kind of row** under the credential it found. -/
theorem endsIn_replacement (hi : Replacer requests i) {hash : Option String}
    (hs : s.user.map (·.authHash) = hash) :
    EndsIn requests faults i (fun r s => ∀ old, hash = some old → EndedAll old () r s)
      ((requests i).prog env) s := by
  have hreplaces := hi.replaces
  cases hrequest : requests i with
  | change r =>
    refine endsIn_loadAccount hi hs (fun _ _ => nofun) fun u n s _ hs => ?_
    dsimp only
    split
    · exact endsIn_changeProven hi r _ n hs
    · exact endedAll_error _ _
  | reset r =>
    show EndsIn requests faults i _ (resetPassword env r) s
    unfold resetPassword
    split
    · exact fun old _ => endedAll_error _ _
    · refine endsIn_loadAccount hi hs (fun _ _ => nofun) fun u n s _ hs => ?_
      dsimp only
      split
      · exact endedAll_error _ _
      · split
        · exact endedAll_error _ _
        · split
          · exact endedAll_error _ _
          · refine endsIn_storeSequentially hi u.authHash n _ _ _ _ hs fun saved s hs => ?_
            split
            · exact endsIn_finishReset hi r n hs
            · exact endedAll_error _ _
  | login r | login2fa r | refresh r => rw [hrequest] at hreplaces; exact nomatch hreplaces

/-! ## The law of the runs -/

/-- A request that is not the one in question keeps the protocol. -/
theorem upholds_others (j : ι) (s : Store) :
    Safe (endingProtocol requests) faults (fun _ _ _ _ => True) j (fun _ _ _ => True)
      ((requests j).prog env) s () := by
  have hkeeps : Keeps (endingProtocol requests) faults (fun _ _ _ _ => True) j (fun _ _ => True)
      (fun _ => True) ((requests j).prog env) := by
    refine Prog.Each.keeps (each_endingRequest env (requests j)) (.const True)
      (fun _ _ _ => trivial) fun l s _ s₁ s' _ _ _ h hs' => ⟨(), trivial, ?_, trivial⟩
    rcases hs' with rfl | rfl
    · exact ⟨fun _ he => he, fun _ => rfl⟩
    · exact h.guar
  exact (hkeeps s () trivial).mono fun _ _ _ _ => trivial

variable (requests env faults) in
/-- The change or the reset, among the others: it ends as `endsIn_replacement` says. -/
theorem sound_replacement (hi : Replacer requests i) (s₀ : Store) :
    Sound (endingSystem env requests faults) (endingProtocol requests) (fun _ _ _ _ => True)
      (fun c _ l => l.Due c.store)
      (fun j s _ => j = i → s.user.map (·.authHash) = s₀.user.map (·.authHash))
      fun j r s _ => j = i → ∀ old, Old old s₀ → EndedAll old () r s := by
  refine ⟨fun j p hp s _ _ hs => ?_, fun j => ?_, fun j r => ?_, fun _ _ _ _ _ _ _ => trivial⟩
  · have hp' : p = (requests j).prog env := hp
    rw [hp']
    by_cases hj : j = i
    · subst hj
      refine (endsIn_replacement hi (hs rfl)).mono fun r s _ hr _ => ?_
      exact ⟨(), trivial, ⟨fun _ he => he, fun _ => rfl⟩, fun _ => hr⟩
    · refine (upholds_others j s).mono fun r s _ _ _ => ?_
      exact ⟨(), trivial, ⟨fun _ he => he, fun _ => rfl⟩, fun heq => (hj heq).elim⟩
  · intro k hk l s g s' g' hinv hs hguar hinv' hj
    subst hj
    exact stable_hash hi _ k hk l s g s' g' hinv (hs rfl) hguar hinv'
  · intro k hk l s g s' g' hinv hs hguar hinv' hj old hold hr
    exact stable_ended everyKind k hk l s g s' g' hinv (hs hj old hold hr) hguar hinv'

/-- **A password change ends every session of the old password**, in every run in which no row of
the old password lands behind the sweep of its kind: once the change or the reset has been answered
with success, no session, no device and no challenge is left that the old credential granted. -/
theorem old_sessions_ended [DecidableEq ι] {s₀ : Store} (hstart : EndedGone s₀)
    (hi : Replacer requests i) {c : Config ι Store Site AccountError Unit}
    (hrun : Reaches (endingSystem env requests faults) (fun c _ l => l.Due c.store)
      (Config.start s₀) c) (hdone : c.resultOf i = some (.ok ())) (hold : Old old s₀) (kind : RowKind) :
    old ∉ c.store.provenBy kind := by
  have hgone : EndedGone c.store := by
    refine (Reaches.each (T := fun j => RequestStep (requests j)) (fun j p hp => ?_)
      (fun c j l s' hdue hgone hstep => hstep.1.gone hdue hgone) hstart hrun).1
    have hp' : p = (requests j).prog env := hp
    rw [hp']
    exact (each_endingRequest env (requests j)).restrict fun _ _ => trivial
  have hended : Ended old everyKind c.store := by
    have hinv : (endingProtocol requests).inv s₀ () := trivial
    obtain ⟨g, hat⟩ := (sound_replacement env requests faults hi s₀).reaches_start hinv
      (fun j hj => rfl) hrun
    obtain ⟨p, hp, hresult⟩ := bind_eq_some_iff.1 hdone
    have hknown := (hat.2 i).known
    rw [hp] at hknown
    exact hknown _ hresult rfl old hold rfl
  have hkind : kind ∈ everyKind := by
    cases kind <;> decide
  exact hgone kind old (hended kind hkind)

/-! ### A sign-in that a change overtakes -/

/-- A change (`true`) and a sign-in (`false`). -/
def changeAndLogin : Bool → EndingRequest
  | true => .change plainChange
  | false => .login plainLogin

/-- The two have arrived. -/
def changeBesideLogin : Config Bool Store Site AccountError Unit :=
  ((Config.start settledStore).join true ((changeAndLogin true).prog (plainDeployment true))).join
    false ((changeAndLogin false).prog (plainDeployment true))

/-- A sign-in that has checked the old password inserts its session after the change was answered
with success; the session stays. -/
theorem old_session_survives_change :
    ∃ c, Reach (endingSystem (plainDeployment true) changeAndLogin fun _ _ _ => False)
        (Config.start settledStore) c ∧
      c.resultOf true = some (.ok ()) ∧ c.resultOf false = some (.ok ()) ∧
      Old "old" settledStore ∧ "old" ∈ c.store.provenBy .session := by
  have harrived : Reach (endingSystem (plainDeployment true) changeAndLogin fun _ _ _ => False)
      (Config.start settledStore) changeBesideLogin :=
    (Reaches.opened _ _ settledStore rfl).join rfl rfl
  refine ⟨_, Reach.follow harrived (false :: replicate 7 true ++ replicate 8 false),
    rfl, rfl, rfl, ?_⟩
  decide

/-- An account with a session of the old password. -/
def signedInStore : Store :=
  { settledStore with
    tokens := [⟨0, "session", "family", ⟨"browser", "address", "fingerprint"⟩, none, 100, none, "old"⟩]
    nextId := 1 }

/-- A change on its own, from start to end. -/
theorem old_sessions_ended_change :
    ∃ c, Reaches (endingSystem (plainDeployment true) (fun _ : Unit => .change plainChange)
        fun _ _ _ => False) (fun c _ l => l.Due c.store) (Config.start signedInStore) c ∧
      c.resultOf () = some (.ok ()) ∧ "old" ∈ signedInStore.provenBy .session ∧
      "old" ∉ c.store.provenBy .session := by
  have harrived := Reaches.opened (endingSystem (plainDeployment true)
    (fun _ : Unit => .change plainChange) fun _ _ _ => False) (fun c _ l => l.Due c.store)
    signedInStore (i := ()) rfl
  -- no statement of a change grants anything
  have hdue : ∀ (s : Store) (l l' : Site), l.grants = none → some l = some l' → l'.Due s := by
    intro s l l' hgrants hl
    cases hl
    exact Site.Due.of_grants hgrants
  have hrun := harrived.follow (replicate 7 ())
    ⟨fun _ => hdue _ _ _ rfl, fun _ => hdue _ _ _ rfl, fun _ => hdue _ _ _ rfl,
      fun _ => hdue _ _ _ rfl, fun _ => hdue _ _ _ rfl, fun _ => hdue _ _ _ rfl,
      fun _ => hdue _ _ _ rfl, trivial⟩
  refine ⟨_, hrun, rfl, by decide, ?_⟩
  have hstart : EndedGone signedInStore := fun _ _ h => (not_mem_nil h).elim
  exact old_sessions_ended (i := ()) hstart ⟨rfl, fun _ _ => rfl⟩ hrun rfl rfl .session

end HVault.Account
