import HVault.Interleave.Trace
import HVault.Account.VaultKey

/-!
# A proof of a replaced credential writes nothing

Five requests check a proof (or a link) against the credential they read and write later. Three of
them make the write conditional on that credential. A change, a reset and the commit of a re-seal do
not: nothing stops their bare statements once another credential has been stored since they read the
account. Runs whose schedule leaves a request alone between its read and its bare statements
(`Undisturbed`) keep the law: every write that applies does so while the stored credential is the one
its request was checked against.

The argument is about the log of the credentials stored. No credential is stored twice, and the
stored one is the latest, so it is the one a request has seen exactly when none was stored since. On
the record of the run, either none was, or another request has stored one (`ReadSince`).
-/

namespace HVault.Account

open Interleave List Option Prog RotationRequest Store Config

/-! ## Requests and the statements that rest on a proof -/

/-- A request that a proof of the password, or a reset link, allows. -/
inductive ProvenRequest where
  | change (r : ChangePasswordRequest)
  | reset (r : ResetPasswordRequest)
  | rotate (r : RotationRequest)
  | notify (r : NotificationRequest)
  | approve (authHash : String) (r : RecipientListRequest)

namespace ProvenRequest

/-- The program of a request; what it is answered does not matter to the others. -/
def prog (env : Deployment) : ProvenRequest → Req Unit
  | change r => changePassword env r
  | reset r => resetPassword env r
  | rotate r => bulkReEncrypt env r
  | notify r => updateNotificationPreferences env r
  | approve authHash r => do
    let _ ← updateBackupRecipients env authHash r

/-- Whether the proof or the link of a request is right for a stored credential. -/
def checks (env : Deployment) (stored : String) : ProvenRequest → Bool
  | change r => env.bcryptCompare r.currentAuthHash stored
  | reset r => decide (r.stateHash = some (env.generateStateHash stored))
  | rotate r => env.bcryptCompare r.authHash stored
  | notify r => env.bcryptCompare r.authHash stored
  | approve authHash _ => env.bcryptCompare authHash stored

/-- The credential a request stores. -/
def newCredential : ProvenRequest → Option String
  | change r => some r.newHash
  | reset r => some r.newHash
  | rotate _ => none
  | notify _ => none
  | approve _ _ => none

/-- The request was checked against the credential, or stores it itself. -/
def Vouches (env : Deployment) (request : ProvenRequest) (credential : String) : Prop :=
  request.checks env credential = true ∨ request.newCredential = some credential

end ProvenRequest

/-- The credential a statement rests on: the one its request was checked against or, for what
follows the request's own credential, that one. -/
def Site.restsOn : Site → Option String
  | .revokeTokens provenWith _ => some provenWith
  | .revokeDevices provenWith _ => some provenWith
  | .revokeProofs provenWith _ => some provenWith
  | .revokeChallenges provenWith _ => some provenWith
  | .suspendFor provenWith _ => some provenWith
  | .writeCredential provenWith _ _ => some provenWith
  | .clearOptOuts provenWith _ => some provenWith
  | .writeNotifications provenWith => some provenWith
  | .writeRecipients provenWith _ => some provenWith
  | .commitRotation provenWith _ _ => some provenWith
  | .commitReseal provenWith _ _ _ _ => some provenWith
  | _ => none

/-- How many credentials had been stored when that one was the latest. -/
def Site.since : Site → Option ℕ
  | .revokeTokens _ since => some since
  | .revokeDevices _ since => some since
  | .revokeProofs _ since => some since
  | .revokeChallenges _ since => some since
  | .suspendFor _ since => some since
  | .writeCredential _ since _ => some since
  | .clearOptOuts _ since => some since
  | .commitRotation _ since _ => some since
  | .commitReseal _ since _ _ _ => some since
  | _ => none

/-- A statement that no condition on the credential stops; a conditional one, when the condition it
has is met. -/
def Site.Bare (s : Store) : Site → Prop
  | .revokeTokens _ _ => True
  | .revokeDevices _ _ => True
  | .revokeProofs _ _ => True
  | .revokeChallenges _ _ => True
  | .suspendFor _ _ => True
  | .clearOptOuts _ _ => True
  | .writeCredential _ _ version =>
    ∃ u, s.user = some u ∧ ∀ v, version = some v → vaultKeyVersionOf u = v
  | .commitReseal _ _ key version _ =>
    ∃ u, s.user = some u ∧ u.vaultKey.encryptedVaultKey = key ∧ vaultKeyVersionOf u = version
  | _ => False

section System

variable {ι : Type} (env : Deployment) (requests : ι → ProvenRequest)
  (faults : Site → AccountError → Bool → Prop)

/-- Any proven requests on one account, whose accesses may fail in any of the given ways. -/
def proofSystem : System ι Store Site AccountError Unit where
  admits i p := p = (requests i).prog env
  faults

/-- The access replaces the stored credential. -/
def StoresCredential (m : Move ι Site Store) : Prop :=
  m.after.user.map (·.authHash) ≠ m.before.user.map (·.authHash)

/-- The condition on a schedule: between the read of the account by a request and a bare statement
of the request, no other request stores a credential. -/
def Undisturbed (ms : List (Move ι Site Store)) : Prop :=
  ∀ earlier read between write later, ms = earlier ++ read :: (between ++ write :: later) →
    read.agent = write.agent → read.site = .loadUser → write.site.Bare write.before →
    ∀ m ∈ between, StoresCredential m → m.agent = write.agent

/-- Every new credential is new: no two requests store the same, and none one stored before. -/
structure FreshCredentials (s₀ : Store) : Prop where
  once : ∀ i j h, (requests i).newCredential = some h → (requests j).newCredential = some h → i = j
  unstored : ∀ i h, (requests i).newCredential = some h → h ∉ s₀.history.credentials

end System

/-- The log of the credentials: the stored one is the latest, and none was stored twice. -/
structure CredentialLog (s : Store) : Prop where
  latest : ∀ u, s.user = some u → s.history.credentials.head? = some u.authHash
  once : s.history.credentials.Nodup

/-- The stored credential is `credential`. -/
def Store.Stores (credential : String) (s : Store) : Prop :=
  ∃ u, s.user = some u ∧ u.authHash = credential

/-- What a statement that rests on a credential does: it applies only while that credential is
stored, and none was stored since its request read the account. -/
structure Rightful (env : Deployment) (request : ProvenRequest) (l : Site) (s s' : Store) : Prop where
  vouched : ∀ credential, l.restsOn = some credential → request.Vouches env credential
  stored : ∀ credential, l.restsOn = some credential → s' = s ∨ s.Stores credential
  unmoved : ∀ since, l.since = some since → s' = s ∨ s.history.credentials.length = since

variable {request : ProvenRequest} {l : Site} {s s' : Store}

theorem Rightful.same {env : Deployment} (h : Rightful env request l s s') :
    Rightful env request l s s :=
  ⟨h.vouched, fun _ _ => .inl rfl, fun _ _ => .inl rfl⟩

/-! ## What a request has seen -/

/-- `credential` was the latest of the first `since` credentials, on an account that is there. -/
structure Seen (credential : String) (since : ℕ) (s : Store) : Prop where
  there : s.user.isSome = true
  latest : ∃ newer older, s.history.credentials = newer ++ older ∧ older.length = since ∧
    older.head? = some credential

variable {credential : String}

/-- What a request has seen is still stored exactly when nothing was stored since. -/
theorem Seen.stores_iff {since : ℕ} (h : Seen credential since s) (hlog : CredentialLog s) :
    s.Stores credential ↔ s.history.credentials.length = since := by
  obtain ⟨u, hu⟩ := isSome_iff_exists.1 h.there
  obtain ⟨newer, older, hlist, hlength, hhead⟩ := h.latest
  have hlatest := hlog.latest u hu
  rw [hlist] at hlatest ⊢
  constructor
  · rintro ⟨u', hu', rfl⟩
    rw [hu] at hu'
    cases hu'
    -- the latest credential occurs in `older`, so it cannot also begin `newer`
    cases newer with
    | nil => exact hlength
    | cons first newer =>
      simp only [cons_append, head?_cons, some.injEq] at hlatest
      subst hlatest
      have hnodup := hlog.once
      rw [hlist] at hnodup
      have hmem : u.authHash ∈ older := mem_of_head? hhead
      simp [hmem] at hnodup
  · intro hsince
    have hnewer : newer = [] := by
      rw [length_append, hlength] at hsince
      exact length_eq_zero_iff.1 (by omega)
    subst hnewer
    refine ⟨u, hu, ?_⟩
    rw [nil_append, hhead] at hlatest
    exact (some.inj hlatest).symm

/-- A request that reads the account has seen its credential. -/
theorem CredentialLog.seen {u : User} (h : CredentialLog s) (hu : s.user = some u) :
    Seen u.authHash s.history.credentials.length s :=
  ⟨by rw [hu]; rfl, [], s.history.credentials, rfl, rfl, h.latest u hu⟩

/-- The credential and the log are as they were. -/
structure SameCredential (s s' : Store) : Prop where
  credential : s'.user.map (·.authHash) = s.user.map (·.authHash)
  log : s'.history.credentials = s.history.credentials

theorem SameCredential.refl (s : Store) : SameCredential s s := ⟨rfl, rfl⟩

theorem SameCredential.there (h : SameCredential s s') (hs : s.user.isSome = true) :
    s'.user.isSome = true := by
  rw [← isSome_map, h.credential, isSome_map]
  exact hs

theorem SameCredential.logged (h : SameCredential s s') (hs : CredentialLog s) :
    CredentialLog s' where
  latest u hu := by
    have hcredential := h.credential
    rw [hu, map_some] at hcredential
    obtain ⟨u₀, hu₀, heq⟩ := map_eq_some_iff.1 hcredential.symm
    rw [h.log, hs.latest u₀ hu₀, heq]
  once := h.log ▸ hs.once

theorem SameCredential.seen {since : ℕ} (h : SameCredential s s') (hs : Seen credential since s) :
    Seen credential since s' :=
  ⟨h.there hs.there, h.log ▸ hs.latest⟩

variable {filter : User → Bool} {update : User → User}

/-- A write of the account that leaves the credential. -/
theorem sameCredential_updateUser (s : Store) (h : ∀ u, (update u).authHash = u.authHash) :
    SameCredential s (s.updateUser filter update).2 := by
  rcases s.updateUser_cases filter update with heq | ⟨u, hu, -, heq⟩
  · rw [heq]
    exact .refl s
  · rw [heq]
    exact ⟨by simp [hu, h u], rfl⟩

/-- A new credential is stored. -/
structure NewCredential (credential : String) (s s' : Store) : Prop where
  there : s.user.isSome = true
  stored : s'.Stores credential
  log : s'.history.credentials = credential :: s.history.credentials

theorem NewCredential.logged (h : NewCredential credential s s') (hs : CredentialLog s)
    (hnew : credential ∉ s.history.credentials) : CredentialLog s' where
  latest u hu := by
    obtain ⟨u', hu', heq⟩ := h.stored
    rw [hu] at hu'
    cases hu'
    rw [h.log, heq, head?_cons]
  once := by
    rw [h.log]
    exact nodup_cons.2 ⟨hnew, hs.once⟩

theorem NewCredential.seen (h : NewCredential credential s s') :
    Seen credential (s.history.credentials.length + 1) s' := by
  obtain ⟨u, hu, heq⟩ := h.stored
  refine ⟨by rw [hu]; rfl, [], s'.history.credentials, rfl, ?_, ?_⟩
  · rw [h.log, length_cons]
  · rw [h.log, head?_cons]

/-! ## The protocol -/

variable {ι : Type} {env : Deployment} {requests : ι → ProvenRequest}
  {faults : Site → AccountError → Bool → Prop} {i : ι}

/-- What a step may do to the credential: nothing, or store that of its request. -/
def CredentialStep (request : ProvenRequest) (s s' : Store) : Prop :=
  SameCredential s s' ∨
    ∃ credential, request.newCredential = some credential ∧ NewCredential credential s s'

variable (env requests) in
/-- The protocol of the credential log; its ghost is the record of the run. -/
def proofProtocol : Protocol ι Store Site (List (Move ι Site Store)) :=
  recording CredentialLog fun i l s s' =>
    CredentialStep (requests i) s s' ∧ Rightful env (requests i) l s s'

/-- The side condition of an access: what `Undisturbed` says of it after the accesses `ms`. -/
def Unhindered (i : ι) (l : Site) (s : Store) (ms : List (Move ι Site Store)) : Prop :=
  ∀ earlier read between, ms = earlier ++ read :: between → read.agent = i →
    read.site = .loadUser → l.Bare s → ∀ m ∈ between, StoresCredential m → m.agent = i

/-- A new credential is not the one it replaces. -/
theorem NewCredential.stores (h : NewCredential credential s s') (hs : CredentialLog s)
    (hs' : CredentialLog s') {m : Move ι Site Store} (hbefore : m.before = s)
    (hafter : m.after = s') : StoresCredential m := by
  obtain ⟨u, hu⟩ := isSome_iff_exists.1 h.there
  obtain ⟨u', hu', hnew⟩ := h.stored
  have hnodup := hs'.once
  rw [h.log] at hnodup
  unfold StoresCredential
  rw [hbefore, hafter, hu, hu']
  intro heq
  have hsame : u'.authHash = u.authHash := some.inj heq
  have hmem : u.authHash ∈ s.history.credentials := mem_of_head? (hs.latest u hu)
  rw [← hsame, hnew] at hmem
  exact (nodup_cons.1 hnodup).1 hmem

/-- `i` has read the account when `since` credentials had been stored, its own counted; none was
stored since, or another request has stored one. -/
def ReadSince (i : ι) (since : ℕ) (s : Store) (ms : List (Move ι Site Store)) : Prop :=
  ∃ earlier read between, ms = earlier ++ read :: between ∧ read.agent = i ∧
    read.site = .loadUser ∧ (s.history.credentials.length = since ∨
      ∃ m ∈ between, StoresCredential m ∧ m.agent ≠ i)

variable {since : ℕ} {ms : List (Move ι Site Store)}

/-- What the record says of a request does not change with an access that leaves it true. -/
theorem ReadSince.next {since' : ℕ} {m : Move ι Site Store} (h : ReadSince i since s ms)
    (hm : s.history.credentials.length = since →
      s'.history.credentials.length = since' ∨ StoresCredential m ∧ m.agent ≠ i) :
    ReadSince i since' s' (ms ++ [m]) := by
  obtain ⟨earlier, read, between, rfl, hagent, hsite, hsince⟩ := h
  refine ⟨earlier, read, between ++ [m], by simp, hagent, hsite, ?_⟩
  rcases hsince with hsince | ⟨other, hother, hstores⟩
  · exact (hm hsince).imp_right fun hstores => ⟨m, mem_concat_self, hstores⟩
  · exact .inr ⟨other, mem_append_left _ hother, hstores⟩

/-- An access that is not hindered finds the log as its request has seen it. -/
theorem ReadSince.unmoved (h : ReadSince i since s ms) (hpre : Unhindered i l s ms)
    (hbare : l.Bare s) : s.history.credentials.length = since := by
  obtain ⟨earlier, read, between, hms, hagent, hsite, hsince⟩ := h
  refine hsince.resolve_right fun ⟨m, hm, hstores, hother⟩ => hother ?_
  exact hpre earlier read between hms hagent hsite hbare m hm hstores

/-- What a request knows of the credential it goes by. -/
structure Aware (i : ι) (credential : String) (since : ℕ) (s : Store)
    (ms : List (Move ι Site Store)) : Prop where
  seen : Seen credential since s
  read : ReadSince i since s ms

theorem SameCredential.aware {m : Move ι Site Store} (h : SameCredential s s')
    (hs : Aware i credential since s ms) : Aware i credential since s' (ms ++ [m]) :=
  ⟨h.seen hs.seen, hs.read.next fun hsince => .inl (h.log ▸ hsince)⟩

/-- What a request has seen stays seen, and the record tells what the others have done since. -/
theorem stable_aware (credential : String) (since : ℕ) :
    (proofProtocol env requests).Stable i (Aware i credential since) := by
  refine stable_recording fun j l s s' ms hj hlog hlog' hs hlaw => ?_
  rcases hlaw.1 with hsame | ⟨added, -, hnew⟩
  · exact hsame.aware hs
  · refine ⟨⟨?_, ?_⟩, hs.read.next fun _ => .inr ⟨hnew.stores hlog hlog' rfl rfl, hj⟩⟩
    · obtain ⟨u, hu, -⟩ := hnew.stored
      rw [hu]
      rfl
    · obtain ⟨newer, older, hlist, hlength, hhead⟩ := hs.seen.latest
      exact ⟨added :: newer, older, by rw [hnew.log, hlist, cons_append], hlength, hhead⟩

/-- The credential of a request that has not stored it. -/
def Unstored (request : ProvenRequest) (s : Store) : Prop :=
  ∀ credential, request.newCredential = some credential → credential ∉ s.history.credentials

theorem stable_unstored {s₀ : Store} (hfresh : FreshCredentials requests s₀) :
    (proofProtocol env requests).Stable i fun s _ => Unstored (requests i) s := by
  refine stable_recording fun j l s s' ms hj _ _ hun hlaw credential hown => ?_
  rcases hlaw.1 with hsame | ⟨added, hadded, hnew⟩
  · rw [hsame.log]
    exact hun credential hown
  · rw [hnew.log]
    intro hmem
    rcases mem_cons.1 hmem with rfl | hmem
    · exact hj (hfresh.once j i credential hadded hown)
    · exact hun credential hown hmem

/-- A request that has seen a credential and has stored none. -/
def Holds (request : ProvenRequest) (i : ι) (credential : String) (since : ℕ) (s : Store)
    (ms : List (Move ι Site Store)) : Prop :=
  Aware i credential since s ms ∧ Unstored request s

theorem stable_holds {s₀ : Store} (hfresh : FreshCredentials requests s₀) (credential : String)
    (since : ℕ) :
    (proofProtocol env requests).Stable i (Holds (requests i) i credential since) :=
  (stable_aware credential since).and (stable_unstored hfresh)

theorem SameCredential.holds {m : Move ι Site Store} (h : SameCredential s s')
    (hs : Holds request i credential since s ms) :
    Holds request i credential since s' (ms ++ [m]) :=
  ⟨h.aware hs.1, fun c hc => h.log ▸ hs.2 c hc⟩

/-! ## Statements that store no credential -/

variable {α : Type} {p : Req α} {P : Store → List (Move ι Site Store) → Prop}

/-- A part all of whose statements are rightful and leave the credential keeps what such statements
keep. -/
theorem keeps_of_rightful {T : Site → Store → Store → Prop} (hp : p.Each (fun _ => True) T)
    (hst : (proofProtocol env requests).Stable i P)
    (hsame : ∀ s s' ms m, SameCredential s s' → P s ms → P s' (ms ++ [m]))
    (hT : ∀ l s s' ms, CredentialLog s → P s ms → Unhindered i l s ms → T l s s' →
      SameCredential s s' ∧ Rightful env (requests i) l s s') :
    Keeps (proofProtocol env requests) faults Unhindered i P (fun _ => True) p := by
  refine Prog.Each.keeps hp hst (fun _ _ _ => trivial) fun l s ms s₁ s' hlog hP hpre hstep hs' => ?_
  obtain ⟨hcredential, hright⟩ := hT l s s₁ ms hlog hP hpre hstep
  refine ⟨ms ++ [⟨i, l, s, s'⟩], ?_⟩
  rcases hs' with rfl | rfl
  · exact ⟨hlog, ⟨⟨.inl (.refl _), hright.same⟩, rfl⟩, hsame _ _ ms _ (.refl _) hP⟩
  · exact ⟨hcredential.logged hlog, ⟨⟨.inl hcredential, hright⟩, rfl⟩,
      hsame _ _ ms _ hcredential hP⟩

/-- The sessions, the devices, the challenges and the record of their ends are as they were. -/
structure SameRows (s s' : Store) : Prop where
  tokens : s'.tokens = s.tokens
  devices : s'.trustedDevices = s.trustedDevices
  challenges : s'.challenges = s.challenges
  ended : s'.history.ended = s.history.ended

theorem SameRows.refl (s : Store) : SameRows s s := ⟨rfl, rfl, rfl, rfl⟩

theorem SameRows.trans {s'' : Store} (h : SameRows s s') (h' : SameRows s' s'') : SameRows s s'' :=
  ⟨h'.tokens.trans h.tokens, h'.devices.trans h.devices, h'.challenges.trans h.challenges,
    h'.ended.trans h.ended⟩

theorem sameRows_updateUser (s : Store) : SameRows s (s.updateUser filter update).2 := by
  rcases s.updateUser_cases filter update with heq | ⟨u, -, -, heq⟩
  · rw [heq]
    exact .refl s
  · rw [heq]
    exact ⟨rfl, rfl, rfl, rfl⟩

/-- A statement that rests on no credential and ends nothing. -/
structure Silent (l : Site) (s s' : Store) : Prop where
  same : SameCredential s s'
  rows : SameRows s s'
  restsOn : l.restsOn = none
  since : l.since = none

/-- The accesses of a part that rests on no credential. -/
abbrev EachSilent {α : Type} (p : Req α) : Prop := p.Each (fun _ => True) Silent

theorem each_silentRead {f : Store → α} (hrests : l.restsOn = none) (hsince : l.since = none) :
    EachSilent (.read l f : Req α) :=
  each_read fun s _ => ⟨.refl s, .refl s, hrests, hsince⟩

theorem Silent.rightful (h : Silent l s s') : Rightful env request l s s' := by
  refine ⟨fun c hc => ?_, fun c hc => ?_, fun n hn => ?_⟩
  · rw [h.restsOn] at hc
    cases hc
  · rw [h.restsOn] at hc
    exact nomatch hc
  · rw [h.since] at hn
    cases hn

theorem EachSilent.keeps (hp : EachSilent p) (hst : (proofProtocol env requests).Stable i P)
    (hsame : ∀ s s' ms m, SameCredential s s' → P s ms → P s' (ms ++ [m])) :
    Keeps (proofProtocol env requests) faults Unhindered i P (fun _ => True) p :=
  keeps_of_rightful hp hst hsame fun _ _ _ _ _ _ _ h => ⟨h.same, h.rightful⟩

/-- A statement that rests on `credential`, which was the latest of `since`, and leaves the stored
one. It is bare, or changes nothing, or finds the credential stored. -/
structure RestsOn (credential : String) (since : ℕ) (l : Site) (s s' : Store) : Prop where
  same : SameCredential s s'
  names : l.restsOn = some credential
  counts : ∀ n, l.since = some n → n = since
  applies : l.Bare s ∨ s' = s ∨ s.Stores credential

/-- A statement of a part that may rest on `credential`. -/
def MayRestOn (credential : String) (since : ℕ) (l : Site) (s s' : Store) : Prop :=
  Silent l s s' ∨ RestsOn credential since l s s'

abbrev EachMayRestOn {α : Type} (credential : String) (since : ℕ) (p : Req α) : Prop :=
  p.Each (fun _ => True) (MayRestOn credential since)

theorem EachSilent.mayRestOn (hp : EachSilent p) (credential : String) (since : ℕ) :
    EachMayRestOn credential since p :=
  hp.mono fun _ _ _ _ h => .inl h

/-- A statement of a request that knows its credential, and is not hindered. -/
theorem RestsOn.rightful (h : RestsOn credential since l s s')
    (hvouch : request.Vouches env credential) (hlog : CredentialLog s)
    (hs : Aware i credential since s ms) (hpre : Unhindered i l s ms) :
    Rightful env request l s s' := by
  have happlies : s' = s ∨ s.Stores credential ∧ s.history.credentials.length = since := by
    rcases h.applies with hbare | hsame | hstored
    · have hsince := hs.read.unmoved hpre hbare
      exact .inr ⟨(hs.seen.stores_iff hlog).2 hsince, hsince⟩
    · exact .inl hsame
    · exact .inr ⟨hstored, (hs.seen.stores_iff hlog).1 hstored⟩
  refine ⟨fun c hc => ?_, fun c hc => ?_, fun n hn => ?_⟩
  · rw [h.names] at hc
    cases hc
    exact hvouch
  · rw [h.names] at hc
    cases hc
    exact happlies.imp_right And.left
  · rw [h.counts n hn]
    exact happlies.imp_right And.right

/-- A part that rests on what its request has seen. -/
theorem EachMayRestOn.keeps (hp : EachMayRestOn credential since p)
    (hvouch : (requests i).Vouches env credential) (hst : (proofProtocol env requests).Stable i P)
    (hsame : ∀ s s' ms m, SameCredential s s' → P s ms → P s' (ms ++ [m]))
    (haware : ∀ s ms, P s ms → Aware i credential since s ms) :
    Keeps (proofProtocol env requests) faults Unhindered i P (fun _ => True) p := by
  refine keeps_of_rightful hp hst hsame fun l s s' ms hlog hP hpre hstep => ?_
  rcases hstep with h | h
  · exact ⟨h.same, h.rightful⟩
  · exact ⟨h.same, h.rightful hvouch hlog (haware s ms hP) hpre⟩

/-! ## The parts of the requests -/

/-- Only the credential and its log matter. -/
theorem sameCredential_of_eq (huser : s'.user = s.user)
    (hlog : s'.history.credentials = s.history.credentials) : SameCredential s s' :=
  ⟨by rw [huser], hlog⟩

theorem SameCredential.trans {s'' : Store} (h : SameCredential s s') (h' : SameCredential s' s'') :
    SameCredential s s'' :=
  ⟨h'.credential.trans h.credential, h'.log.trans h.log⟩

variable (base : String)

theorem sameCredential_suspend (s : Store) :
    SameCredential s (suspendThirdPartyRecipients base s).2 := by
  unfold suspendThirdPartyRecipients
  split
  · exact .refl s
  · rename_i u hu
    split
    · exact ⟨by rw [hu]; rfl, rfl⟩
    · exact .refl s

theorem sameCredential_logEnded (kind : RowKind) (s : Store) : SameCredential s (s.logEnded kind) := by
  unfold logEnded
  split
  · exact .refl s
  · exact sameCredential_of_eq rfl rfl

theorem sameCredential_endSessions (s : Store) : SameCredential s s.endSessions := by
  have hrows : SameCredential s { s with tokens := [] } := sameCredential_of_eq rfl rfl
  exact hrows.trans (sameCredential_logEnded .session _)

theorem sameCredential_endDevices (s : Store) : SameCredential s s.endDevices := by
  have hrows : SameCredential s s.revokeTrustedDevices.2 := sameCredential_of_eq rfl rfl
  exact hrows.trans (sameCredential_logEnded .device _)

theorem sameCredential_endChallenges (s : Store) : SameCredential s s.endChallenges := by
  have hrows : SameCredential s s.revokeTwoFactorChallenges.2 := sameCredential_of_eq rfl rfl
  exact hrows.trans (sameCredential_logEnded .challenge _)

theorem sameCredential_revokeGranted (s : Store) : SameCredential s (s.revokeGranted base) := by
  refine .trans ?_ (sameCredential_suspend _ _)
  refine .trans ?_ (sameCredential_endChallenges _)
  exact (sameCredential_endSessions s).trans ((sameCredential_endDevices _).trans
    (sameCredential_of_eq rfl rfl))

variable (lockId : String)

theorem each_acquireVaultRotationLock (now : ℤ) :
    EachSilent (acquireVaultRotationLock lockId now) := by
  refine .bind (each_db fun s _ => ?_) fun ⟨acquired, taken⟩ => ?_
  · dsimp only
    unfold acquireLock
    split
    · exact ⟨.refl s, .refl s, rfl, rfl⟩
    · exact ⟨sameCredential_of_eq rfl rfl, ⟨rfl, rfl, rfl, rfl⟩, rfl, rfl⟩
  · dsimp only
    split
    · exact each_ret _
    · exact each_raise _

theorem each_releaseVaultRotationLock : EachSilent (releaseVaultRotationLock lockId) :=
  each_db fun _ _ => ⟨sameCredential_of_eq rfl rfl, ⟨rfl, rfl, rfl, rfl⟩, rfl, rfl⟩

theorem each_readLive (hrests : l.restsOn = none) (hsince : l.since = none) :
    EachSilent (readLive l) := by
  refine .bind (each_silentRead hrests hsince) fun found => ?_
  split
  · exact each_raise _
  · exact each_ret _

theorem each_assertVaultNotRotating : EachSilent assertVaultNotRotating := by
  refine .bind (each_readLive rfl rfl) fun u => ?_
  split
  · exact each_raise _
  · exact each_ret _

theorem each_assertVaultKeyVersion (supplied : Option ℕ) :
    EachSilent (assertVaultKeyVersion supplied) :=
  .bind (each_readLive rfl rfl) fun _ => each_ofExcept _

theorem each_refuseSuperseded : EachSilent refuseSuperseded :=
  .bind (each_silentRead rfl rfl) fun _ => each_raise _

/-- A bare statement. -/
theorem RestsOn.unguarded (same : SameCredential s s') (names : l.restsOn = some credential)
    (counts : l.since = some since) (hbare : l.Bare s) :
    RestsOn credential since l s s' where
  same
  names
  counts n hn := by
    rw [counts] at hn
    exact (some.inj hn).symm
  applies := .inl hbare

/-- A statement on the account that is conditional on the credential. -/
theorem RestsOn.guarded (names : l.restsOn = some credential)
    (counts : ∀ n, l.since = some n → n = since)
    (hfilter : ∀ u, filter u = true → u.authHash = credential)
    (hupdate : ∀ u, (update u).authHash = u.authHash) :
    RestsOn credential since l s (s.updateUser filter update).2 where
  same := sameCredential_updateUser s hupdate
  names
  counts
  applies := by
    rcases s.updateUser_cases filter update with heq | ⟨u, hu, hf, heq⟩
    · rw [heq]
      exact .inr (.inl rfl)
    · exact .inr (.inr ⟨u, hu, hfilter u hf⟩)

theorem each_revokeGranted (credential : String) (since : ℕ) (base : String) :
    EachMayRestOn credential since (revokeGranted credential since base) := by
  refine .bind (each_db fun s _ => .inr ?_) fun _ => ?_
  · exact .unguarded (sameCredential_endSessions s) rfl rfl trivial
  refine .bind (each_db fun s _ => .inr ?_) fun _ => ?_
  · exact .unguarded (sameCredential_endDevices s) rfl rfl trivial
  refine .bind (each_db fun s _ => .inr ?_) fun _ => ?_
  · exact .unguarded (sameCredential_of_eq rfl rfl) rfl rfl trivial
  refine .bind (each_db fun s _ => .inr ?_) fun _ => ?_
  · exact .unguarded (sameCredential_endChallenges s) rfl rfl trivial
  refine .bind (each_db fun s _ => .inr ?_) fun _ => each_ret _
  exact .unguarded (sameCredential_suspend base s) rfl rfl trivial

theorem each_suspendAgain (credential : String) (since : ℕ) (base : String) (written : Bool) :
    EachMayRestOn credential (since + 1) (suspendAgain credential since base written) := by
  unfold suspendAgain
  split
  · refine .bind (each_db fun s _ => .inr ?_) fun _ => each_ret _
    exact .unguarded (sameCredential_suspend base s) rfl rfl trivial
  · exact each_ret _

theorem each_finishReset (r : ResetPasswordRequest) (since : ℕ) :
    EachMayRestOn r.newHash (since + 1) (finishReset r since) := by
  refine .bind ((each_silentRead rfl rfl).mayRestOn _ _) fun live => ?_
  split
  · refine .bind (each_db fun s _ => .inr ?_) fun _ => ?_
    · exact .unguarded (sameCredential_updateUser s fun _ => rfl) rfl rfl trivial
    refine .bind (each_db fun s _ => .inr ?_) fun _ => each_ret _
    exact .unguarded (sameCredential_suspend _ s) rfl rfl trivial
  · exact each_raise _

/-! ### The rotation -/

variable (r : RotationRequest)

theorem restsOn_commitSite (credential : String) (since : ℕ) (lowers : Option ℕ) :
    (r.commitSite credential since lowers).restsOn = some credential := by
  unfold commitSite
  split <;> rfl

theorem since_commitSite (credential : String) (since : ℕ) (lowers : Option ℕ) :
    (r.commitSite credential since lowers).since = some since := by
  unfold commitSite
  split <;> rfl

theorem authHash_committed (lowers : Bool) (u : User) :
    (r.committed lowers u).authHash = u.authHash := by
  unfold committed
  split <;> rfl

/-- A commit that applies finds the credential, or is a re-seal that finds its key. -/
theorem RotationRequest.of_commits {r : RotationRequest} {u : User}
    (h : r.commits credential u = true) : u.authHash = credential ∨ r.reseal = true ∧
      u.vaultKey.encryptedVaultKey = r.newVaultKey.encryptedVaultKey ∧
      vaultKeyVersionOf u = r.resealVersion := by
  unfold commits at h
  split at h
  · rename_i hreseal
    right
    simpa [hreseal] using h
  · left
    simpa using h

theorem restsOn_commit (credential : String) (since : ℕ) (lowers : Option ℕ) (lowered : Bool)
    (s : Store) :
    RestsOn credential since (r.commitSite credential since lowers) s
      (r.commit credential lowered s).2 := by
  refine ⟨?_, restsOn_commitSite r credential since lowers, fun n hn => ?_, ?_⟩
  · rcases r.commit_cases credential lowered s with heq | ⟨u, hu, -, heq⟩
    · rw [heq]
      exact .refl s
    · rw [heq]
      have huser : ∀ lowered, SameCredential s { s with user := some (r.committed lowered u) } :=
        fun lowered => ⟨by simp [hu, authHash_committed], rfl⟩
      split
      · exact (huser true).trans (sameCredential_of_eq rfl rfl)
      · exact huser false
  · rw [since_commitSite] at hn
    exact (some.inj hn).symm
  · rcases r.commit_cases credential lowered s with heq | ⟨u, hu, hcommits, -⟩
    · exact .inr (.inl heq)
    · rcases of_commits hcommits with hcredential | ⟨hreseal, hkey, hversion⟩
      · exact .inr (.inr ⟨u, hu, hcredential⟩)
      · left
        unfold commitSite
        rw [if_pos hreseal]
        exact ⟨u, hu, hkey, hversion⟩

theorem silent_raiseFence (pending : Option WrappedKey) (s : Store) :
    Silent .raiseFence s (s.raiseFence lockId pending) := by
  unfold raiseFence
  rcases s.updateUser_cases (fun _ => true) fun u => { u with
      rotationInProgress := true
      pendingVaultKey := pending.orElse fun _ => u.pendingVaultKey } with heq | ⟨u, hu, -, heq⟩
  · rw [heq]
    exact ⟨.refl s, .refl s, rfl, rfl⟩
  · rw [heq]
    exact ⟨⟨by simp [hu], rfl⟩, ⟨rfl, rfl, rfl, rfl⟩, rfl, rfl⟩

theorem silent_lowerFence (taken : ℕ) (s : Store) :
    Silent (.lowerFence taken) s (s.lowerFence lockId) := by
  have hlower : SameCredential s
      (s.updateUser (fun _ => true) fun u => { u with rotationInProgress := false }).2 :=
    sameCredential_updateUser s fun _ => rfl
  exact ⟨hlower.trans (sameCredential_of_eq rfl rfl), (sameRows_updateUser s).trans ⟨rfl, rfl, rfl, rfl⟩,
    rfl, rfl⟩

/-- The statements of a rotation rest on the credential it was proven with, or on none. -/
theorem RotationEffect.mayRestOn {r : RotationRequest} {since taken : ℕ}
    (h : RotationEffect r credential since taken l s s') :
    MayRestOn credential since l s s' := by
  cases h with
  | check _ _ hl =>
    have hrests : l.restsOn = none := by
      cases l <;> first | rfl | cases hl
    have hsince : l.since = none := by
      cases l <;> first | rfl | exact nomatch hl
    exact .inl ⟨.refl s, .refl s, hrests, hsince⟩
  | raise _ pending => exact .inl (silent_raiseFence r.lockId pending s)
  | lower => exact .inl (silent_lowerFence r.lockId taken s)
  | transaction _ attempt =>
    rcases r.rotateOnce_cases credential attempt s with heq | heq
    · rw [heq]
      refine .inr ⟨.refl s, restsOn_commitSite r credential since none, fun n hn => ?_,
        .inr (.inl rfl)⟩
      rw [since_commitSite] at hn
      exact (some.inj hn).symm
    · rw [heq]
      exact .inr (restsOn_commit r credential since none false s)
  | commit => exact .inr (restsOn_commit r credential since (some taken) true s)

theorem each_rotateProven (env : Deployment) (r : RotationRequest) (user : User) (since : ℕ) :
    EachMayRestOn user.authHash since (rotateProven env r user since) := by
  unfold rotateProven
  split
  · exact each_ret _
  · refine .bind ((each_acquireVaultRotationLock _ _).mayRestOn _ _) fun taken => ?_
    have hlocked : EachMayRestOn user.authHash since
        (rotateUnderLock env r user.authHash since taken) :=
      (each_rotateUnderLock env).mono fun _ _ _ _ h => h.mayRestOn
    refine .bind hlocked.attempt fun outcome => ?_
    exact .bind ((each_releaseVaultRotationLock _).mayRestOn _ _) fun _ => each_ofExcept outcome

/-! ### Notices and recipients -/

theorem each_writeNotifications (credential : String) (since : ℕ) (changes : List (String × Bool)) :
    EachMayRestOn credential since (do
      let updated ← (Prog.db (.writeNotifications credential) <|
        updateUser (fun u => decide (u.authHash = credential)) (notificationFields changes) :
          Req (Option User))
      match updated with
      | none => .raise .staleProof
      | some _ => (pure () : Req Unit)) := by
  refine .bind (each_db fun s _ => .inr ?_) fun updated => ?_
  · exact .guarded rfl nofun (fun u hu => of_decide_eq_true hu) fun _ => rfl
  · split
    · exact each_raise _
    · exact each_ret _

theorem each_applyRecipientListLoop (env : Deployment) (r : RecipientListRequest) (since : ℕ)
    (attempts : ℕ) : EachMayRestOn r.provenAuthHash since (applyRecipientListLoop env r attempts) := by
  induction attempts with
  | zero => exact each_raise _
  | succ attempts ih =>
    refine .bind ((each_silentRead rfl rfl).mayRestOn _ _) fun ⟨account, seen⟩ => ?_
    dsimp only
    split
    · exact each_raise _
    · refine .bind (each_db fun s _ => .inr ⟨?_, rfl, nofun, ?_⟩)
        fun written => ?_
      · unfold writeRecipientList
        split
        · exact .refl s
        · rename_i u hu
          split
          · exact ⟨by rw [hu]; rfl, rfl⟩
          · exact .refl s
      · unfold writeRecipientList
        split
        · exact .inr (.inl rfl)
        · rename_i u hu
          split
          · rename_i hfound
            exact .inr (.inr ⟨u, hu, hfound.1⟩)
          · exact .inr (.inl rfl)
      · split
        · exact each_ret _
        · exact ih

/-! ## Statements that store a credential -/

/-- What a conditional write of a credential does: nothing, or it stores the credential on an account
that meets its condition. -/
def MayStore (credential : String) (version : Option ℕ) (s s' : Store) : Prop :=
  s' = s ∨ NewCredential credential s s' ∧
    ∃ u, s.user = some u ∧ ∀ v, version = some v → vaultKeyVersionOf u = v

theorem newCredential_store {u : User} (hu : s.user = some u)
    (hupdate : (update u).authHash = credential) :
    NewCredential credential s { s with
      user := some (update u)
      history := { s.history with credentials := (update u).authHash :: s.history.credentials } } :=
  ⟨by rw [hu]; rfl, ⟨_, rfl, hupdate⟩, by rw [hupdate]⟩

/-- The write of a change. -/
theorem mayStore_change (r : ChangePasswordRequest) (version : ℕ) (outstanding : Bool) (s : Store) :
    MayStore r.newHash (some version) s (r.write version outstanding s).2 := by
  unfold ChangePasswordRequest.write
  rcases s.storeCredential_cases (fun u => decide (vaultKeyVersionOf u = version))
    (r.store outstanding) with heq | ⟨u, hu, hversion, heq⟩
  · rw [heq]
    exact .inl rfl
  · rw [heq]
    refine .inr ⟨newCredential_store hu rfl, u, hu, fun v hv => ?_⟩
    cases hv
    exact of_decide_eq_true hversion

/-- The save of a reset, which has read another credential than the one it stores. -/
theorem mayStore_save (r : ResetPasswordRequest) (loaded : User) (hnew : r.newHash ≠ loaded.authHash)
    (s : Store) :
    MayStore r.newHash none s (s.storeCredential (fun _ => true) (r.save loaded)).2 := by
  rcases s.storeCredential_cases (fun _ => true) (r.save loaded) with heq | ⟨u, hu, -, heq⟩
  · rw [heq]
    exact .inl rfl
  · rw [heq]
    exact .inr ⟨newCredential_store hu (if_neg hnew), u, hu, nofun⟩

@[simp] theorem user_logEnded (kind : RowKind) (s : Store) : (s.logEnded kind).user = s.user := by
  unfold logEnded
  split
  · rfl
  · rfl

/-- A suspension replaces the list of the account and nothing else of it. -/
theorem version_suspend (s : Store) :
    (suspendThirdPartyRecipients base s).2.user.map vaultKeyVersionOf =
      s.user.map vaultKeyVersionOf := by
  unfold suspendThirdPartyRecipients
  split
  · rfl
  · rename_i u hu
    split
    · rw [hu]
      rfl
    · rfl

theorem version_revokeGranted (s : Store) :
    (s.revokeGranted base).user.map vaultKeyVersionOf = s.user.map vaultKeyVersionOf := by
  unfold Store.revokeGranted
  rw [version_suspend]
  simp [endChallenges, endDevices, endSessions, revokeTwoFactorChallenges,
    revokeDeviceProofs, revokeTrustedDevices]

/-- The transaction of a change revokes and stores, or does nothing. -/
theorem mayStore_changeOnce (r : ChangePasswordRequest) (version : ℕ) (outstanding : Bool)
    (attempt : ℕ) (s : Store) :
    MayStore r.newHash (some version) s (changeOnce r version outstanding attempt s).2 := by
  have hsame := sameCredential_revokeGranted (r.nonceBase attempt) s
  have hversion := version_revokeGranted (r.nonceBase attempt) s
  unfold changeOnce ChangePasswordRequest.write
  rcases (s.revokeGranted (r.nonceBase attempt)).storeCredential_cases
    (fun u => decide (vaultKeyVersionOf u = version)) (r.store outstanding) with
    heq | ⟨u, hu, hjudged, heq⟩
  · rw [heq]
    exact .inl rfl
  · rw [heq]
    rw [hu, map_some] at hversion
    obtain ⟨u₀, hu₀, hgeneration⟩ := map_eq_some_iff.1 hversion.symm
    refine .inr ⟨⟨by rw [hu₀]; rfl, ⟨_, rfl, rfl⟩, ?_⟩, u₀, hu₀, fun v hv => ?_⟩
    · show r.newHash :: (s.revokeGranted (r.nonceBase attempt)).history.credentials = _
      rw [hsame.log]
    · cases hv
      rw [hgeneration]
      exact of_decide_eq_true hjudged

/-! ## The requests are safe -/

/-- Storing a credential unhindered, by a request that has seen the stored one and has stored none. -/
theorem Holds.store {new : String} {version : Option ℕ}
    (hholds : Holds (requests i) i credential since s ms) (hlog : CredentialLog s)
    (hvouch : (requests i).Vouches env credential) (hnew : (requests i).newCredential = some new)
    (hpre : Unhindered i (.writeCredential credential since version) s ms)
    (hmay : MayStore new version s s') :
    let ms' := ms ++ [⟨i, .writeCredential credential since version, s, s'⟩]
    (proofProtocol env requests).inv s' ms' ∧
      (proofProtocol env requests).guar i (some (.writeCredential credential since version)) s ms
        s' ms' ∧ (s' = s ∨ Aware i new (since + 1) s' ms') := by
  rcases hmay with rfl | ⟨hstored, hmet⟩
  · refine ⟨hlog, ⟨⟨.inl (.refl _), fun c hc => ?_, fun _ _ => .inl rfl, fun _ _ => .inl rfl⟩, rfl⟩,
      .inl rfl⟩
    cases hc
    exact hvouch
  · have hsince : s.history.credentials.length = since := hholds.1.read.unmoved hpre hmet
    refine ⟨hstored.logged hlog (hholds.2 new hnew), ⟨⟨.inr ⟨new, hnew, hstored⟩, ?_, ?_, ?_⟩, rfl⟩,
      .inr ⟨hsince ▸ hstored.seen, hholds.1.read.next fun _ => .inl ?_⟩⟩
    · intro c hc
      cases hc
      exact hvouch
    · intro c hc
      cases hc
      exact .inr ((hholds.1.seen.stores_iff hlog).2 hsince)
    · intro n hn
      cases hn
      exact .inr hsince
    · rw [hstored.log, length_cons, hsince]

variable (env requests faults i) in
/-- Whatever the program ends with, it has kept the protocol. -/
abbrev Upholds {α : Type} (p : Req α) (s : Store) (ms : List (Move ι Site Store)) : Prop :=
  Safe (proofProtocol env requests) faults Unhindered i (fun _ _ _ => True) p s ms

theorem EachSilent.upholds (hp : EachSilent p) (s : Store) (ms : List (Move ι Site Store)) :
    Upholds env requests faults i p s ms := by
  have hkeeps : Keeps (proofProtocol env requests) faults Unhindered i (fun _ _ => True)
      (fun _ => True) p := hp.keeps (.const True) fun _ _ _ _ _ h => h
  exact (hkeeps s ms trivial).mono fun _ _ _ _ => trivial

/-- A silent part before the rest. -/
theorem EachSilent.before {β : Type} {p : Req β} {k : β → Req α}
    (hp : EachSilent p) (hst : (proofProtocol env requests).Stable i P)
    (hsame : ∀ s s' ms m, SameCredential s s' → P s ms → P s' (ms ++ [m])) (hP : P s ms)
    (hk : ∀ b s ms, P s ms → Upholds env requests faults i (k b) s ms) :
    Upholds env requests faults i (p.bind k) s ms :=
  (hp.keeps hst hsame).before hP (fun b s ms _ hP => hk b s ms hP) fun _ _ _ _ _ => trivial

/-- The rest after a part that upholds the protocol, if the rest always does. -/
theorem Upholds.bind {β : Type} {p : Req β} {k : β → Req α}
    (hp : Upholds env requests faults i p s ms)
    (hk : ∀ b s ms, Upholds env requests faults i (k b) s ms) :
    Upholds env requests faults i (p.bind k) s ms := by
  refine Safe.bind (hp.mono fun r s ms _ => ?_)
  cases r with
  | ok b => exact hk b s ms
  | error e => exact trivial

theorem Upholds.andFinally {q : Req Unit} (hp : Upholds env requests faults i p s ms)
    (hq : EachSilent q) :
    Upholds env requests faults i (p.andFinally q) s ms := by
  have hattempt : Upholds env requests faults i p.attempt s ms :=
    Safe.attempt (hp.mono fun _ _ _ _ => trivial)
  refine hattempt.bind fun r s ms => EachSilent.upholds ?_ s ms
  exact .bind hq fun _ => each_ofExcept r

section Change

variable {s₀ : Store} {r : ChangePasswordRequest}

/-- The transaction of a change, run again only when it was undone. -/
theorem upholds_changeInTransaction (hfresh : FreshCredentials requests s₀)
    (hundone : ∀ l, ¬ faults l (.database true) true)
    (hnew : (requests i).newCredential = some r.newHash)
    (hvouch : (requests i).Vouches env credential) (version : ℕ) (outstanding : Bool)
    (attempts : ℕ) (hs : Holds (requests i) i credential since s ms) :
    Upholds env requests faults i
      (changeInTransaction r credential since version outstanding attempts) s ms := by
  have hmay : ∀ attempt s s', s' = s ∨ s' = (changeOnce r version outstanding attempt s).2 →
      MayStore r.newHash (some version) s s' := by
    rintro attempt s s' (rfl | rfl)
    · exact .inl rfl
    · exact mayStore_changeOnce r version outstanding attempt s
  induction attempts generalizing s ms with
  | zero =>
    refine Safe.access _ (stable_holds hfresh credential since) hs
      fun s ms hlog hholds hpre outcome s' ho => ?_
    obtain ⟨hinv, hguar, -⟩ := hholds.store hlog hvouch hnew hpre (hmay 0 s s' ho.store_eq)
    refine ⟨_, hinv, hguar, ?_⟩
    cases outcome with
    | ok b | error e => exact trivial
  | succ attempts ih =>
    refine Safe.access _ (stable_holds hfresh credential since) hs
      fun s ms hlog hholds hpre outcome s' ho => ?_
    obtain ⟨hinv, hguar, -⟩ :=
      hholds.store hlog hvouch hnew hpre (hmay (attempts + 1) s s' ho.store_eq)
    refine ⟨_, hinv, hguar, ?_⟩
    cases ho with
    | applied => exact trivial
    | @refused e hfault =>
      -- nothing was written: the transaction may be run again on what was seen before
      dsimp only [attempt, Prog.bind]
      split
      · exact ih ((SameCredential.refl s).holds hholds)
      · exact trivial
    | @lost e hfault =>
      dsimp only [attempt, Prog.bind]
      split
      · exact (hundone _ hfault).elim
      · exact trivial

variable {α : Type}

/-- Ending what the old password granted, storing the new credential, and what follows. -/
theorem upholds_storeSequentially (hfresh : FreshCredentials requests s₀) {new : String}
    (hnew : (requests i).newCredential = some new) (hvouch : (requests i).Vouches env credential)
    (nonceBase : String) {version : Option ℕ} {write : Store → Bool × Store}
    (hwrite : ∀ s, MayStore new version s (write s).2)
    (hfound : ∀ s, (write s).1 = true → (write s).2 ≠ s) {k : Bool → Req α}
    (hdone : EachMayRestOn new (since + 1) (k true)) (hrefused : EachSilent (k false))
    (hs : Holds (requests i) i credential since s ms) :
    Upholds env requests faults i ((revokeGranted credential since nonceBase).bind fun _ =>
      (Prog.db (.writeCredential credential since version) write).bind k) s ms := by
  have hrevoke : Keeps (proofProtocol env requests) faults Unhindered i
      (Holds (requests i) i credential since) (fun _ => True)
      (revokeGranted credential since nonceBase) :=
    (each_revokeGranted credential since nonceBase).keeps hvouch
      (stable_holds hfresh credential since) (fun _ _ _ _ h hP => h.holds hP) fun _ _ hP => hP.1
  refine hrevoke.before hs (fun _ s ms _ hs => ?_) fun _ _ _ _ _ => trivial
  refine Safe.db_bind _ (stable_holds hfresh credential since) hs (fun s ms hlog hholds hpre => ?_)
    (fun s ms e hlog hholds hpre _ => ?_) fun s ms e hlog hholds hpre _ => ?_
  · obtain ⟨hinv, hguar, haware⟩ := hholds.store hlog hvouch hnew hpre (hwrite s)
    refine ⟨_, hinv, hguar, ?_⟩
    cases hwritten : (write s).1 with
    | false => exact hrefused.upholds _ _
    | true =>
      have hkeeps : Keeps (proofProtocol env requests) faults Unhindered i
          (Aware i new (since + 1)) (fun _ => True) (k true) :=
        hdone.keeps (.inr hnew) (stable_aware new (since + 1)) (fun _ _ _ _ h hP => h.aware hP)
          fun _ _ hP => hP
      exact (hkeeps _ _ (haware.resolve_left (hfound s hwritten))).mono fun _ _ _ _ => trivial
  · obtain ⟨hinv, hguar, -⟩ := hholds.store hlog hvouch hnew hpre (.inl rfl)
    exact ⟨_, hinv, hguar, trivial⟩
  · obtain ⟨hinv, hguar, -⟩ := hholds.store hlog hvouch hnew hpre (hwrite s)
    exact ⟨_, hinv, hguar, trivial⟩

theorem storeCredential_ne (h : (s.storeCredential filter update).1 = true) :
    (s.storeCredential filter update).2 ≠ s := by
  rcases s.storeCredential_cases filter update with heq | ⟨u, -, -, heq⟩
  · rw [heq] at h
    cases h
  · rw [heq]
    intro hs
    have hlength := congrArg (·.history.credentials.length) hs
    simp at hlength

theorem upholds_changeUnderLock (hfresh : FreshCredentials requests s₀)
    (hundone : ∀ l, ¬ faults l (.database true) true)
    (hnew : (requests i).newCredential = some r.newHash)
    (hvouch : (requests i).Vouches env credential)
    (hs : Holds (requests i) i credential since s ms) :
    Upholds env requests faults i (changeUnderLock env r credential since) s ms := by
  have hst : (proofProtocol env requests).Stable i (Holds (requests i) i credential since) :=
    stable_holds hfresh credential since
  have hsame : ∀ s s' ms m, SameCredential s s' → Holds (requests i) i credential since s ms →
      Holds (requests i) i credential since s' (ms ++ [m]) := fun _ _ _ _ h hs => h.holds hs
  refine each_assertVaultNotRotating.before hst hsame hs fun _ s ms hs => ?_
  refine (each_assertVaultKeyVersion _).before hst hsame hs fun version s ms hs => ?_
  refine EachSilent.before (each_silentRead rfl rfl) hst hsame hs fun outstanding s ms hs => ?_
  split
  · exact trivial
  · split
    · exact upholds_changeInTransaction hfresh hundone hnew hvouch version outstanding _ hs
    · refine upholds_storeSequentially hfresh hnew hvouch (r.nonceBase 0)
        (mayStore_change r version outstanding) (fun s => storeCredential_ne)
        (each_suspendAgain r.newHash since r.lastNonceBase true) ?_ hs
      exact each_ret _

theorem upholds_changeProven (hfresh : FreshCredentials requests s₀)
    (hundone : ∀ l, ¬ faults l (.database true) true)
    (hnew : (requests i).newCredential = some r.newHash)
    (hvouch : (requests i).Vouches env credential)
    (hs : Holds (requests i) i credential since s ms) :
    Upholds env requests faults i (changeProven env r credential since) s ms := by
  refine (each_acquireVaultRotationLock _ _).before (stable_holds hfresh credential since)
    (fun _ _ _ _ h => h.holds) hs fun _ s ms hs => ?_
  have hlocked := (upholds_changeUnderLock hfresh hundone hnew hvouch hs).andFinally
    (each_releaseVaultRotationLock r.lockId)
  refine hlocked.bind fun written s ms => ?_
  split
  · exact trivial
  · exact each_refuseSuperseded.upholds s ms

theorem upholds_resetLinked (hfresh : FreshCredentials requests s₀) {r : ResetPasswordRequest}
    {loaded : User} (hnew : (requests i).newCredential = some r.newHash)
    (hvouch : (requests i).Vouches env loaded.authHash)
    (hs : Holds (requests i) i loaded.authHash since s ms) :
    Upholds env requests faults i (resetLinked r loaded since) s ms := by
  have hother : r.newHash ≠ loaded.authHash := by
    intro heq
    obtain ⟨newer, older, hlist, -, hhead⟩ := hs.1.seen.latest
    refine hs.2 r.newHash hnew ?_
    rw [hlist, heq]
    exact mem_append_right _ (mem_of_head? hhead)
  exact upholds_storeSequentially hfresh hnew hvouch r.nonceBase (mayStore_save r loaded hother)
    (fun s => storeCredential_ne) (each_finishReset r since) (each_raise _) hs

/-- A request that reads the account goes on with what it has seen. -/
theorem upholds_loadAccount (hfresh : FreshCredentials requests s₀) {k : Option User × ℕ → Req α}
    (hs : Unstored (requests i) s)
    (hgone : ∀ n s ms, Upholds env requests faults i (k (none, n)) s ms)
    (hk : ∀ u n s ms, Holds (requests i) i u.authHash n s ms →
      Upholds env requests faults i (k (some u, n)) s ms) :
    Upholds env requests faults i (loadAccount.bind k) s ms := by
  let next (s : Store) (ms : List (Move ι Site Store)) := ms ++ [⟨i, .loadUser, s, s⟩]
  have hguar : ∀ s ms, (proofProtocol env requests).guar i (some .loadUser) s ms s (next s ms) :=
    fun s ms => ⟨⟨.inl (.refl s), Silent.rightful ⟨.refl s, .refl s, rfl, rfl⟩⟩, rfl⟩
  refine Safe.db_bind (fun s _ => Unstored (requests i) s) (stable_unstored hfresh) hs
    (fun s ms hlog hun _ => ⟨next s ms, hlog, hguar s ms, ?_⟩)
    (fun s ms _ hlog _ _ _ => ⟨next s ms, hlog, hguar s ms, trivial⟩)
    fun s ms _ hlog _ _ _ => ⟨next s ms, hlog, hguar s ms, trivial⟩
  dsimp only
  cases hu : s.user with
  | none => exact hgone _ s _
  | some u =>
    refine hk u _ s _ ⟨⟨hlog.seen hu, ?_⟩, hun⟩
    exact ⟨ms, ⟨i, .loadUser, s, s⟩, [], rfl, rfl, rfl, .inl rfl⟩

theorem upholds_withProof (hfresh : FreshCredentials requests s₀) {authHash : String}
    {next : User → ℕ → Req α}
    (hs : Unstored (requests i) s)
    (hnext : ∀ u n s ms, env.bcryptCompare authHash u.authHash = true →
      Holds (requests i) i u.authHash n s ms → Upholds env requests faults i (next u n) s ms) :
    Upholds env requests faults i (withProof env authHash next) s ms := by
  refine upholds_loadAccount hfresh hs (fun _ _ _ => trivial) fun u n s ms hs => ?_
  dsimp only
  split
  · rename_i hproof
    exact hnext u n s ms hproof hs
  · exact trivial

/-- A request that stores no credential upholds the protocol when its statements rest on what it
has seen. -/
theorem EachMayRestOn.upholds (hfresh : FreshCredentials requests s₀)
    (hp : EachMayRestOn credential since p) (hvouch : (requests i).Vouches env credential)
    (hs : Holds (requests i) i credential since s ms) :
    Upholds env requests faults i p s ms := by
  have hkeeps : Keeps (proofProtocol env requests) faults Unhindered i
      (Holds (requests i) i credential since) (fun _ => True) p :=
    hp.keeps hvouch (stable_holds hfresh credential since) (fun _ _ _ _ h hP => h.holds hP)
      fun _ _ hP => hP.1
  exact (hkeeps s ms hs).mono fun _ _ _ _ => trivial

end Change

/-- **Every request upholds the protocol.** -/
theorem upholds_prog {s₀ : Store} (hfresh : FreshCredentials requests s₀)
    (hundone : ∀ l, ¬ faults l (.database true) true)
    (hs : Unstored (requests i) s) :
    Upholds env requests faults i ((requests i).prog env) s ms := by
  cases hrequest : requests i with
  | change r =>
    refine upholds_withProof hfresh hs fun u n s ms hproof hs => ?_
    exact upholds_changeProven hfresh hundone (by rw [hrequest]; rfl)
      (.inl (by rw [hrequest]; exact hproof)) hs
  | reset r =>
    show Upholds env requests faults i (resetPassword env r) s ms
    unfold resetPassword
    split
    · exact trivial
    · rename_i stateHash hlink
      refine upholds_loadAccount hfresh hs (fun _ _ _ => trivial) fun u n s ms hs => ?_
      dsimp only
      split
      · exact trivial
      · split
        · exact trivial
        · split
          · exact trivial
          · rename_i hstate
            refine upholds_resetLinked hfresh (by rw [hrequest]; rfl) (.inl ?_) hs
            rw [hrequest]
            show decide (r.stateHash = _) = true
            rw [hlink, not_not.1 hstate]
            exact decide_eq_true rfl
  | rotate r =>
    show Upholds env requests faults i (bulkReEncrypt env r) s ms
    unfold bulkReEncrypt
    split
    · refine upholds_withProof hfresh hs fun u n s ms hproof hs => ?_
      exact (each_rotateProven env r u n).upholds hfresh (.inl (by rw [hrequest]; exact hproof)) hs
    · exact trivial
  | notify r =>
    show Upholds env requests faults i (updateNotificationPreferences env r) s ms
    unfold updateNotificationPreferences
    split
    · exact trivial
    · refine upholds_withProof hfresh hs fun u n s ms hproof hs => ?_
      exact (each_writeNotifications u.authHash n r.changes).upholds hfresh
        (.inl (by rw [hrequest]; exact hproof)) hs
  | approve authHash r =>
    have happrove : Upholds env requests faults i (updateBackupRecipients env authHash r) s ms := by
      refine upholds_withProof hfresh hs fun u n s ms hproof hs => ?_
      exact (each_applyRecipientListLoop env { r with provenAuthHash := u.authHash } n _).upholds
        hfresh (.inl (by rw [hrequest]; exact hproof)) hs
    exact happrove.bind fun _ _ _ => trivial

/-! ## The law of the runs -/

/-- **A proof of a replaced credential writes nothing**, in every run whose schedule leaves the
requests undisturbed: a statement that rests on a credential applies only while that one is stored,
and none was stored since its request read the account. -/
theorem proof_current [DecidableEq ι] {s₀ : Store} (hfresh : FreshCredentials requests s₀)
    (hundone : ∀ l, ¬ faults l (.database true) true) (hstart : CredentialLog s₀)
    {ms : List (Move ι Site Store)} {c : Config ι Store Site AccountError Unit}
    (hrun : Traced (proofSystem env requests faults) (Config.start s₀) ms c)
    (hms : Undisturbed ms) :
    ∀ m ∈ ms, Rightful env (requests m.agent) m.site m.before m.after := by
  have hS : Sound (proofSystem env requests faults) (proofProtocol env requests) Unhindered
      (fun _ _ _ => False) (fun i s _ => Unstored (requests i) s) fun _ _ _ _ => True := by
    refine ⟨fun i p hp s ms _ hP => ?_, fun i => stable_unstored hfresh, fun _ _ => .const True,
      fun _ _ _ _ _ _ h => h.elim⟩
    have hp' : p = (requests i).prog env := hp
    rw [hp']
    exact (upholds_prog hfresh hundone hP).mono fun _ s ms _ hlog =>
      ⟨ms, hlog, ⟨rfl, rfl⟩, trivial⟩
  have hlaw := (hS.traced hstart hfresh.unstored hrun fun earlier write later hwrite => ?_).2
  · exact fun m hm => (hlaw m hm).2
  · intro start read between hread hagent hsite hbare m hm hstores
    refine hms start read between write later ?_ hagent hsite hbare m hm hstores
    rw [hwrite, hread, append_assoc, cons_append]

/-! ### A change that a reset overtakes -/

/-- A verified account whose credential is the only one so far. -/
def settledStore : Store :=
  { plainStore (plainUser []) with history := { plainHistory [] with credentials := ["old"] } }

def plainChange : ChangePasswordRequest where
  currentAuthHash := "old"
  newHash := "changed"
  newVaultKey := ⟨"changed key", "iv", "tag"⟩
  newPendingVaultKey := none
  vaultKeyVersion := some 0
  passwordChangedAt := 1
  lockId := "change"
  lockedAt := 1
  attempts := 0
  nonceBase := fun _ => "nonce"
  lastNonceBase := "nonce"

def plainReset : ResetPasswordRequest where
  stateHash := some "old"
  email := "owner"
  newHash := "reset"
  newVaultKey := ⟨"reset key", "iv", "tag"⟩
  passwordChangedAt := 1
  nonceBase := "nonce"
  lastNonceBase := "nonce"

/-- A change (`true`) and a reset (`false`) of one account. -/
def changeAndReset : Bool → ProvenRequest
  | true => .change plainChange
  | false => .reset plainReset

/-- The change has read the account, the reset has run to its end, and the change is about to write. -/
def overtaken : Config Bool Store Site AccountError Unit :=
  (((Config.start settledStore).join true (changePassword (plainDeployment true) plainChange)).join
    false (resetPassword (plainDeployment true) plainReset)).follow
      (true :: List.replicate 10 false ++ List.replicate 4 true)

/-- A change proven with the old password overwrites the credential and the key of the reset that
was answered with success before. -/
theorem change_overwrites_reset :
    Reach (proofSystem (plainDeployment true) changeAndReset fun _ _ _ => False)
        (Config.start settledStore) overtaken ∧
      CStep (proofSystem (plainDeployment true) changeAndReset fun _ _ _ => False) overtaken
        (some (true, .writeCredential "old" 1 (some 0))) (overtaken.advance true) ∧
      overtaken.resultOf false = some (.ok ()) ∧
      overtaken.store.user.map (fun u => (u.authHash, u.vaultKey.encryptedVaultKey)) =
        some ("reset", "reset key") ∧
      (overtaken.advance true).store.user.map
        (fun u => (u.authHash, u.vaultKey.encryptedVaultKey)) = some ("changed", "changed key") ∧
      ¬ Rightful (plainDeployment true) (.change plainChange) (.writeCredential "old" 1 (some 0))
        overtaken.store (overtaken.advance true).store := by
  have hbefore : overtaken.store.user.map (fun u => (u.authHash, u.vaultKey.encryptedVaultKey)) =
      some ("reset", "reset key") := rfl
  have hafter : (overtaken.advance true).store.user.map
      (fun u => (u.authHash, u.vaultKey.encryptedVaultKey)) = some ("changed", "changed key") := rfl
  refine ⟨?_, .advance rfl, rfl, hbefore, hafter, fun hright => ?_⟩
  · have harrived := (Reaches.opened (proofSystem (plainDeployment true) changeAndReset
      fun _ _ _ => False) (fun _ _ _ => True) settledStore (i := true) rfl).join (i := false) rfl rfl
    exact Reach.follow harrived _
  · rcases hright.stored "old" rfl with hsame | ⟨u, hu, hold⟩
    · rw [hsame, hbefore] at hafter
      exact absurd hafter (by decide)
    · rw [hu] at hbefore
      simp [hold] at hbefore

/-- A change on its own, up to the write of its credential. -/
theorem proof_current_change :
    ∃ ms c, Traced (proofSystem (plainDeployment true) (fun _ : Unit => .change plainChange)
        fun _ _ _ => False) (Config.start settledStore) ms c ∧ Undisturbed ms ∧
      ∃ m ∈ ms, m.site = .writeCredential "old" 1 (some 0) ∧ m.after.Stores "changed" ∧
        m.before.Stores "old" := by
  have hfresh : FreshCredentials (fun _ : Unit => .change plainChange) settledStore := by
    refine ⟨fun _ _ _ _ _ => rfl, fun _ h hnew => ?_⟩
    have hchanged : "changed" = h := some.inj hnew
    rw [← hchanged]
    decide
  have hstart : CredentialLog settledStore := by
    refine ⟨fun u hu => ?_, by decide⟩
    cases hu
    rfl
  have harrived : Traced (proofSystem (plainDeployment true) (fun _ : Unit => .change plainChange)
      fun _ _ _ => False) (start settledStore) []
      ((start settledStore).join () (changePassword (plainDeployment true) plainChange)) :=
    (Reaches.opened _ _ _ rfl).arrivals
  have hrun := harrived.follow (replicate 6 ())
  have hms : Undisturbed ([] ++ ((start settledStore).join ()
      (changePassword (plainDeployment true) plainChange)).moves (replicate 6 ())) :=
    fun _ _ _ _ _ _ _ _ _ _ _ _ => rfl
  have hmem := get_mem ([] ++ ((start settledStore).join ()
    (changePassword (plainDeployment true) plainChange)).moves (replicate 6 ())) ⟨5, by decide⟩
  refine ⟨_, _, hrun, hms, _, hmem, rfl, ⟨_, rfl, rfl⟩, ?_⟩
  have hright := proof_current hfresh (fun _ h => h) hstart hrun hms _ hmem
  refine (hright.stored "old" rfl).resolve_left fun hsame => ?_
  have hlog := congrArg (·.history.credentials.length) hsame
  exact absurd hlog (by decide)

end HVault.Account
