import HVault.Interleave.Schedule
import HVault.Account.Recipients

/-!
# What a suspension of the recipients is worth

The four requests on the recipient list may interleave in any way, and the credential may be
replaced at any moment. Three things keep a stale list, a stale link and a stale proof out: a list
is written only at the revision it was read at, a link confirms only the nonce its entry carries,
and a list is read and written only under the credential it was approved with.

`recipients_hold` puts them together. `approved < suspensions` says that no list read after the
last suspension has been written; then every address but the account's own is suspended.
-/

namespace HVault.Account

open Interleave FirstMatch List Prog

/-! ## The requests -/

/-- A request on the recipient list, or the replacement of the credential by another request. -/
inductive RecipientRequest where
  | apply (r : RecipientListRequest)
  | suspend (base : String)
  | confirm (r : ConfirmationRequest)
  | send (r : ConfirmationRunRequest)
  | replaceCredential (authHash : String)

namespace RecipientRequest

/-- The program of a request; what it is answered does not matter to the others. -/
def prog (env : Deployment) : RecipientRequest → Req Unit
  | apply r => do
    let _ ← applyRecipientList env r
  | suspend base => do
    let _ ← Prog.db .suspendRecipients (suspendThirdPartyRecipients base)
  | confirm r => do
    let _ ← confirmRecipientToken r
  | send r => do
    let _ ← sendDueConfirmations r
  | replaceCredential authHash => do
    let _ ← Prog.db .setCredential <| Store.updateUser (fun _ => true) fun u =>
      { u with authHash }

/-- The nonces a request may mint. -/
def mints : RecipientRequest → String → Prop
  | apply r, nonce => ∃ attempt place, nonce = r.nonce attempt place
  | suspend base, nonce => ∃ place : ℕ, nonce = s!"{base}.{place}"
  | confirm r, nonce => nonce = r.newNonce
  | send _, _ => False
  | replaceCredential _, _ => False

end RecipientRequest

section System

variable {ι : Type} (env : Deployment) (requests : ι → RecipientRequest)
  (faults : Site → AccountError → Bool → Prop)

/-- Any requests on the list of one account, whose accesses may fail in any of the given ways. -/
def recipientSystem : System ι Store Site AccountError Unit where
  admits i p := p = (requests i).prog env
  faults

/-- Nonces never repeat: no two requests mint the same, and none mints one seen before. -/
structure FreshNonces (s₀ : Store) : Prop where
  once : ∀ i j nonce, (requests i).mints nonce → (requests j).mints nonce → i = j
  start : ∀ i nonce, (requests i).mints nonce → nonce ∉ s₀.history.nonces

end System

/-! ## The invariant -/

/-- The account's own address is verified and waits for no confirmation. -/
def OwnSettled (u : User) : Prop :=
  u.emailVerified = some true ∧ ∀ e ∈ u.backupRecipients, e.email = u.email →
    e.approvedAt.isSome → e.state ≠ .pending

/-- What holds of the list, given what happened so far. `settled` is whether the own address was
settled at the start. -/
structure ListInv (settled : Prop) (h : History) (u : User) : Prop where
  distinct : (u.backupRecipients.map (·.email)).Nodup
  known : ∀ e ∈ u.backupRecipients, e.nonce ∈ h.nonces
  /-- Until a list read after the last suspension is written, the others are suspended. -/
  suspended : h.approved < h.suspensions →
    ∀ e ∈ u.backupRecipients, e.email ≠ u.email → e.state = .suspended
  /-- An entry that waits carries no nonce from before the last suspension. -/
  retired : ∀ e ∈ u.backupRecipients, e.state = .pending → e.nonce ∈ h.retired →
    e.email = u.email
  /-- No entry carries the nonce of a confirmation of its address. -/
  spent : ∀ e ∈ u.backupRecipients, (e.email, e.nonce) ∉ h.confirmations
  own : settled → OwnSettled u

/-- What holds of the account and its history. -/
structure RecipientsInv (settled : Prop) (s : Store) : Prop where
  list : ∀ u, s.user = some u → ListInv settled s.history u
  retired_known : ∀ nonce ∈ s.history.retired, nonce ∈ s.history.nonces
  confirmed_known : ∀ t ∈ s.history.confirmations, t.2 ∈ s.history.nonces
  confirmed_once : s.history.confirmations.Nodup

/-! ## Writes of the list -/

/-- An entry of a new list stems from one of the old: it carries its nonce and waits only if that
one did. -/
def Kept (u : User) (e' : Recipient) : Prop :=
  ∃ e ∈ u.backupRecipients, e'.email = e.email ∧ e'.nonce = e.nonce ∧
    (e'.state = .pending → e.state = .pending ∧ (e'.approvedAt.isSome → e.approvedAt.isSome))

/-- An entry of a new list has a nonce nobody has seen, and is no own address of a verified account
that waits. -/
def Renewed (nonces : List String) (u : User) (e' : Recipient) : Prop :=
  e'.nonce ∉ nonces ∧
    (e'.email = u.email → u.emailVerified = some true → e'.state ≠ .pending)

/-! ## The law of a step -/

/-- What one write of a request that may mint `mints` does. -/
structure RecipientsLaw (settled : Prop) (mints : String → Prop) (l : Site) (s s' : Store) :
    Prop where
  /-- The account stays, with its address. -/
  account : ∀ u', s'.user = some u' →
    ∃ u, s.user = some u ∧ u'.email = u.email ∧ u'.emailVerified = u.emailVerified ∧
      -- every write of the list moves the revision
      (u'.recipientsRevision = u.recipientsRevision ∧
          u'.backupRecipients = u.backupRecipients ∧
          s'.history.suspensions = s.history.suspensions ∨
        u.recipientsRevision.getD 0 < u'.recipientsRevision.getD 0)
  minted : ∀ nonce ∈ s'.history.nonces, nonce ∈ s.history.nonces ∨ mints nonce
  /-- A whole list replaces exactly the list it was computed from, under the credential it was
  approved with. -/
  whole : ∀ provenWith base u', l = .writeRecipients provenWith base → s' ≠ s →
    s'.user = some u' → ∃ u, s.user = some u ∧ u.backupRecipients = base ∧ u.authHash = provenWith
  /-- A link from before the last suspension confirms nothing, but for an own address that waited
  from the start. -/
  link : ∀ email nonce u, l = .confirmRecipient email nonce → s' ≠ s → s.user = some u →
    nonce ∈ s.history.retired → email = u.email ∧ ¬ settled
  /-- How an address becomes confirmed. -/
  confirmed : ∀ u u' e', s.user = some u → s'.user = some u' → e' ∈ u'.backupRecipients →
    e'.state = .confirmed →
    (∃ e ∈ u.backupRecipients, e.email = e'.email ∧ e.state = .confirmed) ∨
    (e'.email = u.email ∧ u.emailVerified = some true) ∨
    (∃ e ∈ u.backupRecipients, e.email = e'.email ∧ e.state = .pending ∧ e.approvedAt.isSome ∧
      l = .confirmRecipient e.email e.nonce) ∨
    (∃ e ∈ u.backupRecipients, e.email = e'.email ∧ e.state = .suspended ∧ e.confirmedAt.isSome ∧
      ∃ provenWith base, l = .writeRecipients provenWith base)

/-- A statement that leaves the account and its history alone obeys the law. -/
theorem recipientsLaw_same (settled : Prop) (mints : String → Prop) (l : Site) (s : Store) :
    RecipientsLaw settled mints l s s where
  account u hu := ⟨u, hu, rfl, rfl, .inl ⟨rfl, rfl, rfl⟩⟩
  minted _ h := .inl h
  whole _ _ _ _ hne := (hne rfl).elim
  link _ _ _ _ hne := (hne rfl).elim
  confirmed u u' e' hu hu' he' hstate := by
    rw [hu] at hu'
    cases hu'
    exact .inl ⟨e', he', rfl, hstate⟩

/-- A write of the list moves the revision. -/
theorem revision_withRecipients (u : User) (next : List Recipient) :
    u.recipientsRevision.getD 0 < (u.withRecipients next).recipientsRevision.getD 0 := by
  show _ < u.recipientsRevision.getD 0 + 1
  omega

/-- What a statement on the list keeps, and the law it obeys. -/
def ListStep (settled : Prop) (mints : String → Prop) (l : Site) (s s' : Store) : Prop :=
  RecipientsInv settled s' ∧ RecipientsLaw settled mints l s s'

theorem listStep_same {settled : Prop} {mints : String → Prop} {l : Site} {s : Store}
    (hinv : RecipientsInv settled s) : ListStep settled mints l s s :=
  ⟨hinv, recipientsLaw_same settled mints l s⟩

/-! ## The statements -/

section Statements

variable {settled : Prop} {mints : String → Prop} {s : Store}

/-- A write of the list: the new one has kept and renewed entries, and the history keeps what it
must of them. -/
theorem listStep_put (hinv : RecipientsInv settled s) {u : User} (hu : s.user = some u)
    {next : List Recipient} (noticed : Option ℤ) {h' : History} {l : Site}
    (hnonces : h'.nonces = next.map (·.nonce) ++ s.history.nonces)
    (hretired : h'.retired = s.history.retired ∨
      h'.retired = s.history.nonces ∧ ∀ e ∈ next, e.state = .pending → e.email = u.email)
    (hconfirmations : h'.confirmations = s.history.confirmations ∨
      ∃ a ∈ u.backupRecipients, h'.confirmations = (a.email, a.nonce) :: s.history.confirmations ∧
        ∀ e ∈ next, (e.email, e.nonce) ≠ (a.email, a.nonce))
    (hdistinct : (next.map (·.email)).Nodup)
    (hentries : ∀ e ∈ next, Kept u e ∨ Renewed s.history.nonces u e ∧ mints e.nonce)
    (hsuspended : h'.approved < h'.suspensions →
      ∀ e ∈ next, e.email ≠ u.email → e.state = .suspended)
    (hwhole : ∀ provenWith base, l = .writeRecipients provenWith base →
      u.backupRecipients = base ∧ u.authHash = provenWith)
    (hlink : ∀ email nonce, l = .confirmRecipient email nonce → nonce ∈ s.history.retired →
      email = u.email ∧ ¬ settled)
    (hconfirmed : ∀ e' ∈ next, e'.state = .confirmed →
      (∃ e ∈ u.backupRecipients, e.email = e'.email ∧ e.state = .confirmed) ∨
      (e'.email = u.email ∧ u.emailVerified = some true) ∨
      (∃ e ∈ u.backupRecipients, e.email = e'.email ∧ e.state = .pending ∧ e.approvedAt.isSome ∧
        l = .confirmRecipient e.email e.nonce) ∨
      (∃ e ∈ u.backupRecipients, e.email = e'.email ∧ e.state = .suspended ∧ e.confirmedAt.isSome ∧
        ∃ provenWith base, l = .writeRecipients provenWith base)) :
    ListStep settled mints l s { s with
      user := some (User.withRecipients { u with undeliverableNoticedAt := noticed } next)
      history := h' } := by
  have hlist := hinv.list u hu
  have hknown : ∀ nonce ∈ s.history.nonces, nonce ∈ h'.nonces := fun nonce hn =>
    hnonces ▸ mem_append_right _ hn
  refine ⟨⟨fun u' hu' => ?_, ?_, ?_, ?_⟩, fun u' hu' => ?_, fun n hn => ?_, ?_, ?_, ?_⟩
  · cases hu'
    refine ⟨hdistinct, fun e he => ?_, hsuspended, fun e he hpending hold => ?_,
      fun e he hmem => ?_, fun hs => ?_⟩
    · exact hnonces ▸ mem_append_left _ (mem_map_of_mem he)
    · rcases hretired with hretired | ⟨-, hown⟩
      · rw [hretired] at hold
        rcases hentries e he with ⟨e₀, he₀, hemail, hnonce, hstate⟩ | ⟨⟨hfresh, -⟩, -⟩
        · exact hemail.trans (hlist.retired e₀ he₀ (hstate hpending).1 (hnonce ▸ hold))
        · exact (hfresh (hinv.retired_known _ hold)).elim
      · exact hown e he hpending
    · have hold : (e.email, e.nonce) ∈ s.history.confirmations := by
        rcases hconfirmations with hsame | ⟨a, -, hnew, hne⟩
        · exact hsame ▸ hmem
        · exact (mem_cons.1 (hnew ▸ hmem)).resolve_left (hne e he)
      rcases hentries e he with ⟨e₀, he₀, hemail, hnonce, -⟩ | ⟨⟨hfresh, -⟩, -⟩
      · rw [hemail, hnonce] at hold
        exact hlist.spent e₀ he₀ hold
      · exact hfresh (hinv.confirmed_known _ hold)
    · obtain ⟨hverified, hown⟩ := hlist.own hs
      refine ⟨hverified, fun e he (hemail : e.email = u.email) happroved hpending => ?_⟩
      rcases hentries e he with ⟨e₀, he₀, heq, -, hstate⟩ | ⟨⟨-, hrenewed⟩, -⟩
      · have hstate' := hstate hpending
        exact hown e₀ he₀ (heq ▸ hemail) (hstate'.2 happroved) hstate'.1
      · exact hrenewed hemail hverified hpending
  · intro nonce hmem
    rcases hretired with hsame | ⟨hnew, -⟩
    · exact hknown _ (hinv.retired_known _ (hsame ▸ hmem))
    · exact hknown _ (hnew ▸ hmem)
  · intro t ht
    rcases hconfirmations with hsame | ⟨a, ha, hnew, -⟩
    · exact hknown _ (hinv.confirmed_known t (hsame ▸ ht))
    · rcases mem_cons.1 (hnew ▸ ht) with rfl | ht
      · exact hknown _ (hlist.known a ha)
      · exact hknown _ (hinv.confirmed_known t ht)
  · rcases hconfirmations with hsame | ⟨a, ha, hnew, -⟩
    · exact hsame ▸ hinv.confirmed_once
    · exact hnew ▸ nodup_cons.2 ⟨hlist.spent a ha, hinv.confirmed_once⟩
  · cases hu'
    exact ⟨u, hu, rfl, rfl, .inr (revision_withRecipients u next)⟩
  · rcases mem_append.1 (hnonces ▸ hn) with hn | hn
    · obtain ⟨e, he, rfl⟩ := mem_map.1 hn
      rcases hentries e he with ⟨e₀, he₀, -, hnonce, -⟩ | ⟨-, hmint⟩
      · exact .inl (hnonce ▸ hlist.known e₀ he₀)
      · exact .inr hmint
    · exact .inl hn
  · intro provenWith base u' hl _ _
    exact ⟨u, hu, hwhole provenWith base hl⟩
  · intro email nonce u₀ hl _ hu₀ hold
    cases hu.symm.trans hu₀
    exact hlink email nonce hl hold
  · intro u₀ u' e' hu₀ hu' he' hstate
    cases hu'
    cases hu.symm.trans hu₀
    exact hconfirmed e' he' hstate

/-- A change of the credential. -/
theorem listStep_setCredential (hinv : RecipientsInv settled s) (authHash : String) :
    ListStep settled mints .setCredential s
      (s.updateUser (fun _ => true) fun u => { u with authHash }).2 := by
  rcases Store.updateUser_cases (fun _ => true) (fun u => { u with authHash }) s with
    h | ⟨u, hu, -, h⟩
  · rw [h]
    exact listStep_same hinv
  · rw [h]
    have hlist := hinv.list u hu
    refine ⟨⟨fun u' hu' => ?_, hinv.retired_known, hinv.confirmed_known, hinv.confirmed_once⟩, ?_⟩
    · cases hu'
      exact ⟨hlist.distinct, hlist.known, hlist.suspended, hlist.retired, hlist.spent, hlist.own⟩
    · refine ⟨fun u' hu' => ?_, fun _ hn => .inl hn, fun _ _ _ => nofun,
        fun _ _ _ hl => (nomatch hl), fun u₀ u' e' hu₀ hu' he' hstate => ?_⟩
      · cases hu'
        exact ⟨u, hu, rfl, rfl, .inl ⟨rfl, rfl, rfl⟩⟩
      · cases hu'
        rw [hu] at hu₀
        cases hu₀
        exact .inl ⟨e', he', rfl, hstate⟩

/-- The claim and the return of a mail change nothing the laws speak of. -/
theorem listStep_updateRecipient (hinv : RecipientsInv settled s) {l : Site}
    (hl : l = .claimDue ∨ l = .handBack) {filter : Recipient → Bool} {update : Recipient → Recipient}
    (hemail : ∀ e, (update e).email = e.email) (hnonce : ∀ e, (update e).nonce = e.nonce)
    (hstate : ∀ e, (update e).state = e.state)
    (happroved : ∀ e, (update e).approvedAt = e.approvedAt) :
    ListStep settled mints l s (updateRecipient filter update s).2 := by
  unfold updateRecipient
  cases hu : s.user with
  | none => exact listStep_same hinv
  | some u =>
    dsimp only
    generalize hfound : findModify filter update u.backupRecipients = found
    obtain ⟨first, next⟩ := found
    cases first with
    | none => exact listStep_same hinv
    | some first =>
      have hlist := hinv.list u hu
      have hnext : ∀ e ∈ next, ∃ e₀ ∈ u.backupRecipients, e.email = e₀.email ∧
          e.nonce = e₀.nonce ∧ e.state = e₀.state ∧ e.approvedAt = e₀.approvedAt := by
        intro e he
        have he' : e ∈ (findModify filter update u.backupRecipients).2 := hfound ▸ he
        rcases mem_findModify he' with hold | ⟨e₀, he₀, -, rfl⟩
        · exact ⟨e, hold, rfl, rfl, rfl, rfl⟩
        · exact ⟨e₀, he₀, hemail e₀, hnonce e₀, hstate e₀, happroved e₀⟩
      have hemails : next.map (·.email) = u.backupRecipients.map (·.email) := by
        have := map_findModify (p := filter) (l := u.backupRecipients)
          (·.email) fun e _ => hemail e
        rwa [hfound] at this
      have hkept : ∀ e ∈ next, Kept u e := by
        intro e he
        obtain ⟨e₀, he₀, h₁, h₂, h₃, h₄⟩ := hnext e he
        exact ⟨e₀, he₀, h₁, h₂, fun h => ⟨h₃ ▸ h, fun h' => h₄ ▸ h'⟩⟩
      refine listStep_put hinv hu u.undeliverableNoticedAt rfl (.inl rfl) (.inl rfl)
        (hemails ▸ hlist.distinct) (fun e he => .inl (hkept e he)) ?_ ?_ ?_ fun e' he' hconf => ?_
      · intro hlt e he hne
        obtain ⟨e₀, he₀, h₁, -, h₃, -⟩ := hnext e he
        rw [h₃]
        exact hlist.suspended hlt e₀ he₀ (h₁ ▸ hne)
      · rcases hl with rfl | rfl <;> nofun
      · rcases hl with rfl | rfl <;> nofun
      · obtain ⟨e₀, he₀, h₁, -, h₃, -⟩ := hnext e' he'
        exact .inl ⟨e₀, he₀, h₁.symm, h₃ ▸ hconf⟩

theorem suspendRecipient_email (u : User) (nonce : String) (e : Recipient) :
    (suspendRecipient u nonce e).email = e.email := by
  unfold suspendRecipient
  split
  · rfl
  · rfl

/-- A suspension: every address but the own one is suspended afterwards. -/
theorem listStep_suspend (hinv : RecipientsInv settled s) {base : String}
    (hmints : ∀ place : ℕ, mints s!"{base}.{place}")
    (hfresh : ∀ place : ℕ, s!"{base}.{place}" ∉ s.history.nonces) :
    ListStep settled mints .suspendRecipients s (suspendThirdPartyRecipients base s).2 := by
  unfold suspendThirdPartyRecipients
  cases hu : s.user with
  | none => exact listStep_same hinv
  | some u =>
    dsimp only
    split
    · have hlist := hinv.list u hu
      generalize hnext : (u.backupRecipients.mapIdx fun i e =>
        suspendRecipient u (s!"{base}.{i}") e) = next
      have hentry : ∀ e ∈ next, ∃ e₀ ∈ u.backupRecipients, ∃ place : ℕ,
          e = suspendRecipient u (s!"{base}.{place}") e₀ := by
        intro e he
        rw [← hnext, mem_mapIdx] at he
        obtain ⟨place, hplace, rfl⟩ := he
        exact ⟨_, getElem_mem hplace, place, rfl⟩
      have hemails : next.map (·.email) = u.backupRecipients.map (·.email) := by
        rw [← hnext]
        refine ext_getElem (by simp) fun i hi hi' => ?_
        simp [suspendRecipient_email]
      -- an entry is left alone or suspended under a new nonce
      have hcases : ∀ e ∈ next, (e ∈ u.backupRecipients ∧ suspendable u e = false) ∨
          (e.state = .suspended ∧ ∃ place : ℕ, e.nonce = s!"{base}.{place}") := by
        intro e he
        obtain ⟨e₀, he₀, place, rfl⟩ := hentry e he
        unfold suspendRecipient
        split
        · exact .inr ⟨rfl, place, rfl⟩
        · rename_i hnot
          exact .inl ⟨he₀, by simpa using hnot⟩
      have hother : ∀ e ∈ next, e.email ≠ u.email → e.state = .suspended := by
        intro e he hne
        rcases hcases e he with ⟨-, hnot⟩ | ⟨hstate, -⟩
        · simpa [suspendable, hne] using hnot
        · exact hstate
      refine listStep_put hinv hu none rfl (.inr ⟨rfl, fun e he hpending => ?_⟩) (.inl rfl)
        (hemails ▸ hlist.distinct) (fun e he => ?_) (fun _ => hother) nofun nofun
        fun e he hconf => ?_
      · by_contra hne
        rw [hother e he hne] at hpending
        cases hpending
      · rcases hcases e he with ⟨hold, -⟩ | ⟨hstate, place, hnonce⟩
        · exact .inl ⟨e, hold, rfl, rfl, fun h => ⟨h, id⟩⟩
        · refine .inr ⟨⟨hnonce ▸ hfresh place, fun _ _ hpending => ?_⟩, hnonce ▸ hmints place⟩
          rw [hstate] at hpending
          exact nomatch hpending
      · rcases hcases e he with ⟨hold, -⟩ | ⟨hstate, -⟩
        · exact .inl ⟨e, hold, rfl, hconf⟩
        · rw [hstate] at hconf
          cases hconf
    · exact listStep_same hinv

/-- The other entries of a list with distinct addresses, around the one confirmed. -/
theorem others_of_distinct {u : User} {a : Recipient} {before after : List Recipient}
    (hdistinct : (u.backupRecipients.map (·.email)).Nodup)
    (hl : u.backupRecipients = before ++ a :: after) {e : Recipient} (he : e ∈ before ++ after) :
    e ∈ u.backupRecipients ∧ e.email ≠ a.email := by
  refine ⟨?_, fun h => ?_⟩
  · rw [hl]
    simp only [mem_append, mem_cons] at he ⊢
    exact he.imp_right .inr
  · rw [hl] at hdistinct
    have hnodup : (a.email :: (before ++ after).map (·.email)).Nodup := by
      refine List.Perm.nodup ?_ hdistinct
      simp only [map_append, map_cons]
      exact perm_middle
    exact (nodup_cons.1 hnodup).1 (h ▸ mem_map_of_mem he)

/-- A confirmation: the entry that waited for this link is confirmed under a new nonce. -/
theorem listStep_confirm (hinv : RecipientsInv settled s) {email nonce newNonce : String}
    {now : ℤ} (hmints : mints newNonce) (hfresh : newNonce ∉ s.history.nonces) :
    ListStep settled mints (.confirmRecipient email nonce) s
      (confirmRecipient email nonce now newNonce s).2 := by
  unfold confirmRecipient
  cases hu : s.user with
  | none => exact listStep_same hinv
  | some u =>
    dsimp only
    split
    · exact listStep_same hinv
    · rcases findModify_cases (awaits email nonce) (·.confirm now newNonce)
          u.backupRecipients with ⟨heq, -⟩ | ⟨a, before, after, hl, ha, -, heq⟩
      · rw [heq]
        exact listStep_same hinv
      · rw [heq]
        have hlist := hinv.list u hu
        obtain ⟨⟨⟨rfl, rfl⟩, hpending⟩, happroved⟩ :
            ((a.email = email ∧ a.nonce = nonce) ∧ a.state = .pending) ∧ a.approvedAt.isSome := by
          simpa [awaits] using ha
        have hmem : a ∈ u.backupRecipients := by simp [hl]
        have hrest : ∀ e ∈ before ++ after, e ∈ u.backupRecipients ∧ e.email ≠ a.email :=
          fun e he => others_of_distinct hlist.distinct hl he
        have hentries : ∀ e ∈ before ++ a.confirm now newNonce :: after,
            e ∈ before ++ after ∨ e = a.confirm now newNonce := by
          intro e he
          simp only [mem_append, mem_cons] at he ⊢
          rcases he with he | he | he
          · exact .inl (.inl he)
          · exact .inr he
          · exact .inl (.inr he)
        refine listStep_put hinv hu none rfl (.inl rfl)
          (.inr ⟨a, hmem, rfl, fun e he hsame => ?_⟩) ?_ (fun e he => ?_) (fun hlt e he hne => ?_)
          nofun ?_ fun e he hconf => ?_
        · -- the entry confirmed has a nonce nobody has seen, and no other has its address
          injection hsame with hemail hnonce
          rcases hentries e he with hold | rfl
          · exact (hrest e hold).2 hemail
          · have hnew : newNonce = a.nonce := hnonce
            exact hfresh (hnew ▸ hlist.known a hmem)
        · have hdistinct := hlist.distinct
          rw [hl] at hdistinct
          simpa [Recipient.confirm] using hdistinct
        · rcases hentries e he with hold | rfl
          · exact .inl ⟨e, (hrest e hold).1, rfl, rfl, fun h => ⟨h, id⟩⟩
          · exact .inr ⟨⟨hfresh, nofun⟩, hmints⟩
        · rcases hentries e he with hold | rfl
          · exact hlist.suspended hlt e (hrest e hold).1 hne
          · -- it waited, so it was not suspended, so it is the own address
            have hsusp := hlist.suspended hlt a hmem hne
            rw [hpending] at hsusp
            cases hsusp
        · intro email' nonce' hsite hretired
          injection hsite with h₁ h₂
          subst h₁ h₂
          have hown := hlist.retired a hmem hpending hretired
          exact ⟨hown, fun hs => (hlist.own hs).2 a hmem hown happroved hpending⟩
        · rcases hentries e he with hold | rfl
          · exact .inl ⟨e, (hrest e hold).1, rfl, hconf⟩
          · exact .inr (.inr (.inl ⟨a, hmem, rfl, hpending, happroved, rfl⟩))

/-- How an entry of an approved list stems from the list before: it is the old entry, or it has
the new nonce. -/
structure Succeeds (account : User) (newNonce email : String) (e' : Recipient) : Prop where
  address : e'.email = email
  origin : (∃ e ∈ account.backupRecipients, e.email = email ∧ e'.nonce = e.nonce ∧
      (e'.state = .pending → e' = e) ∧ (e'.state = .confirmed → e.state = .confirmed)) ∨
    e'.nonce = newNonce ∧
      (email = account.email → account.emailVerified = some true → e'.state ≠ .pending) ∧
      (e'.state = .confirmed → email = account.email ∧ account.emailVerified = some true ∨
        ∃ e ∈ account.backupRecipients, e.email = email ∧ e.state = .suspended ∧
          e.confirmedAt.isSome)

theorem succeeds_freshRecipient (account : User) (now : ℤ) (newNonce email : String) :
    Succeeds account newNonce email (freshRecipient account now newNonce email) := by
  unfold freshRecipient
  split
  · rename_i hown
    exact ⟨rfl, .inr ⟨rfl, nofun, fun _ => .inl hown⟩⟩
  · rename_i hown
    exact ⟨rfl, .inr ⟨rfl, fun h h' _ => hown ⟨h, h'⟩, nofun⟩⟩

theorem succeeds_nextRecipient (account : User) (now : ℤ) (newNonce email : String) :
    Succeeds account newNonce email (nextRecipient account now newNonce email) := by
  unfold nextRecipient
  split
  · exact succeeds_freshRecipient account now newNonce email
  · rename_i existing hfind
    have hmem : existing ∈ account.backupRecipients := mem_of_find?_eq_some hfind
    have hemail : existing.email = email := by simpa using find?_some hfind
    split
    · rename_i hstate
      refine ⟨hemail, .inl ⟨existing, hmem, hemail, rfl, fun h => ?_, fun _ => hstate⟩⟩
      have hpending : existing.state = .pending := h
      rw [hstate] at hpending
      cases hpending
    · split
      · rename_i hsuspended
        exact ⟨hemail, .inr ⟨rfl, nofun, fun _ =>
          .inr ⟨existing, hmem, hemail, hsuspended.1, hsuspended.2⟩⟩⟩
      · split
        · exact ⟨hemail, .inl ⟨existing, hmem, hemail, rfl, fun _ => rfl, id⟩⟩
        · exact succeeds_freshRecipient account now newNonce email

/-- Dropping repetitions leaves none. -/
theorem nodup_eraseDups (l : List String) : l.eraseDups.Nodup := by
  -- the recursion drops the head from the rest, so the induction is on the length
  induction hn : l.length using Nat.strongRecOn generalizing l with
  | _ n ih =>
    cases l with
    | nil => exact nodup_nil
    | cons a l =>
      rw [eraseDups_cons]
      refine nodup_cons.2 ⟨fun hmem => ?_, ?_⟩
      · rw [mem_eraseDups, mem_filter] at hmem
        simp at hmem
      · have hle : (l.filter fun b => !b == a).length ≤ l.length := length_filter_le _ _
        exact ih _ (by simp only [length_cons] at hn; omega) _ rfl

/-- A list update, written at the revision it was computed for. -/
theorem listStep_writeRecipientList (env : Deployment) (r : RecipientListRequest) (attempt : ℕ)
    (account : User) (seen : ℕ) (hinv : RecipientsInv settled s)
    (hmints : ∀ attempt place, mints (r.nonce attempt place))
    (hfresh : ∀ attempt place, r.nonce attempt place ∉ s.history.nonces)
    (hread : ∀ u, s.user = some u → u.recipientsRevision = account.recipientsRevision →
      u.backupRecipients = account.backupRecipients ∧ s.history.suspensions = seen ∧
        u.email = account.email ∧ u.emailVerified = account.emailVerified) :
    ListStep settled mints (.writeRecipients r.provenAuthHash account.backupRecipients) s
      (writeRecipientList r.provenAuthHash account.recipientsRevision
        (nextRecipients env r attempt account) seen s).2 := by
  unfold writeRecipientList
  cases hu : s.user with
  | none => exact listStep_same hinv
  | some u =>
    dsimp only
    split
    · rename_i hfilter
      have hlist := hinv.list u hu
      obtain ⟨hbase, hseen, hemail, hverified⟩ := hread u hu hfilter.2
      generalize hnext : nextRecipients env r attempt account = next
      have hentry : ∀ e ∈ next, ∃ place email, Succeeds account (r.nonce attempt place) email e := by
        intro e he
        rw [← hnext, nextRecipients, mem_mapIdx] at he
        obtain ⟨place, -, rfl⟩ := he
        exact ⟨place, _, succeeds_nextRecipient account r.now _ _⟩
      have hemails : (next.map (·.email)).Nodup := by
        have heq : next.map (·.email) = (r.emails.map env.normalizeEmail).eraseDups := by
          rw [← hnext, nextRecipients]
          refine ext_getElem (by simp) fun i hi hi' => ?_
          simp [(succeeds_nextRecipient account r.now _ _).address]
        rw [heq]
        exact nodup_eraseDups _
      refine listStep_put hinv hu none rfl (.inl rfl) (.inl rfl) hemails (fun e he => ?_)
        (fun hlt => ?_) (fun provenWith base hl => ?_) nofun fun e' he' hconf => ?_
      · obtain ⟨place, email, hsucc⟩ := hentry e he
        rcases hsucc.origin with ⟨e₀, he₀, hemail₀, hnonce, hpending, -⟩ | ⟨hnonce, hown, -⟩
        · refine .inl ⟨e₀, hbase ▸ he₀, hsucc.address.trans hemail₀.symm, hnonce, fun h => ?_⟩
          rw [← hpending h]
          exact ⟨h, id⟩
        · refine .inr ⟨⟨hnonce ▸ hfresh attempt place, fun h h' => ?_⟩,
            hnonce ▸ hmints attempt place⟩
          exact hown (by rw [← hsucc.address, h, hemail]) (hverified ▸ h')
      · -- a list written at its revision was computed after the last suspension
        have hlt' : seen < s.history.suspensions := hlt
        omega
      · injection hl with h₁ h₂
        exact ⟨hbase.trans h₂, hfilter.1.trans h₁⟩
      · obtain ⟨place, email, hsucc⟩ := hentry e' he'
        rcases hsucc.origin with ⟨e₀, he₀, hemail₀, -, -, hstate⟩ | ⟨-, -, hstate⟩
        · exact .inl ⟨e₀, hbase ▸ he₀, hemail₀.trans hsucc.address.symm, hstate hconf⟩
        · rcases hstate hconf with ⟨h₁, h₂⟩ | ⟨e₀, he₀, hemail₀, hsusp, hagreed⟩
          · exact .inr (.inl ⟨by rw [hsucc.address, h₁, hemail], hverified ▸ h₂⟩)
          · exact .inr (.inr (.inr ⟨e₀, hbase ▸ he₀, hemail₀.trans hsucc.address.symm, hsusp,
              hagreed, _, _, rfl⟩))
    · exact listStep_same hinv

end Statements

/-! ## The requests keep the law -/

section Protocol

variable {ι : Type} (settled : Prop) (requests : ι → RecipientRequest)

/-- Every write keeps the invariant and obeys the law for what its request may mint. -/
def recipientProtocol : Protocol ι Store Site Unit where
  inv s _ := RecipientsInv settled s
  guar i l s _ s' _ :=
    match l with
    | some l => RecipientsLaw settled (requests i).mints l s s'
    | none => s' = s

/-- Nobody has seen a nonce that `i` may mint. -/
def Unminted (i : ι) (s : Store) (_ : Unit) : Prop :=
  ∀ nonce, (requests i).mints nonce → nonce ∉ s.history.nonces

/-- The account was read with `seen` suspensions: as long as its revision has not moved, neither
have its list and the suspensions. -/
def ReadAt (account : User) (seen : ℕ) (s : Store) (_ : Unit) : Prop :=
  ∀ u, s.user = some u → u.email = account.email ∧ u.emailVerified = account.emailVerified ∧
    (u.recipientsRevision = account.recipientsRevision ∧
        u.backupRecipients = account.backupRecipients ∧ s.history.suspensions = seen ∨
      account.recipientsRevision.getD 0 < u.recipientsRevision.getD 0)

variable {settled requests} {i : ι}

theorem stable_unminted {s₀ : Store} (hfresh : FreshNonces requests s₀) :
    (recipientProtocol settled requests).Stable i (Unminted requests i) := by
  intro j hj l s g s' g' _ hP hg _ nonce hmint hmem
  cases l with
  | none =>
    cases hg
    exact hP nonce hmint hmem
  | some l =>
    rcases RecipientsLaw.minted hg nonce hmem with hold | hother
    · exact hP nonce hmint hold
    · exact hj (hfresh.once j i nonce hother hmint)

theorem stable_readAt {account : User} {seen : ℕ} :
    (recipientProtocol settled requests).Stable i (ReadAt account seen) := by
  intro j hj l s g s' g' _ hP hg _
  cases l with
  | none =>
    cases hg
    exact hP
  | some l =>
    intro u' hu'
    obtain ⟨u, hu, hemail, hverified, hrevision⟩ := RecipientsLaw.account hg u' hu'
    obtain ⟨hemail₀, hverified₀, hsince⟩ := hP u hu
    refine ⟨hemail.trans hemail₀, hverified.trans hverified₀, ?_⟩
    rcases hrevision with ⟨h₁, h₂, h₃⟩ | hmoved
    · rcases hsince with ⟨k₁, k₂, k₃⟩ | hlt
      · exact .inl ⟨h₁.trans k₁, h₂.trans k₂, h₃.trans k₃⟩
      · exact .inr (h₁ ▸ hlt)
    · rcases hsince with ⟨k₁, -, -⟩ | hlt
      · exact .inr (k₁ ▸ hmoved)
      · exact .inr (by omega)

theorem RecipientsLaw.mono {mints mints' : String → Prop} {l : Site} {s s' : Store}
    (h : RecipientsLaw settled mints l s s') (hle : ∀ nonce, mints nonce → mints' nonce) :
    RecipientsLaw settled mints' l s s' :=
  { h with minted := fun nonce hn => (h.minted nonce hn).imp_right (hle nonce) }

/-- A write that lost its condition left everything alone. -/
theorem writeRecipientList_false {provenAuthHash : String} {revision : Option ℕ}
    {next : List Recipient} {seen : ℕ} {s : Store}
    (h : (writeRecipientList provenAuthHash revision next seen s).1 = false) :
    (writeRecipientList provenAuthHash revision next seen s).2 = s := by
  unfold writeRecipientList at h ⊢
  cases hu : s.user with
  | none => rfl
  | some u =>
    simp only [hu] at h ⊢
    split at h
    · cases h
    · rename_i hfilter
      rw [if_neg hfilter]

variable {faults : Site → AccountError → Bool → Prop} {s₀ : Store}

variable (settled requests faults i) in
/-- Run by `i`, who has minted nothing yet, the program obeys the law. -/
def ListSafe {α : Type} (p : Req α) : Prop :=
  ∀ s, Unminted requests i s () →
    Safe (recipientProtocol settled requests) faults (fun _ _ _ _ => True) i (fun _ _ _ => True) p
      s ()

theorem ListSafe.answer {α β : Type} {p : Req α} {f : α → β}
    (h : ListSafe settled requests i faults p) :
    ListSafe settled requests i faults (p.bind fun a => .ret (f a)) := by
  intro s hs
  refine Safe.bind ((h s hs).mono fun r s g _ => ?_)
  cases r with
  | ok a => trivial
  | error e => trivial

/-- One statement that keeps the law, and nothing after it. -/
theorem listSafe_db {α : Type} (hfresh : FreshNonces requests s₀) {l : Site}
    {f : Store → α × Store}
    (hf : ∀ s, RecipientsInv settled s → Unminted requests i s () →
      ListStep settled (requests i).mints l s (f s).2) :
    ListSafe settled requests i faults (Prog.db l f) := by
  intro s hs
  refine ⟨_, stable_unminted hfresh, hs, fun s g hinv hs _ r s' ho => ⟨(), ?_⟩⟩
  have hstep : ListStep settled (requests i).mints l s s' := by
    rcases ho.store_eq with rfl | rfl
    · exact listStep_same hinv
    · exact hf s hinv hs
  refine ⟨hstep.1, hstep.2, ?_⟩
  cases r with
  | ok a => trivial
  | error e => trivial

theorem listSafe_applyLoop (hfresh : FreshNonces requests s₀) (env : Deployment)
    (r : RecipientListRequest) (hr : requests i = .apply r) (attempts : ℕ) :
    ListSafe settled requests i faults (applyRecipientListLoop env r attempts) := by
  have hmints : ∀ attempt place, (requests i).mints (r.nonce attempt place) := by
    intro attempt place
    rw [hr]
    exact ⟨attempt, place, rfl⟩
  induction attempts with
  | zero => exact fun _ _ => trivial
  | succ attempts ih =>
    intro s hs
    refine Safe.read_bind _ (stable_unminted hfresh) hs
      (fun s g _ _ _ => recipientsLaw_same _ _ _ s) (fun s g hinv hs => ?_) fun _ _ _ _ _ => trivial
    cases hread : s.user.filter fun u => decide (u.authHash = r.provenAuthHash) with
    | none => trivial
    | some account =>
      simp only
      have hu : s.user = some account := (Option.filter_eq_some_iff.1 hread).1
      have hreadAt : ReadAt account s.history.suspensions s () := by
        intro u hu'
        rw [hu] at hu'
        cases hu'
        exact ⟨rfl, rfl, .inl ⟨rfl, rfl, rfl⟩⟩
      have hstep : ∀ s', RecipientsInv settled s' → Unminted requests i s' () →
          ReadAt account s.history.suspensions s' () →
          ListStep settled (requests i).mints
            (.writeRecipients r.provenAuthHash account.backupRecipients) s'
            (writeRecipientList r.provenAuthHash account.recipientsRevision
              (nextRecipients env r attempts account) s.history.suspensions s').2 := by
        intro s' hinv hs' hread'
        refine listStep_writeRecipientList env r attempts account s.history.suspensions hinv
          hmints (fun attempt place => hs' _ (hmints attempt place)) fun u hu hrev => ?_
        obtain ⟨hemail, hverified, hsince⟩ := hread' u hu
        rcases hsince with ⟨-, hlist, hseen⟩ | hlt
        · exact ⟨hlist, hseen, hemail, hverified⟩
        · rw [hrev] at hlt
          omega
      -- between the read and the write the others may do anything but keep the revision
      refine Safe.db_bind _ ((stable_unminted hfresh).and stable_readAt) ⟨hs, hreadAt⟩
        (fun s' g hinv ⟨hs', hread'⟩ _ => ?_) (fun s' g e hinv _ _ _ => ?_)
        fun s' g e hinv ⟨hs', hread'⟩ _ _ => ?_
      · obtain ⟨hinv', hlaw⟩ := hstep s' hinv hs' hread'
        refine ⟨(), hinv', hlaw, ?_⟩
        split
        · trivial
        · rename_i hfalse
          have hsame := writeRecipientList_false (by simpa using hfalse)
          rw [hsame]
          exact ih s' hs'
      · exact ⟨(), hinv, recipientsLaw_same _ _ _ _, trivial⟩
      · obtain ⟨hinv', hlaw⟩ := hstep s' hinv hs' hread'
        exact ⟨(), hinv', hlaw, trivial⟩

theorem listSafe_confirm (hfresh : FreshNonces requests s₀) (r : ConfirmationRequest)
    (hr : requests i = .confirm r) :
    ListSafe settled requests i faults (confirmRecipientToken r) := by
  have hmint : (requests i).mints r.newNonce := by
    rw [hr]
    exact rfl
  unfold confirmRecipientToken
  split
  · exact fun _ _ => trivial
  · split
    · exact fun _ _ => trivial
    · refine ListSafe.answer (listSafe_db hfresh fun s hinv hs => ?_)
      exact listStep_confirm hinv hmint (hs _ hmint)

variable (r : ConfirmationRunRequest)

theorem each_sendDueLoop (due : List Recipient) (sent index : ℕ) :
    (sendDueLoop r sent index due).Each (RecipientsInv settled)
      (ListStep settled fun _ => False) := by
  have hback : ∀ entry failed, ∀ s, RecipientsInv settled s →
      ListStep settled (fun _ => False) .handBack s (handBack r.now entry failed s).2 :=
    fun entry failed s hinv => listStep_updateRecipient hinv (.inr rfl) (fun _ => rfl)
      (fun _ => rfl) (fun _ => rfl) fun _ => rfl
  induction due generalizing sent index with
  | nil => exact trivial
  | cons entry due ih =>
    refine .bind (each_db fun s hinv => ?_) fun claimed => ?_
    · exact listStep_updateRecipient hinv (.inl rfl) (fun _ => rfl) (fun _ => rfl) (fun _ => rfl)
        fun _ => rfl
    · split
      · exact ih _ _
      · split
        · exact ih _ _
        · exact .bind (each_db (hback entry false)) fun _ => trivial
        · exact .bind (each_db (hback entry true)) fun _ => trivial

theorem each_sendDueConfirmations :
    (sendDueConfirmations r).Each (RecipientsInv settled) (ListStep settled fun _ => False) := by
  refine .bind (each_read fun s hinv => listStep_same hinv) fun account => ?_
  split
  · exact trivial
  · dsimp only
    split
    · exact trivial
    · exact each_sendDueLoop r _ 0 0

theorem listSafe_send : ListSafe settled requests i faults (sendDueConfirmations r) := by
  have hkeeps : Keeps (recipientProtocol settled requests) faults (fun _ _ _ _ => True) i
      (fun _ _ => True) (fun _ => True) (sendDueConfirmations r) := by
    refine Prog.Each.keeps (each_sendDueConfirmations r) (.const True) (fun _ _ h => h) ?_
    intro l s g s₁ s' hinv _ _ hstep hs'
    rcases hs' with rfl | rfl
    · exact ⟨(), hinv, recipientsLaw_same _ _ _ _, trivial⟩
    · exact ⟨(), hstep.1, hstep.2.mono fun _ h => h.elim, trivial⟩
  exact fun s _ => (hkeeps s () trivial).mono fun _ _ _ _ => trivial

theorem listSafe_prog (hfresh : FreshNonces requests s₀) (env : Deployment) :
    ListSafe settled requests i faults ((requests i).prog env) := by
  cases hr : requests i with
  | apply r => exact ListSafe.answer (listSafe_applyLoop hfresh env r hr _)
  | suspend base =>
    refine ListSafe.answer (listSafe_db hfresh fun s hinv hs => ?_)
    have hmints : ∀ place : ℕ, (requests i).mints s!"{base}.{place}" := by
      intro place
      rw [hr]
      exact ⟨place, rfl⟩
    exact listStep_suspend hinv hmints fun place => hs _ (hmints place)
  | confirm r => exact ListSafe.answer (listSafe_confirm hfresh r hr)
  | send r => exact ListSafe.answer (listSafe_send r)
  | replaceCredential authHash =>
    exact ListSafe.answer (listSafe_db hfresh fun s hinv _ => listStep_setCredential hinv authHash)

end Protocol

/-! ## The runs -/

/-- The start: distinct addresses, known nonces, and no suspension or confirmation yet. -/
structure RecipientsStart (s : Store) : Prop where
  distinct : ∀ u, s.user = some u → (u.backupRecipients.map (·.email)).Nodup
  known : ∀ u, s.user = some u → ∀ e ∈ u.backupRecipients, e.nonce ∈ s.history.nonces
  suspensions : s.history.suspensions = 0
  retired : s.history.retired = []
  confirmations : s.history.confirmations = []

theorem RecipientsStart.inv {s : Store} (h : RecipientsStart s) :
    RecipientsInv (∀ u, s.user = some u → OwnSettled u) s := by
  refine ⟨fun u hu => ⟨h.distinct u hu, h.known u hu, ?_, ?_, ?_, fun hs => hs u hu⟩, ?_, ?_, ?_⟩
  · rw [h.suspensions]
    exact fun hlt => (Nat.not_lt_zero _ hlt).elim
  · rw [h.retired]
    exact nofun
  · rw [h.confirmations]
    exact nofun
  · rw [h.retired]
    exact nofun
  · rw [h.confirmations]
    exact nofun
  · rw [h.confirmations]
    exact nodup_nil

/-- **A suspension holds.** In every state of every run, no address but the account's own is
confirmed unless a list read after the last suspension has been written, and no link confirmed
twice; and every step obeys the law of the list: a whole list replaces the one it was computed
from under the credential it was approved with, a link from before the last suspension confirms
nothing, and an address becomes confirmed only in one of the three ways. -/
theorem recipients_hold {ι : Type} [DecidableEq ι] (env : Deployment)
    (requests : ι → RecipientRequest) (faults : Site → AccountError → Bool → Prop) {s₀ : Store}
    (h₀ : RecipientsStart s₀) (hfresh : FreshNonces requests s₀)
    {c : Config ι Store Site AccountError Unit}
    (h : Reach (recipientSystem env requests faults) (Config.start s₀) c) :
    (∀ u, c.store.user = some u → c.store.history.approved < c.store.history.suspensions →
      ∀ e ∈ u.backupRecipients, e.email ≠ u.email → e.state ≠ .confirmed) ∧
    c.store.history.confirmations.Nodup ∧
    ∀ i l c', CStep (recipientSystem env requests faults) c (some (i, l)) c' →
      RecipientsLaw (∀ u, s₀.user = some u → OwnSettled u) (requests i).mints l c.store
        c'.store := by
  set settled : Prop := ∀ u, s₀.user = some u → OwnSettled u
  have hS : Sound (recipientSystem env requests faults) (recipientProtocol settled requests)
      (fun _ _ _ _ => True) (fun _ _ _ => True) (Unminted requests) fun _ _ _ _ => True := by
    refine ⟨fun i p hp s g hinv hs => ?_, fun i => stable_unminted hfresh, fun _ _ => .const True,
      fun _ _ _ _ _ _ _ => trivial⟩
    have hp' : p = (requests i).prog env := hp
    rw [hp']
    exact (listSafe_prog hfresh env s hs).mono fun _ _ _ _ hinv => ⟨(), hinv, rfl, trivial⟩
  have hstart : ∀ i, Unminted requests i s₀ () := fun i nonce hmint => hfresh.start i nonce hmint
  obtain ⟨g, hat⟩ := hS.reaches_start h₀.inv hstart h
  have hinv : RecipientsInv settled c.store := hat.1
  refine ⟨fun u hu hlt e he hne hconf => ?_, hinv.confirmed_once, fun i l c' hstep => ?_⟩
  · have hsusp := (hinv.list u hu).suspended hlt e he hne
    rw [hsusp] at hconf
    cases hconf
  · obtain ⟨g', g'', hguar, -⟩ := hS.run hat trivial hstep
    exact hguar

/-! ## Runs on one account -/

theorem recipientsStart_plain {u : User} (h : (u.backupRecipients.map (·.email)).Nodup) :
    RecipientsStart (plainStore u) := by
  refine ⟨fun u' hu' => ?_, fun u' hu' e he => ?_, rfl, rfl, rfl⟩
  · cases hu'
    exact h
  · cases hu'
    exact mem_map_of_mem he

/-- A suspension of an account with one confirmed address, from the start to its end. -/
theorem recipients_hold_suspension :
    ∃ c, Reach (recipientSystem (plainDeployment false) (fun _ : Unit => .suspend "base")
        fun _ _ _ => True)
        (Config.start (plainStore (plainUser
          [⟨"friend", .confirmed, some 0, some 0, false, none, none, "nonce"⟩]))) c ∧
      c.store.history.approved < c.store.history.suspensions ∧
      ∀ u, c.store.user = some u → ∀ e ∈ u.backupRecipients, e.email ≠ u.email →
        e.state ≠ .confirmed := by
  set s₀ := plainStore (plainUser
    [⟨"friend", .confirmed, some 0, some 0, false, none, none, "nonce"⟩])
  obtain ⟨c, hreach, hstore, -⟩ := Reach.first
    (S := recipientSystem (plainDeployment false) (fun _ : Unit => .suspend "base")
      fun _ _ _ => True) (i := ()) (s := s₀) rfl
  have hfresh : FreshNonces (fun _ : Unit => .suspend "base") s₀ := by
    refine ⟨fun _ _ _ _ _ => rfl, fun _ nonce hmint hmem => ?_⟩
    obtain ⟨place, rfl⟩ := hmint
    have hsame : toString "base" ++ toString "." ++ toString place = "nonce" :=
      mem_singleton.1 hmem
    have hhead := congrArg (fun t => t.toList.head?) hsame
    have hbase : (toString "base").toList = ['b', 'a', 's', 'e'] := by decide
    have hnonce : "nonce".toList = ['n', 'o', 'n', 'c', 'e'] := by decide
    simp [String.toList_append, hbase, hnonce] at hhead
  have hlt : c.store.history.approved < c.store.history.suspensions := by
    rw [hstore]
    decide
  refine ⟨c, hreach, hlt, fun u hu e he hne => ?_⟩
  exact (recipients_hold _ _ _ (recipientsStart_plain (by decide)) hfresh hreach).1 u hu hlt e he hne

/-- An address that had agreed and was suspended since. -/
def suspendedFriend : Recipient :=
  ⟨"friend", .suspended, some 0, none, false, none, some 0, "nonce"⟩

/-- The own address, approved and waiting for its confirmation. -/
def waitingOwner : Recipient := ⟨"owner", .pending, none, some 0, false, some 0, some 0, "mine"⟩

/-- An approval of the list beside a suspension. -/
def approveBesideSuspension : Bool → RecipientRequest
  | false => .apply ⟨["friend"], "old", 1, fun _ _ => "new"⟩
  | true => .suspend "base"

/-- A confirmation of the own address beside a suspension. -/
def confirmBesideSuspension : Bool → RecipientRequest
  | false => .confirm ⟨some ("owner", "mine"), 1, "new"⟩
  | true => .suspend "base"

/-- Both requests have arrived, and nothing else has happened. -/
def bothArrived (requests : Bool → RecipientRequest) (s : Store) :
    Config Bool Store Site AccountError Unit :=
  ((Config.start s).join false ((requests false).prog (plainDeployment false))).join true
    ((requests true).prog (plainDeployment false))

theorem reach_bothArrived (requests : Bool → RecipientRequest) (s : Store) :
    Reach (recipientSystem (plainDeployment false) requests fun _ _ _ => False) (Config.start s)
      (bothArrived requests s) :=
  (Reaches.refl.join rfl rfl).join rfl rfl

/-- A suspension that finds nothing to suspend writes nothing, so a list read before it is written
after it and confirms another address; and a suspension leaves the own address alone, so a link
mailed to it before confirms it after. -/
theorem suspension_outrun :
    (∃ c₁ c₂ c₃ c₄ : Config Bool Store Site AccountError Unit,
      let S := recipientSystem (plainDeployment false) approveBesideSuspension fun _ _ _ => False
      Reach S (Config.start (plainStore (plainUser [suspendedFriend]))) c₁ ∧
      CStep S c₁ (some (false, .readRecipients)) c₂ ∧
      CStep S c₂ (some (true, .suspendRecipients)) c₃ ∧
      CStep S c₃ (some (false, .writeRecipients "old" [suspendedFriend])) c₄ ∧
      ∃ u, c₄.store.user = some u ∧ ∃ e ∈ u.backupRecipients, e.email ≠ u.email ∧
        e.state = .confirmed) ∧
    ∃ c₁ c₂ c₃ : Config Bool Store Site AccountError Unit,
      let S := recipientSystem (plainDeployment false) confirmBesideSuspension fun _ _ _ => False
      Reach S (Config.start (plainStore (plainUser
        [waitingOwner, ⟨"friend", .confirmed, some 0, some 0, false, none, none, "nonce"⟩]))) c₁ ∧
      CStep S c₁ (some (true, .suspendRecipients)) c₂ ∧
      c₂.store.history.suspensions = 1 ∧
      CStep S c₂ (some (false, .confirmRecipient "owner" "mine")) c₃ ∧
      ∃ u, c₃.store.user = some u ∧ ∃ e ∈ u.backupRecipients, e.email = "owner" ∧
        e.state = .confirmed := by
  refine ⟨⟨_, _, _, _, reach_bothArrived _ _, .advance rfl, .advance rfl, .advance rfl,
    _, rfl, ?_⟩, ⟨_, _, _, reach_bothArrived _ _, .advance rfl, rfl, .advance rfl, _, rfl, ?_⟩⟩
  · decide
  · decide

end HVault.Account
