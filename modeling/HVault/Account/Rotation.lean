import HVault.Account.SignIn
import HVault.Account.Reuse

/-!
# Rotation keeps a family in one piece

Refreshes, sign-ins, logouts, the session cap and the cleanup run beside each other on one account.
Each family has at most one row that can be exchanged. What makes that an invariant is the rotation
in between its two statements: it has used up the family's live row and owes the family a new one,
so the count is of the live rows and of the row that is owed.
-/

namespace HVault.Account

open Interleave FirstMatch List Function Option Prog Store

/-! ## The requests -/

/-- A request that touches the session rows. -/
inductive SessionRequest where
  | refresh (r : RefreshRequest)
  | logout (token : Option String)
  | login (r : LoginRequest)
  | login2fa (r : Login2faRequest)
  | sessionCap
  | cleanup (expiredAt consumedAt : ℤ)

/-- What such a request is answered with. -/
inductive SessionAnswer where
  | refreshed (refreshToken : String)
  | signedIn (how : SignIn)
  | done
  deriving DecidableEq, Repr

def SessionRequest.prog (env : Deployment) : SessionRequest → Req SessionAnswer
  | .refresh r => (HVault.Account.refresh env r).bind fun raw => .ret (.refreshed raw)
  | .logout token => (HVault.Account.logout env token).bind fun _ => .ret .done
  | .login r => (HVault.Account.login env r).bind fun how => .ret (.signedIn how)
  | .login2fa r => (HVault.Account.login2fa env r).bind fun how => .ret (.signedIn how)
  | .sessionCap => enforceSessionCap.bind fun _ => .ret .done
  | .cleanup expiredAt consumedAt =>
    (tokenCleanup expiredAt consumedAt).bind fun _ => .ret .done

/-- The digests of the values a request draws. -/
def SessionRequest.mints (env : Deployment) : SessionRequest → String → Prop
  | .refresh r, h => env.hashToken r.newRefreshTokenRaw = h
  | .login r, h => env.hashToken r.refreshTokenRaw = h
  | .login2fa r, h => env.hashToken r.refreshTokenRaw = h
  | _, _ => False

/-- The families a request founds. -/
def SessionRequest.founds : SessionRequest → String → Prop
  | .login r, f => r.familyId = f
  | .login2fa r, f => r.familyId = f
  | _, _ => False

def sessionSystem {ι : Type} (env : Deployment) (requests : ι → SessionRequest)
    (faults : Site → AccountError → Bool → Prop) :
    System ι Store Site AccountError SessionAnswer where
  admits i p := p = (requests i).prog env
  faults

/-- How many rows of a family can be exchanged. -/
def Store.liveIn (f : String) (s : Store) : ℕ :=
  s.tokens.countP fun row => decide (row.familyId = f) && row.usedAt.isNone

/-- The sessions at the start of a run. -/
structure SessionsStart (s₀ : Store) : Prop where
  known : ∀ row ∈ s₀.tokens, row.tokenHash ∈ s₀.history.issued
  hashes : (s₀.tokens.map (·.tokenHash)).Nodup
  live : ∀ f, s₀.liveIn f ≤ 1
  deadline : ∀ row ∈ s₀.tokens, ∀ row' ∈ s₀.tokens, row.familyId = row'.familyId →
    row.absoluteExpiresAt = row'.absoluteExpiresAt
  pinned : ∀ row ∈ s₀.tokens, ∀ d, row.absoluteExpiresAt = some d → row.expiresAt = d

/-- What is drawn at random is new. -/
structure FreshSessions {ι : Type} (env : Deployment) (requests : ι → SessionRequest) (s₀ : Store) :
    Prop where
  minted : ∀ i j h, (requests i).mints env h → (requests j).mints env h → i = j
  unissued : ∀ i h, (requests i).mints env h → h ∉ s₀.history.issued
  founded : ∀ i j f, (requests i).founds f → (requests j).founds f → i = j
  unfounded : ∀ i f, (requests i).founds f → ∀ row ∈ s₀.tokens, row.familyId ≠ f

/-! ## The invariant -/

/-- What the proof remembers: who owes a family its next row, who has claimed a value, and the
deadline of every family. -/
structure Ledger (ι : Type) where
  owed : String → Option ι
  claimedBy : String → Option ι
  families : String → Option (Option ℤ)

variable {ι : Type} {env : Deployment} {requests : ι → SessionRequest} {s₀ : Store}

structure SessionsInv (s : Store) (g : Ledger ι) : Prop where
  known : ∀ row ∈ s.tokens, row.tokenHash ∈ s.history.issued
  hashes : (s.tokens.map (·.tokenHash)).Nodup
  live : ∀ f, s.liveIn f + (if (g.owed f).isSome then 1 else 0) ≤ 1
  family : ∀ row ∈ s.tokens, g.families row.familyId = some row.absoluteExpiresAt
  owed_family : ∀ f, (g.owed f).isSome = true → (g.families f).isSome = true
  pinned : ∀ row ∈ s.tokens, ∀ d, row.absoluteExpiresAt = some d → row.expiresAt = d
  spent : ∀ h, (g.claimedBy h).isSome = true → h ∈ s.history.issued ∧
    ∀ row ∈ s.tokens, row.tokenHash = h → row.usedAt.isSome = true

variable (env requests) in
/-- What a step of `i` may do: issue what it draws, found what it founds, and leave alone what the
others have claimed. -/
structure SessionStep (i : ι) (s : Store) (g : Ledger ι) (s' : Store) (g' : Ledger ι) : Prop where
  issued : ∀ h ∈ s'.history.issued, h ∈ s.history.issued ∨ (requests i).mints env h
  still : ∀ h ∈ s.history.issued, h ∈ s'.history.issued
  founded : ∀ f, (g'.families f).isSome = true →
    (g.families f).isSome = true ∨ (requests i).founds f
  families : ∀ f d, g.families f = some d → g'.families f = some d
  owed : ∀ f j, j ≠ i → g.owed f = some j → g'.owed f = some j
  claimed : ∀ h j, g.claimedBy h = some j → g'.claimedBy h = some j

variable (env requests) in
def sessionProtocol : Protocol ι Store Site (Ledger ι) where
  inv := SessionsInv
  guar i _ := SessionStep env requests i

variable {s : Store}

theorem SessionStep.of_issued {i : ι} {s' : Store} (g : Ledger ι)
    (h : s'.history.issued = s.history.issued) : SessionStep env requests i s g s' g :=
  ⟨fun _ hx => .inl (h ▸ hx), fun _ hx => h ▸ hx, fun _ hf => .inl hf, fun _ _ hf => hf,
    fun _ _ _ hf => hf, fun _ _ hf => hf⟩

/-- Rows may go. -/
theorem SessionsInv.shrink {s' : Store} {g : Ledger ι} (h : SessionsInv s g)
    (htokens : s'.tokens.Sublist s.tokens) (hissued : s'.history.issued = s.history.issued) :
    SessionsInv s' g where
  known row hrow := hissued ▸ h.known row (htokens.subset hrow)
  hashes := (htokens.map _).nodup h.hashes
  live f := by
    have hle : s'.liveIn f ≤ s.liveIn f := htokens.countP_le
    have hlive := h.live f
    omega
  family row hrow := h.family row (htokens.subset hrow)
  owed_family := h.owed_family
  pinned row hrow := h.pinned row (htokens.subset hrow)
  spent x hx := by
    obtain ⟨hmem, hrows⟩ := h.spent x hx
    exact ⟨hissued ▸ hmem, fun row hrow => hrows row (htokens.subset hrow)⟩

variable {row : RefreshToken}

/-- A claim: the family's live row is used up, and `i` owes it the next one. -/
theorem SessionsInv.claim {g : Ledger ι} (h : SessionsInv s g) (i : ι)
    {before after : List RefreshToken} {t : ℤ} (htokens : s.tokens = before ++ row :: after)
    (hunused : row.usedAt = none) :
    SessionsInv { s with tokens := before ++ { row with usedAt := some t } :: after }
      { g with
        owed := Function.update g.owed row.familyId (some i)
        claimedBy := Function.update g.claimedBy row.tokenHash (some i) } := by
  have hrow : row ∈ s.tokens := by simp [htokens]
  -- every row is from before, used since or not
  have hfrom : ∀ row' ∈ before ++ { row with usedAt := some t } :: after,
      ∃ old ∈ s.tokens, old.tokenHash = row'.tokenHash ∧ old.familyId = row'.familyId ∧
        old.absoluteExpiresAt = row'.absoluteExpiresAt ∧ old.expiresAt = row'.expiresAt ∧
        (old.usedAt.isSome = true → row'.usedAt.isSome = true) := by
    intro row' hrow'
    simp only [mem_append, mem_cons] at hrow'
    rcases hrow' with hmem | rfl | hmem
    · exact ⟨row', by simp [htokens, hmem], rfl, rfl, rfl, rfl, id⟩
    · exact ⟨row, hrow, rfl, rfl, rfl, rfl, fun _ => rfl⟩
    · exact ⟨row', by simp [htokens, hmem], rfl, rfl, rfl, rfl, id⟩
  have hlive : s.liveIn row.familyId = before.countP (fun r =>
      decide (r.familyId = row.familyId) && r.usedAt.isNone) + after.countP (fun r =>
      decide (r.familyId = row.familyId) && r.usedAt.isNone) + 1 := by
    simp [liveIn, htokens, countP_append, hunused]
    omega
  constructor
  · intro row' hrow'
    obtain ⟨old, hold, hhash, -⟩ := hfrom row' hrow'
    exact hhash ▸ h.known old hold
  · have hsame : (before ++ { row with usedAt := some t } :: after).map (·.tokenHash)
        = s.tokens.map (·.tokenHash) := by simp [htokens]
    show (map _ (before ++ _ :: after)).Nodup
    rw [hsame]
    exact h.hashes
  · intro f
    have hf := h.live f
    by_cases hrowf : row.familyId = f
    · subst hrowf
      have hafter : liveIn row.familyId
          { s with tokens := before ++ { row with usedAt := some t } :: after }
          = s.liveIn row.familyId - 1 := by
        rw [hlive]
        simp [liveIn, countP_append]
      rw [hafter]
      simp only [update_self, isSome_some, if_true]
      omega
    · have hsame : liveIn f
          { s with tokens := before ++ { row with usedAt := some t } :: after } = s.liveIn f := by
        simp [liveIn, htokens, countP_append, hrowf]
      rw [hsame]
      simp only [update_of_ne (Ne.symm hrowf)]
      exact hf
  · intro row' hrow'
    obtain ⟨old, hold, -, hfamily, hdeadline, -⟩ := hfrom row' hrow'
    rw [← hfamily, ← hdeadline]
    exact h.family old hold
  · intro f hf
    by_cases hrowf : f = row.familyId
    · rw [hrowf, h.family row hrow]
      rfl
    · simp only [update_of_ne hrowf] at hf
      exact h.owed_family f hf
  · intro row' hrow' d hd
    obtain ⟨old, hold, -, -, hdeadline, hexpires, -⟩ := hfrom row' hrow'
    rw [← hexpires]
    exact h.pinned old hold d (hdeadline.trans hd)
  · intro x hx
    by_cases hrowx : x = row.tokenHash
    · subst hrowx
      refine ⟨h.known row hrow, fun row' hrow' hhash => ?_⟩
      -- no other row carries the value
      have hnodup := h.hashes
      rw [htokens, map_append, map_cons, nodup_append] at hnodup
      obtain ⟨-, hafter, hdisjoint⟩ := hnodup
      simp only [mem_append, mem_cons] at hrow'
      rcases hrow' with hmem | rfl | hmem
      · exact (hdisjoint _ (mem_map_of_mem hmem) _ mem_cons_self hhash).elim
      · rfl
      · exact ((nodup_cons.1 hafter).1 (hhash ▸ mem_map_of_mem hmem)).elim
    · simp only [update_of_ne hrowx] at hx
      obtain ⟨hmem, hrows⟩ := h.spent x hx
      refine ⟨hmem, fun row' hrow' hhash => ?_⟩
      obtain ⟨old, hold, hsame, -, -, -, hused⟩ := hfrom row' hrow'
      exact hused (hrows old hold (hsame.trans hhash))

variable {familyId : String}

/-- A new row in a family that has none: one that is owed, or one that is founded. -/
theorem SessionsInv.insert {g : Ledger ι} (h : SessionsInv s g) {tokenHash : String}
    {deviceInfo : DeviceInfo} {lifetime : RefreshLifetime} {provenWith : String}
    {owed : String → Option ι} {families : String → Option (Option ℤ)}
    (hfresh : tokenHash ∉ s.history.issued) (hempty : s.liveIn familyId = 0)
    (hpaid : owed familyId = none) (howed : ∀ f, f ≠ familyId → owed f = g.owed f)
    (hfamily : families familyId = some lifetime.absoluteExpiresAt)
    (hfamilies : ∀ f d, g.families f = some d → families f = some d)
    (hlifetime : ∀ d, lifetime.absoluteExpiresAt = some d → lifetime.expiresAt = d) :
    SessionsInv (s.insertToken tokenHash familyId deviceInfo lifetime provenWith)
      { g with owed, families } := by
  have hsome : ∀ f, (g.families f).isSome = true → (families f).isSome = true := by
    intro f hf
    obtain ⟨d, hd⟩ := isSome_iff_exists.1 hf
    rw [hfamilies f d hd]
    rfl
  constructor
  · intro row hrow
    rcases mem_append.1 hrow with hold | hnew
    · exact mem_cons_of_mem _ (h.known row hold)
    · rw [mem_singleton.1 hnew]
      exact mem_cons_self
  · show (map _ (s.tokens ++ [_])).Nodup
    rw [map_append, nodup_append]
    refine ⟨h.hashes, by simp, fun x hx y hy => ?_⟩
    obtain ⟨row, hrow, rfl⟩ := mem_map.1 hx
    rw [mem_singleton.1 hy]
    rintro hsame
    have hknown := h.known row hrow
    rw [hsame] at hknown
    exact hfresh hknown
  · intro f
    by_cases hf : f = familyId
    · subst hf
      simp only [liveIn] at hempty
      simp [liveIn, insertToken, countP_append, hpaid, hempty]
    · have hsame : liveIn f (s.insertToken tokenHash familyId deviceInfo lifetime provenWith)
          = s.liveIn f := by
        simp [liveIn, insertToken, countP_append, Ne.symm hf]
      rw [hsame]
      show _ + (if (owed f).isSome then 1 else 0) ≤ 1
      rw [howed f hf]
      exact h.live f
  · intro row hrow
    rcases mem_append.1 hrow with hold | hnew
    · exact hfamilies _ _ (h.family row hold)
    · rw [mem_singleton.1 hnew]
      exact hfamily
  · intro f hf
    by_cases hsame : f = familyId
    · rw [hsame]
      show (families familyId).isSome = true
      rw [hfamily]
      rfl
    · refine hsome f (h.owed_family f ?_)
      rw [← howed f hsame]
      exact hf
  · intro row hrow
    rcases mem_append.1 hrow with hold | hnew
    · exact h.pinned row hold
    · rw [mem_singleton.1 hnew]
      exact hlifetime
  · intro x hx
    obtain ⟨hmem, hrows⟩ := h.spent x hx
    refine ⟨mem_cons_of_mem _ hmem, fun row hrow hhash => ?_⟩
    rcases mem_append.1 hrow with hold | hnew
    · exact hrows row hold hhash
    · rw [mem_singleton.1 hnew] at hhash
      have hsame : tokenHash = x := hhash
      exact (hfresh (hsame ▸ hmem)).elim

/-! ## Assertions -/

variable {i : ι} {s s' : Store} {g : Ledger ι} {h : String}
  {faults : Site → AccountError → Bool → Prop}

variable (env requests) in
/-- Nothing of what `i` draws has been used yet. -/
def Untouched (i : ι) (s : Store) (g : Ledger ι) : Prop :=
  (∀ x, (requests i).mints env x → x ∉ s.history.issued) ∧
    ∀ f, (requests i).founds f → (g.families f).isSome = false

variable (env requests) in
/-- Between its claim of `row` and the successor, `i` owes the family its next row. -/
def Owes (i : ι) (h : String) (row : RefreshToken) (s : Store) (g : Ledger ι) : Prop :=
  Untouched env requests i s g ∧ g.owed row.familyId = some i ∧
    g.families row.familyId = some row.absoluteExpiresAt ∧ g.claimedBy h = some i

variable (env) in
/-- `i` has claimed the value `h` and issued its successor. -/
def Exchanged (i : ι) (r : RefreshRequest) (h : String) (s : Store) (g : Ledger ι) : Prop :=
  g.claimedBy h = some i ∧ env.hashToken r.newRefreshTokenRaw ∈ s.history.issued

variable (env requests) in
/-- What a request leaves behind: a successful refresh has exchanged its value. -/
def SessionPost (i : ι) (a : Except AccountError SessionAnswer) (s : Store) (g : Ledger ι) : Prop :=
  ∀ r raw, requests i = .refresh r → a = .ok (.refreshed raw) →
    env.hashToken raw ∈ s.history.issued ∧ ∀ h, r.presents env h → g.claimedBy h = some i

theorem stable_untouched (hfresh : FreshSessions env requests s₀) (i : ι) :
    (sessionProtocol env requests).Stable i (Untouched env requests i) := by
  intro j hj l s g s' g' _ hP hg _
  constructor
  · intro x hx hmem
    rcases hg.issued x hmem with hold | hmint
    · exact hP.1 x hx hold
    · exact hj (hfresh.minted j i x hmint hx)
  · intro f hf
    by_contra hsome
    rcases hg.founded f (eq_true_of_ne_false hsome) with hold | hfound
    · rw [hP.2 f hf] at hold
      cases hold
    · exact hj (hfresh.founded j i f hfound hf)

theorem stable_owes (hfresh : FreshSessions env requests s₀) (i : ι) (h : String)
    (row : RefreshToken) : (sessionProtocol env requests).Stable i (Owes env requests i h row) := by
  intro j hj l s g s' g' hinv hP hg hinv'
  exact ⟨stable_untouched hfresh i j hj l s g s' g' hinv hP.1 hg hinv',
    hg.owed _ i hj.symm hP.2.1, hg.families _ _ hP.2.2.1, hg.claimed _ _ hP.2.2.2⟩

theorem stable_exchanged (i : ι) (r : RefreshRequest) (h : String) :
    (sessionProtocol env requests).Stable i (Exchanged env i r h) :=
  fun _ _ _ _ _ _ _ _ hP hg _ => ⟨hg.claimed _ _ hP.1, hg.still _ hP.2⟩

theorem stable_sessionPost (i : ι) (a : Except AccountError SessionAnswer) :
    (sessionProtocol env requests).Stable i (SessionPost env requests i a) := by
  intro j _ l s g s' g' _ hP hg _ r raw hr ha
  obtain ⟨hissued, hclaimed⟩ := hP r raw hr ha
  exact ⟨hg.still _ hissued, fun h hh => hg.claimed _ _ (hclaimed h hh)⟩

/-! ## Rotation -/

/-- A claim of a row of the value `h`. -/
theorem claim_sessions (hinv : SessionsInv s g) (hP : Untouched env requests i s g)
    {before after : List RefreshToken} {now t : ℤ} (htokens : s.tokens = before ++ row :: after)
    (hrow : claimable h now row = true) :
    let s' := { s with tokens := before ++ { row with usedAt := some t } :: after }
    let g' : Ledger ι := { g with
      owed := update g.owed row.familyId (some i)
      claimedBy := update g.claimedBy row.tokenHash (some i) }
    SessionsInv s' g' ∧ SessionStep env requests i s g s' g' ∧ Owes env requests i h row s' g' := by
  intro s' g'
  obtain ⟨hhash, hunused, -⟩ := of_claimable hrow
  have hmem : row ∈ s.tokens := by simp [htokens]
  -- the family's live row is there, so nobody owes it one
  have hnone : g.owed row.familyId = none := by
    have hlive := hinv.live row.familyId
    have hpos : 0 < s.liveIn row.familyId :=
      countP_pos_iff.2 ⟨row, hmem, by simp [hunused]⟩
    by_contra hsome
    rw [if_pos (isSome_iff_ne_none.2 hsome)] at hlive
    omega
  -- and nobody has claimed it
  have hunclaimed : g.claimedBy row.tokenHash = none := by
    by_contra hsome
    have hused := (hinv.spent _ (isSome_iff_ne_none.2 hsome)).2 row hmem rfl
    rw [hunused] at hused
    cases hused
  refine ⟨hinv.claim i htokens hunused, ⟨fun _ hx => .inl hx, fun _ hx => hx, fun _ hf => .inl hf,
    fun _ _ hf => hf, fun f j _ hf => ?_, fun x j hx => ?_⟩, hP, update_self ..,
    hinv.family row hmem, ?_⟩
  · have hne : f ≠ row.familyId := by
      rintro rfl
      rw [hnone] at hf
      cases hf
    exact (update_of_ne hne ..).trans hf
  · have hne : x ≠ row.tokenHash := by
      rintro rfl
      rw [hunclaimed] at hx
      cases hx
    exact (update_of_ne hne ..).trans hx
  · show update g.claimedBy row.tokenHash (some i) h = some i
    rw [← hhash]
    exact update_self ..

theorem resolveRefreshLifetime_absolute (env : Deployment) (now : ℤ) (deadline : Option ℤ) :
    (resolveRefreshLifetime env now false deadline).absoluteExpiresAt = deadline := by
  cases deadline with
  | none => rfl
  | some d => rfl

theorem resolveRefreshLifetime_pinned (env : Deployment) (now : ℤ) (remember : Bool)
    (deadline : Option ℤ) (d : ℤ)
    (hd : (resolveRefreshLifetime env now remember deadline).absoluteExpiresAt = some d) :
    (resolveRefreshLifetime env now remember deadline).expiresAt = d := by
  cases deadline with
  | some existing => exact some.inj hd
  | none =>
    cases remember with
    | false => cases hd
    | true => exact some.inj hd

variable {r : RefreshRequest}

/-- The successor of a claimed row: the family has its live row again, with the same deadline. -/
theorem successor_sessions (hr : requests i = .refresh r) (hinv : SessionsInv s g)
    (hP : Owes env requests i h row s g) (now : ℤ) :
    let s' := createSuccessor env r now row s
    let g' : Ledger ι := { g with owed := update g.owed row.familyId none }
    SessionsInv s' g' ∧ SessionStep env requests i s g s' g' ∧ Exchanged env i r h s' g' := by
  intro s' g'
  obtain ⟨huntouched, howed, hfamily, hclaimed⟩ := hP
  have hmints : (requests i).mints env (env.hashToken r.newRefreshTokenRaw) := by
    rw [hr]
    rfl
  have hempty : s.liveIn row.familyId = 0 := by
    have hlive := hinv.live row.familyId
    simp only [howed, isSome_some, if_true] at hlive
    omega
  refine ⟨hinv.insert (huntouched.1 _ hmints) hempty (update_self ..)
    (fun f hf => update_of_ne hf ..) ?_ (fun _ _ hf => hf)
    (resolveRefreshLifetime_pinned env now false row.absoluteExpiresAt), ?_, hclaimed,
    mem_cons_self⟩
  · rw [resolveRefreshLifetime_absolute]
    exact hfamily
  · refine ⟨fun x hx => ?_, fun _ hx => mem_cons_of_mem _ hx, fun _ hf => .inl hf,
      fun _ _ hf => hf, fun f j hj hf => ?_, fun _ _ hx => hx⟩
    · rcases mem_cons.1 hx with rfl | hx
      · exact .inr hmints
      · exact .inl hx
    · have hne : f ≠ row.familyId := by
        rintro rfl
        rw [howed] at hf
        exact hj (some.inj hf).symm
      exact (update_of_ne hne ..).trans hf

theorem SessionStep.trans {s'' : Store} {g' g'' : Ledger ι}
    (h₁ : SessionStep env requests i s g s' g') (h₂ : SessionStep env requests i s' g' s'' g'') :
    SessionStep env requests i s g s'' g'' where
  issued x hx := (h₂.issued x hx).elim (h₁.issued x) .inr
  still x hx := h₂.still x (h₁.still x hx)
  founded f hf := (h₂.founded f hf).elim (h₁.founded f) .inr
  families f d hf := h₂.families f d (h₁.families f d hf)
  owed f j hj hf := h₂.owed f j hj (h₁.owed f j hj hf)
  claimed x j hx := h₂.claimed x j (h₁.claimed x j hx)

/-- The statements of a rotation, one by one. -/
theorem sessionRule (hfresh : FreshSessions env requests s₀) (hr : requests i = .refresh r)
    (h : String) :
    RotationRule (sessionProtocol env requests) (fun _ _ _ _ => True) i env r h
      (Untouched env requests i) (Owes env requests i h)
      (fun a s g => a = .ok .rotated → Exchanged env i r h s g) where
  stable := stable_untouched hfresh i
  stable_claimed row := stable_owes hfresh i h row
  stay _ _ _ _ := .of_issued _ rfl
  failed _ ha := nomatch ha
  transaction {n s g} hinv hP _ := by
    rcases rotateOnce_cases env r h n s with
      ⟨heq, -⟩ | heq | ⟨row, before, after, htokens, hrow, -, heq⟩
    · rw [heq]
      exact ⟨g, hinv, .of_issued g rfl, nofun, nofun⟩
    · rw [heq]
      exact ⟨g, hinv, .of_issued g rfl, nofun, nofun⟩
    · rw [heq]
      obtain ⟨hinv₁, hstep₁, howes⟩ := claim_sessions hinv hP htokens hrow
      obtain ⟨hinv₂, hstep₂, hexchanged⟩ := successor_sessions hr hinv₁ howes (r.rotatedAt n)
      exact ⟨_, hinv₂, hstep₁.trans hstep₂, fun _ => hexchanged, nofun⟩
  claim_none _ _ _ _ ha := nomatch ha
  claim_some hinv hP _ htokens hrow := by
    obtain ⟨hinv', hstep, howes⟩ := claim_sessions hinv hP htokens hrow
    exact ⟨_, hinv', hstep, howes, nofun⟩
  successor hinv hP _ := by
    obtain ⟨hinv', hstep, hexchanged⟩ := successor_sessions hr hinv hP (r.rotatedAt 0)
    exact ⟨_, hinv', hstep, fun _ => hexchanged, nofun⟩
  unissued {row s g} hinv _ _ := ⟨g, hinv, .of_issued g rfl, nofun⟩

/-! ## Every request -/

/-- A statement that issues nothing may only take rows away. -/
def Shrinks (s s' : Store) : Prop :=
  s'.tokens.Sublist s.tokens ∧ s'.history.issued = s.history.issued

variable {recovers : Bool} {l : Site}

theorem SignInEffect.shrinks (h : SignInEffect recovers l s s') : Shrinks s s' := by
  cases h with
  | same | proofs => exact ⟨.refl _, rfl⟩
  | lockout l _ after =>
    unfold putLockout
    split
    · exact ⟨.refl _, rfl⟩
    · exact ⟨.refl _, rfl⟩
  | recoverFence =>
    unfold Store.recoverFence
    rcases s.updateUser_cases (fun _ => true) (fun u => { u with rotationInProgress := false }) with
      heq | ⟨u, -, -, heq⟩
    · rw [heq]
      exact ⟨.refl _, rfl⟩
    · rw [heq]
      exact ⟨.refl _, rfl⟩
  | evictSessions => exact ⟨filter_sublist .., rfl⟩
  | createDevice
  | claimDevice | evictDevices | createChallenge | consumeChallenge => exact ⟨.refl _, rfl⟩

theorem RefreshEffect.shrinks (heffect : RefreshEffect env r h l s s') (hl : l.rotates = false) :
    Shrinks s s' := by
  cases heffect with
  | same | proofs => exact ⟨.refl _, rfl⟩
  | claim | rotate | successor => cases hl
  | expired => exact ⟨eraseP_sublist, rfl⟩
  | deleteLive => exact ⟨filter_sublist .., rfl⟩
  | revokeDevices | revokeProofs | revokeChallenges => exact ⟨.refl _, rfl⟩
  | claimReplayed => exact ⟨eraseP_sublist, rfl⟩
  | record => exact ⟨.refl _, rfl⟩
  | sweep => exact ⟨filter_sublist .., rfl⟩

variable {α : Type} {p : Req α}

/-- A part of a request that issues nothing keeps what the request knows. -/
theorem keeps_of_shrinks {T : Site → Store → Store → Prop} (hp : p.Each (fun _ => True) T)
    (hT : ∀ l s s', T l s s' → Shrinks s s') {P : Store → Ledger ι → Prop}
    (hst : (sessionProtocol env requests).Stable i P)
    (hP : ∀ s s' g, s'.history.issued = s.history.issued → P s g → P s' g) :
    Keeps (sessionProtocol env requests) faults (fun _ _ _ _ => True) i P (fun _ => True) p := by
  refine hp.keeps hst (fun _ _ _ => trivial) fun l s g s₁ s' hinv hPs _ hs₁ hs' => ?_
  have hshrinks : Shrinks s s' := by
    rcases hs' with rfl | rfl
    · exact ⟨.refl _, rfl⟩
    · exact hT l s _ hs₁
  exact ⟨g, hinv.shrink hshrinks.1 hshrinks.2, .of_issued g hshrinks.2, hP s s' g hshrinks.2 hPs⟩

theorem untouched_of_issued (s s' : Store) (g : Ledger ι)
    (h : s'.history.issued = s.history.issued) (hP : Untouched env requests i s g) :
    Untouched env requests i s' g :=
  ⟨fun x hx hmem => hP.1 x hx (h ▸ hmem), hP.2⟩

/-- A part that issues nothing, where nothing has to be known. -/
theorem safe_of_shrinks {T : Site → Store → Store → Prop} (hp : p.Each (fun _ => True) T)
    (hT : ∀ l s s', T l s s' → Shrinks s s') (s : Store) (g : Ledger ι) :
    Safe (sessionProtocol env requests) faults (fun _ _ _ _ => True) i
      (fun _ _ _ => True) p s g :=
  ((keeps_of_shrinks hp hT (.const True) fun _ _ _ _ _ => trivial) s g trivial).mono
    fun _ _ _ _ => trivial

/-- A classification has no good end. -/
theorem leaves_classifyUnclaimed :
    (classifyUnclaimed r h : Req α).Leaves faults fun a => ∃ e, a = .error e := by
  refine .bind (leaves_true _) (fun existing _ => ?_) fun e _ => ⟨e, rfl⟩
  cases existing with
  | none => exact ⟨_, rfl⟩
  | some found =>
    dsimp only
    split
    · exact .bind (leaves_true _) (fun _ _ => ⟨_, rfl⟩) fun e _ => ⟨e, rfl⟩
    · refine .bind (leaves_true _) (fun _ _ => ?_) fun e _ => ⟨e, rfl⟩
      exact .bind (leaves_true _) (fun _ _ => ⟨_, rfl⟩) fun e _ => ⟨e, rfl⟩

/-- A refresh. -/
theorem safe_refresh_sessions (hfresh : FreshSessions env requests s₀)
    (hr : requests i = .refresh r) (hundone : ¬ faults .rotateTransaction (.database true) true)
    (hP : Untouched env requests i s g) :
    Safe (sessionProtocol env requests) faults (fun _ _ _ _ => True) i
      (fun a s g => ∀ raw, a = .ok raw → env.hashToken raw ∈ s.history.issued ∧
        ∀ h, r.presents env h → g.claimedBy h = some i) (refresh env r) s g := by
  cases htoken : r.token with
  | none =>
    unfold refresh
    rw [htoken]
    exact nofun
  | some token =>
    rw [refresh_eq env r htoken]
    refine Safe.bind (((sessionRule hfresh hr _).safe hundone hP).mono fun a s g ha => ?_)
    cases a with
    | error e => exact nofun
    | ok rotation =>
      cases rotation with
      | refused => exact nofun
      | nothingClaimed =>
        have heach : (classifyUnclaimed r (env.hashToken token) : Req String).Each (fun _ => True)
            fun l s s' => RefreshEffect env r (env.hashToken token) l s s' ∧ l.rotates = false :=
          each_classifyUnclaimed
        have hkeeps : Keeps (sessionProtocol env requests) faults (fun _ _ _ _ => True) i
            (fun _ _ => True) (fun a => ∃ e, a = .error e)
            (classifyUnclaimed r (env.hashToken token) : Req String) :=
          (keeps_of_shrinks heach (fun _ _ _ hT => hT.1.shrinks hT.2) (.const True)
            fun _ _ _ _ _ => trivial).leaves leaves_classifyUnclaimed
        refine (hkeeps s g trivial).mono fun a s g ha raw hok => ?_
        obtain ⟨e, he⟩ := ha.2
        rw [he] at hok
        cases hok
      | rotated =>
        have hshrinks : ∀ l s s', RefreshEffect env r (env.hashToken token) l s s' ∧
            (l = .readProof ∨ l = .extendProof) → Shrinks s s' := by
          intro l s s' ⟨heffect, hl⟩
          refine heffect.shrinks ?_
          rcases hl with rfl | rfl
          · rfl
          · rfl
        have hkeeps : Keeps (sessionProtocol env requests) faults (fun _ _ _ _ => True) i
            (Exchanged env i r (env.hashToken token))
            (fun a => ∀ raw, a = .ok raw → raw = r.newRefreshTokenRaw)
            (afterRotation env r (env.hashToken token) .rotated) := by
          refine Keeps.leaves (keeps_of_shrinks each_afterRotation_rotated hshrinks
            (stable_exchanged i r _) fun s s' g hissued hP => ⟨hP.1, hissued ▸ hP.2⟩) ?_
          refine .bind (leaves_true _) (fun _ _ raw hraw => ?_) nofun
          exact (Except.ok.inj hraw).symm
        refine (hkeeps s g (ha rfl)).mono fun a s g ha raw hok => ?_
        obtain ⟨⟨hclaimed, hissued⟩, hraw⟩ := ha
        refine ⟨hraw raw hok ▸ hissued, fun h hh => ?_⟩
        obtain ⟨token', htoken', rfl⟩ := hh
        rw [htoken] at htoken'
        cases htoken'
        exact hclaimed

variable {refreshTokenRaw : String}

/-- The session of a sign-in, in the family it founds. -/
theorem insert_sessions (hmints : (requests i).mints env (env.hashToken refreshTokenRaw))
    (hfounds : (requests i).founds familyId) (hinv : SessionsInv s g)
    (hP : Untouched env requests i s g) (deviceInfo : DeviceInfo) (remember : Bool) (now : ℤ)
    (provenWith : String) :
    let s' := insertSession env refreshTokenRaw familyId deviceInfo remember now provenWith s
    ∃ g', SessionsInv s' g' ∧ SessionStep env requests i s g s' g' := by
  intro s'
  have hnone : g.families familyId = none := by
    simpa using hP.2 familyId hfounds
  have howed : g.owed familyId = none := by
    by_contra hsome
    have hfamily := hinv.owed_family familyId (isSome_iff_ne_none.2 hsome)
    rw [hnone] at hfamily
    cases hfamily
  have hempty : s.liveIn familyId = 0 := by
    refine countP_eq_zero.2 fun row hrow hlive => ?_
    have hfamily := hinv.family row hrow
    simp only [Bool.and_eq_true, decide_eq_true_eq] at hlive
    rw [hlive.1, hnone] at hfamily
    exact nomatch hfamily
  have hfamilies : ∀ f d, g.families f = some d → update g.families familyId
      (some (resolveRefreshLifetime env now remember none).absoluteExpiresAt) f = some d := by
    intro f d hf
    have hne : f ≠ familyId := by
      rintro rfl
      rw [hnone] at hf
      cases hf
    exact (update_of_ne hne ..).trans hf
  refine ⟨_, hinv.insert (hP.1 _ hmints) hempty howed (fun _ _ => rfl) (update_self ..)
    hfamilies (resolveRefreshLifetime_pinned env now remember none), ?_⟩
  refine ⟨fun x hx => ?_, fun _ hx => mem_cons_of_mem _ hx, fun f hf => ?_, hfamilies,
    fun _ _ _ hf => hf, fun _ _ hx => hx⟩
  · rcases mem_cons.1 hx with rfl | hx
    · exact .inr hmints
    · exact .inl hx
  · by_cases hsame : f = familyId
    · exact .inr (hsame ▸ hfounds)
    · simp only [update_of_ne hsame] at hf
      exact .inl hf

/-- A sign-in issues its session while nothing it draws is used. -/
theorem safe_issuesOnce (hfresh : FreshSessions env requests s₀)
    (hmints : (requests i).mints env (env.hashToken refreshTokenRaw))
    (hfounds : (requests i).founds familyId)
    (hp : IssuesOnce recovers env refreshTokenRaw familyId p) (hP : Untouched env requests i s g) :
    Safe (sessionProtocol env requests) faults (fun _ _ _ _ => True) i (fun _ _ _ => True) p s g := by
  induction hp generalizing s g with
  | done hp => exact safe_of_shrinks hp (fun _ _ _ h => h.shrinks) s g
  | before hp _ ih =>
    refine (keeps_of_shrinks hp (fun _ _ _ h => h.shrinks) (stable_untouched hfresh i)
      untouched_of_issued).before hP (fun b s g _ hP => ih b hP) fun _ _ _ _ _ => trivial
  | @issue deviceInfo remember now provenWith k hk =>
    have hinsert : ∀ {s : Store} {g : Ledger ι}, SessionsInv s g → Untouched env requests i s g →
        let s' := insertSession env refreshTokenRaw familyId deviceInfo remember now provenWith s
        ∃ g', SessionsInv s' g' ∧ SessionStep env requests i s g s' g' :=
      fun hinv hP => insert_sessions hmints hfounds hinv hP deviceInfo remember now provenWith
    refine Safe.bind (Safe.db_bind _ (stable_untouched hfresh i) hP (fun s g hinv hP _ => ?_)
      (fun s g e hinv _ _ _ => ⟨g, hinv, .of_issued g rfl, trivial⟩) fun s g e hinv hP _ _ => ?_)
    · obtain ⟨g', hinv', hstep⟩ := hinsert hinv hP
      refine ⟨g', hinv', hstep, ?_⟩
      -- once the session is issued nothing has to be known any more
      have hcap : SignInEach false enforceSessionCap := each_enforceSessionCap
      refine (safe_of_shrinks hcap (fun _ _ _ h => h.shrinks) _ _).mono ?_
      intro r s g _
      cases r with
      | ok b => exact safe_of_shrinks (hk b) (fun _ _ _ h => h.shrinks) s g
      | error e => trivial
    · obtain ⟨g', hinv', hstep⟩ := hinsert hinv hP
      exact ⟨g', hinv', hstep, trivial⟩

/-- An answer that is not a refresh leaves nothing to show. -/
theorem safe_answer {answer : α → SessionAnswer} (hr : ∀ r, requests i ≠ .refresh r)
    (hp : Safe (sessionProtocol env requests) faults (fun _ _ _ _ => True) i (fun _ _ _ => True)
      p s g) :
    Safe (sessionProtocol env requests) faults (fun _ _ _ _ => True) i (SessionPost env requests i)
      (p.bind fun a => .ret (answer a)) s g := by
  refine Safe.bind (hp.mono fun a s g _ => ?_)
  cases a with
  | ok a | error e => exact fun r _ hr' => (hr r hr').elim

theorem each_logout (token : Option String) :
    (logout env token).Each (fun _ => True) fun l s s' => Shrinks s s' ∧ l = .logoutToken := by
  unfold logout
  split
  · exact each_ret _
  · exact .bind (each_db fun _ _ => ⟨⟨eraseP_sublist, rfl⟩, rfl⟩) fun _ => each_ret _

theorem each_tokenCleanup (expiredAt consumedAt : ℤ) :
    (tokenCleanup expiredAt consumedAt).Each (fun _ => True) fun l s s' =>
      Shrinks s s' ∧ (l = .cleanExpired ∨ l = .cleanConsumed) := by
  refine .bind (each_db fun _ _ => ⟨⟨filter_sublist .., rfl⟩, .inl rfl⟩) fun _ => ?_
  exact .bind (each_db fun _ _ => ⟨⟨filter_sublist .., rfl⟩, .inr rfl⟩) fun _ =>
    each_ret _

/-- **Every request is safe.** -/
theorem safe_session (hfresh : FreshSessions env requests s₀)
    (hundone : ¬ faults .rotateTransaction (.database true) true)
    (hP : Untouched env requests i s g) :
    Safe (sessionProtocol env requests) faults (fun _ _ _ _ => True) i (SessionPost env requests i)
      ((requests i).prog env) s g := by
  cases hr : requests i with
  | refresh r =>
    refine Safe.bind ((safe_refresh_sessions hfresh hr hundone hP).mono fun a s g ha => ?_)
    cases a with
    | error e => exact nofun
    | ok raw =>
      intro r' raw' hr' hok
      rw [hr] at hr'
      cases hr'
      cases hok
      exact ha raw rfl
  | logout token =>
    refine safe_answer (by simp [hr]) ?_
    exact safe_of_shrinks (each_logout token) (fun _ _ _ hT => hT.1) s g
  | login r =>
    refine safe_answer (by simp [hr]) (safe_issuesOnce hfresh ?_ ?_ (issuesOnce_login env r) hP)
    · rw [hr]
      rfl
    · rw [hr]
      rfl
  | login2fa r =>
    refine safe_answer (by simp [hr]) (safe_issuesOnce hfresh ?_ ?_ (issuesOnce_login2fa env r) hP)
    · rw [hr]
      rfl
    · rw [hr]
      rfl
  | sessionCap =>
    refine safe_answer (by simp [hr]) ?_
    have hcap : SignInEach false enforceSessionCap := each_enforceSessionCap
    exact safe_of_shrinks hcap (fun _ _ _ h => h.shrinks) s g
  | cleanup expiredAt consumedAt =>
    refine safe_answer (by simp [hr]) ?_
    exact safe_of_shrinks (each_tokenCleanup expiredAt consumedAt) (fun _ _ _ hT => hT.1) s g

/-! ## Refused accounts and the cap -/

variable (env) in
/-- What every statement obeys: with transactions, no row is spent while the account may not be
served; and the cap takes no row that was used. -/
structure SessionLaw (l : Site) (s s' : Store) : Prop where
  served : env.supportsTransactions = true → accountRefreshRefusal s = true →
    ∀ row ∈ s'.tokens, row.usedAt.isSome = true → row ∈ s.tokens
  spares : l = .evictSessions → ∀ row ∈ s.tokens, row.usedAt.isSome = true → row ∈ s'.tokens

theorem Shrinks.law (h : Shrinks s s') (hl : l ≠ .evictSessions) : SessionLaw env l s s' :=
  ⟨fun _ _ _ hrow _ => h.1.subset hrow, fun heq => (hl heq).elim⟩

theorem SignInEffect.law (h : SignInEffect recovers l s s') : SessionLaw env l s s' := by
  refine ⟨fun _ _ _ hrow _ => h.shrinks.1.subset hrow, fun hl row hrow hused => ?_⟩
  cases h with
  | same | proofs => exact hrow
  | evictSessions =>
    refine mem_filter.2 ⟨hrow, ?_⟩
    obtain ⟨t, ht⟩ := isSome_iff_exists.1 hused
    simp [ht]
  | lockout | recoverFence => cases hl
  | createDevice
  | claimDevice | evictDevices | createChallenge | consumeChallenge => exact nomatch hl

theorem SignInStep.law (h : SignInStep recovers env refreshTokenRaw familyId l s s') :
    SessionLaw env l s s' := by
  rcases h with heffect | ⟨_, _, _, _, rfl, rfl⟩
  · exact heffect.law
  · refine ⟨fun _ _ row hrow hused => ?_, nofun⟩
    rcases mem_append.1 hrow with hold | hnew
    · exact hold
    · rw [mem_singleton.1 hnew] at hused
      cases hused

/-- The transaction gates the account before it commits. -/
theorem RefreshEffect.law (heffect : RefreshEffect env r h l s s')
    (hl : l.rotates = true → env.supportsTransactions = true → l = .rotateTransaction) :
    SessionLaw env l s s' := by
  refine ⟨fun htopology hrefused row hrow hused => ?_, fun hevict => ?_⟩
  · by_cases hrotates : l.rotates = true
    · have hsite := hl hrotates htopology
      cases heffect with
      | same => exact hrow
      | rotate _ attempt =>
        rcases rotateOnce_cases env r h attempt s with
          ⟨heq, -⟩ | heq | ⟨row, before, after, -, -, hserved, -⟩
        · rw [heq] at hrow
          exact hrow
        · rw [heq] at hrow
          exact hrow
        · rw [hserved] at hrefused
          cases hrefused
      | claim | successor => cases hsite
      | _ => cases hrotates
    · exact (heffect.shrinks (by simpa using hrotates)).1.subset hrow
  · cases heffect with
    | same => exact fun row hrow _ => hrow
    | _ => cases hevict

theorem each_law (r : SessionRequest) :
    (r.prog env).Each (fun _ => True) (SessionLaw env) := by
  cases r with
  | refresh r =>
    refine .bind ?_ fun _ => each_ret _
    cases htoken : r.token with
    | none =>
      unfold refresh
      rw [htoken]
      exact each_raise _
    | some token =>
      rw [refresh_eq env r htoken]
      refine .bind (each_rotate.mono fun _ _ _ _ hT => hT.1.law fun _ => hT.2.2) fun rotation => ?_
      cases rotation with
      | refused => exact each_raise _
      | nothingClaimed =>
        have heach : (classifyUnclaimed r (env.hashToken token) : Req String).Each (fun _ => True)
            fun l s s' => RefreshEffect env r (env.hashToken token) l s s' ∧ l.rotates = false :=
          each_classifyUnclaimed
        exact heach.mono fun _ _ _ _ hT => hT.1.law fun hl => by simp [hT.2] at hl
      | rotated =>
        refine each_afterRotation_rotated.mono fun l _ _ _ hT => hT.1.law fun hl => ?_
        rcases hT.2 with rfl | rfl
        · cases hl
        · exact nomatch hl
  | logout token =>
    refine .bind ((each_logout token).mono fun l s s' _ hT => hT.1.law ?_) fun _ => each_ret _
    rw [hT.2]
    exact nofun
  | login r =>
    exact .bind ((issuesOnce_login env r).each.mono fun _ _ _ _ hT => hT.law) fun _ => each_ret _
  | login2fa r =>
    exact .bind ((issuesOnce_login2fa env r).each.mono fun _ _ _ _ hT => hT.law) fun _ =>
      each_ret _
  | sessionCap =>
    have hcap : SignInEach false enforceSessionCap := each_enforceSessionCap
    exact .bind (hcap.mono fun _ _ _ _ hT => hT.law) fun _ => each_ret _
  | cleanup expiredAt consumedAt =>
    refine .bind ((each_tokenCleanup expiredAt consumedAt).mono fun l s s' _ hT => hT.1.law ?_)
      fun _ => each_ret _
    rcases hT.2 with rfl | rfl
    · exact nofun
    · exact nofun

/-! ## Every run -/

/-- Nothing is owed at the start, and every family has the deadline of its rows. -/
def Ledger.start (s₀ : Store) : Ledger ι where
  owed _ := none
  claimedBy _ := none
  families f := (s₀.tokens.find? fun row => decide (row.familyId = f)).map (·.absoluteExpiresAt)

theorem SessionsStart.inv (h : SessionsStart s₀) : SessionsInv s₀ (Ledger.start s₀ : Ledger ι) where
  known := h.known
  hashes := h.hashes
  live f := h.live f
  family row hrow := by
    cases hfind : s₀.tokens.find? fun row' => decide (row'.familyId = row.familyId) with
    | none =>
      have hnone := find?_eq_none.1 hfind row hrow
      simp at hnone
    | some first =>
      have hfamily : first.familyId = row.familyId := by simpa using find?_some hfind
      have hmem := mem_of_find?_eq_some hfind
      simp only [Ledger.start, hfind, map_some]
      rw [h.deadline first hmem row hrow hfamily]
  owed_family _ hf := nomatch hf
  pinned := h.pinned
  spent _ hx := nomatch hx

theorem FreshSessions.untouched (hfresh : FreshSessions env requests s₀) (i : ι) :
    Untouched env requests i s₀ (Ledger.start s₀) := by
  refine ⟨hfresh.unissued i, fun f hf => ?_⟩
  have hnone : (s₀.tokens.find? fun row => decide (row.familyId = f)) = none :=
    find?_eq_none.2 fun row hrow => by simpa using hfresh.unfounded i f hf row hrow
  simp [Ledger.start, hnone]

/-- **Refresh-token rotation.** In every run of refreshes, sign-ins, logouts, caps and cleanups, on
either topology and with any access failing: a value is exchanged at most once; a family has at most
one row that can be exchanged; what a successful exchange returns was issued; every row of a family
has the family's deadline as its expiry, now and later; with transactions no row is spent while the
account may not be served; and the cap takes no used row. -/
theorem rotation_sound [DecidableEq ι] (hfresh : FreshSessions env requests s₀)
    (hstart : SessionsStart s₀) (hundone : ¬ faults .rotateTransaction (.database true) true)
    {c : Config ι Store Site AccountError SessionAnswer}
    (hrun : Reach (sessionSystem env requests faults) (Config.start s₀) c) :
    (∀ i j r r' raw raw' h, requests i = .refresh r → requests j = .refresh r' →
      r.presents env h → r'.presents env h → c.resultOf i = some (.ok (.refreshed raw)) →
      c.resultOf j = some (.ok (.refreshed raw')) → i = j) ∧
    (∀ f, c.store.liveIn f ≤ 1) ∧
    (∀ i r raw, requests i = .refresh r → c.resultOf i = some (.ok (.refreshed raw)) →
      env.hashToken raw ∈ c.store.history.issued) ∧
    (∀ c', Reach (sessionSystem env requests faults) c c' → ∀ row ∈ c.store.tokens,
      ∀ row' ∈ c'.store.tokens, row'.familyId = row.familyId →
        row'.absoluteExpiresAt = row.absoluteExpiresAt ∧
        ∀ d, row.absoluteExpiresAt = some d → row.expiresAt = d ∧ row'.expiresAt = d) ∧
    ∀ i l c', CStep (sessionSystem env requests faults) c (some (i, l)) c' →
      SessionLaw env l c.store c'.store := by
  have hS : Sound (sessionSystem env requests faults) (sessionProtocol env requests)
      (fun _ _ _ _ => True) (fun _ _ _ => True) (Untouched env requests)
      (SessionPost env requests) := by
    refine ⟨fun i p hp s g _ hP => ?_, stable_untouched hfresh, stable_sessionPost,
      fun _ _ _ _ _ _ _ => trivial⟩
    have hp' : p = (requests i).prog env := hp
    rw [hp']
    exact (safe_session hfresh hundone hP).mono fun _ _ g ha hinv =>
      ⟨g, hinv, .of_issued g rfl, ha⟩
  obtain ⟨g, hat⟩ := hS.reaches_start hstart.inv hfresh.untouched hrun
  have hpost : ∀ i r raw, requests i = .refresh r → c.resultOf i = some (.ok (.refreshed raw)) →
      env.hashToken raw ∈ c.store.history.issued ∧
        ∀ h, r.presents env h → g.claimedBy h = some i := by
    intro i r raw hr hresult
    obtain ⟨p, hp, hresult⟩ := bind_eq_some_iff.1 hresult
    have hknown := (hat.2 i).known
    rw [hp] at hknown
    exact hknown _ hresult r raw hr rfl
  refine ⟨?_, fun f => ?_, fun i r raw hr hresult => (hpost i r raw hr hresult).1, ?_, ?_⟩
  · intro i j r r' raw raw' h hi hj hh hh' hresult hresult'
    have hclaimed := (hpost i r raw hi hresult).2 h hh
    have hclaimed' := (hpost j r' raw' hj hresult').2 h hh'
    exact some.inj (hclaimed.symm.trans hclaimed')
  · have hlive := hat.1.live f
    omega
  · intro c' hrest row hrow row' hrow' hfamily
    -- the deadline of a family never changes
    have hkeep : ∀ j l s g s' g', (sessionProtocol env requests).guar j l s g s' g' →
        g.families row.familyId = some row.absoluteExpiresAt →
        g'.families row.familyId = some row.absoluteExpiresAt :=
      fun j l s g s' g' hg hf => hg.families _ _ hf
    obtain ⟨g', hat', hfamilies⟩ := hS.reaches hkeep hat (hat.1.family row hrow) hrest
    have hdeadline : row'.absoluteExpiresAt = row.absoluteExpiresAt := by
      have hrow'f := hat'.1.family row' hrow'
      rw [hfamily, hfamilies] at hrow'f
      exact (some.inj hrow'f).symm
    exact ⟨hdeadline, fun d hd => ⟨hat.1.pinned row hrow d hd,
      hat'.1.pinned row' hrow' d (hdeadline.trans hd)⟩⟩
  · intro i l c' hstep
    have heach : ∀ p, c.threads i = some p → p.Each (fun _ => True) (SessionLaw env) := by
      have hlaw := Reaches.each
        (fun i p hp => by
          have hp' : p = (requests i).prog env := hp
          rw [hp']
          exact each_law (requests i))
        (fun _ _ _ _ _ _ _ => trivial) trivial hrun
      exact hlaw.2 i
    rcases hstep.each (T := fun _ => SessionLaw env) trivial heach with hsame | hlaw
    · rw [hsame]
      exact ⟨fun _ _ _ hrow _ => hrow, fun _ _ hrow _ => hrow⟩
    · exact hlaw

/-- The stolen family, with what was issued. -/
def knownFamily : Store :=
  { stolenFamily with history := { stolenFamily.history with issued := ["live", "spent"] } }

/-- A refresh of the live value, from start to end. -/
theorem rotation_sound_refresh :
    ∃ c, Reach (sessionSystem (plainDeployment true)
        (fun _ : Unit => .refresh (presenting "live" "next")) fun _ _ _ => False)
        (Config.start knownFamily) c ∧
      c.resultOf () = some (.ok (.refreshed "next")) ∧ c.store.liveIn "family" ≤ 1 ∧
      "next" ∈ c.store.history.issued := by
  have hfresh : FreshSessions (plainDeployment true)
      (fun _ : Unit => .refresh (presenting "live" "next")) knownFamily := by
    refine ⟨fun _ _ _ _ _ => rfl, fun _ h hmint => ?_, fun _ _ _ _ _ => rfl, fun _ _ hf => hf.elim⟩
    have hnext : "next" = h := hmint
    rw [← hnext]
    decide
  have hstart : SessionsStart knownFamily := by
    refine ⟨by decide, by decide, fun f => ?_, by decide, by decide⟩
    by_cases hf : "family" = f
    · subst hf
      decide
    · simp [liveIn, knownFamily, stolenFamily, hf]
  have harrived := Reaches.opened (sessionSystem (plainDeployment true)
    (fun _ : Unit => .refresh (presenting "live" "next")) fun _ _ _ => False) (fun _ _ _ => True)
    knownFamily (i := ()) rfl
  have hrun := Reach.follow harrived (replicate 2 ())
  have hsound := rotation_sound hfresh hstart id hrun
  exact ⟨_, hrun, rfl, hsound.2.1 "family", hsound.2.2.1 () _ "next" rfl rfl⟩

end HVault.Account
