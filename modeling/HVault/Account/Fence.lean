import HVault.Interleave.Schedule
import HVault.Account.SignIn
import HVault.Account.VaultKey

/-!
# The fence of a live rotation

A rotation that dies leaves its fence up, so a sign-in lowers a fence it finds up while nobody holds
the exclusion lock. It reads the account, probes the lock and writes, and nothing ties the write to
the probe: a rotation may take the lock and raise its own fence in between. The same goes for a
rotation that outlives its lock and lowers a fence that is no longer its own. Where the lock is not
taken in between (`Site.Unovertaken`), the fence of a rotation that holds an unexpired lock stays up
until that rotation lowers it.

The argument counts how often the lock was taken. A request that lowers the fence remembers the
count, and while it is unchanged the lock is still free, or still its own.
-/

namespace HVault.Account

open Interleave FirstMatch Option

/-! ## The requests -/

/-- A request on the fence, or the passing of time. -/
inductive FenceRequest where
  | login (r : LoginRequest)
  | rotate (r : RotationRequest)
  | tick (now : ℤ)

/-- Time moves on. -/
def Store.tick (now : ℤ) (s : Store) : Store :=
  { s with history := { s.history with now := max s.history.now now } }

def FenceRequest.prog (env : Deployment) : FenceRequest → Req Unit
  | .login r => (HVault.Account.login env r).bind fun _ => .ret ()
  | .rotate r => bulkReEncrypt env r
  | .tick now => .db .tick fun s => ((), s.tick now)

def fenceSystem {ι : Type} (env : Deployment) (requests : ι → FenceRequest)
    (faults : Site → AccountError → Bool → Prop) : System ι Store Site AccountError Unit where
  admits i p := p = (requests i).prog env
  faults

/-- A rotation that holds the unexpired lock, has raised the fence and has not lowered it, finds it
raised. -/
def FenceHeld (s : Store) : Prop :=
  ∀ lock u, s.rotationLock = some lock → s.history.now < lock.expiresAt →
    lock.lockedBy ∈ s.history.raised → s.user = some u → u.rotationInProgress = true

/-- How often the lock had been taken when a statement that lowers the fence was decided on. -/
def Site.lowers : Site → Option ℕ
  | .lowerFence taken => some taken
  | .recoverFence taken => some taken
  | .commitRotation _ _ lowers => lowers
  | .commitReseal _ _ _ _ lowers => lowers
  | _ => none

/-- Nobody has taken the lock since the statement was decided on; and a probe of the lock is not made
with a clock that is ahead. -/
structure Site.Unovertaken (s : Store) (l : Site) : Prop where
  lowers : ∀ taken, l.lowers = some taken → s.history.acquisitions = taken
  clock : ∀ now, l = .probeLock now → now ≤ s.history.now

/-! ## The protocol -/

/-- What a step may do to the lock: free it, or take it and be counted. Time does not run back. -/
structure LockStep (s s' : Store) : Prop where
  lock : s'.history.acquisitions = s.history.acquisitions ∧
      (s'.rotationLock = s.rotationLock ∨ s'.rotationLock = none) ∨
    s'.history.acquisitions = s.history.acquisitions + 1
  time : s.history.now ≤ s'.history.now

def fenceProtocol {ι : Type} : Protocol ι Store Site Unit where
  inv s _ := FenceHeld s
  guar _ _ s _ s' _ := LockStep s s'

/-- The side condition of the runs. -/
def unovertaken {ι : Type} (_ : ι) (l : Site) (s : Store) (_ : Unit) : Prop := l.Unovertaken s

/-- Since the lock was taken for the `taken`th time nobody has taken it, or a lock that is held is as
`good` says at the present time. -/
def LockSince (taken : ℕ) (good : ℤ → JobLock → Prop) (s : Store) : Prop :=
  taken ≤ s.history.acquisitions ∧ (s.history.acquisitions = taken →
    ∀ lock, s.rotationLock = some lock → good s.history.now lock)

/-- The lock was found free and has not been taken since. -/
abbrev LockFree (taken : ℕ) (s : Store) : Prop :=
  LockSince taken (fun now lock => lock.expiresAt ≤ now) s

/-- The lock was taken by this holder and by nobody since. -/
abbrev LockMine (lockId : String) (taken : ℕ) (s : Store) : Prop :=
  LockSince taken (fun _ lock => lock.lockedBy = lockId) s

theorem LockStep.since {taken : ℕ} {good : ℤ → JobLock → Prop} {s s' : Store} (h : LockStep s s')
    (hgood : ∀ now now' lock, now ≤ now' → good now lock → good now' lock)
    (hs : LockSince taken good s) : LockSince taken good s' := by
  obtain ⟨hle, hsince⟩ := hs
  rcases h.lock with ⟨hcount, hlock⟩ | hcount
  · refine ⟨by omega, fun heq lock hsome => ?_⟩
    rcases hlock with hlock | hlock
    · exact hgood _ _ lock h.time (hsince (by omega) lock (hlock ▸ hsome))
    · rw [hlock] at hsome
      cases hsome
  · exact ⟨by omega, fun heq => by omega⟩

variable {ι : Type} {env : Deployment} {requests : ι → FenceRequest}
  {faults : Site → AccountError → Bool → Prop} {i : ι}

theorem stable_lockSince {taken : ℕ} {good : ℤ → JobLock → Prop}
    (hgood : ∀ now now' lock, now ≤ now' → good now lock → good now' lock) :
    (fenceProtocol (ι := ι)).Stable i fun s _ => LockSince taken good s :=
  fun _ _ _ _ _ _ _ _ hs hguar _ => hguar.since hgood hs

theorem stable_lockFree (taken : ℕ) :
    (fenceProtocol (ι := ι)).Stable i fun s _ => LockFree taken s :=
  stable_lockSince fun _ _ _ hle h => Int.le_trans h hle

theorem stable_lockMine (lockId : String) (taken : ℕ) :
    (fenceProtocol (ι := ι)).Stable i fun s _ => LockMine lockId taken s :=
  stable_lockSince fun _ _ _ _ h => h

/-! ## Statements -/

/-- The lock, its count and the time are as they were. -/
structure SameLock (s s' : Store) : Prop where
  lock : s'.rotationLock = s.rotationLock
  acquisitions : s'.history.acquisitions = s.history.acquisitions
  now : s'.history.now = s.history.now

theorem SameLock.refl (s : Store) : SameLock s s := ⟨rfl, rfl, rfl⟩

theorem SameLock.step {s s' : Store} (h : SameLock s s') : LockStep s s' :=
  ⟨.inl ⟨h.acquisitions, .inl h.lock⟩, Int.le_of_eq h.now.symm⟩

/-- The fence is as it was. -/
structure SameFence (s s' : Store) : Prop where
  lock : SameLock s s'
  raised : s'.history.raised = s.history.raised
  flag : s'.user.map (·.rotationInProgress) = s.user.map (·.rotationInProgress)

theorem SameFence.refl (s : Store) : SameFence s s := ⟨.refl s, rfl, rfl⟩

theorem SameFence.held {s s' : Store} (h : SameFence s s') (hs : FenceHeld s) : FenceHeld s' := by
  intro lock u' hlock htime hraised hu'
  have hflag := h.flag
  rw [hu', map_some] at hflag
  obtain ⟨u, hu, heq⟩ := map_eq_some_iff.1 hflag.symm
  rw [← heq]
  exact hs lock u (h.lock.lock ▸ hlock) (h.lock.now ▸ htime) (h.raised ▸ hraised) hu

/-- No statement of a sign-in touches the fence, except the recovery. -/
theorem SignInEffect.sameFence {l : Site} {s s' : Store} (h : SignInEffect false l s s') :
    SameFence s s' := by
  cases h with
  | lockout l _ after =>
    unfold Store.putLockout
    split
    · rename_i u l' hu
      exact ⟨⟨rfl, rfl, rfl⟩, rfl, by rw [hu]; rfl⟩
    · exact .refl s
  | recoverFence taken _ hrecovers => cases hrecovers
  | _ => exact ⟨⟨rfl, rfl, rfl⟩, rfl, rfl⟩

theorem SignInStep.sameFence {refreshTokenRaw familyId : String} {l : Site} {s s' : Store}
    (h : SignInStep false env refreshTokenRaw familyId l s s') : SameFence s s' := by
  rcases h with heffect | ⟨_, _, _, _, -, rfl⟩
  · exact heffect.sameFence
  · exact ⟨⟨rfl, rfl, rfl⟩, rfl, rfl⟩

/-- Lowering the fence leaves the lock alone. -/
theorem sameLock_updateUser {filter : User → Bool} {update : User → User} (s : Store) :
    SameLock s (s.updateUser filter update).2 := by
  rcases s.updateUser_cases filter update with heq | ⟨u, -, -, heq⟩
  · rw [heq]
    exact .refl s
  · rw [heq]
    exact ⟨rfl, rfl, rfl⟩

/-- What a statement of a rotation does to the fence: nothing, it raises it, or it lowers it and no
longer counts as a holder that has it raised. -/
structure RotationFence (lockId : String) (taken : ℕ) (l : Site) (s s' : Store) : Prop where
  lock : SameLock s s'
  fence : SameFence s s' ∨ (∀ u, s'.user = some u → u.rotationInProgress = true) ∨
    l.lowers = some taken ∧ lockId ∉ s'.history.raised

theorem lockId_dropRaised (lockId : String) (s : Store) :
    lockId ∉ (s.dropRaised lockId).history.raised := by
  simp [Store.dropRaised]

theorem RotationFence.raise (lockId : String) (taken : ℕ) (pending : Option WrappedKey) (l : Site)
    (s : Store) : RotationFence lockId taken l s (s.raiseFence lockId pending) := by
  unfold Store.raiseFence
  rcases s.updateUser_cases (fun _ => true) fun u => { u with
      rotationInProgress := true
      pendingVaultKey := pending.orElse fun _ => u.pendingVaultKey } with heq | ⟨u, -, -, heq⟩
  · rw [heq]
    exact ⟨.refl s, .inl (.refl s)⟩
  · rw [heq]
    refine ⟨⟨rfl, rfl, rfl⟩, .inr (.inl fun u' hu' => ?_)⟩
    cases hu'
    rfl

theorem RotationFence.lower (lockId : String) (taken : ℕ) (s : Store) :
    RotationFence lockId taken (.lowerFence taken) s (s.lowerFence lockId) := by
  have hlock : SameLock s
      (s.updateUser (fun _ => true) fun u => { u with rotationInProgress := false }).2 :=
    sameLock_updateUser s
  exact ⟨⟨hlock.lock, hlock.acquisitions, hlock.now⟩, .inr (.inr ⟨rfl, lockId_dropRaised _ _⟩)⟩

theorem lowers_commitSite (r : RotationRequest) (provenWith : String) (since : ℕ)
    (lowers : Option ℕ) : (r.commitSite provenWith since lowers).lowers = lowers := by
  unfold RotationRequest.commitSite
  split <;> rfl

/-- A commit inside a transaction leaves the fence to the rest of the rotation. -/
theorem sameFence_commit (r : RotationRequest) (provenWith : String) (s : Store) :
    SameFence s (r.commit provenWith false s).2 := by
  rcases r.commit_cases provenWith false s with heq | ⟨u, hu, -, heq⟩
  · rw [heq]
    exact .refl s
  · rw [heq]
    refine ⟨⟨rfl, rfl, rfl⟩, rfl, ?_⟩
    have hflag : (r.committed false u).rotationInProgress = u.rotationInProgress := by
      unfold RotationRequest.committed
      split <;> simp
    simp [hu, hflag]

theorem RotationEffect.fence {r : RotationRequest} {provenWith : String} {since taken : ℕ} {l : Site}
    {s s' : Store} (h : RotationEffect r provenWith since taken l s s') :
    RotationFence r.lockId taken l s s' := by
  cases h with
  | check => exact ⟨.refl s, .inl (.refl s)⟩
  | raise _ pending => exact .raise r.lockId taken pending _ s
  | lower => exact .lower r.lockId taken s
  | transaction _ attempt =>
    have hsame : SameFence s (r.rotateOnce provenWith attempt s).2 := by
      rcases r.rotateOnce_cases provenWith attempt s with heq | heq
      · rw [heq]
        exact .refl s
      · rw [heq]
        exact sameFence_commit r provenWith s
    exact ⟨hsame.lock, .inl hsame⟩
  | commit =>
    rcases r.commit_cases provenWith true s with heq | ⟨u, -, -, heq⟩
    · rw [heq]
      exact ⟨.refl s, .inl (.refl s)⟩
    · rw [heq]
      exact ⟨⟨rfl, rfl, rfl⟩,
        .inr (.inr ⟨lowers_commitSite r provenWith since (some taken), lockId_dropRaised _ _⟩)⟩

/-- A rotation that nobody has overtaken keeps every live fence up. -/
theorem RotationFence.held {lockId : String} {taken : ℕ} {l : Site} {s s' : Store}
    (h : RotationFence lockId taken l s s') (hs : FenceHeld s) (hmine : LockMine lockId taken s)
    (hl : l.Unovertaken s) : FenceHeld s' := by
  rcases h.fence with hsame | hraised | ⟨hlowers, hgone⟩
  · exact hsame.held hs
  · exact fun _ u _ _ _ hu => hraised u hu
  · intro lock u hlock htime hraised hu
    -- the lock is this rotation's own, which has just stopped to count as a holder
    rw [h.lock.lock] at hlock
    rw [hmine.2 (hl.lowers taken hlowers) lock hlock] at hraised
    exact (hgone hraised).elim

/-- A recovery that nobody has overtaken finds no live fence. -/
theorem held_recoverFence {taken : ℕ} {s : Store} (hfree : LockFree taken s)
    (hl : (Site.recoverFence taken).Unovertaken s) : FenceHeld s.recoverFence := by
  intro lock u hlock htime _ _
  have hsame : SameLock s s.recoverFence := sameLock_updateUser s
  rw [hsame.lock] at hlock
  rw [hsame.now] at htime
  exact absurd htime (Int.not_lt.2 (hfree.2 (hl.lowers taken rfl) lock hlock))

/-! ## The requests are safe -/

variable (faults i) in
/-- Whatever the program ends with, it has kept the protocol. -/
abbrev KeepsFence {α : Type} (p : Req α) (s : Store) : Prop :=
  Safe fenceProtocol faults unovertaken i (fun _ _ _ => True) p s ()

theorem KeepsFence.bind {α β : Type} {p : Req β} {k : β → Req α} {s : Store}
    (hp : KeepsFence faults i p s) (hk : ∀ b s, KeepsFence faults i (k b) s) :
    KeepsFence faults i (p.bind k) s := by
  refine Safe.bind (hp.mono fun r s _ _ => ?_)
  cases r with
  | ok b => exact hk b s
  | error e => exact trivial

/-- One statement. -/
theorem keepsFence_db {α : Type} {l : Site} {f : Store → α × Store}
    (hf : ∀ s, FenceHeld s → FenceHeld (f s).2 ∧ LockStep s (f s).2) (s : Store) :
    KeepsFence faults i (.db l f) s := by
  refine Safe.access (fun _ _ => True) (.const True) trivial fun s _ hinv _ _ r s' ho => ⟨(), ?_⟩
  have hstep : FenceHeld s' ∧ LockStep s s' := by
    rcases ho.store_eq with rfl | rfl
    · exact ⟨hinv, SameLock.step (.refl _)⟩
    · exact hf s hinv
  refine ⟨hstep.1, hstep.2, ?_⟩
  cases r with
  | ok b | error e => exact trivial

/-- A part that leaves the fence alone. -/
theorem keepsFence_of_same {α : Type} {p : Req α} {T : Site → Store → Store → Prop}
    (hp : p.Each (fun _ => True) T) (hT : ∀ l s s', T l s s' → SameFence s s') (s : Store) :
    KeepsFence faults i p s := by
  have hkeeps : Keeps fenceProtocol faults unovertaken i (fun _ _ => True) (fun _ => True) p := by
    refine Prog.Each.keeps hp (.const True) (fun _ _ _ => trivial)
      fun l s _ s₁ s' hinv _ _ h hs' => ⟨(), ?_⟩
    rcases hs' with rfl | rfl
    · exact ⟨hinv, SameLock.step (.refl _), trivial⟩
    · have hsame := hT l s s' h
      exact ⟨hsame.held hinv, hsame.lock.step, trivial⟩
  exact (hkeeps s () trivial).mono fun _ _ _ _ => trivial

theorem keepsFence_signIn {α : Type} {p : Req α} (hp : SignInEach false p) (s : Store) :
    KeepsFence faults i p s :=
  keepsFence_of_same hp (fun _ _ _ h => h.sameFence) s

/-- What a probe that finds the lock free has seen. -/
theorem lockFree_of_probe {probedAt : ℤ} {s : Store} (hclock : probedAt ≤ s.history.now)
    (hheld : isVaultRotationLockHeld probedAt s = false) : LockFree s.history.acquisitions s := by
  refine ⟨Nat.le_refl _, fun _ lock hlock => ?_⟩
  unfold isVaultRotationLockHeld at hheld
  rw [hlock] at hheld
  exact Int.le_trans (Int.not_lt.1 (of_decide_eq_false hheld)) hclock

theorem keepsFence_recover (probedAt : ℤ) (u : User) (s : Store) :
    KeepsFence faults i (recoverInterruptedRotation probedAt u) s := by
  unfold recoverInterruptedRotation
  split
  · refine Safe.db_bind (fun _ _ => True) (.const True) trivial (fun s _ hinv _ hl => ?_)
      (fun s _ e hinv _ _ _ => ⟨(), hinv, SameLock.step (.refl s), trivial⟩)
      fun s _ e hinv _ _ _ => ⟨(), hinv, SameLock.step (.refl s), trivial⟩
    refine ⟨(), hinv, SameLock.step (.refl s), ?_⟩
    dsimp only
    split
    · exact trivial
    · rename_i hheld
      have hfree := lockFree_of_probe (hl.clock probedAt rfl) (by simpa using hheld)
      have hsame : ∀ s : Store, SameLock s s.recoverFence := sameLock_updateUser
      refine Safe.db_bind _ (stable_lockFree s.history.acquisitions) hfree (fun s _ _ hfree hl => ?_)
        (fun s _ e hinv _ _ _ => ⟨(), hinv, SameLock.step (.refl s), trivial⟩)
        fun s _ e _ hfree hl _ => ?_
      all_goals exact ⟨(), held_recoverFence hfree hl, (hsame s).step, trivial⟩
  · exact trivial

theorem keepsFence_checkPassword (env : Deployment) (r : LoginRequest) (s : Store) :
    KeepsFence faults i (checkPassword env r) s := by
  refine (keepsFence_signIn (each_findPresentedDeviceProof _ _ _) s).bind fun presented s => ?_
  refine (keepsFence_signIn each_signInRead s).bind fun loaded s => ?_
  split
  · exact trivial
  · dsimp only
    split
    · exact trivial
    · refine (keepsFence_signIn (each_provenBy _ _) s).bind fun proven s => ?_
      split
      · exact (keepsFence_signIn (each_onLockout _) s).bind fun _ _ => trivial
      · split
        · exact trivial
        · split
          · exact keepsFence_signIn (each_refuseWrongPassword _ _) s
          · refine (keepsFence_signIn (each_dischargeServedPassword _ _) s).bind fun user s => ?_
            exact (keepsFence_recover _ _ s).bind fun _ _ => trivial

theorem keepsFence_login (env : Deployment) (r : LoginRequest) (s : Store) :
    KeepsFence faults i (login env r) s := by
  refine (keepsFence_checkPassword env r s).bind fun checked s => ?_
  exact keepsFence_of_same (issuesOnce_completeLogin env r checked).each
    (fun _ _ _ h => h.sameFence) s

/-! ### Rotations -/

theorem acquireLock_cases (lockId : String) (now : ℤ) (s : Store) :
    s.acquireLock lockId now = (false, s) ∨
      (s.acquireLock lockId now).1 = true ∧ FenceHeld (s.acquireLock lockId now).2 ∧
        LockStep s (s.acquireLock lockId now).2 ∧
        LockMine lockId (s.acquireLock lockId now).2.history.acquisitions
          (s.acquireLock lockId now).2 := by
  unfold Store.acquireLock
  split
  · exact .inl rfl
  · refine .inr ⟨rfl, ?_, ⟨.inr rfl, Int.le_refl _⟩, Nat.le_refl _, fun _ lock hlock => ?_⟩
    · -- the new holder has raised nothing
      intro lock u hlock _ hraised _
      cases hlock
      simp at hraised
    · cases hlock
      rfl

/-- Taking the lock. -/
theorem safe_acquire (lockId : String) (now : ℤ) (s : Store) :
    Safe fenceProtocol faults unovertaken i
      (fun r s _ => ∀ taken, r = .ok taken → LockMine lockId taken s)
      (acquireVaultRotationLock lockId now) s () := by
  refine Safe.db_bind (fun _ _ => True) (.const True) trivial (fun s _ hinv _ _ => ?_)
    (fun s _ e hinv _ _ _ => ⟨(), hinv, SameLock.step (.refl s), nofun⟩)
    fun s _ e hinv _ _ _ => ?_
  · rcases acquireLock_cases lockId now s with heq | ⟨hacquired, hheld, hstep, hmine⟩
    · rw [heq]
      exact ⟨(), hinv, SameLock.step (.refl s), nofun⟩
    · refine ⟨(), hheld, hstep, ?_⟩
      show Safe _ _ _ _ _ (if (s.acquireLock lockId now).1 = true then _ else _) _ _
      rw [if_pos hacquired]
      intro taken htaken
      cases htaken
      exact hmine
  · rcases acquireLock_cases lockId now s with heq | ⟨-, hheld, hstep, -⟩
    · rw [heq]
      exact ⟨(), hinv, SameLock.step (.refl s), nofun⟩
    · exact ⟨(), hheld, hstep, nofun⟩

theorem keepsFence_release (lockId : String) (s : Store) :
    KeepsFence faults i (releaseVaultRotationLock lockId) s := by
  refine keepsFence_db (fun s hinv => ⟨?_, ?_⟩) s
  · intro lock u hlock htime hraised hu
    exact hinv lock u (filter_eq_some_iff.1 hlock).1 htime hraised hu
  · refine ⟨.inl ⟨rfl, ?_⟩, Int.le_refl _⟩
    show s.rotationLock.filter _ = s.rotationLock ∨ s.rotationLock.filter _ = none
    cases s.rotationLock with
    | none => exact .inl rfl
    | some lock =>
      by_cases hlock : lock.lockedBy = lockId
      · exact .inr (by simp [hlock])
      · exact .inl (by simp [hlock])

theorem keepsFence_rotateProven (env : Deployment) (r : RotationRequest) (user : User) (since : ℕ)
    (s : Store) : KeepsFence faults i (rotateProven env r user since) s := by
  unfold rotateProven
  split
  · exact trivial
  · refine Safe.bind ((safe_acquire r.lockId r.lockedAt s).mono fun outcome s _ hmine => ?_)
    cases outcome with
    | error e => exact trivial
    | ok taken =>
      -- under the lock every statement relies on the lock not being another's
      have hlocked : Keeps fenceProtocol faults unovertaken i
          (fun s _ => LockMine r.lockId taken s) (fun _ => True)
          (rotateUnderLock env r user.authHash since taken) := by
        refine Prog.Each.keeps (each_rotateUnderLock env) (stable_lockMine r.lockId taken)
          (fun _ _ _ => trivial) fun l s _ s₁ s' hinv hmine hl h hs' => ⟨(), ?_⟩
        rcases hs' with rfl | rfl
        · exact ⟨hinv, SameLock.step (.refl _), hmine⟩
        · have hstep := h.fence.lock.step
          exact ⟨h.fence.held hinv hmine hl, hstep, hstep.since (fun _ _ _ _ h => h) hmine⟩
      have hbody : KeepsFence faults i (rotateUnderLock env r user.authHash since taken).attempt s :=
        Safe.attempt ((hlocked s () (hmine taken rfl)).mono fun _ _ _ _ => trivial)
      refine hbody.bind fun outcome s => ?_
      refine (keepsFence_release r.lockId s).bind fun _ s => ?_
      cases outcome with
      | ok b | error e => exact trivial

theorem keepsFence_prog (env : Deployment) (request : FenceRequest) (s : Store) :
    KeepsFence faults i (request.prog env) s := by
  cases request with
  | login r => exact (keepsFence_login env r s).bind fun _ _ => trivial
  | rotate r =>
    show KeepsFence faults i (bulkReEncrypt env r) s
    unfold bulkReEncrypt
    split
    · refine (keepsFence_signIn each_signInRead s).bind fun ⟨loaded, since⟩ s => ?_
      dsimp only
      split
      · exact trivial
      · split
        · exact keepsFence_rotateProven env r _ since s
        · exact trivial
    · exact trivial
  | tick now =>
    refine keepsFence_db (fun s hinv => ?_) s
    have hle : s.history.now ≤ max s.history.now now := Int.le_max_left _ _
    refine ⟨fun lock u hlock htime hraised hu => ?_, ⟨.inl ⟨rfl, .inl rfl⟩, hle⟩⟩
    exact hinv lock u hlock (Int.lt_of_le_of_lt hle htime) hraised hu

/-! ## The law of the runs -/

/-- **Crash recovery never lowers the fence of a live rotation**, in every run in which the lock is
not taken between the decision to lower the fence and the write: a rotation that holds the unexpired
lock, has raised the fence and has not lowered it, finds it raised in every state. -/
theorem live_fence_stays [DecidableEq ι] {s₀ : Store} (hstart : FenceHeld s₀)
    {c : Config ι Store Site AccountError Unit}
    (hrun : Reaches (fenceSystem env requests faults) (fun c _ l => l.Unovertaken c.store)
      (Config.start s₀) c) : FenceHeld c.store := by
  have hS : Sound (fenceSystem env requests faults) fenceProtocol unovertaken
      (fun c _ l => l.Unovertaken c.store) (fun _ _ _ => True) fun _ _ _ _ => True := by
    refine ⟨fun i p hp s _ _ _ => ?_, fun _ => .const True, fun _ _ => .const True,
      fun _ _ _ _ _ _ h => h⟩
    have hp' : p = (requests i).prog env := hp
    rw [hp']
    exact (keepsFence_prog env (requests i) s).mono fun _ s _ _ hinv =>
      ⟨(), hinv, SameLock.step (.refl s), trivial⟩
  have hinv : (fenceProtocol (ι := ι)).inv s₀ () := hstart
  obtain ⟨g, hat⟩ := hS.reaches_start hinv (fun _ => trivial) hrun
  exact hat.1

/-! ### A recovery that a rotation overtakes -/

/-- An account whose last rotation crashed: the fence is up and nobody holds the lock. -/
def crashedStore : Store := plainStore { plainUser [] with rotationInProgress := true }

def plainRotation : RotationRequest where
  authHash := "old"
  idempotencyKey := none
  newVaultKey := ⟨"rotated key", "iv", "tag"⟩
  discardPendingVaultKey := false
  reseal := false
  vaultKeyVersion := some 0
  formatUnderstood := true
  rowsFound := true
  rowsWritten := fun _ => true
  lockId := "rotation"
  lockedAt := 0
  attempts := 0

/-- A rotation (`true`) and a sign-in (`false`). -/
def rotationAndLogin : Bool → FenceRequest
  | true => .rotate plainRotation
  | false => .login plainLogin

/-- The sign-in has found the fence up and the lock free; the rotation has taken the lock and raised
its own fence; the sign-in has lowered it. -/
def fenceLost : Config Bool Store Site AccountError Unit :=
  (((Config.start crashedStore).join true ((rotationAndLogin true).prog (plainDeployment true))).join
    false ((rotationAndLogin false).prog (plainDeployment true))).follow
      ([false, false] ++ List.replicate 7 true ++ [false])

/-- The recovery of a sign-in lowers the fence of a rotation that holds the lock. -/
theorem recovery_lowers_live_fence :
    Reach (fenceSystem (plainDeployment true) rotationAndLogin fun _ _ _ => False)
        (Config.start crashedStore) fenceLost ∧
      fenceLost.store.rotationLock = some ⟨"rotation", vaultRotationLockTtlMs⟩ ∧
      fenceLost.store.history.now < vaultRotationLockTtlMs ∧
      "rotation" ∈ fenceLost.store.history.raised ∧
      fenceLost.store.user.map (·.rotationInProgress) = some false ∧
      FenceHeld crashedStore ∧ ¬ FenceHeld fenceLost.store := by
  have hlock : fenceLost.store.rotationLock = some ⟨"rotation", vaultRotationLockTtlMs⟩ := rfl
  have htime : fenceLost.store.history.now < vaultRotationLockTtlMs := by decide
  have hraised : "rotation" ∈ fenceLost.store.history.raised := by decide
  have hflag : fenceLost.store.user.map (·.rotationInProgress) = some false := rfl
  refine ⟨?_, hlock, htime, hraised, hflag, fun lock u hlock => (nomatch hlock),
    fun hheld => ?_⟩
  · have harrived := (Reaches.opened (fenceSystem (plainDeployment true) rotationAndLogin
      fun _ _ _ => False) (fun _ _ _ => True) crashedStore (i := true) rfl).join (i := false) rfl rfl
    exact Reach.follow harrived _
  · obtain ⟨u, hu, hdown⟩ := map_eq_some_iff.1 hflag
    have hup := hheld _ u hlock htime hraised hu
    rw [hdown] at hup
    cases hup

/-- The rotation has raised its fence; the sign-in has found the lock held and goes on. -/
def fenceProbed : Config Bool Store Site AccountError Unit :=
  (((Config.start crashedStore).join true ((rotationAndLogin true).prog (plainDeployment true))).join
    false ((rotationAndLogin false).prog (plainDeployment true))).follow
      (List.replicate 7 true ++ [false, false])

/-- A sign-in that probes the lock of a running rotation leaves its fence. -/
theorem live_fence_stays_probe :
    Reaches (fenceSystem (plainDeployment true) rotationAndLogin fun _ _ _ => False)
        (fun c _ l => l.Unovertaken c.store) (Config.start crashedStore) fenceProbed ∧
      "rotation" ∈ fenceProbed.store.history.raised ∧
      ∃ u, fenceProbed.store.user = some u ∧ u.rotationInProgress = true := by
  have harrived := (Reaches.opened (fenceSystem (plainDeployment true) rotationAndLogin
    fun _ _ _ => False) (fun c _ l => l.Unovertaken c.store) crashedStore (i := true) rfl).join
    (i := false) rfl rfl
  -- a statement that neither lowers the fence nor probes the lock is never overtaken
  have hcalm : ∀ (s : Store) (l l' : Site), some l = some l' → l.lowers = none →
      (∀ now, l ≠ .probeLock now) → l'.Unovertaken s := by
    intro s l l' heq hlowers hprobe
    cases heq
    refine ⟨fun taken h => ?_, fun now h => (hprobe now h).elim⟩
    rw [hlowers] at h
    cases h
  have hrun := harrived.follow (List.replicate 7 true ++ [false, false])
    ⟨fun _ h => hcalm _ _ _ h rfl nofun,
      fun _ h => hcalm _ _ _ h rfl nofun, fun _ h => hcalm _ _ _ h rfl nofun,
      fun _ h => hcalm _ _ _ h rfl nofun, fun _ h => hcalm _ _ _ h rfl nofun,
      fun _ h => hcalm _ _ _ h rfl nofun, fun _ h => hcalm _ _ _ h rfl nofun,
      fun _ h => hcalm _ _ _ h rfl nofun,
      fun _ h => by
        cases h
        refine ⟨nofun, fun now h => ?_⟩
        cases h
        exact Int.le_refl 0,
      trivial⟩
  have hlock : fenceProbed.store.rotationLock = some ⟨"rotation", vaultRotationLockTtlMs⟩ := rfl
  have htime : fenceProbed.store.history.now < vaultRotationLockTtlMs := by decide
  have hraised : "rotation" ∈ fenceProbed.store.history.raised := by decide
  have hstart : FenceHeld crashedStore := fun lock u hlock => (nomatch hlock)
  refine ⟨hrun, hraised, _, rfl, ?_⟩
  exact live_fence_stays hstart hrun _ _ hlock htime hraised rfl

end HVault.Account
