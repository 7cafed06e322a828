import Mathlib.Data.Nat.Notation
import Mathlib.Data.Int.Notation
import HVault.Interleave.Steps

/-!
# The failed-authentication brake

Two factors, two states. A wrong password counts on the password's state, a wrong code on the
second factor's, and each is locked, extended and discharged by writes of its own. Every write
is one conditional update, so the requests that make them may interleave in any way.

`lockout_machine` says what all of them keep together: the counters stay at or below the
threshold, a deadline always comes with an episode, and each single write stays within its
factor, its episode and its time.
-/

namespace HVault.Lockout

open Interleave Prog

variable {ε : Type}

/-! ## The account -/

/-- Which factor's state a failure, a lock or a discharge belongs to. -/
inductive LockoutFactor where
  | password
  | secondFactor
  deriving DecidableEq, Repr

/-- One factor's state, whatever its storage. A missing counter counts as zero. -/
structure FactorState where
  failedAttempts : Option ℕ
  deadline : Option ℤ
  episodeId : Option String
  notifiedAt : Option ℤ
  deriving DecidableEq, Repr

/-- The account, as far as the brake reads and writes it. -/
structure User where
  state : LockoutFactor → FactorState
  deletionPending : Bool

/-- The account, while it is there. -/
abbrev Store := Option User

/-- Why a factor is discharged: its deadline was served, an unlock link named its episode, or a
sign-in completed. -/
inductive Discharge where
  | served (now : ℤ)
  | unlocked (episodeId : String)
  | completed (now : ℤ)
  deriving DecidableEq, Repr

/-- The statements of the brake, each on one factor. -/
inductive Statement where
  | count
  | lock
  | readEpisode
  | claimMail
  | discharge (why : Discharge)
  deriving DecidableEq, Repr

/-- A statement and the factor it is on. -/
structure Site where
  factor : LockoutFactor
  statement : Statement
  deriving DecidableEq, Repr

/-- A request over the account. The brake raises no error `ε` of its own. -/
abbrev Req (ε α : Type) := Prog Store Site ε α

/-- Failures that lock a factor. -/
def maxLoginAttempts : ℕ := 10

/-- How long a lockout lasts. -/
def lockoutDurationMs : ℤ := 30 * 60 * 1000

/-- How often a running lockout may be pushed further out. -/
def lockoutExtensionIntervalMs : ℤ := 60 * 1000

/-- How long an unlock link is usable. -/
def unlockTokenTtlMs : ℤ := 60 * 60 * 1000

/-! ## Statements -/

/-- The account with the state of one factor replaced. -/
def User.withState (u : User) (factor : LockoutFactor) (state : FactorState) : User :=
  { u with state := fun f => if f = factor then state else u.state f }

/-- Replaces the state of one factor when the account is there and passes `filter`; answers the
account as written. -/
def updateFactor (factor : LockoutFactor) (filter : User → Bool)
    (update : FactorState → FactorState) (s : Store) : Option User × Store :=
  match s with
  | some u =>
    if filter u then
      let after := u.withState factor (update (u.state factor))
      (some after, some after)
    else (none, s)
  | none => (none, none)

/-- The state after a lock episode has ended: all four facts cleared. The password keeps a
counter, the second factor loses its whole subdocument. -/
def lockoutClearUpdate : LockoutFactor → FactorState
  | .password => ⟨some 0, none, none, none⟩
  | .secondFactor => ⟨none, none, none, none⟩

/-- Whether a stored deadline is absent or has passed. -/
def notRunning (now : ℤ) (state : FactorState) : Bool :=
  match state.deadline with
  | none => true
  | some t => decide (t ≤ now)

/-! ## Operations -/

/-- Starts or extends the lock episode: a running episode keeps its identity. -/
def lockEpisode (deadline : ℤ) (episodeId : String) (state : FactorState) : FactorState :=
  { state with deadline := some deadline, episodeId := some (state.episodeId.getD episodeId) }

/-- Whether no link that outlives `deadline` has been mailed for the episode. -/
def mailOwed (episodeId : String) (deadline : ℤ) (state : FactorState) : Bool :=
  decide (state.episodeId = some episodeId) &&
    match state.notifiedAt with
    | none => true
    | some t => decide (t < deadline - unlockTokenTtlMs)

/-- Starts or extends `factor`'s lock episode, reads back which episode won, and claims the mail
of a usable unlock link for it. Answers the episode a link is mailed for, if any. `newEpisodeId`
is the identity the request would mint. -/
def lockFactor (factor : LockoutFactor) (now : ℤ) (newEpisodeId : String)
    (extraFilter : FactorState → Bool) : Req ε (Option String) := do
  let deadline := now + lockoutDurationMs
  let locked ← .db ⟨factor, .lock⟩ <| updateFactor factor (fun u => extraFilter (u.state factor))
    (lockEpisode deadline newEpisodeId)
  if locked.isNone then pure none
  else do
    let current ← .read ⟨factor, .readEpisode⟩ fun s => s.bind fun u => (u.state factor).episodeId
    match current with
    | none => pure none
    | some episodeId =>
      -- an empty identity names no episode
      if episodeId.isEmpty then pure none
      else do
        let claimed ← .db ⟨factor, .claimMail⟩ <|
          updateFactor factor (fun u => mailOwed episodeId deadline (u.state factor))
            fun state => { state with notifiedAt := some now }
        pure (claimed.map fun _ => episodeId)

/-- Whether the counter is below the threshold. -/
def belowThreshold (state : FactorState) : Bool :=
  match state.failedAttempts with
  | none => true
  | some n => decide (n < maxLoginAttempts)

/-- The counter an increment leaves; without a match it is at the threshold already. -/
def countedAttempts (factor : LockoutFactor) : Option User → ℕ
  | some u => (u.state factor).failedAttempts.getD 0
  | none => maxLoginAttempts

/-- Counts one failed attempt, locks the factor at the threshold, and returns the counter. -/
def registerFailedAuthAttempt (factor : LockoutFactor) (now : ℤ) (newEpisodeId : String) :
    Req ε ℕ := do
  let incremented ← .db ⟨factor, .count⟩ <|
    updateFactor factor (fun u => belowThreshold (u.state factor)) fun state =>
      { state with failedAttempts := some (state.failedAttempts.getD 0 + 1) }
  let attempts := countedAttempts factor incremented
  if attempts < maxLoginAttempts then pure attempts
  else do
    let _ ← lockFactor factor now newEpisodeId fun _ => true
    pure attempts

/-- Pushes a running password lockout out, at most once an interval: only a deadline old enough
matches. `asked` and `now` are the two readings of the clock. -/
def extendPasswordLockout (asked now : ℤ) (newEpisodeId : String) : Req ε Unit := do
  let threshold := asked + lockoutDurationMs - lockoutExtensionIntervalMs
  let _ ← lockFactor .password now newEpisodeId fun state =>
    match state.deadline with
    | none => false
    | some t => decide (t < threshold)

/-- Clears one factor's lock episode if its state passes `filter`; says whether it did. -/
def discharge (factor : LockoutFactor) (why : Discharge) (filter : User → Bool) : Req ε Bool := do
  let cleared ← .db ⟨factor, .discharge why⟩ <|
    updateFactor factor filter fun _ => lockoutClearUpdate factor
  pure cleared.isSome

/-- Discharges a second-factor lockout whose deadline has passed. -/
def dischargeServedSecondFactor (now : ℤ) : Req ε Unit := do
  let _ ← discharge .secondFactor (.served now) fun u =>
    match (u.state .secondFactor).deadline with
    | none => false
    | some t => decide (t ≤ now)

/-- Discharges the lockout an unlock link named, while that episode is the stored one. Never on
an account being erased. -/
def dischargeUnlockedEpisode (factor : LockoutFactor) (episodeId : String) : Req ε Bool :=
  discharge factor (.unlocked episodeId) fun u =>
    decide ((u.state factor).episodeId = some episodeId) && !u.deletionPending

/-- Whether a loaded state has something a completed sign-in clears. The password's counter is
always stored; of the second factor any member is enough. -/
def clearable : LockoutFactor → FactorState → Bool
  | .password, state => decide (0 < state.failedAttempts.getD 0) || state.deadline.isSome
  | .secondFactor, state => state.failedAttempts.isSome || state.deadline.isSome ||
      state.episodeId.isSome || state.notifiedAt.isSome

/-- Clears one factor on completion, unless it was locked when the account was loaded. -/
def dischargeCompleted (factor : LockoutFactor) (loaded : User) (locked : Bool) (now : ℤ) :
    Req ε Unit :=
  if !locked && clearable factor (loaded.state factor) then do
    let _ ← discharge factor (.completed now) fun u => notRunning now (u.state factor)
  else pure ()

/-- What a completed authentication clears: each factor, except one whose lockout is running. -/
def dischargeOnCompletion (loaded : User) (passwordLocked secondFactorLocked : Bool) (now : ℤ) :
    Req ε Unit := do
  dischargeCompleted .password loaded passwordLocked now
  dischargeCompleted .secondFactor loaded secondFactorLocked now

/-- An operation of the brake, with what it reads off the clock and would mint. -/
inductive Operation where
  | registerFailedAuthAttempt (factor : LockoutFactor) (now : ℤ) (newEpisodeId : String)
  | extendPasswordLockout (asked now : ℤ) (newEpisodeId : String)
  | lockFactor (factor : LockoutFactor) (now : ℤ) (newEpisodeId : String)
      (extraFilter : FactorState → Bool)
  | dischargeServedSecondFactor (now : ℤ)
  | dischargeUnlockedEpisode (factor : LockoutFactor) (episodeId : String)
  | dischargeOnCompletion (loaded : User) (passwordLocked secondFactorLocked : Bool) (now : ℤ)

/-- The program of an operation; the answers do not matter to the others. -/
def Operation.prog : Operation → Req ε Unit
  | registerFailedAuthAttempt factor now newEpisodeId => do
    let _ ← Lockout.registerFailedAuthAttempt factor now newEpisodeId
  | extendPasswordLockout asked now newEpisodeId =>
    Lockout.extendPasswordLockout asked now newEpisodeId
  | lockFactor factor now newEpisodeId extraFilter => do
    let _ ← Lockout.lockFactor factor now newEpisodeId extraFilter
  | dischargeServedSecondFactor now => Lockout.dischargeServedSecondFactor now
  | dischargeUnlockedEpisode factor episodeId => do
    let _ ← Lockout.dischargeUnlockedEpisode factor episodeId
  | dischargeOnCompletion loaded passwordLocked secondFactorLocked now =>
    Lockout.dischargeOnCompletion loaded passwordLocked secondFactorLocked now

/-- Any operations on one account, whose accesses may fail in any of the given ways. -/
def lockoutSystem {ι : Type} (faults : Site → ε → Bool → Prop) :
    System ι Store Site ε Unit where
  admits _ p := ∃ op : Operation, p = op.prog
  faults

/-! ## The machine -/

/-- The state of one factor of the account, if it is there. -/
def stateOf (s : Store) (factor : LockoutFactor) : Option FactorState :=
  s.map fun u => u.state factor

/-- What holds of one factor: the counter stays at or below the threshold, and a deadline comes
with an episode. -/
def FactorState.Sound (state : FactorState) : Prop :=
  (∀ n, state.failedAttempts = some n → n ≤ maxLoginAttempts) ∧
    (state.deadline.isSome → state.episodeId.isSome)

/-- Both factors are sound. -/
def Sound (s : Store) : Prop :=
  ∀ factor state, stateOf s factor = some state → state.Sound

/-- What one write at a site may do. -/
structure Lawful (l : Site) (s s' : Store) : Prop where
  /-- It stays within its factor. -/
  other : ∀ factor, factor ≠ l.factor → stateOf s' factor = stateOf s factor
  /-- It touches nothing but a factor's state. -/
  rest : s'.map (·.deletionPending) = s.map (·.deletionPending)
  /-- An episode stays as it is until a discharge removes it. -/
  episode : ∀ state episodeId, stateOf s l.factor = some state →
    state.episodeId = some episodeId → ∃ state', stateOf s' l.factor = some state' ∧
      (state'.episodeId = some episodeId ∨
        (∃ why, l.statement = .discharge why) ∧ state' = lockoutClearUpdate l.factor)
  /-- An unlock link clears no episode but its own. -/
  unlocked : ∀ episodeId, l.statement = .discharge (.unlocked episodeId) → s' ≠ s →
    ∃ state, stateOf s l.factor = some state ∧ state.episodeId = some episodeId
  /-- A discharge for a time clears no deadline past it. -/
  timed : ∀ now state t, l.statement = .discharge (.served now) ∨
    l.statement = .discharge (.completed now) → stateOf s l.factor = some state →
    state.deadline = some t → now < t → s' = s

theorem lawful_same (l : Site) (s : Store) : Lawful l s s where
  other _ _ := rfl
  rest := rfl
  episode state _ hstate hepisode := ⟨state, hstate, .inl hepisode⟩
  unlocked _ _ hne := (hne rfl).elim
  timed _ _ _ _ _ _ _ := rfl

theorem stateOf_withState (u : User) (factor : LockoutFactor) (state : FactorState) :
    stateOf (some (u.withState factor state)) factor = some state := by
  simp [stateOf, User.withState]

theorem stateOf_withState_of_ne (u : User) {factor other : LockoutFactor} (state : FactorState)
    (h : other ≠ factor) :
    stateOf (some (u.withState factor state)) other = stateOf (some u) other := by
  simp [stateOf, User.withState, h]

variable (factor : LockoutFactor)

/-- A conditional update of a factor left everything alone, or found an account that passed its
filter. -/
theorem updateFactor_cases (filter : User → Bool) (update : FactorState → FactorState) (s : Store) :
    (updateFactor factor filter update s).2 = s ∨
      ∃ u, s = some u ∧ filter u = true ∧
        (updateFactor factor filter update s).2
          = some (u.withState factor (update (u.state factor))) := by
  cases s with
  | none => exact .inl rfl
  | some u =>
    by_cases hf : filter u = true
    · exact .inr ⟨u, rfl, hf, by simp [updateFactor, hf]⟩
    · exact .inl (by simp [updateFactor, hf])

variable {filter : User → Bool}

/-- The law of a write that is no discharge: it may do anything to its factor but lose the
episode. -/
theorem lawful_update {factor : LockoutFactor} {statement : Statement}
    {update : FactorState → FactorState} (hl : ∀ why, statement ≠ .discharge why)
    (hkeep : ∀ state episodeId, state.episodeId = some episodeId →
      (update state).episodeId = some episodeId) (s : Store) :
    Lawful ⟨factor, statement⟩ s (updateFactor factor filter update s).2 := by
  rcases updateFactor_cases factor filter update s with hs | ⟨u, rfl, -, hs⟩
  · rw [hs]
    exact lawful_same _ s
  · rw [hs]
    refine ⟨fun other hne => stateOf_withState_of_ne u _ hne, rfl, ?_, ?_, ?_⟩
    · intro state episodeId hstate hepisode
      cases hstate
      exact ⟨_, stateOf_withState u _ _, .inl (hkeep _ _ hepisode)⟩
    · intro episodeId hl'
      exact (hl _ hl').elim
    · intro now state t hl'
      exact (hl'.elim (hl _) (hl _)).elim

/-- The law of a discharge: its filter names the episode or bounds the deadline. -/
theorem lawful_discharge {factor : LockoutFactor} {why : Discharge}
    (hunlocked : ∀ episodeId u, why = .unlocked episodeId → filter u = true →
      (u.state factor).episodeId = some episodeId)
    (htimed : ∀ now u t, why = .served now ∨ why = .completed now → filter u = true →
      (u.state factor).deadline = some t → t ≤ now) (s : Store) :
    Lawful ⟨factor, .discharge why⟩ s
      (updateFactor factor filter (fun _ => lockoutClearUpdate factor) s).2 := by
  rcases updateFactor_cases factor filter (fun _ => lockoutClearUpdate factor) s with
    hs | ⟨u, rfl, hf, hs⟩
  · rw [hs]
    exact lawful_same _ s
  · rw [hs]
    refine ⟨fun other hne => stateOf_withState_of_ne u _ hne, rfl, ?_, ?_, ?_⟩
    · intro state episodeId hstate hepisode
      exact ⟨_, stateOf_withState u _ _, .inr ⟨⟨why, rfl⟩, rfl⟩⟩
    · intro episodeId hl _
      have hwhy : why = .unlocked episodeId := by simpa using hl
      exact ⟨_, rfl, hunlocked episodeId u hwhy hf⟩
    · intro now state t hl hstate ht hlt
      have hwhy : why = .served now ∨ why = .completed now := by simpa using hl
      cases hstate
      have := htimed now u t hwhy hf ht
      omega

/-- A write that keeps its factor sound keeps both sound. -/
theorem sound_updateFactor {factor : LockoutFactor} {update : FactorState → FactorState}
    {s : Store} (h : Sound s)
    (hupdate : ∀ u, filter u = true → (u.state factor).Sound → (update (u.state factor)).Sound) :
    Sound (updateFactor factor filter update s).2 := by
  rcases updateFactor_cases factor filter update s with hs | ⟨u, rfl, hf, hs⟩
  · rw [hs]
    exact h
  · rw [hs]
    intro other state hstate
    by_cases hother : other = factor
    · subst hother
      rw [stateOf_withState] at hstate
      cases hstate
      exact hupdate u hf (h other _ rfl)
    · rw [stateOf_withState_of_ne u _ hother] at hstate
      exact h other state hstate

theorem sound_lockEpisode {deadline : ℤ} {episodeId : String} {state : FactorState}
    (h : state.Sound) : (lockEpisode deadline episodeId state).Sound :=
  ⟨h.1, fun _ => rfl⟩

theorem sound_counted {state : FactorState} (h : state.Sound) (hbelow : belowThreshold state = true) :
    FactorState.Sound { state with failedAttempts := some (state.failedAttempts.getD 0 + 1) } := by
  refine ⟨?_, h.2⟩
  intro n hn
  cases hn
  cases ha : state.failedAttempts with
  | none =>
    show 0 + 1 ≤ maxLoginAttempts
    decide
  | some n =>
    -- the filter of the increment matches only a counter below the threshold
    have hlt : n < maxLoginAttempts := by simpa [belowThreshold, ha] using hbelow
    show n + 1 ≤ maxLoginAttempts
    omega

theorem sound_clear : (lockoutClearUpdate factor).Sound := by
  cases factor with
  | password => exact ⟨fun n hn => by cases hn; decide, nofun⟩
  | secondFactor => exact ⟨nofun, nofun⟩

/-! ## The operations obey the law -/

/-- A write of a sound account obeys the law and leaves a sound account. -/
def Obeys (l : Site) (s s' : Store) : Prop := Lawful l s s' ∧ Sound s'

theorem each_lockFactor (now : ℤ) (newEpisodeId : String) (extraFilter : FactorState → Bool) :
    (lockFactor factor now newEpisodeId extraFilter : Req ε _).Each Sound Obeys := by
  refine .bind (each_db fun s hs => ⟨lawful_update (by simp) ?_ s,
    sound_updateFactor hs fun u _ h => sound_lockEpisode h⟩) fun locked => ?_
  · -- a running episode keeps its identity
    intro state episodeId hepisode
    simp [lockEpisode, hepisode]
  split
  · exact trivial
  · refine .bind (each_read fun s hs => ⟨lawful_same _ s, hs⟩) fun current => ?_
    split
    · exact trivial
    · split
      · exact trivial
      · refine .bind (each_db fun s hs =>
          ⟨lawful_update (by simp) (by simp) s,
            sound_updateFactor hs fun u _ h => h⟩) fun _ => trivial

theorem each_registerFailedAuthAttempt (now : ℤ) (newEpisodeId : String) :
    (registerFailedAuthAttempt factor now newEpisodeId : Req ε _).Each Sound Obeys := by
  refine .bind (each_db fun s hs =>
    ⟨lawful_update (by simp) (by simp) s,
      sound_updateFactor hs fun u hf h => sound_counted h hf⟩) fun incremented => ?_
  show Prog.Each Sound Obeys (ite _ _ _)
  split
  · exact trivial
  · exact .bind (each_lockFactor factor now newEpisodeId _) fun _ => trivial

theorem each_discharge {factor : LockoutFactor} {why : Discharge}
    (hunlocked : ∀ episodeId u, why = .unlocked episodeId → filter u = true →
      (u.state factor).episodeId = some episodeId)
    (htimed : ∀ now u t, why = .served now ∨ why = .completed now → filter u = true →
      (u.state factor).deadline = some t → t ≤ now) :
    (discharge factor why filter : Req ε _).Each Sound Obeys :=
  .bind (each_db fun s hs => ⟨lawful_discharge hunlocked htimed s,
    sound_updateFactor hs fun _ _ _ => sound_clear factor⟩) fun _ => trivial

theorem each_dischargeServedSecondFactor (now : ℤ) :
    (dischargeServedSecondFactor now : Req ε _).Each Sound Obeys := by
  refine .bind (each_discharge nofun ?_) fun _ => trivial
  intro now' u t hwhy hf ht
  have hnow : now = now' := by simpa using hwhy
  simpa [ht, hnow] using hf

theorem each_dischargeUnlockedEpisode (episodeId : String) :
    (dischargeUnlockedEpisode factor episodeId : Req ε _).Each Sound Obeys := by
  refine each_discharge ?_ fun _ _ _ h => by simp at h
  intro episodeId' u hwhy hf
  cases hwhy
  simp only [Bool.and_eq_true, decide_eq_true_eq] at hf
  exact hf.1

theorem each_dischargeCompleted (loaded : User) (locked : Bool) (now : ℤ) :
    (dischargeCompleted factor loaded locked now : Req ε _).Each Sound Obeys := by
  unfold dischargeCompleted
  split
  · refine .bind (each_discharge nofun ?_) fun _ => trivial
    intro now' u t hwhy hf ht
    have hnow : now = now' := by simpa using hwhy
    simpa [notRunning, ht, hnow] using hf
  · exact trivial

theorem each_prog (op : Operation) : (op.prog : Req ε _).Each Sound Obeys := by
  cases op with
  | registerFailedAuthAttempt factor now newEpisodeId =>
    exact .bind (each_registerFailedAuthAttempt factor now newEpisodeId) fun _ => trivial
  | extendPasswordLockout asked now newEpisodeId =>
    exact .bind (each_lockFactor .password now newEpisodeId _) fun _ => trivial
  | lockFactor factor now newEpisodeId extraFilter =>
    exact .bind (each_lockFactor factor now newEpisodeId extraFilter) fun _ => trivial
  | dischargeServedSecondFactor now => exact each_dischargeServedSecondFactor now
  | dischargeUnlockedEpisode factor episodeId =>
    exact .bind (each_dischargeUnlockedEpisode factor episodeId) fun _ => trivial
  | dischargeOnCompletion loaded passwordLocked secondFactorLocked now =>
    exact .bind (each_dischargeCompleted .password loaded passwordLocked now) fun _ =>
      each_dischargeCompleted .secondFactor loaded secondFactorLocked now

/-- **The lockout state machine.** In every interleaving of any operations on one account, both
factors are sound in every state, and every step obeys the law of its site. -/
theorem lockout_machine {ι : Type} [DecidableEq ι] (faults : Site → ε → Bool → Prop)
    {s₀ : Store} (h₀ : Sound s₀) {c : Config ι Store Site ε Unit}
    (h : Reach (lockoutSystem faults) (Config.start s₀) c) :
    Sound c.store ∧ ∀ i l c', CStep (lockoutSystem faults) c (some (i, l)) c' →
      Lawful l c.store c'.store := by
  have heach : ∀ (i : ι) p, (lockoutSystem (ι := ι) faults).admits i p → p.Each Sound Obeys := by
    intro i p ⟨op, hp⟩
    exact hp ▸ each_prog op
  have hrun := Reaches.each heach (fun _ _ _ _ _ _ h => h.2) h₀ h
  refine ⟨hrun.1, fun i l c' hstep => ?_⟩
  rcases hstep.each (T := fun _ => Obeys) hrun.1 (hrun.2 i) with hs | hs
  · rw [hs]
    exact lawful_same l c.store
  · exact hs.1

/-- An account one failure from the threshold. -/
def nearlyLocked : User where
  state
    | .password => ⟨some 9, none, none, none⟩
    | .secondFactor => lockoutClearUpdate .secondFactor
  deletionPending := false

/-- The tenth failure locks the account, and the link it mails discharges the lock; the machine holds
of both states and of what comes next. -/
theorem lockout_machine_locks_and_discharges :
    let S := lockoutSystem (ι := ℕ) (ε := Unit) fun _ _ _ => True
    ∃ c c', Reach S (Config.start (some nearlyLocked)) c ∧ Reach S c c' ∧
      stateOf c.store .password = some ⟨some 10, some lockoutDurationMs, some "episode", some 0⟩ ∧
      stateOf c'.store .password = some (lockoutClearUpdate .password) ∧
      ∀ d, d = c ∨ d = c' → Sound d.store ∧ ∀ i l next, CStep S d (some (i, l)) next →
        Lawful l d.store next.store := by
  intro S
  have h₀ : Sound (some nearlyLocked) := by
    intro factor state hstate
    cases hstate
    cases factor with
    | password => exact ⟨by decide, nofun⟩
    | secondFactor => exact sound_clear .secondFactor
  obtain ⟨q, hlock⟩ := Reach.visit (S := S) (c := Config.start (some nearlyLocked)) .refl rfl
    ⟨.registerFailedAuthAttempt .password 0 "episode", rfl⟩
  obtain ⟨q', hdischarge⟩ := Reach.visit (S := S) (i := 1)
    (c := ⟨_, Function.update (Config.start (some nearlyLocked)).threads 0 (some q)⟩) .refl rfl
    ⟨.dischargeUnlockedEpisode .password "episode", rfl⟩
  refine ⟨_, _, hlock, hdischarge, by dsimp only; decide, by dsimp only; decide, ?_⟩
  rintro d (rfl | rfl)
  · exact lockout_machine _ h₀ hlock
  · exact lockout_machine _ h₀ (hlock.trans hdischarge)

end HVault.Lockout
