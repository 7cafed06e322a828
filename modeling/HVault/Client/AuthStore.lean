import HVault.Client.SessionFailure
import HVault.Interleave.Runs

/-!
# The authentication store of a tab

The actions of the store are asynchronous: each reads the store when it begins, awaits key
derivations and the server, and writes the store when the answer is there. An action that is under
way is a frame with what it has read; its events say how its awaits end, in any order among the
actions. What an action does between two awaits without touching the store is left out.

A key is a number, one for each key object; a `Wrapper` is a stored blob together with the key inside
it and the generation of that key.
-/

namespace HVault.AuthStore

open Interleave Client

/-! ## Data -/

structure Wrapper where
  encrypted : String
  key : ℕ
  generation : ℕ
  deriving DecidableEq, Repr

structure AuthUser where
  userId : String
  email : String
  deriving DecidableEq, Repr

/-- The answer that completes a sign-in: its wrapper comes with its true generation. -/
structure LoginData where
  accessToken : String
  userId : String
  wrapper : Wrapper
  vaultKeyVersion : Option ℕ
  kdfIterations : ℕ
  genuine : vaultKeyVersion.getD 0 = wrapper.generation
  deriving DecidableEq, Repr

/-- The answer to a sign-in under the first vault key. -/
def firstLogin : LoginData where
  accessToken := "token"
  userId := "u"
  wrapper := ⟨"old", 10, 0⟩
  vaultKeyVersion := none
  kdfIterations := 600000
  genuine := rfl

inductive LoginAnswer where
  | twoFactorRequired (tempToken : String)
  | session (data : LoginData)
  deriving DecidableEq, Repr

/-- The wrapper that `verify-unlock` answers with, and its true generation. -/
structure VerifyUnlockResult where
  wrapper : Wrapper
  vaultKeyVersion : ℕ
  genuine : vaultKeyVersion = wrapper.generation
  deriving DecidableEq, Repr

/-- What the store keeps. -/
structure Store where
  accessToken : Option String
  user : Option AuthUser
  isAuthenticated : Bool
  isLocked : Bool
  vaultKey : Option ℕ
  mek : Option ℕ
  encryptedVaultKeyData : Option Wrapper
  vaultKeyVersion : ℕ
  kdfIterations : ℕ
  lockReason : Option String
  twoFactorRequired : Bool
  tempToken : Option String
  twoFactorTimeoutId : Option ℕ
  rememberMe : Bool
  isLoading : Bool
  deriving DecidableEq, Repr

def defaultKdfIterations : ℕ := 600000

/-- The state of a store holding no session. -/
def signedOutState : Store where
  accessToken := none
  user := none
  isAuthenticated := false
  isLocked := false
  vaultKey := none
  mek := none
  encryptedVaultKeyData := none
  vaultKeyVersion := 0
  kdfIterations := defaultKdfIterations
  lockReason := none
  twoFactorRequired := false
  tempToken := none
  twoFactorTimeoutId := none
  rememberMe := false
  isLoading := false

/-! ## Actions under way -/

/-- What `verify2fa` has read. -/
structure Verifying where
  tempToken : String
  mek : ℕ
  user : Option AuthUser
  timeoutId : Option ℕ
  rememberMe : Bool
  deriving DecidableEq, Repr

/-- What `unlock` has read, and the wrapper it opens. `effects` and `locks` are the counts of the tab
when it began. -/
structure Unlocking where
  user : AuthUser
  wrapper : Wrapper
  live : Option VerifyUnlockResult
  effects : ℕ
  locks : ℕ
  deriving DecidableEq, Repr

inductive Action where
  | login (email : String) (rememberMe : Bool)
  | verify2fa (frame : Verifying)
  | unlock (frame : Unlocking)
  /-- An unlock that has stored its key. -/
  | unlocked
  /-- A logout that awaits the server. -/
  | logout
  | refresh
  | over
  deriving DecidableEq, Repr

/-- The store of a tab, the actions under way in it, its abandon timers with the key each was set
for, and the remember hint.

The rest is a record of what has taken effect: how many locks, logouts and sign-ins, how many locks,
whether a logout has reset the store and no sign-in has completed since, and for every unlock that
stored its key the effects before its begin and before its end. -/
structure Tab where
  store : Store
  actions : ℕ → Option Action
  actionCount : ℕ
  timers : ℕ → Option ℕ
  rememberHint : Bool
  effects : ℕ
  locks : ℕ
  signedOut : Bool
  unlocks : List (ℕ × ℕ)

/-- What survives a reload: the wrapper is persisted together with its generation. -/
structure Persisted where
  user : Option AuthUser
  isAuthenticated : Bool
  encryptedVaultKeyData : Option Wrapper
  vaultKeyVersion : ℕ
  kdfIterations : ℕ
  genuine : ∀ w ∈ encryptedVaultKeyData, vaultKeyVersion = w.generation

/-- Nothing persisted. -/
def Persisted.none : Persisted := ⟨.none, false, .none, 0, defaultKdfIterations, nofun⟩

/-- A tab is loaded: an authenticated session is rehydrated locked. -/
def Tab.load (persisted : Persisted) (rememberHint : Bool) : Tab where
  store := { signedOutState with
    user := persisted.user
    isAuthenticated := persisted.isAuthenticated
    encryptedVaultKeyData := persisted.encryptedVaultKeyData
    vaultKeyVersion := persisted.vaultKeyVersion
    kdfIterations := persisted.kdfIterations
    isLocked := persisted.isAuthenticated }
  actions _ := .none
  actionCount := 0
  timers _ := .none
  rememberHint := rememberHint
  effects := 0
  locks := 0
  signedOut := false
  unlocks := []

namespace Tab

def setAction (a : ℕ) (action : Action) (s : Tab) : Tab :=
  { s with actions := Function.update s.actions a (some action) }

def begin (action : Action) (s : Tab) : Tab :=
  { s.setAction s.actionCount action with actionCount := s.actionCount + 1 }

def clearTimeout (timeoutId : Option ℕ) (s : Tab) : Tab :=
  { s with timers := fun t => if timeoutId = some t then none else s.timers t }

/-! ## login and verify2fa -/

def login (email : String) (rememberMe : Bool) (s : Tab) : Tab :=
  if s.store.isLoading then s
  else { s.begin (.login email rememberMe) with store := { s.store with isLoading := true } }

/-- The key that action `a` derives is the object `a`; its abandon timer is `a` too. -/
def loginAnswered (a : ℕ) (email : String) (rememberMe : Bool) (answer : LoginAnswer) (s : Tab) :
    Tab :=
  match answer with
  | .twoFactorRequired tempToken =>
    { s with
      store := { s.store with
        twoFactorRequired := true
        tempToken := some tempToken
        mek := some a
        user := some ⟨"", email⟩
        rememberMe := rememberMe
        isLoading := false
        twoFactorTimeoutId := some a }
      timers := Function.update s.timers a (some a) }
  | .session data =>
    { s with
      store := { s.store with
        accessToken := some data.accessToken
        user := some ⟨data.userId, email⟩
        isAuthenticated := true
        isLocked := false
        vaultKey := some data.wrapper.key
        mek := some a
        encryptedVaultKeyData := some data.wrapper
        vaultKeyVersion := data.vaultKeyVersion.getD 0
        kdfIterations := data.kdfIterations
        twoFactorRequired := false
        tempToken := none
        rememberMe := false
        isLoading := false }
      rememberHint := rememberMe
      effects := s.effects + 1
      signedOut := false }

def loginFailed (s : Tab) : Tab := { s with store := { s.store with isLoading := false } }

/-- What a second factor that cannot be retried leaves behind. -/
def abandon2fa (s : Tab) : Tab :=
  { s.clearTimeout s.store.twoFactorTimeoutId with
    store := { s.store with
      mek := none
      twoFactorRequired := false
      tempToken := none
      twoFactorTimeoutId := none
      isLoading := false } }

def verify2fa (s : Tab) : Tab :=
  if s.store.isLoading then s
  else
    match s.store.tempToken.filter (· ≠ ""), s.store.mek with
    | some tempToken, some mek =>
      { s.begin (.verify2fa ⟨tempToken, mek, s.store.user, s.store.twoFactorTimeoutId,
          s.store.rememberMe⟩) with store := { s.store with isLoading := true } }
    -- thrown inside its own `try`, and no failure of a request
    | _, _ => s.abandon2fa

def verified (frame : Verifying) (data : LoginData) (s : Tab) : Tab :=
  { s.clearTimeout frame.timeoutId with
    store := { s.store with
      accessToken := some data.accessToken
      user := some ⟨data.userId, (frame.user.map (·.email)).getD ""⟩
      isAuthenticated := true
      isLocked := false
      vaultKey := some data.wrapper.key
      mek := some frame.mek
      encryptedVaultKeyData := some data.wrapper
      vaultKeyVersion := data.vaultKeyVersion.getD 0
      kdfIterations := data.kdfIterations
      twoFactorRequired := false
      tempToken := none
      twoFactorTimeoutId := none
      rememberMe := false
      isLoading := false }
    rememberHint := frame.rememberMe
    effects := s.effects + 1
    signedOut := false }

def verifyFailed (failure : Failure) (s : Tab) : Tab :=
  -- an error of a request, and one that does not say that the second factor is dead
  if failure ≠ .other ∧ failure.is2faSessionDead = false then
    { s with store := { s.store with isLoading := false } }
  else s.abandon2fa

/-- The abandon timer `t`, set for the key `mekRef`. -/
def timer (t mekRef : ℕ) (s : Tab) : Tab :=
  let s := { s with timers := Function.update s.timers t none }
  if s.store.twoFactorRequired ∧ s.store.mek = some mekRef then
    { s with store := { s.store with
      mek := none, twoFactorRequired := false, tempToken := none, twoFactorTimeoutId := none } }
  else s

/-! ## unlock and lock -/

/-- The begin of an unlock, unless there is no email or nothing to open. -/
def unlock (live : Option VerifyUnlockResult) (s : Tab) : Tab :=
  match s.store.user, (live.map (·.wrapper)).or s.store.encryptedVaultKeyData with
  | some user, some wrapper =>
    if user.email = "" then s
    else s.begin (.unlock ⟨user, wrapper, live, s.effects, s.locks⟩)
  | _, _ => s

/-- Still the session this unlock began for? -/
def SameSession (frame : Unlocking) (s : Tab) : Prop :=
  s.store.user.map (·.userId) = some frame.user.userId ∧ s.store.isAuthenticated = true ∧
    s.store.isLocked = true

instance (frame : Unlocking) (s : Tab) : Decidable (s.SameSession frame) :=
  inferInstanceAs (Decidable (_ ∧ _))

/-- The wrapper has been opened. The number moves only with a live wrapper. -/
def unlockOpened (a : ℕ) (frame : Unlocking) (s : Tab) : Tab :=
  if s.SameSession frame then
    { s.setAction a .unlocked with
      store :=
        match frame.live with
        | some live => { s.store with
            vaultKey := some frame.wrapper.key
            mek := some a
            lockReason := none
            encryptedVaultKeyData := some frame.wrapper
            vaultKeyVersion := live.vaultKeyVersion }
        | none => { s.store with
            vaultKey := some frame.wrapper.key, mek := some a, lockReason := none }
      unlocks := s.unlocks ++ [(frame.effects, s.effects)] }
  else s.setAction a .over

/-- The route unlocks the screen. -/
def lowered (a : ℕ) (s : Tab) : Tab :=
  { s.setAction a .over with store := { s.store with isLocked := false } }

def lock (reason : Option String) (s : Tab) : Tab :=
  { s with
    store := { s.store with vaultKey := none, mek := none, isLocked := true, lockReason := reason }
    effects := s.effects + 1
    locks := s.locks + 1 }

/-! ## logout and the access token -/

/-- The part of a logout after the server has answered, or could not be asked. -/
def reset (s : Tab) : Tab :=
  { s.clearTimeout s.store.twoFactorTimeoutId with
    store := signedOutState
    rememberHint := false
    effects := s.effects + 1
    signedOut := true }

def logout (s : Tab) : Tab :=
  if s.store.accessToken.getD "" = "" then s.reset else s.begin .logout

/-- The end of `performTokenRefresh`. -/
def setAccessToken (token : String) (s : Tab) : Tab :=
  { s with store := { s.store with accessToken := some token } }

end Tab

/-! ## Events -/

inductive Event where
  | login (email : String) (rememberMe : Bool)
  | loginAnswered (a : ℕ) (answer : LoginAnswer)
  | loginFailed (a : ℕ)
  | verify2fa
  | verified (a : ℕ) (data : LoginData)
  | verifyFailed (a : ℕ) (failure : Failure)
  | timer (t : ℕ)
  | unlock (live : Option VerifyUnlockResult)
  | unlockOpened (a : ℕ)
  | unlockFailed (a : ℕ)
  | lowered (a : ℕ)
  | lock (reason : Option String)
  | logout
  | reset (a : ℕ)
  | refresh
  | refreshed (a : ℕ) (token : String)
  | refreshFailed (a : ℕ)
  deriving DecidableEq, Repr

/-- The end of an await of action `a`; `none` where that action awaits something else. -/
def Tab.resume (s : Tab) (a : ℕ) (action : Action) (e : Event) : Option Tab :=
  match action, e with
  | .login email rememberMe, .loginAnswered _ answer =>
    some ((s.loginAnswered a email rememberMe answer).setAction a .over)
  | .login _ _, .loginFailed _ => some (s.loginFailed.setAction a .over)
  | .verify2fa frame, .verified _ data => some ((s.verified frame data).setAction a .over)
  | .verify2fa _, .verifyFailed _ failure => some ((s.verifyFailed failure).setAction a .over)
  | .unlock frame, .unlockOpened _ => some (s.unlockOpened a frame)
  | .unlock _, .unlockFailed _ => some (s.setAction a .over)
  | .unlocked, .lowered _ => some (s.lowered a)
  | .logout, .reset _ => some (s.reset.setAction a .over)
  | .refresh, .refreshed _ token => some ((s.setAccessToken token).setAction a .over)
  | .refresh, .refreshFailed _ => some (s.setAction a .over)
  | _, _ => none

/-- The action an event goes on with. -/
def Event.target : Event → Option ℕ
  | loginAnswered a _ | loginFailed a | verified a _ | verifyFailed a _ | unlockOpened a
  | unlockFailed a | lowered a | reset a | refreshed a _ | refreshFailed a => some a
  | login _ _ | verify2fa | timer _ | unlock _ | lock _ | logout | refresh => none

def Tab.step (s : Tab) (e : Event) : Option Tab :=
  match e with
  | .login email rememberMe => some (s.login email rememberMe)
  | .verify2fa => some s.verify2fa
  | .timer t => (s.timers t).map fun mekRef => s.timer t mekRef
  | .unlock live => some (s.unlock live)
  | .lock reason => some (s.lock reason)
  | .logout => some s.logout
  | .refresh => some (s.begin .refresh)
  | e => e.target.bind fun a => (s.actions a).bind fun action => s.resume a action e

/-- The action an event goes on with is under way. -/
theorem Tab.step_target {s s' : Tab} {e : Event} {a : ℕ} (he : e.target = some a)
    (hs : s.step e = some s') : ∃ action, s.actions a = some action ∧
      s.resume a action e = some s' := by
  unfold Tab.step at hs
  split at hs <;> try cases he
  rw [he, Option.bind_some] at hs
  exact Option.bind_eq_some_iff.1 hs

end HVault.AuthStore
