import HVault.Client.SessionFailure
import HVault.Interleave.Runs

/-!
# The response interceptor of the API client

A request that is answered 401 waits for a refresh of the access token and is sent again. The first
one drives the refresh, the ones that come while it is under way queue behind it. The refresh is a
request of the same client, so that it goes through the interceptor itself.

Before a state-changing request is sent, a CSRF token is awaited. When the fetch of one fails, its
error carries the configuration of the fetch, and the interceptor takes it for that of the request.
-/

namespace HVault.Interceptor

open Interleave Client

/-! ## The client -/

/-- The configuration of a request, with the marks that the interceptor leaves on it. -/
structure Config where
  url : String
  method : String
  skipAuthRefresh : Bool := false
  retry : Bool := false
  csrfRetry : Bool := false
  deriving DecidableEq, Repr

def csrfSafeMethods : List String := ["GET", "HEAD", "OPTIONS"]

/-- The method, in upper case, is not a safe one. -/
def Config.isStateChanging (c : Config) : Bool :=
  c.method.toList.map Char.toUpper ∉ csrfSafeMethods.map String.toList

def refreshConfig : Config := { url := "/auth/refresh", method := "post" }

/-- The configuration of a fetch of a CSRF token, made outside the API client. -/
def tokenConfig : Config := { url := "/api/v1/csrf-token", method := "get" }

/-- What a refresh reads of a body: whether it says it failed, and its token if that is a string. -/
structure Body where
  unsuccessful : Bool
  accessToken : Option String
  deriving DecidableEq, Repr

/-- How far a request has come. -/
inductive Stage where
  /-- The request interceptor awaits a CSRF token. -/
  | preparing
  | sent
  /-- A fresh token is awaited, for the replay of what was refused with this failure. -/
  | replaying (refusal : Failure)
  | queued
  /-- The refresh it queued behind has succeeded. -/
  | resumed
  /-- It awaits the refresh it started, whose own request is `post` once the lock is held. -/
  | driving (post : Option ℕ)
  | loggingOut (failure : Failure)
  | fulfilled (body : Body)
  | rejected (failure : Failure)
  deriving DecidableEq, Repr

def Stage.isSettled : Stage → Bool
  | fulfilled _ | rejected _ => true
  | _ => false

def Stage.isDriving : Stage → Bool
  | driving _ => true
  | _ => false

/-- A request and its configuration. The counters are how often it was sent, replayed after a CSRF
rejection, replayed after a refresh, queued, and released from the queue. -/
structure Request where
  config : Config
  stage : Stage
  sends : ℕ := 0
  csrfReplays : ℕ := 0
  refreshReplays : ℕ := 0
  queuings : ℕ := 0
  releases : ℕ := 0
  deriving DecidableEq, Repr

/-- The module state of one tab, its access token, and the requests made in it. `refreshFailures`
and `logouts` record what refreshes failed with, and for which of these the interceptor logged
out. -/
structure Tab where
  isRefreshing : Bool
  pendingRequests : List ℕ
  accessToken : Bool
  requests : ℕ → Option Request
  requestCount : ℕ
  refreshFailures : List Failure
  logouts : List Failure

def freshTab : Tab := ⟨false, [], false, fun _ => none, 0, [], []⟩

namespace Tab

def set (s : Tab) (r : ℕ) (req : Request) : Tab :=
  { s with requests := Function.update s.requests r (some req) }

end Tab

/-- `api(config)`: a state-changing request awaits its CSRF token first. -/
def Request.send (req : Request) : Request :=
  if req.config.isStateChanging then { req with stage := .preparing }
  else { req with stage := .sent, sends := req.sends + 1 }

namespace Tab

def request (config : Config) (s : Tab) : Tab :=
  { s.set s.requestCount (Request.send { config, stage := .preparing }) with
    requestCount := s.requestCount + 1 }

/-- The error handler of the response interceptor. -/
def onError (r : ℕ) (req : Request) (failure : Failure) (s : Tab) : Tab :=
  if failure.status = some 403 ∧ req.config.isStateChanging ∧ req.config.csrfRetry = false ∧
      failure.isCsrfRejection then
    s.set r { req with
      config := { req.config with csrfRetry := true }, stage := .replaying failure }
  else if failure.status ≠ some 401 ∨ req.config.retry then
    s.set r { req with stage := .rejected failure }
  -- no refresh of a refresh or a logout
  else if req.config.url = "/auth/refresh" ∨ req.config.url = "/auth/logout" then
    s.set r { req with stage := .rejected failure }
  else if failure.isMasterPasswordRefusal then s.set r { req with stage := .rejected failure }
  else if req.config.skipAuthRefresh then s.set r { req with stage := .rejected failure }
  else if s.accessToken = false then s.set r { req with stage := .rejected failure }
  else if s.isRefreshing then
    { s.set r { req with stage := .queued, queuings := req.queuings + 1 } with
      pendingRequests := s.pendingRequests ++ [r] }
  else
    { s.set r { req with config := { req.config with retry := true }, stage := .driving none } with
      isRefreshing := true }

/-- Settles the promises of a queue, all with the same outcome. -/
def flush (stage : Stage) (s : Tab) : Tab :=
  { s with
    requests := fun r =>
      if r ∈ s.pendingRequests then
        (s.requests r).map fun req => { req with stage, releases := req.releases + 1 }
      else s.requests r
    pendingRequests := []
    isRefreshing := false }

def onRefreshSuccess (s : Tab) : Tab := s.flush .resumed

def onRefreshFailure (failure : Failure) (s : Tab) : Tab := s.flush (.rejected failure)

end Tab

/-- The end of `performTokenRefresh`: a body without a token is an error of its own. -/
def refreshOutcome : Stage → Option (Except Failure Unit)
  | .fulfilled body =>
    some (if body.unsuccessful ∨ body.accessToken.getD "" = "" then .error .other else .ok ())
  | .rejected failure => some (.error failure)
  | _ => none

namespace Tab

/-- The driver of a refresh goes on when the refresh has settled. -/
def refreshSettled (r : ℕ) (req : Request) (outcome : Except Failure Unit) (s : Tab) : Tab :=
  match outcome with
  | .ok () =>
    let s := { s with accessToken := true }.onRefreshSuccess
    s.set r (Request.send { req with refreshReplays := req.refreshReplays + 1 })
  | .error failure =>
    let s := { s.onRefreshFailure failure with refreshFailures := s.refreshFailures ++ [failure] }
    if failure.isSessionGone then
      { s.set r { req with stage := .loggingOut failure } with logouts := s.logouts ++ [failure] }
    else s.set r { req with stage := .rejected failure }

end Tab

inductive Event where
  /-- A caller makes a request. -/
  | request (url method : String) (skipAuthRefresh : Bool)
  /-- Something else signs in, refreshes or signs out. -/
  | accessToken (present : Bool)
  /-- The CSRF token of a request is there, or its fetch has failed. -/
  | token (r : ℕ)
  | tokenFailure (r : ℕ) (failure : Failure)
  | answer (r : ℕ) (body : Body)
  | refusal (r : ℕ) (failure : Failure)
  /-- The same for the token of a CSRF replay. -/
  | freshToken (r : ℕ)
  | freshTokenFailure (r : ℕ)
  /-- The lock of a refresh is granted, or given up. -/
  | lock (r : ℕ)
  | refreshSettled (r : ℕ)
  | resume (r : ℕ)
  | loggedOut (r : ℕ)
  deriving DecidableEq, Repr

/-- What an event does to the request it is about; `none` where it cannot happen. -/
def Tab.advance (s : Tab) (r : ℕ) (req : Request) (e : Event) : Option Tab :=
  match req.stage, e with
  | .preparing, .token _ => some (s.set r { req with stage := .sent, sends := req.sends + 1 })
  -- the error is the token fetch's own, and so is the configuration it carries
  | .preparing, .tokenFailure _ failure =>
    some (s.onError r { req with config := tokenConfig } failure)
  | .sent, .answer _ body => some (s.set r { req with stage := .fulfilled body })
  | .sent, .refusal _ failure => some (s.onError r req failure)
  | .replaying _, .freshToken _ =>
    some (s.set r (Request.send { req with csrfReplays := req.csrfReplays + 1 }))
  | .replaying refusal, .freshTokenFailure _ => some (s.set r { req with stage := .rejected refusal })
  | .driving none, .lock _ =>
    some (s.request refreshConfig |>.set r { req with stage := .driving (some s.requestCount) })
  | .driving (some post), .refreshSettled _ =>
    ((s.requests post).bind fun p => refreshOutcome p.stage).map fun outcome =>
      s.refreshSettled r req outcome
  | .resumed, .resume _ =>
    some (s.set r (Request.send { req with
      config := { req.config with retry := true }, refreshReplays := req.refreshReplays + 1 }))
  | .loggingOut failure, .loggedOut _ => some (s.set r { req with stage := .rejected failure })
  | _, _ => none

/-- The request an event is about, if it is about one that was made before. -/
def Event.target : Event → Option ℕ
  | request _ _ _ | accessToken _ => none
  | token r | tokenFailure r _ | answer r _ | refusal r _ | freshToken r | freshTokenFailure r
  | lock r | refreshSettled r | resume r | loggedOut r => some r

def Tab.step (s : Tab) (e : Event) : Option Tab :=
  match e with
  | .request url method skipAuthRefresh => some (s.request { url, method, skipAuthRefresh })
  | .accessToken present => some { s with accessToken := present }
  | e => e.target.bind fun r => (s.requests r).bind fun req => s.advance r req e

/-! ## What is asked of it -/

namespace Tab

/-- Whether a request drives a refresh. -/
def Drives (s : Tab) (r : ℕ) : Prop := ∃ req, s.requests r = some req ∧ req.stage.isDriving

/-- No answer is left to arrive and nothing is left to run. -/
def Quiet (s : Tab) : Prop := ∀ e, e.target.isSome → s.step e = none

end Tab

/-- The law of the interceptor. -/
structure Handles (s : Tab) : Prop where
  single : ∀ r r', s.Drives r → s.Drives r' → r = r'
  flag : s.isRefreshing = true ↔ ∃ r, s.Drives r
  queued : ∀ r, r ∈ s.pendingRequests ↔ ∃ req, s.requests r = some req ∧ req.stage = .queued
  waits : s.pendingRequests ≠ [] → s.isRefreshing = true
  /-- Queued requests are released once each. -/
  released : ∀ r req, s.requests r = some req →
    req.queuings = req.releases + if req.stage = .queued then 1 else 0
  sends : ∀ r req, s.requests r = some req →
    req.sends ≤ 1 + req.csrfReplays + req.refreshReplays ∧
      req.csrfReplays ≤ 1 ∧ req.refreshReplays ≤ 1
  settles : s.Quiet → ∀ r req, s.requests r = some req → req.stage.isSettled = true
  logouts : ∀ failure ∈ s.logouts, failure ∈ s.refreshFailures ∧ failure.isSessionGone = true

/-- No fetch of a CSRF token is answered 401. -/
def TokensNotRefused (_ : Tab) : Event → Prop
  | .tokenFailure _ failure => failure.status ≠ some 401
  | _ => True

instance : ∀ (s : Tab) (e : Event), Decidable (TokensNotRefused s e)
  | _, .tokenFailure _ failure => inferInstanceAs (Decidable (failure.status ≠ some 401))
  | _, .request _ _ _ | _, .accessToken _ | _, .token _ | _, .answer _ _ | _, .refusal _ _
  | _, .freshToken _ | _, .freshTokenFailure _ | _, .lock _ | _, .refreshSettled _ | _, .resume _
  | _, .loggedOut _ => inferInstanceAs (Decidable True)

end HVault.Interceptor
