import Mathlib.Algebra.Order.Ring.Int
import HVault.Admission.Semaphore
import HVault.Data.Tally
import HVault.Interleave.Runs

/-!
# Slots held over a body and its handler

A request is admitted before its body is read: its identity's share is charged, it queues for a slot,
and both come back when its response has closed and its handler, if it was running, has settled. The
order of these is up to the client and to the handler; `admission_sound` is about all of them.

Between two turns of the semaphore's loop any event may fall. What a grant does synchronously in the
chain behind it is among them.
-/

namespace HVault.Admission

open Interleave

/-! ## Requests -/

/-- Something a request takes once and gives back once. -/
inductive Hold where
  | untaken
  | held
  | released
  deriving DecidableEq, Repr

/-- What a slot holder and its handler wrapper share for one request. -/
structure SlotTicket where
  inHandler : Bool
  releaseWhenSettled : Bool
  deriving DecidableEq, Repr

/-- The handler at the end of the chain; while it runs, whether the response has closed since it
started. -/
inductive Handler where
  | idle
  | running (closedMeanwhile : Bool)
  | settled
  deriving DecidableEq, Repr

/-- The response closes; the handler goes on. -/
def Handler.close (handler : Handler) : Handler :=
  match handler with
  | .running _ => .running true
  | handler => handler

/-- A request and its response, with the closures of `admitWithinBudget`: `share` and `slot` say what
its two release functions would still do. A share that was never taken has no close listener. -/
structure Request where
  identity : String
  closed : Bool := false
  share : Hold := .untaken
  slot : Hold := .untaken
  ticket : Option SlotTicket := none
  parserFailed : Bool := false
  handler : Handler := .idle
  deriving DecidableEq, Repr

/-- One semaphore and one quota, and the requests that go through them. `arrivals` and `grants` are
the orders in which slots were asked for and handed out. -/
structure Server where
  semaphore : Semaphore ℕ
  quota : KeyedQuota String
  requests : Finmap fun _ : ℕ => Request
  arrivals : List ℕ
  grants : List ℕ

namespace Server

def start (m : Semaphore ℕ) (q : KeyedQuota String) : Server := ⟨m, q, ∅, [], []⟩

def set (s : Server) (r : ℕ) (req : Request) : Server :=
  { s with requests := s.requests.insert r req }

/-! ## The code -/

def releaseShare (r : ℕ) (s : Server) : Server :=
  match s.requests.lookup r with
  | none => s
  | some req =>
    if req.share = .held then
      { s.set r { req with share := .released } with quota := s.quota.release req.identity }
    else s

def releaseSlot (r : ℕ) (s : Server) : Server :=
  match s.requests.lookup r with
  | none => s
  | some req =>
    if req.slot = .held then
      { s.set r { req with slot := .released } with semaphore := s.semaphore.release }
    else s

/-- The function that hands back both the share and the slot. -/
def release (r : ℕ) (s : Server) : Server := releaseSlot r (releaseShare r s)

def admitWithinBudget (r : ℕ) (identity : String) (destroyed : Bool) (s : Server) : Server :=
  if destroyed then s.set r { identity, closed := true }
  else
    match s.quota.charge identity with
    -- past its share: refused, holding nothing
    | none => s.set r { identity }
    | some quota =>
      { s.set r { identity, share := .held } with
        quota
        semaphore := s.semaphore.acquire r
        arrivals := s.arrivals ++ [r] }

/-- The task a request queued with: it is handed a slot. -/
def grant (r : ℕ) (s : Server) : Server :=
  match s.requests.lookup r with
  | none => s
  | some req =>
    if req.closed then releaseSlot r (s.set r { req with slot := .held })
    else s.set r { req with slot := .held, ticket := some ⟨false, false⟩ }

/-- One turn of the semaphore's loop. -/
def turn (s : Server) : Server :=
  match s.semaphore.turn with
  | (none, m) => { s with semaphore := m }
  | (some r, m) => grant r { s with semaphore := m, grants := s.grants ++ [r] }

/-- The close listener: the release is now, or when the handler settles. -/
def closeListener (r : ℕ) (req : Request) (s : Server) : Server :=
  match req.ticket with
  | some ⟨true, _⟩ => s.set r { req with ticket := some ⟨true, true⟩ }
  | _ => release r (s.set r req)

/-- The response closes. -/
def close (r : ℕ) (req : Request) (s : Server) : Server :=
  let req := { req with closed := true, handler := req.handler.close }
  if req.share = .untaken then s.set r req else closeListener r req s

/-- `run` up to the handler. Without a ticket the handler is not run at all. -/
def run (r : ℕ) (req : Request) (s : Server) : Server :=
  match req.ticket with
  | none => s
  | some ticket =>
    s.set r { req with ticket := some { ticket with inHandler := true }, handler := .running false }

/-- The end of `run`, once the handler has returned or thrown. -/
def settle (r : ℕ) (req : Request) (s : Server) : Server :=
  match req.ticket with
  | none => s
  | some ticket =>
    let s := s.set r { req with
      ticket := some { ticket with inHandler := false }, handler := .settled }
    if ticket.releaseWhenSettled then release r s else s

end Server

inductive Event where
  | arrive (r : ℕ) (identity : String) (destroyed : Bool)
  | turn
  | close (r : ℕ)
  | parserFailure (r : ℕ)
  | handlerStart (r : ℕ)
  | handlerSettle (r : ℕ)
  deriving DecidableEq, Repr

/-- One event. A request arrives once, its response closes once, and the chain reaches its handler
once, unless the parser fails. -/
def Server.step (s : Server) (e : Event) : Option Server :=
  match e with
  | .arrive r identity destroyed =>
    match s.requests.lookup r with
    | some _ => none
    | none => some (s.admitWithinBudget r identity destroyed)
  | .turn => if s.semaphore.draining then some s.turn else none
  | .close r =>
    match s.requests.lookup r with
    | none => none
    | some req => if req.closed then none else some (s.close r req)
  | .parserFailure r =>
    match s.requests.lookup r with
    | none => none
    | some req =>
      if req.handler = .idle then some (s.set r { req with parserFailed := true }) else none
  | .handlerStart r =>
    match s.requests.lookup r with
    | none => none
    | some req =>
      if req.handler = .idle ∧ req.parserFailed = false then some (s.run r req) else none
  | .handlerSettle r =>
    match s.requests.lookup r with
    | none => none
    | some req => if ∃ b, req.handler = .running b then some (s.settle r req) else none

/-! ## What is asked of it -/

def Request.slots (req : Request) : ℤ := if req.slot = .held then 1 else 0

def Request.shares (key : String) (req : Request) : ℤ :=
  if req.share = .held ∧ req.identity = key then 1 else 0

namespace Server

/-- How many slots are held. -/
def slotsHeld (s : Server) : ℤ := Finmap.tally (fun _ req => req.slots) s.requests

/-- How many slots the requests of an identity hold. -/
def slotsHeldBy (s : Server) (key : String) : ℤ :=
  Finmap.tally (fun _ req => if req.identity = key then req.slots else 0) s.requests

/-- How many shares the requests of an identity hold. -/
def sharesHeldBy (s : Server) (key : String) : ℤ :=
  Finmap.tally (fun _ req => req.shares key) s.requests

/-- Every request that arrived has closed, and every handler that started has settled. -/
def Quiet (s : Server) : Prop :=
  ∀ r req, s.requests.lookup r = some req → req.closed = true ∧ ∀ b, req.handler ≠ .running b

end Server

/-- The law of admission. -/
structure Admits (s : Server) : Prop where
  balance : (s.semaphore.free : ℤ) + s.slotsHeld = s.semaphore.permits
  bounded : s.slotsHeld ≤ s.semaphore.permits
  charged : ∀ key, (s.quota.heldBy key : ℤ) = s.sharesHeldBy key
  share : ∀ key, s.slotsHeldBy key ≤ s.sharesHeldBy key ∧ s.sharesHeldBy key ≤ s.quota.limit
  /-- Slots are handed out in the order they were asked for. -/
  fifo : s.arrivals = s.grants ++ s.semaphore.waiters
  /-- Nobody waits while a slot is free, once the loop has ended. -/
  prompt : s.semaphore.draining = false → s.semaphore.free = 0 ∨ s.semaphore.waiters = []
  /-- When all is over, everything is back. -/
  returned : s.Quiet → s.semaphore.free = s.semaphore.permits ∧ ∀ key, s.quota.held key = none
  /-- A slot whose response closed while its handler ran is still the request's. -/
  kept : ∀ r req, s.requests.lookup r = some req → req.handler = .running true → req.slot = .held

end HVault.Admission
