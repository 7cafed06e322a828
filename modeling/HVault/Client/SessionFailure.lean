import Mathlib.Data.List.Infix

/-!
# What a failed request says about the session

The server's refusals are told apart by their status and their message. The default is that a
session is not gone: a rate limit, a server error or a lost connection is none of its business, and
neither is a CSRF rejection, a locked factor or a wrong master password.
-/

namespace HVault.Client

/-- Why the promise of a request rejects. -/
inductive Failure where
  /-- The server answered, with the message of its envelope if that is a string. -/
  | response (status : ℕ) (message : Option String)
  /-- An error of the transport. -/
  | noResponse
  /-- Thrown by the client's own code. -/
  | other
  deriving DecidableEq, Repr

def accountLocked : String := "ACCOUNT_LOCKED"

def masterPasswordProofRefusedMessage : String := "Current password is incorrect"

def dead2faSessionMessages : List String := ["TOKEN_EXPIRED", "TOKEN_INVALID", accountLocked]

namespace Failure

def status : Failure → Option ℕ
  | response status _ => some status
  | noResponse | other => none

def message : Failure → Option String
  | response _ message => message
  | noResponse | other => none

/-- The CSRF middleware has no code of its own: its message says `csrf` somewhere. -/
def isCsrfRejection (f : Failure) : Bool :=
  f.status = some 403 ∧ ∃ message ∈ f.message, "csrf".toList <:+: message.toList.map Char.toLower

def isAccountLocked (f : Failure) : Bool :=
  f.status = some 403 ∧ f.message = some accountLocked

def isMasterPasswordRefusal (f : Failure) : Bool :=
  f.status = some 401 ∧ f.message = some masterPasswordProofRefusedMessage

/-- The server has refused the session itself. -/
def isSessionGone (f : Failure) : Bool :=
  if f.isCsrfRejection then false
  else if f.isAccountLocked then false
  else if f.isMasterPasswordRefusal then false
  else f.status = some 401 ∨ f.status = some 403

/-- The token behind a pending second factor is spent. -/
def is2faSessionDead (f : Failure) : Bool :=
  (f.status = some 401 ∨ f.status = some 403) ∧
    ∃ message ∈ f.message, message ∈ dead2faSessionMessages

end Failure

end HVault.Client
