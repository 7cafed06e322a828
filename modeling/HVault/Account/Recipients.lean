import HVault.Data.FirstMatch
import HVault.Account.Store

/-!
# Backup recipients

The list of addresses a backup may be mailed to, and the four requests that change it. A list
update reads the whole list and writes a whole list back, on the condition that the revision has
not moved; a suspension is one update of the whole list; a confirmation and the sending of the
confirmations update single entries. Each write moves the revision.
-/

namespace HVault.Account

open Interleave FirstMatch

/-! ## Writing the list -/

/-- How often a list update recomputes after losing its revision check. -/
def listUpdateAttempts : ℕ := 3

/-- How long a mailed link stays usable. -/
def recipientTokenTtlMs : ℤ := 24 * 60 * 60 * 1000

/-- How many failed sends of one confirmation are made in all. -/
def maxConfirmationAttempts : ℕ := 3

/-- The user document with its list replaced and its revision moved. -/
def User.withRecipients (u : User) (next : List Recipient) : User :=
  { u with
    backupRecipients := next
    recipientsRevision := some (u.recipientsRevision.getD 0 + 1) }

/-- Stores `next` as the list of `u`. -/
def Store.putRecipients (u : User) (next : List Recipient) (s : Store) : Store :=
  { s with
    user := some (u.withRecipients next)
    history := { s.history with nonces := next.map (·.nonce) ++ s.history.nonces } }

/-! ## The owner's list -/

/-- An approved list: the addresses, the credential the proof was checked against, and the nonce
each attempt would mint at each place. -/
structure RecipientListRequest where
  emails : List String
  provenAuthHash : String
  now : ℤ
  nonce : ℕ → ℕ → String

/-- What a list update changed. -/
structure RecipientListUpdate where
  recipients : List Recipient
  added : List String
  removed : List String
  reinstated : List String
  deriving DecidableEq, Repr

/-- Whether an approved entry still waits on a link that is owed or valid. -/
def Recipient.waiting (now : ℤ) (e : Recipient) : Bool :=
  decide (e.state = .pending) && e.approvedAt.isSome &&
    (e.confirmationDue || match e.confirmationSentAt with
      | some sentAt => decide (now - sentAt < recipientTokenTtlMs)
      | none => false)

/-- The entry of an address that starts over: the own verified address is confirmed at once, any
other is owed a mail. -/
def freshRecipient (account : User) (now : ℤ) (newNonce email : String) : Recipient :=
  if email = account.email ∧ account.emailVerified = some true then
    ⟨email, .confirmed, some now, some now, false, none, none, newNonce⟩
  else ⟨email, .pending, none, some now, true, none, some 0, newNonce⟩

/-- The entry an approved address gets. -/
def nextRecipient (account : User) (now : ℤ) (newNonce email : String) : Recipient :=
  match account.backupRecipients.find? fun e => decide (e.email = email) with
  | none => freshRecipient account now newNonce email
  | some existing =>
    if existing.state = .confirmed then { existing with approvedAt := some now }
    else if existing.state = .suspended ∧ existing.confirmedAt.isSome then
      -- the address had agreed before: the approval restores it, with a new nonce
      { existing with
        state := .confirmed
        approvedAt := some now
        confirmationDue := false
        confirmationSentAt := none
        confirmationAttempts := some 0
        nonce := newNonce }
    else if existing.waiting now then existing
    else freshRecipient account now newNonce email

/-- The whole list of an approval, its addresses without repetition. -/
def nextRecipients (env : Deployment) (r : RecipientListRequest) (attempt : ℕ) (account : User) :
    List Recipient :=
  (r.emails.map env.normalizeEmail).eraseDups.mapIdx fun k email =>
    nextRecipient account r.now (r.nonce attempt k) email

/-- The conditional write of a list: the credential is still the proven one and the revision the
one that was read. `seen` is how many suspensions the list was computed after. -/
def writeRecipientList (provenAuthHash : String) (revision : Option ℕ) (next : List Recipient)
    (seen : ℕ) (s : Store) : Bool × Store :=
  match s.user with
  | none => (false, s)
  | some u =>
    if u.authHash = provenAuthHash ∧ u.recipientsRevision = revision then
      let s' := s.putRecipients { u with undeliverableNoticedAt := none } next
      (true, { s' with history := { s'.history with approved := seen } })
    else (false, s)

/-- What the update answers. -/
def listUpdate (current next : List Recipient) : RecipientListUpdate where
  recipients := next
  added := (next.map (·.email)).filter fun email => !current.any fun e => decide (e.email = email)
  removed := (current.map (·.email)).filter fun email =>
    !next.any fun e => decide (e.email = email)
  reinstated := ((current.filter fun e =>
      decide (e.state = .suspended) && e.confirmedAt.isSome).map (·.email)).filter fun email =>
    next.any fun e => decide (e.email = email)

/-- Reads, computes and writes, with `attempts` tries left. -/
def applyRecipientListLoop (env : Deployment) (r : RecipientListRequest) :
    ℕ → Req RecipientListUpdate
  | 0 => .raise .recipientsChanged
  | attempts + 1 => do
    let (account, seen) ← .read .readRecipients fun s =>
      (s.user.filter fun u => decide (u.authHash = r.provenAuthHash), s.history.suspensions)
    match account with
    | none => .raise .staleProof
    | some account =>
      let next := nextRecipients env r attempts account
      let written ← .db (.writeRecipients r.provenAuthHash account.backupRecipients) <|
        writeRecipientList r.provenAuthHash account.recipientsRevision next seen
      if written then pure (listUpdate account.backupRecipients next)
      else applyRecipientListLoop env r attempts

/-- Stores the owner's approved list. -/
def applyRecipientList (env : Deployment) (r : RecipientListRequest) : Req RecipientListUpdate :=
  applyRecipientListLoop env r listUpdateAttempts

/-! ## Suspension -/

/-- Whether a suspension changes the entry. -/
def suspendable (u : User) (e : Recipient) : Bool :=
  decide (e.email ≠ u.email) && decide (e.state ≠ .suspended)

/-- An entry after a suspension, with the nonce its place gets. -/
def suspendRecipient (u : User) (newNonce : String) (e : Recipient) : Recipient :=
  if suspendable u e then
    { e with
      state := .suspended
      approvedAt := none
      confirmationDue := false
      confirmationSentAt := none
      confirmationAttempts := some 0
      nonce := newNonce }
  else e

/-- Suspends every recipient other than the account's own address, when there is one to suspend;
answers how many. `base` is the random part of the new nonces. -/
def suspendThirdPartyRecipients (base : String) (s : Store) : ℕ × Store :=
  match s.user with
  | none => (0, s)
  | some u =>
    if u.backupRecipients.any (suspendable u) then
      let next := u.backupRecipients.mapIdx fun i e => suspendRecipient u (s!"{base}.{i}") e
      let s' := s.putRecipients { u with undeliverableNoticedAt := none } next
      (u.backupRecipients.countP (suspendable u),
        { s' with history := { s'.history with
          suspensions := s.history.suspensions + 1
          retired := s.history.nonces } })
    else (0, s)

/-! ## Confirmation -/

/-- The confirmation of one address. `payload` is what a genuine token of the right purpose names,
its address and its nonce. -/
structure ConfirmationRequest where
  payload : Option (String × String)
  now : ℤ
  newNonce : String

/-- Whether an entry is the one a confirmation is for. -/
def awaits (email nonce : String) (e : Recipient) : Bool :=
  decide (e.email = email) && decide (e.nonce = nonce) && decide (e.state = .pending) &&
    e.approvedAt.isSome

/-- A confirmed entry, its nonce spent. -/
def Recipient.confirm (now : ℤ) (newNonce : String) (e : Recipient) : Recipient :=
  { e with
    state := .confirmed
    confirmedAt := some now
    confirmationDue := false
    nonce := newNonce }

/-- The conditional write of a confirmation. -/
def confirmRecipient (email nonce : String) (now : ℤ) (newNonce : String) (s : Store) :
    Bool × Store :=
  match s.user with
  | none => (false, s)
  | some u =>
    if u.deletionPending then (false, s)
    else match findModify (awaits email nonce) (·.confirm now newNonce) u.backupRecipients with
      | (none, _) => (false, s)
      | (some _, next) =>
        let s' := s.putRecipients { u with undeliverableNoticedAt := none } next
        (true, { s' with history := { s'.history with
          confirmations := (email, nonce) :: s.history.confirmations } })

/-- Consumes a confirmation token; answers the address confirmed. -/
def confirmRecipientToken (r : ConfirmationRequest) : Req (Option String) :=
  match r.payload with
  | none => pure none
  | some (email, nonce) =>
    if nonce.isEmpty then pure none
    else do
      let confirmed ← .db (.confirmRecipient email nonce) <|
        confirmRecipient email nonce r.now r.newNonce
      pure (if confirmed then some email else none)

/-! ## Sending the confirmations -/

/-- What became of one mail. -/
inductive MailOutcome where
  | budgetSpent
  | failed
  | sent
  deriving DecidableEq, Repr

/-- A run of the sender: whether mail is configured, and what becomes of each mail. -/
structure ConfirmationRunRequest where
  now : ℤ
  emailConfigured : Bool
  outcome : ℕ → MailOutcome

/-- How many confirmations were sent and how many stay owed. -/
structure ConfirmationRun where
  sent : ℕ
  pending : ℕ
  deriving DecidableEq, Repr

/-- Whether an entry is owed a mail. -/
def Recipient.due (e : Recipient) : Bool :=
  decide (e.state = .pending) && e.confirmationDue && !e.nonce.isEmpty

/-- Updates the first entry that passes, if the account is there; says whether there was one. -/
def updateRecipient (filter : Recipient → Bool) (update : Recipient → Recipient) (s : Store) :
    Bool × Store :=
  match s.user with
  | none => (false, s)
  | some u =>
    match findModify filter update u.backupRecipients with
    | (none, _) => (false, s)
    | (some _, next) => (true, s.putRecipients u next)

/-- Claims the mail of an entry that still carries the nonce read. -/
def claimDue (now : ℤ) (entry : Recipient) : Store → Bool × Store :=
  updateRecipient
    (fun e => decide (e.email = entry.email) && decide (e.nonce = entry.nonce) &&
      decide (e.state = .pending) && e.confirmationDue)
    fun e => { e with confirmationDue := false, confirmationSentAt := some now }

/-- Hands a claimed entry back: owed again, unless the send failed for the last time. -/
def handBack (now : ℤ) (entry : Recipient) (failed : Bool) : Store → Bool × Store :=
  let attempts := entry.confirmationAttempts.getD 0 + if failed then 1 else 0
  updateRecipient
    (fun e => decide (e.email = entry.email) && decide (e.nonce = entry.nonce) &&
      !e.confirmationDue && decide (e.confirmationSentAt = some now))
    fun e => { e with
      confirmationDue := decide (attempts < maxConfirmationAttempts)
      confirmationSentAt := none
      confirmationAttempts := some attempts }

/-- Mails the confirmations of `due`, of which `index` and all after it are left. -/
def sendDueLoop (r : ConfirmationRunRequest) (sent : ℕ) : ℕ → List Recipient → Req ConfirmationRun
  | _, [] => pure ⟨sent, 0⟩
  | index, entry :: due => do
    let claimed ← .db .claimDue (claimDue r.now entry)
    if !claimed then sendDueLoop r sent (index + 1) due
    else match r.outcome index with
      | .sent => sendDueLoop r (sent + 1) (index + 1) due
      | .budgetSpent => do
        let _ ← .db .handBack (handBack r.now entry false)
        pure ⟨sent, due.length + 1⟩
      | .failed => do
        let _ ← .db .handBack (handBack r.now entry true)
        pure ⟨sent, due.length + 1⟩

/-- Mails every confirmation the account owes. -/
def sendDueConfirmations (r : ConfirmationRunRequest) : Req ConfirmationRun := do
  let account ← .read .readDue (·.user)
  match account with
  | none => pure ⟨0, 0⟩
  | some account =>
    let due := account.backupRecipients.filter (·.due)
    if account.deletionPending || !r.emailConfigured then pure ⟨0, due.length⟩
    else sendDueLoop r 0 0 due

end HVault.Account
