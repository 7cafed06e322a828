import HVault.Interleave.Claims
import HVault.Interleave.Runs
import HVault.Account.Recipients

/-!
# The failed confirmation mails of an entry

Any number of runs of `sendDueConfirmations` on one account, step by step: the read of the list,
the claim of an entry, the charge on the mail budget, the mail, the hand-back. A run may fail or end
with its process after any of them.

The count a run hands back is the one it read at its start, plus one. A run that read before another
handed the entry back stores a count that leaves the other's failure out, so the limit fails
(`confirmation_failures_not_bounded`); it holds in the runs whose hand-backs find the count they
read (`confirmations_bounded`). That a claim covers one mail holds in every run.
-/

namespace HVault.Account

open Interleave FirstMatch List Function

/-! ## The runs -/

/-- An address under one nonce. -/
structure RecipientKey where
  email : String
  nonce : String
  deriving DecidableEq, Repr

def Recipient.key (e : Recipient) : RecipientKey := ⟨e.email, e.nonce⟩

/-- The stored list; absent reads as empty. -/
def Store.recipientList (s : Store) : List Recipient :=
  (s.user.map (·.backupRecipients)).getD []

/-- Where a run is: `rest` is what is left of the list it read after `entry`. -/
inductive SenderPhase where
  | waiting
  | claiming (now : ℤ) (sent : ℕ) (entry : Recipient) (rest : List Recipient)
  | charging (now : ℤ) (sent : ℕ) (entry : Recipient) (rest : List Recipient)
  | mailing (now : ℤ) (sent : ℕ) (entry : Recipient) (rest : List Recipient)
  | handingBack (now : ℤ) (sent : ℕ) (entry : Recipient) (rest : List Recipient) (failed : Bool)
  | ended (run : ConfirmationRun)
  | stopped

/-- The next entry of a run, or its end. -/
def SenderPhase.next (now : ℤ) (sent : ℕ) : List Recipient → SenderPhase
  | [] => .ended ⟨sent, 0⟩
  | entry :: rest => .claiming now sent entry rest

/-- The account and the runs on it, with what happened: the failed mails, the hand-backs, and every
mail with how often its entry had been handed back before. -/
structure Senders where
  store : Store
  phase : ℕ → SenderPhase
  failures : List RecipientKey
  handedBack : List RecipientKey
  mails : List (RecipientKey × ℕ)

/-- What a run does next, with the answers it gets from outside. -/
inductive SenderEvent where
  | start (run : ℕ) (now : ℤ) (emailConfigured : Bool)
  | claim (run : ℕ)
  | charge (run : ℕ) (granted : Bool)
  | send (run : ℕ) (success : Bool)
  | handBack (run : ℕ)
  | stop (run : ℕ)

namespace Senders

/-- Before the first run. -/
def start (store : Store) : Senders where
  store
  phase _ := .waiting
  failures := []
  handedBack := []
  mails := []

/-- The run comes to a phase. -/
def moved (s : Senders) (run : ℕ) (phase : SenderPhase) : Senders :=
  { s with phase := Function.update s.phase run phase }

/-- The read at the start of a run. -/
def read (now : ℤ) (emailConfigured : Bool) : Option User → SenderPhase
  | none => .ended ⟨0, 0⟩
  | some account =>
    let due := account.backupRecipients.filter (·.due)
    if account.deletionPending || !emailConfigured then .ended ⟨0, due.length⟩
    else .next now 0 due

/-- What an event does, if it can happen. -/
def step (s : Senders) : SenderEvent → Option Senders
  | .start run now emailConfigured =>
    match s.phase run with
    | .waiting => some (s.moved run (read now emailConfigured s.store.user))
    | _ => none
  | .claim run =>
    match s.phase run with
    | .claiming now sent entry rest =>
      let (claimed, store) := claimDue now entry s.store
      some <| { s with store }.moved run <|
        if claimed then .charging now sent entry rest else .next now sent rest
    | _ => none
  | .charge run granted =>
    match s.phase run with
    | .charging now sent entry rest =>
      some <| s.moved run <|
        if granted then .mailing now sent entry rest else .handingBack now sent entry rest false
    | _ => none
  | .send run success =>
    match s.phase run with
    | .mailing now sent entry rest =>
      let mails := (entry.key, s.handedBack.count entry.key) :: s.mails
      if success then some ({ s with mails }.moved run (.next now (sent + 1) rest))
      else
        some ({ s with mails, failures := entry.key :: s.failures }.moved run
          (.handingBack now sent entry rest true))
    | _ => none
  | .handBack run =>
    match s.phase run with
    | .handingBack now sent entry rest failed =>
      let (handed, store) := Account.handBack now entry failed s.store
      let handedBack := if handed then entry.key :: s.handedBack else s.handedBack
      some ({ s with store, handedBack }.moved run (.ended ⟨sent, rest.length + 1⟩))
    | _ => none
  | .stop run => some (s.moved run .stopped)

/-- A hand-back finds in the entry the count of failed mails that its run read. -/
def countRead (s : Senders) : SenderEvent → Bool
  | .handBack run =>
    match s.phase run with
    | .handingBack _ _ entry _ _ => s.store.recipientList.all fun e =>
        decide (e.key = entry.key → e.confirmationAttempts.getD 0 =
          entry.confirmationAttempts.getD 0)
    | _ => true
  | _ => true

/-! ## The claims -/

end Senders

/-- What a run has claimed, and whether its mail has failed. -/
def SenderPhase.claim : SenderPhase → Option (TaskClaim RecipientKey)
  | .charging now _ entry _ => some ⟨entry.key, now, false⟩
  | .mailing now _ entry _ => some ⟨entry.key, now, false⟩
  | .handingBack now _ entry _ failed => some ⟨entry.key, now, failed⟩
  | _ => none

@[simp] theorem SenderPhase.claim_next (now : ℤ) (sent : ℕ) (rest : List Recipient) :
    (SenderPhase.next now sent rest).claim = none := by
  cases rest <;> rfl

/-- The mail an entry owes. -/
def Recipient.task (e : Recipient) : Task :=
  ⟨e.confirmationDue, e.confirmationAttempts.getD 0, e.confirmationSentAt⟩

/-- The entry of a key. -/
def Store.recipient (s : Store) (k : RecipientKey) : Option Recipient :=
  s.recipientList.find? fun e => decide (e.key = k)

/-- No two entries have the same address and nonce. -/
def Store.DistinctKeys (s : Store) : Prop := (s.recipientList.map (·.key)).Nodup

/-- An update that passes only entries of one key changes that entry, or nothing. -/
theorem updateRecipient_cases {filter : Recipient → Bool} {update : Recipient → Recipient}
    {k : RecipientKey} {s : Store} (hkeys : s.DistinctKeys)
    (hfilter : ∀ e, filter e = true → e.key = k) (hupdate : ∀ e, (update e).key = e.key) :
    updateRecipient filter update s = (false, s) ∨
    ∃ e s', updateRecipient filter update s = (true, s') ∧ filter e = true ∧
      s.recipient k = some e ∧ s'.DistinctKeys ∧
      s'.recipient = Function.update s.recipient k (some (update e)) := by
  unfold updateRecipient
  cases hu : s.user with
  | none => exact .inl rfl
  | some u =>
    have hlist : s.recipientList = u.backupRecipients := by rw [Store.recipientList, hu]; rfl
    have hnodup : (u.backupRecipients.map (·.key)).Nodup := hlist ▸ hkeys
    rcases find?_findModify hnodup hfilter hupdate with hnone | ⟨e, he, hmatched, hfind, hafter⟩
    · simp only [hnone]
      exact .inl trivial
    · refine .inr ⟨e, s.putRecipients u (findModify filter update u.backupRecipients).2, ?_, he, ?_,
        ?_, ?_⟩
      · have heq : findModify filter update u.backupRecipients =
            (some e, (findModify filter update u.backupRecipients).2) := Prod.ext hmatched rfl
        dsimp only
        rw [heq]
      · rw [Store.recipient, hlist]
        exact hfind
      · show ((findModify filter update u.backupRecipients).2.map (·.key)).Nodup
        rw [map_findModify _ fun e _ => hupdate e]
        exact hnodup
      · funext k'
        show (findModify filter update u.backupRecipients).2.find?
          (fun e => decide (e.key = k')) = _
        rw [hafter k', update_apply, Store.recipient, hlist]

namespace Senders

variable {s s' : Senders} {e : SenderEvent}

/-- The mails owed and the claims on them. -/
def ledger (s : Senders) : ClaimLedger ℕ RecipientKey where
  tasks k := (s.store.recipient k).map (·.task)
  claims run := (s.phase run).claim
  failures := s.failures
  handedBack := s.handedBack
  tries := s.mails

theorem ledger_moved (s : Senders) (run : ℕ) (phase : SenderPhase) : (s.moved run phase).ledger =
    { s.ledger with claims := Function.update s.ledger.claims run phase.claim } := by
  have hclaims : (s.moved run phase).ledger.claims =
      update s.ledger.claims run phase.claim := by
    funext i
    show (update s.phase run phase i).claim = _
    rw [update_apply, update_apply]
    split <;> rfl
  rw [← hclaims]
  rfl

/-- The ledger after one entry has changed. -/
theorem ledger_store (s : Senders) {store : Store} {k : RecipientKey} {e : Recipient}
    (h : store.recipient = Function.update s.store.recipient k (some e)) :
    { s with store }.ledger =
      { s.ledger with tasks := Function.update s.ledger.tasks k (some e.task) } := by
  have htasks : { s with store }.ledger.tasks =
      update s.ledger.tasks k (some e.task) := by
    funext k'
    show (store.recipient k').map (·.task) = _
    rw [h, update_apply, update_apply]
    split <;> rfl
  rw [← htasks]
  rfl

/-- A move of a run that keeps its claim, or drops it. -/
theorem moves_of_claim {limit : ℕ} {careful : Prop} (run : ℕ) {phase : SenderPhase}
    (hclaim : phase.claim = (s.phase run).claim ∨ phase.claim = none) :
    s.ledger.Moves limit careful (s.moved run phase).ledger := by
  rw [ledger_moved]
  rcases hclaim with hsame | hnone
  · have hclaims : update s.ledger.claims run phase.claim = s.ledger.claims := by
      rw [hsame]
      exact update_eq_self run s.ledger.claims
    rw [hclaims]
    exact .still
  · rw [hnone]
    exact .drop run

variable {limit : ℕ} {careful : Prop} {run : ℕ} {now : ℤ} {sent : ℕ} {entry : Recipient}
  {rest : List Recipient}

/-- The claim of an entry, or its loss to another run. -/
theorem moves_claim (hkeys : s.store.DistinctKeys) :
    let claimed := claimDue now entry s.store
    let phase := if claimed.1 then .charging now sent entry rest else .next now sent rest
    s.ledger.Moves limit careful ({ s with store := claimed.2 }.moved run phase).ledger ∧
      claimed.2.DistinctKeys := by
  have hfilter : ∀ e : Recipient, (decide (e.email = entry.email) &&
      decide (e.nonce = entry.nonce) && decide (e.state = .pending) && e.confirmationDue) = true →
        e.key = entry.key ∧ e.confirmationDue = true := by
    intro e he
    simp only [Bool.and_eq_true, decide_eq_true_eq] at he
    exact ⟨congrArg₂ RecipientKey.mk he.1.1.1 he.1.1.2, he.2⟩
  have hupdate : ∀ e : Recipient, { e with
      confirmationDue := false, confirmationSentAt := some now : Recipient }.key = e.key :=
    fun _ => rfl
  rcases updateRecipient_cases hkeys (fun e he => (hfilter e he).1) hupdate with
    hnone | ⟨e, store, hclaimed, he, hfind, hkeys', hafter⟩
  · have hclaim : claimDue now entry s.store = (false, s.store) := hnone
    rw [hclaim]
    exact ⟨moves_of_claim run (.inr (SenderPhase.claim_next ..)), hkeys⟩
  · have hclaim : claimDue now entry s.store = (true, store) := hclaimed
    have htask : s.ledger.tasks entry.key = some e.task := by simp [ledger, hfind]
    rw [hclaim]
    refine ⟨?_, hkeys'⟩
    show s.ledger.Moves _ _ ({ s with store }.moved run (.charging now sent entry rest)).ledger
    rw [ledger_moved, ledger_store s hafter]
    exact .claim run entry.key now e.task htask (hfilter e he).2

/-- The hand-back of a claim. `hread` says that the stored count is the one that was read. -/
theorem moves_handBack {failed : Bool} (hkeys : s.store.DistinctKeys)
    (hclaim : (s.phase run).claim = some ⟨entry.key, now, failed⟩)
    (hread : careful → ∀ e, s.store.recipient entry.key = some e →
      e.confirmationAttempts.getD 0 = entry.confirmationAttempts.getD 0) (run' : ConfirmationRun) :
    let handed := Account.handBack now entry failed s.store
    let handedBack := if handed.1 then entry.key :: s.handedBack else s.handedBack
    s.ledger.Moves maxConfirmationAttempts careful
      ({ s with store := handed.2, handedBack }.moved run (.ended run')).ledger ∧
      handed.2.DistinctKeys := by
  have hfilter : ∀ e : Recipient, (decide (e.email = entry.email) &&
      decide (e.nonce = entry.nonce) && !e.confirmationDue &&
      decide (e.confirmationSentAt = some now)) = true →
        e.key = entry.key := by
    intro e he
    simp only [Bool.and_eq_true, decide_eq_true_eq] at he
    exact congrArg₂ RecipientKey.mk he.1.1.1 he.1.1.2
  let attempts := entry.confirmationAttempts.getD 0 + if failed then 1 else 0
  have hupdate : ∀ e : Recipient, { e with
      confirmationDue := decide (attempts < maxConfirmationAttempts)
      confirmationSentAt := none
      confirmationAttempts := some attempts : Recipient }.key = e.key := fun _ => rfl
  rcases updateRecipient_cases hkeys hfilter hupdate with
    hnone | ⟨e, store, hhanded, he, hfind, hkeys', hafter⟩
  · have hback : Account.handBack now entry failed s.store = (false, s.store) := hnone
    rw [hback]
    exact ⟨moves_of_claim run (.inr rfl), hkeys⟩
  · have hback : Account.handBack now entry failed s.store = (true, store) := hhanded
    have htask : s.ledger.tasks entry.key = some e.task := by simp [ledger, hfind]
    rw [hback]
    refine ⟨?_, hkeys'⟩
    have hcareful : careful → e.task.attempts = entry.confirmationAttempts.getD 0 :=
      fun hc => hread hc e hfind
    show s.ledger.Moves _ _ ({ { s with store } with
      handedBack := entry.key :: s.handedBack }.moved run (.ended run')).ledger
    have hledger : ({ { s with store } with handedBack := entry.key :: s.handedBack }).ledger =
        { ({ s with store }).ledger with handedBack := entry.key :: s.handedBack } := rfl
    rw [ledger_moved, hledger, ledger_store s hafter]
    exact .handBack run entry.key now failed e.task _ hclaim htask hcareful

/-- **The runs are workers on claims**: each event is a move on the ledger, a careful one where a
hand-back finds the count its run read. -/
theorem step_moves (hkeys : s.store.DistinctKeys) (h : s.step e = some s') :
    s.ledger.Moves maxConfirmationAttempts (s.countRead e = true) s'.ledger ∧
      s'.store.DistinctKeys := by
  cases e with
  | start run now emailConfigured =>
    simp only [step] at h
    split at h <;> cases h
    refine ⟨moves_of_claim run (.inr ?_), hkeys⟩
    unfold read
    split
    · rfl
    · dsimp only
      split
      · rfl
      · exact SenderPhase.claim_next ..
  | claim run =>
    simp only [step] at h
    split at h
    · rename_i now sent entry rest hphase
      cases h
      exact moves_claim hkeys
    · simp at h
  | charge run granted =>
    simp only [step] at h
    split at h
    · rename_i now sent entry rest hphase
      cases granted <;> cases h <;>
        exact ⟨moves_of_claim run (.inl (by rw [hphase]; rfl)), hkeys⟩
    · simp at h
  | send run success =>
    simp only [step] at h
    split at h
    · rename_i now sent entry rest hphase
      have hclaim : s.ledger.claims run = some ⟨entry.key, now, false⟩ := by
        show (s.phase run).claim = _
        rw [hphase]
        rfl
      cases success with
      | true =>
        cases h
        refine ⟨?_, hkeys⟩
        rw [ledger_moved, SenderPhase.claim_next]
        exact .succeed run entry.key now hclaim
      | false =>
        cases h
        refine ⟨?_, hkeys⟩
        rw [ledger_moved]
        exact .fail run entry.key now hclaim
    · simp at h
  | handBack run =>
    simp only [step] at h
    split at h
    · rename_i now sent entry rest failed hphase
      cases h
      refine moves_handBack hkeys (by rw [hphase]; rfl) ?_ ⟨sent, rest.length + 1⟩
      intro hcount e hfind
      have hmem := mem_of_find?_eq_some hfind
      have hkey : e.key = entry.key := by simpa using find?_some hfind
      simp only [countRead, hphase, all_eq_true, decide_eq_true_eq] at hcount
      exact hcount e hmem hkey
    · simp at h
  | stop run =>
    cases h
    exact ⟨moves_of_claim run (.inr rfl), hkeys⟩

/-! ## Runs -/

/-- How many failed mails an entry has counted. -/
def counted (store : Store) (k : RecipientKey) : ℕ :=
  ((store.recipient k).map (·.task.attempts)).getD 0

theorem exclusive_start (store : Store) : (start store).ledger.Exclusive where
  held := nofun
  one := nofun
  untried := nofun
  due := fun _ _ _ _ => not_mem_nil
  past := fun _ _ hmem => absurd hmem not_mem_nil
  nodup := nodup_nil

theorem counted_start (store : Store) :
    (start store).ledger.Counted maxConfirmationAttempts (counted store) where
  due := fun k t ht hdue => by
    have htask : (store.recipient k).map (·.task) = some t := ht
    obtain ⟨e, he, rfl⟩ := Option.map_eq_some_iff.1 htask
    refine ⟨?_, .inl rfl⟩
    show e.task.attempts = counted store k + 0
    simp [counted, he]
  untried := nofun
  failed := nofun
  bound := fun k => .inl (Nat.zero_le 1)

/-- **No claim is mailed twice**, whatever the runs do. -/
theorem exclusive_of_run {store : Store} {ok : Senders → SenderEvent → Prop}
    (hkeys : store.DistinctKeys) (h : Run step ok (start store) s) : s.ledger.Exclusive ∧ s.store.DistinctKeys := by
  refine Run.invariant (I := fun s => s.ledger.Exclusive ∧ s.store.DistinctKeys) h
    ⟨exclusive_start store, hkeys⟩ ?_
  intro s e s' hs _ hstep
  have ⟨hmove, hkeys'⟩ := step_moves hs.2 hstep
  exact ⟨hs.1.move hmove, hkeys'⟩

theorem counted_of_run {store : Store} (hkeys : store.DistinctKeys)
    (h : Run step (fun s e => s.countRead e = true) (start store) s) :
    s.ledger.Counted maxConfirmationAttempts (counted store) ∧ s.ledger.Exclusive ∧
      s.store.DistinctKeys := by
  refine Run.invariant (I := fun s => s.ledger.Counted maxConfirmationAttempts (counted store) ∧
    s.ledger.Exclusive ∧ s.store.DistinctKeys) h
    ⟨counted_start store, exclusive_start store, hkeys⟩ ?_
  rintro s e s' ⟨hcounted, hexclusive, hkeys⟩ hok hstep
  have ⟨hmove, hkeys'⟩ := step_moves hkeys hstep
  exact ⟨hcounted.move hexclusive hok hmove, hexclusive.move hmove, hkeys'⟩

end Senders

/-- In any runs of the sender that overlap in any way, no two mails go out under one claim of an
entry. And when each hand-back finds the count its run read, an entry fails at most
`maxConfirmationAttempts` times under one nonce, the failures it had counted before included. -/
theorem confirmations_bounded {store : Store} (hkeys : store.DistinctKeys) :
    (∀ s, Run Senders.step (fun _ _ => True) (.start store) s → s.mails.Nodup) ∧
    ∀ s, Run Senders.step (fun s e => s.countRead e = true) (.start store) s → ∀ k,
      s.failures.count k ≤ maxConfirmationAttempts ∧
      (Senders.counted store k < maxConfirmationAttempts →
        Senders.counted store k + s.failures.count k ≤ maxConfirmationAttempts) := by
  refine ⟨fun s h => (Senders.exclusive_of_run hkeys h).1.nodup, fun s h k => ?_⟩
  have hbound : s.failures.count k ≤ 1 ∨
      Senders.counted store k + s.failures.count k ≤ maxConfirmationAttempts :=
    (Senders.counted_of_run hkeys h).1.bound k
  have hlimit : maxConfirmationAttempts = 3 := rfl
  omega

/-- An account that owes one address its first mail. -/
def owesOneMail : Store :=
  plainStore (plainUser [⟨"friend", .pending, none, some 0, true, none, some 0, "nonce"⟩])

theorem distinctKeys_owesOneMail : owesOneMail.DistinctKeys := by
  show ([⟨"friend", "nonce"⟩] : List RecipientKey).Nodup
  decide

/-- What a run does from its claim to the hand-back of a mail that fails. -/
def failsOnce (run : ℕ) : List SenderEvent :=
  [.claim run, .charge run true, .send run false, .handBack run]

/-- Three runs one after another: three failed mails, and none after them. -/
theorem confirmations_bounded_sample : ∃ s,
    replay Senders.step (fun s e => s.countRead e = true) (.start owesOneMail)
      ([.start 0 5 true] ++ failsOnce 0 ++ [.start 1 6 true] ++ failsOnce 1 ++
        [.start 2 7 true] ++ failsOnce 2) = some s ∧
    s.failures.count ⟨"friend", "nonce"⟩ = 3 ∧
    s.failures.count ⟨"friend", "nonce"⟩ ≤ maxConfirmationAttempts ∧ s.mails.Nodup := by
  have hreplay : ∃ s, replay Senders.step (fun s e => s.countRead e = true) (.start owesOneMail)
      ([.start 0 5 true] ++ failsOnce 0 ++ [.start 1 6 true] ++ failsOnce 1 ++
        [.start 2 7 true] ++ failsOnce 2) = some s ∧
      s.failures.count ⟨"friend", "nonce"⟩ = 3 := ⟨_, rfl, by decide⟩
  obtain ⟨s, hs, hcount⟩ := hreplay
  have hrun := Run.of_replay hs
  have hbounded := confirmations_bounded distinctKeys_owesOneMail
  exact ⟨s, hs, hcount, (hbounded.2 s hrun _).1, hbounded.1 s (hrun.mono fun _ _ _ => trivial)⟩

/-- Two runs at a time that read the entry before either hands it back: each pair counts one failed
mail for its two, and a fourth mail fails. -/
theorem confirmation_failures_not_bounded :
    ¬ ∀ store : Store, store.DistinctKeys →
      ∀ s, Run Senders.step (fun _ _ => True) (.start store) s →
        (∀ k, s.failures.count k ≤ maxConfirmationAttempts) ∧ s.mails.Nodup := by
  intro hbounded
  obtain ⟨s, hrun, hcount⟩ : ∃ s, replay Senders.step (fun _ _ => True) (.start owesOneMail)
      ([.start 0 5 true, .start 1 5 true] ++ failsOnce 0 ++ failsOnce 1 ++
        [.start 2 6 true, .start 3 6 true] ++ failsOnce 2 ++ failsOnce 3) = some s ∧
      s.failures.count ⟨"friend", "nonce"⟩ = 4 := ⟨_, rfl, by decide⟩
  have hlimit := (hbounded owesOneMail distinctKeys_owesOneMail s (Run.of_replay hrun)).1
    ⟨"friend", "nonce"⟩
  rw [hcount] at hlimit
  exact absurd hlimit (by decide)

end HVault.Account
