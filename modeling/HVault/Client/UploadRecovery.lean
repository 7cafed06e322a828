import HVault.Client.SessionFailure
import HVault.Interleave.Runs
import Mathlib.Algebra.Group.Nat.Defs

/-!
# How a step of an upload is retried

`retryStep` as a machine: an attempt is under way, a wait is under way, a wait has ended and the loop
has yet to go on, or the step is done. `Driver.step` says what each event of the browser, of the
transfer and of the attempt does. A step is one such machine, so all its counters begin at zero.
-/

namespace HVault.Client.Upload

open Interleave Function

/-! ## What a failure means -/

inductive RecoveryStep where
  | part | complete | resume
  deriving DecidableEq

inductive OurAbort where
  | offline | manual
  deriving DecidableEq

/-- What the driver learned about one attempt, and the state of the attempt's own signal. -/
structure AttemptRecord where
  progressed : Bool := false
  long : Bool := false
  ourAbort : Option OurAbort := none
  signalAborted : Bool := false

def AttemptRecord.abortAttempt (record : AttemptRecord) (reason : OurAbort) : AttemptRecord :=
  { record with ourAbort := record.ourAbort <|> some reason, signalAborted := true }

inductive AttemptError where
  | uploadCancelled
  /-- With the version of the vault key that the answer carries. -/
  | failed (failure : Failure) (vaultKeyVersion : Option ℕ)
  deriving DecidableEq

/-- The classes whose retries are bounded, each by a ladder of its own. -/
inductive Bounded where
  | interrupted | gateway | server
  deriving DecidableEq

inductive Verdict where
  | unreached | bounded (class_ : Bounded) | stale | fail | abandon
  deriving DecidableEq

def classifyFailure (isBrowserOnline : Bool) (step : RecoveryStep) (record : AttemptRecord)
    (error : AttemptError) : Verdict :=
  if record.ourAbort.isSome then .unreached
  else
    match error with
    | .uploadCancelled | .failed .other _ => .fail
    | .failed .noResponse _ =>
      if step ≠ .part ∨ ¬ isBrowserOnline then .unreached
      else if record.progressed ∨ record.long then .bounded .interrupted
      else .unreached
    | .failed (.response status message) vaultKeyVersion =>
      if status = 404 then .abandon
      else if (Failure.response status message).isSessionGone then .abandon
      else if status = 429 then .fail
      else if status = 408 then .bounded (if step = .part then .interrupted else .server)
      else if status = 502 ∨ status = 503 ∨ status = 504 then .bounded .gateway
      else if 500 ≤ status then .bounded .server
      else if step = .complete ∧ status = 409 then
        if vaultKeyVersion = none then .bounded .gateway else .stale
      else .fail

/-! ## Ladders -/

def serverRetryDelaysMs : List ℕ := [1000, 2000, 4000]

def gatewayRetryDelaysMs : List ℕ := [1000, 2000, 4000, 8000, 16000, 30000]

def ladder : Bounded → List ℕ
  | .gateway => gatewayRetryDelaysMs
  | .interrupted | .server => serverRetryDelaysMs

def maxUnreachedDelayMs : ℕ := 30000

def unreachedDelayMs (waits : ℕ) : ℕ := min (1000 * 2 ^ waits) maxUnreachedDelayMs

/-! ## The machine -/

inductive Status where
  | waiting | uploading | finalizing

inductive WaitReason where
  | connection | offline | interrupted | server

/-- How a step ends. -/
inductive Outcome (T : Type) where
  | returned (result : T)
  | cancelled
  | unresumable (error : AttemptError)
  | rethrown (error : AttemptError)
  /-- The transfer has failed, because the ladder of a class has no more waits or at once. -/
  | stopped (exhausted : Option Bounded) (error : AttemptError)

/-- A wait of `waitToRetry` after a failure of some class, `none` being `unreached`. -/
structure Wait where
  class_ : Option Bounded
  delayMs : ℕ
  wentOffline : Bool := false

inductive Phase (T : Type) where
  | attempting (record : AttemptRecord)
  | waiting (wait : Wait)
  /-- The wait has resolved. -/
  | woken (wait : Wait)
  | done (outcome : Outcome T)

/-- The counters of a step. -/
structure Books where
  retries : Bounded → ℕ := fun _ => 0
  /-- The failures that were survived, and the retries that were given back. History. -/
  tolerated : Bounded → ℕ := fun _ => 0
  refunds : ℕ := 0

def Books.charge (b : Books) (c : Bounded) : Books :=
  { b with
    retries := update b.retries c (b.retries c + 1)
    tolerated := update b.tolerated c (b.tolerated c + 1) }

def Books.refund (b : Books) : Books :=
  { b with
    retries := update b.retries .interrupted (b.retries .interrupted - 1)
    refunds := b.refunds + 1 }

structure Driver (T : Type) where
  step : RecoveryStep
  /-- The signal of the transfer. -/
  aborted : Bool
  isBrowserOnline : Bool
  unreachedWaits : ℕ := 0
  books : Books := {}
  waited : Bool := false
  /-- What was reported last. -/
  row : Option (Status × Option WaitReason) := none
  phase : Phase T

inductive Event (T : Type) where
  | abort
  | online
  | offline
  | visible
  | connectivity (isBrowserOnline : Bool)
  | retryNow
  | timer
  | longTimer
  | bodyProgress
  | settles (result : Except AttemptError T)
  | resumes

variable {T : Type}

namespace Driver

/-- The top of the loop. -/
def loopTop (d : Driver T) : Driver T :=
  if d.aborted then { d with phase := .done .cancelled }
  else
    { d with
      row := if d.waited ∧ d.step = .complete ∧ d.isBrowserOnline then some (.finalizing, none)
        else d.row
      phase := .attempting {} }

def start (step : RecoveryStep) (aborted isBrowserOnline : Bool) : Driver T :=
  loopTop { step, aborted, isBrowserOnline, phase := .woken ⟨none, 0, false⟩ }

/-- The row of a retried part leaves the waiting state once the body moves. -/
def uploading (d : Driver T) : Option (Status × Option WaitReason) :=
  if d.waited ∧ d.step = .part then some (.uploading, none) else d.row

/-- The `catch` of an attempt. -/
def fails (d : Driver T) (record : AttemptRecord) (error : AttemptError) : Driver T :=
  if d.aborted ∨ error = .uploadCancelled then { d with phase := .done .cancelled }
  else
    match classifyFailure d.isBrowserOnline d.step record error with
    | .abandon => { d with phase := .done (.unresumable error) }
    | .stale => { d with phase := .done (.rethrown error) }
    | .fail => { d with phase := .done (.stopped none error) }
    | .unreached =>
      if record.ourAbort = some .manual then loopTop { d with waited := true }
      else
        { d with
          unreachedWaits := d.unreachedWaits + 1
          row := some (.waiting, some (if d.isBrowserOnline then .connection else .offline))
          phase := .waiting { class_ := none, delayMs := unreachedDelayMs d.unreachedWaits } }
    | .bounded c =>
      match (ladder c)[d.books.retries c]? with
      | none => { d with phase := .done (.stopped (some c) error) }
      | some delayMs =>
        { d with
          books := d.books.charge c
          row := some (.waiting, some (if c = .interrupted then .interrupted else .server))
          phase := .waiting { class_ := some c, delayMs } }

/-- What follows `waitToRetry`: a part that was cut off by the network going away is not charged. -/
def resume (d : Driver T) (wait : Wait) : Driver T :=
  loopTop { d with
    waited := true
    books := if wait.class_ = some .interrupted ∧ wait.wentOffline then d.books.refund else d.books }

/-- What an event does, if it can happen. -/
def next (d : Driver T) : Event T → Option (Driver T)
  | .connectivity b =>
    match d.phase with
    | .done _ => none
    | _ => some { d with isBrowserOnline := b }
  | .abort =>
    match d.phase with
    | .done _ => none
    | .attempting record =>
      -- a completion on the wire is not ended
      some { d with
        aborted := true
        phase := .attempting
          { record with signalAborted := record.signalAborted || d.step ≠ .complete } }
    | .waiting wait | .woken wait => some { d with aborted := true, phase := .woken wait }
  | .online | .visible =>
    match d.phase with
    | .done _ => none
    | .waiting wait => some { d with phase := .woken wait }
    | _ => some d
  | .offline =>
    match d.phase with
    | .done _ => none
    | .attempting record =>
      some { d with phase := .attempting (record.abortAttempt .offline) }
    | .waiting wait =>
      some { d with
        row := some (.waiting, some .offline)
        phase := .waiting { wait with wentOffline := true } }
    | .woken _ => some d
  | .retryNow =>
    match d.phase with
    | .attempting record =>
      if d.waited ∧ ¬ record.progressed then
        some { d with phase := .attempting (record.abortAttempt .manual) }
      else none
    | .waiting wait => some { d with phase := .woken wait }
    | _ => none
  | .timer =>
    match d.phase with
    | .waiting wait => some { d with phase := .woken wait }
    | _ => none
  | .longTimer =>
    match d.phase with
    | .attempting record =>
      if d.step = .part then some { d with phase := .attempting { record with long := true } }
      else none
    | _ => none
  | .bodyProgress =>
    match d.phase with
    | .attempting record =>
      if record.progressed then some d
      else some { d with row := d.uploading, phase := .attempting { record with progressed := true } }
    | _ => none
  | .settles result =>
    match d.phase, result with
    | .attempting record, .ok value =>
      some { d with
        row := if record.progressed then d.row else d.uploading
        phase := .done (.returned value) }
    | .attempting record, .error error => some (d.fails record error)
    | _, _ => none
  | .resumes =>
    match d.phase with
    | .woken wait => some (d.resume wait)
    | _ => none

end Driver

/-! ## The books of a step -/

/-- The failures of a class that a step survives. -/
def waits (c : Bounded) : ℕ := (ladder c).length

/-- The failures of a class that were survived and not given back have been charged. -/
structure Books.Balanced (b : Books) : Prop where
  within : ∀ c, b.retries c ≤ waits c
  tolerated : ∀ c, b.tolerated c = b.retries c + if c = .interrupted then b.refunds else 0

theorem Books.Balanced.charge {b : Books} (h : b.Balanced) {c : Bounded}
    (hroom : b.retries c < waits c) : (b.charge c).Balanced := by
  refine ⟨fun c' => ?_, fun c' => ?_⟩ <;> have hwithin := h.within c' <;>
    have htolerated := h.tolerated c' <;> unfold Books.charge <;> dsimp only <;>
    by_cases hc : c' = c
  · rw [hc, update_self]
    omega
  · rwa [update_of_ne hc]
  · rw [hc, update_self, update_self]
    rw [hc] at htolerated
    omega
  · rwa [update_of_ne hc, update_of_ne hc]

theorem Books.Balanced.refund {b : Books} (h : b.Balanced) (hpos : 0 < b.retries .interrupted) :
    b.refund.Balanced := by
  refine ⟨fun c => ?_, fun c => ?_⟩ <;> have hwithin := h.within c <;>
    have htolerated := h.tolerated c <;> unfold Books.refund <;> dsimp only <;>
    by_cases hc : c = .interrupted
  · subst hc
    rw [update_self]
    omega
  · rwa [update_of_ne hc]
  · subst hc
    rw [if_pos rfl] at htolerated ⊢
    rw [update_self]
    omega
  · rw [if_neg hc] at htolerated ⊢
    rwa [update_of_ne hc]

/-- What the counters have come to in a phase. -/
def Counted (b : Books) : Phase T → Prop
  | .waiting wait | .woken wait => wait.class_ = some .interrupted → 0 < b.retries .interrupted
  | .done (.stopped (some c) _) => b.retries c = waits c
  | _ => True

/-- What the transfer's signal has come to in a phase. -/
def Heeded (step : RecoveryStep) : Phase T → Prop
  | .attempting record => step ≠ .complete → record.signalAborted = true
  | .waiting _ => False
  | .woken _ => True
  | .done outcome => outcome = .cancelled ∨ ∃ result, outcome = .returned result

/-- The part of a driver that its retries are about. -/
structure Kept (step : RecoveryStep) (aborted : Bool) (books : Books) (phase : Phase T) : Prop where
  balanced : books.Balanced
  counted : Counted books phase
  heeded : aborted = true → Heeded step phase

abbrev Driver.Sound (d : Driver T) : Prop := Kept d.step d.aborted d.books d.phase

variable {d : Driver T}

theorem sound_loopTop (h : d.books.Balanced) : d.loopTop.Sound := by
  unfold Driver.loopTop
  split
  · exact ⟨h, trivial, fun _ => .inl rfl⟩
  · rename_i hlive
    exact ⟨h, trivial, fun ha => absurd ha hlive⟩

theorem sound_start (step : RecoveryStep) (aborted isBrowserOnline : Bool) :
    (Driver.start step aborted isBrowserOnline : Driver T).Sound := by
  apply sound_loopTop
  exact ⟨fun _ => Nat.zero_le _, fun c => by cases c <;> rfl⟩

theorem sound_fails (h : d.books.Balanced) (record : AttemptRecord) (error : AttemptError) :
    (d.fails record error).Sound := by
  unfold Driver.fails
  split
  · exact ⟨h, trivial, fun _ => .inl rfl⟩
  · rename_i hlive
    have hlive : d.aborted = true → False := fun ha => hlive (.inl ha)
    split
    · exact ⟨h, trivial, fun ha => (hlive ha).elim⟩
    · exact ⟨h, trivial, fun ha => (hlive ha).elim⟩
    · exact ⟨h, trivial, fun ha => (hlive ha).elim⟩
    · split
      · exact sound_loopTop h
      · exact ⟨h, fun hc => absurd hc (by simp), fun ha => (hlive ha).elim⟩
    · rename_i c _
      split
      · -- no wait is left in the ladder
        rename_i hnone
        have hspent : d.books.retries c = waits c :=
          le_antisymm (h.within c) (List.getElem?_eq_none_iff.1 hnone)
        exact ⟨h, hspent, fun ha => (hlive ha).elim⟩
      · rename_i delayMs hsome
        have hroom : d.books.retries c < waits c := (List.getElem?_eq_some_iff.1 hsome).1
        refine ⟨h.charge hroom, fun hc => ?_, fun ha => (hlive ha).elim⟩
        cases hc
        show 0 < update d.books.retries .interrupted _ .interrupted
        rw [update_self]
        exact Nat.succ_pos _

theorem sound_resume (h : d.books.Balanced) {wait : Wait}
    (hcounted : Counted d.books (.woken wait : Phase T)) : (d.resume wait).Sound := by
  apply sound_loopTop
  split
  · rename_i hrefund
    exact h.refund (hcounted hrefund.1)
  · exact h

/-- What an event does to a sound driver. -/
theorem Driver.Sound.next {d' : Driver T} {e : Event T} (h : d.Sound) (hd : d.next e = some d') :
    d'.Sound := by
  obtain ⟨step, aborted, isBrowserOnline, unreachedWaits, books, waited, row, phase⟩ := d
  obtain ⟨hbalanced, hcounted, hheeded⟩ := h
  cases phase with
  | attempting record =>
    cases e with
    | settles result =>
      cases result with
      | ok value =>
        cases hd
        exact ⟨hbalanced, trivial, fun _ => .inr ⟨value, rfl⟩⟩
      | error error =>
        cases hd
        exact sound_fails hbalanced record error
    | abort =>
      cases hd
      exact ⟨hbalanced, trivial, fun _ hstep => by simp [hstep]⟩
    | offline =>
      cases hd
      exact ⟨hbalanced, trivial, fun _ _ => rfl⟩
    | retryNow =>
      obtain ⟨-, hd⟩ := Option.ite_none_right_eq_some.1 hd
      cases hd
      exact ⟨hbalanced, trivial, fun _ _ => rfl⟩
    | longTimer =>
      obtain ⟨-, hd⟩ := Option.ite_none_right_eq_some.1 hd
      cases hd
      exact ⟨hbalanced, trivial, hheeded⟩
    | bodyProgress =>
      unfold Driver.next at hd
      dsimp only at hd
      split at hd <;> cases hd <;> exact ⟨hbalanced, trivial, hheeded⟩
    | online | visible | connectivity =>
      cases hd
      exact ⟨hbalanced, trivial, hheeded⟩
    | timer | resumes => cases hd
  | waiting wait =>
    cases e with
    | offline | connectivity =>
      cases hd
      exact ⟨hbalanced, hcounted, hheeded⟩
    | abort | online | visible | retryNow | timer =>
      cases hd
      exact ⟨hbalanced, hcounted, fun _ => trivial⟩
    | longTimer | bodyProgress | settles | resumes => cases hd
  | woken wait =>
    cases e with
    | resumes =>
      cases hd
      exact sound_resume hbalanced hcounted
    | abort | online | visible | offline | connectivity =>
      cases hd
      exact ⟨hbalanced, hcounted, fun _ => trivial⟩
    | retryNow | timer | longTimer | bodyProgress | settles => cases hd
  | done outcome => cases e <;> cases hd

/-! ## Every run -/

/-- A step that is not over. -/
def Driver.Running (d : Driver T) : Prop := ∀ outcome, d.phase ≠ .done outcome

/-- The failures of a class that a step survives, given the retries it was given back. -/
def Driver.allowance (d : Driver T) (c : Bounded) : ℕ :=
  waits c + if c = .interrupted then d.books.refunds else 0

/-- The policy, for a driver as it stands: what it has survived, what it will survive next, and what
an abort has come to. -/
structure Policy (d : Driver T) : Prop where
  tolerated : ∀ c, d.books.tolerated c ≤ d.allowance c
  stopped : ∀ c error, d.phase = .done (.stopped (some c) error) →
    d.books.tolerated c = d.allowance c
  unreached : ∀ record error, d.phase = .attempting record → d.aborted = false →
    classifyFailure d.isBrowserOnline d.step record error = .unreached → error ≠ .uploadCancelled →
    (d.fails record error).Running ∧ (d.fails record error).books = d.books
  bounded : ∀ record error c, d.phase = .attempting record → d.aborted = false →
    classifyFailure d.isBrowserOnline d.step record error = .bounded c →
    (d.books.tolerated c < d.allowance c ∧ (d.fails record error).Running ∧
      (d.fails record error).books = d.books.charge c) ∨
    (d.books.tolerated c = d.allowance c ∧
      (d.fails record error).phase = .done (.stopped (some c) error))
  aborted : d.aborted = true → Heeded d.step d.phase ∧
    (∀ record error, (d.fails record error).phase = .done .cancelled) ∧
    ∀ wait, (d.resume wait).phase = .done .cancelled

theorem running_loopTop (h : d.aborted = false) : d.loopTop.Running := by
  unfold Driver.loopTop
  rw [if_neg (by simp [h])]
  nofun

theorem running_waiting {wait : Wait} (h : d.phase = .waiting wait) : d.Running := by
  intro _ hdone
  cases h.symm.trans hdone

theorem Driver.Sound.policy (h : d.Sound) : Policy d := by
  have hallowance : ∀ c, d.books.tolerated c + waits c = d.books.retries c + d.allowance c := by
    intro c
    have := h.balanced.tolerated c
    unfold Driver.allowance
    omega
  refine ⟨fun c => ?_, fun c error hphase => ?_, ?_, ?_, fun ha => ⟨h.heeded ha, ?_, ?_⟩⟩
  · have := hallowance c
    have := h.balanced.within c
    omega
  · have := hallowance c
    have hspent : d.books.retries c = waits c := by
      have hcounted := h.counted
      rwa [hphase] at hcounted
    omega
  · intro record error hphase hlive hclass herror
    unfold Driver.fails
    rw [if_neg (by simp [hlive, herror]), hclass]
    dsimp only
    split
    · refine ⟨running_loopTop hlive, ?_⟩
      unfold Driver.loopTop
      rw [if_neg (by simp [hlive])]
    · exact ⟨running_waiting rfl, rfl⟩
  · intro record error c hphase hlive hclass
    have herror : error ≠ .uploadCancelled := by
      rintro rfl
      unfold classifyFailure at hclass
      split at hclass <;> cases hclass
    have hbalance := hallowance c
    unfold Driver.fails
    rw [if_neg (by simp [hlive, herror]), hclass]
    dsimp only
    split
    · rename_i hnone
      have hspent : waits c ≤ d.books.retries c := List.getElem?_eq_none_iff.1 hnone
      have hwithin := h.balanced.within c
      exact .inr ⟨by omega, rfl⟩
    · rename_i hsome
      have hroom : d.books.retries c < waits c := (List.getElem?_eq_some_iff.1 hsome).1
      exact .inl ⟨by omega, running_waiting rfl, rfl⟩
  · intro record error
    unfold Driver.fails
    rw [if_pos (.inl ha)]
  · intro wait
    unfold Driver.resume Driver.loopTop
    rw [if_pos ha]

/-- **The retry policy.** In every run of a step, failures that did not reach the server go on and
charge nothing, each class survives exactly as many failures as its ladder has waits and as it was
given back, and after an abort a step is cancelled, unless the attempt that was under way succeeds. -/
theorem retry_policy (step : RecoveryStep) (aborted isBrowserOnline : Bool)
    (h : Run Driver.next (fun _ _ => True) (.start step aborted isBrowserOnline) d) : Policy d :=
  Driver.Sound.policy <|
    h.invariant (sound_start step aborted isBrowserOnline) fun _ _ _ hsound _ hd => hsound.next hd

/-- A part that is cut off while its body moves, just before the browser says it is offline. -/
def cutOff : List (Event ℕ) :=
  [.bodyProgress, .settles (.error (.failed .noResponse none)), .offline, .online, .resumes]

/-- Four parts cut off are survived, where the ladder has three waits; and a completion that is
answered after an abort is not cancelled. -/
theorem retry_not_exact :
    (∃ d : Driver ℕ, Run Driver.next (fun _ _ => True) (.start .part false true) d ∧
      waits .interrupted = 3 ∧ d.books.tolerated .interrupted = 4) ∧
    ∃ d : Driver ℕ, Run Driver.next (fun _ _ => True) (.start .complete false true) d ∧
      d.aborted = true ∧ d.phase = .done (.returned 7) := by
  have hcut : replay Driver.next (fun _ _ => True) (.start .part false true)
    (cutOff ++ cutOff ++ cutOff ++ cutOff) = some _ := rfl
  have hcomplete : replay Driver.next (fun _ _ => True) (.start .complete false true)
    ([.abort, .settles (.ok 7)] : List (Event ℕ)) = some _ := rfl
  exact ⟨⟨_, Run.of_replay hcut, rfl, rfl⟩, ⟨_, Run.of_replay hcomplete, rfl, rfl⟩⟩

/-- A part that is cut off four times while the browser stays online is given up. -/
theorem retry_policy_stops : ∃ d : Driver ℕ, Policy d ∧
    d.phase = .done (.stopped (some .interrupted) (.failed .noResponse none)) := by
  let cut : List (Event ℕ) := [.bodyProgress, .settles (.error (.failed .noResponse none))]
  let wait : List (Event ℕ) := [.timer, .resumes]
  have hrun : replay Driver.next (fun _ _ => True) (.start .part false true)
    (cut ++ wait ++ cut ++ wait ++ cut ++ wait ++ cut) = some _ := rfl
  exact ⟨_, retry_policy .part false true (Run.of_replay hrun), rfl⟩

end HVault.Client.Upload
