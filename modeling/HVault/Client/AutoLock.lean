import HVault.Interleave.Runs

/-!
# The auto-lock deadline

The hook computes the instant by which the vault must be locked and checks it against the wall
clock on every event of the page: timers may be late or skipped, so the check is what counts and not
the timer. Times are the readings of the wall clock in milliseconds.

`deadline_judged` says of every event what it does to the deadline in force: no lock before it, one
lock at most, and past it a lock exactly for the events that judge the deadline before they move it.
An activity event moves it first (`deadline_judged_activity`).
-/

namespace HVault.AutoLock

open Interleave

/-! ## The hook -/

def minuteMs : ℕ := 60 * 1000

def deadlinePollMs : ℕ := 20000

def activityThrottleMs : ℕ := 1000

def progressContinuityMs : ℕ := 60000

/-- The settings of a session, in milliseconds. The two delays are at least a minute. -/
structure Settings where
  idleTimeoutMs : ℕ
  lockOnHidden : Bool
  hiddenDelayMs : ℕ
  idle_pos : 0 < idleTimeoutMs
  delay_pos : 0 < hiddenDelayMs

/-- The refs of the hook, the module's progress stamp, the page and the store, in one unlocked
session. `requests` are the times at which the hook asked for a lock. -/
structure Session where
  lastActivity : ℕ
  hiddenSince : Option ℕ
  timer : Option ℕ
  lockRequested : Bool
  lastEvaluateAt : ℕ
  lastActivityHandled : ℕ
  autoLockProgressAt : ℕ
  documentHidden : Bool
  isLocked : Bool
  requests : List ℕ
  now : ℕ
  deriving DecidableEq, Repr

inductive EventKind where
  | activity
  /-- The page becomes hidden, or visible again. -/
  | visibilitychange
  | focus
  | pageshow
  | poll
  | timer
  /-- `noteAutoLockProgress` of a long job. -/
  | progress
  deriving DecidableEq, Repr

structure Event where
  kind : EventKind
  time : ℕ
  deriving DecidableEq, Repr

variable (c : Settings)

/-- The hidden deadline: none while the tab is visible or the setting is off. -/
def hiddenDeadline (s : Session) : Option ℕ :=
  if c.lockOnHidden then s.hiddenSince.map (· + c.hiddenDelayMs) else none

def deadlineAt (s : Session) : ℕ :=
  match hiddenDeadline c s with
  | some hidden => min (s.lastActivity + c.idleTimeoutMs) hidden
  | none => s.lastActivity + c.idleTimeoutMs

/-- Progress counts as activity when the previous evaluation was recent; a stamp later than now is
dropped. -/
def Session.credit (now : ℕ) (s : Session) : Session :=
  let progressAt := if now < s.autoLockProgressAt then 0 else s.autoLockProgressAt
  { s with
    autoLockProgressAt := progressAt
    lastActivity := if now - s.lastEvaluateAt < progressContinuityMs
      then max s.lastActivity progressAt else s.lastActivity }

/-- Locks if the deadline has passed, else arms the timer to it. -/
def evaluate (now : ℕ) (s : Session) : Session :=
  if s.isLocked || s.lockRequested then { s with timer := none }
  else
    let s := { s.credit now with lastEvaluateAt := now }
    if deadlineAt c s ≤ now then
      { s with timer := none, lockRequested := true, isLocked := true
               requests := s.requests ++ [now] }
    else { s with timer := some (now + min (deadlineAt c s - now) deadlinePollMs) }

/-- Whether an activity event comes too soon after the last one. -/
def Session.throttled (s : Session) (now : ℕ) : Bool :=
  now - s.lastActivityHandled < activityThrottleMs

def handleActivity (now : ℕ) (s : Session) : Session :=
  if s.throttled now then s
  else evaluate c now { s with lastActivityHandled := now, lastActivity := now }

def handleVisibilityChange (now : ℕ) (s : Session) : Session :=
  if s.documentHidden then evaluate c now { s with hiddenSince := some now }
  else
    -- the hidden deadline is judged before it is discarded
    evaluate c now { evaluate c now s with hiddenSince := none }

def noteAutoLockProgress (now : ℕ) (s : Session) : Session :=
  if s.documentHidden then s else { s with autoLockProgressAt := now }

/-- What the handler of an event does; an armed timer fires when it is due, or later. -/
def handle (e : Event) (s : Session) : Option Session :=
  match e.kind with
  | .activity => some (handleActivity c e.time s)
  | .visibilitychange =>
    some (handleVisibilityChange c e.time { s with documentHidden := !s.documentHidden })
  | .focus | .pageshow | .poll => some (evaluate c e.time s)
  | .timer => if ∃ due ∈ s.timer, due ≤ e.time then some (evaluate c e.time s) else none
  | .progress => some (noteAutoLockProgress e.time s)

/-- One event; the clock does not go back. -/
def step (s : Session) (e : Event) : Option Session :=
  if e.time < s.now then none else (handle c e s).map fun s => { s with now := e.time }

/-- A session starts: the effect re-arms the refs and evaluates. `lastEvaluateAt` and the progress
stamp are from before. -/
def sessionStart (hidden : Bool) (lastEvaluateAt progressAt now : ℕ) : Session :=
  evaluate c now
    { lastActivity := now
      hiddenSince := if hidden then some now else none
      timer := none
      lockRequested := false
      lastEvaluateAt := lastEvaluateAt
      lastActivityHandled := 0
      autoLockProgressAt := progressAt
      documentHidden := hidden
      isLocked := false
      requests := []
      now := now }

/-! ## What is asked of it -/

/-- The deadline in force when an event is handled: the last activity or creditable progress and
the idle timeout, or the start of the hidden period and its delay. -/
def deadlineInForce (s : Session) (now : ℕ) : ℕ := deadlineAt c (s.credit now)

/-- The event judges the deadline before it moves it. -/
def Judges (s : Session) (e : Event) : Prop :=
  match e.kind with
  | .activity => s.throttled e.time = false ∧ ∃ hidden ∈ hiddenDeadline c s, hidden ≤ e.time
  | .progress => False
  | _ => True

instance (s : Session) (e : Event) : Decidable (Judges c s e) := by
  unfold Judges
  split <;> infer_instance

/-- What handling an event does about the deadline. -/
structure Verdict (s s' : Session) (e : Event) : Prop where
  once : s'.requests.length ≤ 1
  early : s'.requests ≠ s.requests → deadlineInForce c s e.time ≤ e.time
  late : s.requests = [] → deadlineInForce c s e.time ≤ e.time →
    (s'.requests = [e.time] ↔ Judges c s e)

/-! ## Lemmas -/

section Lemmas

variable {c} {s : Session} {now : ℕ}

theorem deadlineAt_eq (s : Session) : deadlineAt c s = match hiddenDeadline c s with
    | some hidden => min (s.lastActivity + c.idleTimeoutMs) hidden
    | none => s.lastActivity + c.idleTimeoutMs := rfl

/-- The deadline has passed when one of the two has. -/
theorem deadlineAt_le_iff : deadlineAt c s ≤ now ↔
    s.lastActivity + c.idleTimeoutMs ≤ now ∨ ∃ hidden ∈ hiddenDeadline c s, hidden ≤ now := by
  rw [deadlineAt_eq]
  cases hiddenDeadline c s with
  | none => simp
  | some hidden =>
    simp only [Option.mem_some_iff, exists_eq_left']
    omega

theorem hiddenDeadline_credit : hiddenDeadline c (s.credit now) = hiddenDeadline c s := rfl

theorem evaluate_requested (h : s.lockRequested = true) :
    evaluate c now s = { s with timer := none } := by
  unfold evaluate
  rw [h, Bool.or_true, if_pos rfl]

/-- An evaluation in an unlocked session asks for a lock exactly past the deadline in force. -/
theorem evaluate_requests (hlocked : s.isLocked = false) (h : s.lockRequested = false) :
    (evaluate c now s).requests
      = if deadlineInForce c s now ≤ now then s.requests ++ [now] else s.requests := by
  unfold evaluate deadlineInForce
  rw [hlocked, h, Bool.or_false, if_neg (by simp)]
  have hsame : deadlineAt c { s.credit now with lastEvaluateAt := now }
      = deadlineAt c (s.credit now) := rfl
  dsimp only
  rw [hsame]
  split
  · rfl
  · rfl

/-- An evaluation that leaves the session unlocked finds itself before the deadline. -/
theorem evaluate_early (hlocked : s.isLocked = s.lockRequested)
    (h : (evaluate c now s).lockRequested = false) :
    (evaluate c now s).isLocked = false ∧ ¬ deadlineAt c (evaluate c now s) ≤ now := by
  unfold evaluate at h ⊢
  split
  · rename_i hover
    rw [if_pos hover] at h
    have hopen : s.lockRequested = false := h
    rw [hlocked, hopen] at hover
    cases hover
  · rename_i hfree
    rw [if_neg hfree] at h
    dsimp only at h ⊢
    split
    · rename_i hdue
      rw [if_pos hdue] at h
      cases h
    · rename_i hearly
      rw [Bool.or_eq_true, not_or] at hfree
      exact ⟨Bool.eq_false_iff.2 hfree.1, hearly⟩

end Lemmas

theorem Session.le_credit (s : Session) (now : ℕ) :
    s.lastActivity ≤ (s.credit now).lastActivity := by
  unfold Session.credit
  dsimp only
  split
  · exact Nat.le_max_left ..
  · exact Nat.le_refl _

/-- What holds of the refs all along. -/
structure Sane (s : Session) : Prop where
  locked : s.isLocked = s.lockRequested
  requests : s.requests.length = if s.lockRequested then 1 else 0
  hidden : s.hiddenSince.isSome = s.documentHidden

section Steps

variable {c} {s : Session}

theorem Sane.nil_iff (h : Sane s) : s.requests = [] ↔ s.lockRequested = false := by
  have hlength := h.requests
  rw [← List.length_eq_zero_iff, hlength]
  cases s.lockRequested with
  | true => simp
  | false => simp

theorem evaluate_hiddenSince (now : ℕ) (s : Session) :
    (evaluate c now s).hiddenSince = s.hiddenSince ∧
      (evaluate c now s).documentHidden = s.documentHidden := by
  unfold evaluate
  split
  · exact ⟨rfl, rfl⟩
  · dsimp only
    split
    · exact ⟨rfl, rfl⟩
    · exact ⟨rfl, rfl⟩

theorem evaluate_rest (h : s.isLocked = s.lockRequested)
    (hrequests : s.requests.length = if s.lockRequested then 1 else 0) (now : ℕ) :
    (evaluate c now s).isLocked = (evaluate c now s).lockRequested ∧
      (evaluate c now s).requests.length = if (evaluate c now s).lockRequested then 1 else 0 := by
  unfold evaluate
  split
  · exact ⟨h, hrequests⟩
  · rename_i hfree
    rw [Bool.or_eq_true, not_or] at hfree
    dsimp only
    split
    · refine ⟨rfl, ?_⟩
      show (s.requests ++ [now]).length = 1
      rw [List.length_append, hrequests, if_neg hfree.2]
      rfl
    · exact ⟨h, hrequests⟩

theorem Sane.evaluate (h : s.isLocked = s.lockRequested)
    (hrequests : s.requests.length = if s.lockRequested then 1 else 0)
    (hhidden : s.hiddenSince.isSome = s.documentHidden) (now : ℕ) :
    Sane (AutoLock.evaluate c now s) := by
  obtain ⟨hsince, hdocument⟩ := evaluate_hiddenSince now s
  obtain ⟨hlocked, hlength⟩ := evaluate_rest (c := c) h hrequests now
  exact ⟨hlocked, hlength, by rw [hsince, hdocument, hhidden]⟩

theorem sane_start (hidden : Bool) (lastEvaluateAt progressAt now : ℕ) :
    Sane (sessionStart c hidden lastEvaluateAt progressAt now) := by
  apply Sane.evaluate
  · rfl
  · rfl
  · cases hidden with
    | true => rfl
    | false => rfl

variable {e : Event}

/-- The verdict of an event that comes down to one evaluation. -/
theorem Sane.verdict (h : Sane s) {t s' : Session} (hs' : Sane s')
    (hrequests : s'.requests = (AutoLock.evaluate c e.time t).requests)
    (ht : t.requests = s.requests) (hlocked : t.isLocked = s.isLocked)
    (hrequested : t.lockRequested = s.lockRequested) (hforce : deadlineInForce c t e.time ≤ e.time →
      deadlineInForce c s e.time ≤ e.time) (hjudges : deadlineInForce c s e.time ≤ e.time →
      (deadlineInForce c t e.time ≤ e.time ↔ Judges c s e)) : Verdict c s s' e := by
  have honce : s'.requests.length ≤ 1 := by
    rw [hs'.requests]
    split
    · exact Nat.le_refl 1
    · exact Nat.zero_le 1
  cases hreq : s.lockRequested with
  | true =>
    have hsame : s'.requests = s.requests := by
      rw [hrequests, evaluate_requested (hrequested.trans hreq)]
      exact ht
    refine ⟨honce, fun hne => (hne hsame).elim, fun hnil => ?_⟩
    rw [h.nil_iff, hreq] at hnil
    cases hnil
  | false =>
    have heval : (AutoLock.evaluate c e.time t).requests = _ :=
      evaluate_requests (hlocked.trans (h.locked.trans hreq)) (hrequested.trans hreq)
    rw [← hrequests, ht] at heval
    refine ⟨honce, fun hne => ?_, fun hnil hpast => ?_⟩
    · apply hforce
      by_cases hdue : deadlineInForce c t e.time ≤ e.time
      · exact hdue
      · rw [if_neg hdue] at heval
        exact (hne heval).elim
    · rw [hnil] at heval
      rw [← hjudges hpast]
      by_cases hdue : deadlineInForce c t e.time ≤ e.time
      · rw [heval, if_pos hdue]
        exact iff_of_true rfl hdue
      · rw [heval, if_neg hdue]
        exact iff_of_false (by simp) hdue

/-- The verdict of an event that leaves the requests alone. -/
theorem Sane.verdict_idle (h : Sane s) {s' : Session} (hrequests : s'.requests = s.requests)
    (hjudges : deadlineInForce c s e.time ≤ e.time → ¬ Judges c s e) : Verdict c s s' e where
  once := by
    rw [hrequests, h.requests]
    split
    · exact Nat.le_refl 1
    · exact Nat.zero_le 1
  early hne := (hne hrequests).elim
  late hnil hpast := by
    rw [hrequests, hnil]
    exact iff_of_false (by simp) (hjudges hpast)

/-- Becoming visible evaluates twice, and the second evaluation adds nothing. -/
theorem requests_visible (hlocked : s.isLocked = s.lockRequested) (now : ℕ) :
    (evaluate c now { evaluate c now s with hiddenSince := none }).requests
      = (evaluate c now s).requests := by
  cases hreq : (evaluate c now s).lockRequested with
  | true =>
    have hagain : { evaluate c now s with hiddenSince := none }.lockRequested = true := hreq
    rw [evaluate_requested hagain]
  | false =>
    obtain ⟨hopen, hearly⟩ := evaluate_early hlocked hreq
    have hlate : ¬ deadlineInForce c { evaluate c now s with hiddenSince := none } now ≤ now := by
      intro hpast
      unfold deadlineInForce at hpast
      rw [deadlineAt_le_iff] at hpast
      rcases hpast with hpast | ⟨hidden, hhidden, -⟩
      · apply hearly
        rw [deadlineAt_le_iff]
        apply Or.inl
        refine Nat.le_trans (Nat.add_le_add_right ?_ _) hpast
        exact Session.le_credit { evaluate c now s with hiddenSince := none } now
      · unfold hiddenDeadline at hhidden
        split at hhidden
        · cases hhidden
        · cases hhidden
    have hagain : (evaluate c now { evaluate c now s with hiddenSince := none }).requests = _ :=
      evaluate_requests hopen hreq
    rw [if_neg hlate] at hagain
    exact hagain

theorem Sane.handleActivity (h : Sane s) (now : ℕ) : Sane (AutoLock.handleActivity c now s) := by
  unfold AutoLock.handleActivity
  split
  · exact h
  · apply Sane.evaluate
    · exact h.locked
    · exact h.requests
    · exact h.hidden

theorem verdict_activity (h : Sane s) (hkind : e.kind = .activity) :
    Verdict c s (AutoLock.handleActivity c e.time s) e := by
  have hjudges : Judges c s e ↔
      s.throttled e.time = false ∧ ∃ hidden ∈ hiddenDeadline c s, hidden ≤ e.time := by
    unfold Judges
    rw [hkind]
  have hsane := h.handleActivity (c := c) e.time
  unfold AutoLock.handleActivity at hsane ⊢
  split at hsane
  · rename_i hthrottled
    rw [if_pos hthrottled]
    apply h.verdict_idle rfl
    intro _ hj
    rw [hjudges, hthrottled] at hj
    exact absurd hj.1 (by simp)
  · rename_i hthrottled
    rw [if_neg hthrottled]
    have hfresh : deadlineInForce c { s with lastActivityHandled := e.time, lastActivity := e.time }
        e.time ≤ e.time ↔ ∃ hidden ∈ hiddenDeadline c s, hidden ≤ e.time := by
      -- the idle deadline has just been moved past the present
      have hidle := Session.le_credit
        { s with lastActivityHandled := e.time, lastActivity := e.time } e.time
      have hpos := c.idle_pos
      unfold deadlineInForce
      rw [deadlineAt_le_iff]
      refine ⟨fun hpast => hpast.resolve_left ?_, .inr⟩
      dsimp only at hidle
      omega
    refine h.verdict hsane rfl rfl rfl rfl ?_ ?_
    · rw [hfresh]
      intro hhidden
      unfold deadlineInForce
      rw [deadlineAt_le_iff]
      exact .inr hhidden
    · intro _
      rw [hfresh, hjudges]
      exact (and_iff_right (by simpa using hthrottled)).symm

theorem verdict_visibilitychange (h : Sane s) (hkind : e.kind = .visibilitychange) :
    Verdict c s (handleVisibilityChange c e.time { s with documentHidden := !s.documentHidden }) e ∧
      Sane (handleVisibilityChange c e.time { s with documentHidden := !s.documentHidden }) := by
  have hjudges : Judges c s e := by
    unfold Judges
    rw [hkind]
    trivial
  unfold handleVisibilityChange
  cases hhidden : s.documentHidden with
  | true =>
    -- the tab becomes visible
    rw [Bool.not_true, if_neg (by simp)]
    have hsane : Sane (AutoLock.evaluate c e.time { AutoLock.evaluate c e.time
        { s with documentHidden := false } with hiddenSince := none }) := by
      have hvisible : { s with documentHidden := false }.isLocked
          = { s with documentHidden := false }.lockRequested := h.locked
      have hfirst := evaluate_rest (c := c) hvisible h.requests e.time
      apply Sane.evaluate
      · exact hfirst.1
      · exact hfirst.2
      · exact (evaluate_hiddenSince e.time { s with documentHidden := false }).2.symm
    have htwice := requests_visible (c := c) (s := { s with documentHidden := false }) h.locked e.time
    refine ⟨h.verdict hsane htwice rfl rfl rfl id fun hpast => ?_, hsane⟩
    exact iff_of_true hpast hjudges
  | false =>
    -- the tab becomes hidden: its hidden period starts now
    rw [Bool.not_false, if_pos rfl]
    have hnone : s.hiddenSince = none := by
      have hsome := h.hidden
      rw [hhidden] at hsome
      simpa using hsome
    have hsane : Sane (AutoLock.evaluate c e.time
        { s with documentHidden := true, hiddenSince := some e.time }) := by
      apply Sane.evaluate
      · exact h.locked
      · exact h.requests
      · rfl
    have hforce : deadlineInForce c { s with
        documentHidden := true, hiddenSince := some e.time } e.time ≤ e.time ↔
          deadlineInForce c s e.time ≤ e.time := by
      unfold deadlineInForce
      rw [deadlineAt_le_iff, deadlineAt_le_iff, hiddenDeadline_credit, hiddenDeadline_credit]
      have hpos := c.delay_pos
      unfold hiddenDeadline
      rw [hnone]
      constructor
      · rintro (hidle | ⟨hidden, hmem, hle⟩)
        · exact .inl hidle
        · exfalso
          split at hmem
          · cases hmem
            exact Nat.not_le_of_lt (Nat.lt_add_of_pos_right hpos) hle
          · cases hmem
      · rintro (hidle | ⟨hidden, hmem, -⟩)
        · exact .inl hidle
        · split at hmem
          · cases hmem
          · cases hmem
    refine ⟨h.verdict hsane rfl rfl rfl rfl hforce.1 fun hpast => ?_, hsane⟩
    exact iff_of_true (hforce.2 hpast) hjudges

/-- One event: what it does about the deadline, and that the refs stay sane. -/
theorem Sane.handle (h : Sane s) {s' : Session} (hs : AutoLock.handle c e s = some s') :
    Verdict c s s' e ∧ Sane s' := by
  have hwake : ∀ {kind : EventKind}, e.kind = kind →
      (kind = .focus ∨ kind = .pageshow ∨ kind = .poll ∨ kind = .timer) →
      Verdict c s (AutoLock.evaluate c e.time s) e ∧ Sane (AutoLock.evaluate c e.time s) := by
    intro kind hkind hwakes
    have hjudges : Judges c s e := by
      unfold Judges
      rw [hkind]
      rcases hwakes with rfl | rfl | rfl | rfl <;> trivial
    have hsane := Sane.evaluate (c := c) h.locked h.requests h.hidden e.time
    exact ⟨h.verdict hsane rfl rfl rfl rfl id fun hpast => iff_of_true hpast hjudges, hsane⟩
  unfold AutoLock.handle at hs
  split at hs
  · rename_i hkind
    cases hs
    exact ⟨verdict_activity h hkind, h.handleActivity e.time⟩
  · rename_i hkind
    cases hs
    exact verdict_visibilitychange h hkind
  · rename_i hkind
    cases hs
    exact hwake hkind (.inl rfl)
  · rename_i hkind
    cases hs
    exact hwake hkind (.inr (.inl rfl))
  · rename_i hkind
    cases hs
    exact hwake hkind (.inr (.inr (.inl rfl)))
  · rename_i hkind
    split at hs
    · cases hs
      exact hwake hkind (.inr (.inr (.inr rfl)))
    · cases hs
  · rename_i hkind
    cases hs
    have hidle : ¬ Judges c s e := by
      unfold Judges
      rw [hkind]
      exact id
    unfold noteAutoLockProgress
    split
    · exact ⟨h.verdict_idle rfl fun _ => hidle, h⟩
    · exact ⟨h.verdict_idle rfl fun _ => hidle, h.locked, h.requests, h.hidden⟩

end Steps

/-! ## The deadline -/

/-- **The deadline.** In every run of a session, one lock is requested at most and none before the
deadline in force; an event handled past the deadline requests it exactly if it judges the deadline
before it moves it. -/
theorem deadline_judged {c : Settings} {hidden : Bool} {lastEvaluateAt progressAt now : ℕ} {s s' : Session}
    {e : Event}
    (h : Run (step c) (fun _ _ => True) (sessionStart c hidden lastEvaluateAt progressAt now) s)
    (hs : step c s e = some s') : Verdict c s s' e := by
  have hstep : ∀ {s s' : Session} {e : Event}, Sane s → step c s e = some s' →
      Verdict c s s' e ∧ Sane s' := by
    intro s s' e hsane hs
    unfold step at hs
    split at hs
    · cases hs
    · obtain ⟨t, ht, rfl⟩ := Option.map_eq_some_iff.1 hs
      obtain ⟨hverdict, hsane'⟩ := hsane.handle ht
      exact ⟨⟨hverdict.once, hverdict.early, hverdict.late⟩,
        hsane'.locked, hsane'.requests, hsane'.hidden⟩
  have hsane : Sane s := h.invariant (sane_start hidden lastEvaluateAt progressAt now)
    fun _ _ _ hsane _ hs => (hstep hsane hs).2
  exact (hstep hsane hs).1

/-- A timeout of fifteen minutes. -/
def quarterHour : Settings := ⟨15 * minuteMs, false, minuteMs, by decide, by decide⟩

theorem deadline_judged_focus :
    Verdict quarterHour (sessionStart quarterHour false 0 0 0)
      { sessionStart quarterHour false 0 0 0 with
        timer := none
        lockRequested := true
        isLocked := true
        lastEvaluateAt := 8 * 60 * minuteMs
        requests := [8 * 60 * minuteMs]
        now := 8 * 60 * minuteMs } ⟨.focus, 8 * 60 * minuteMs⟩ :=
  deadline_judged Relation.ReflTransGen.refl rfl

/-- The machine sleeps for eight hours, and the first event after it is a movement of the mouse: the
vault stays unlocked, for another quarter of an hour. -/
theorem deadline_judged_activity :
    ∃ s', step quarterHour (sessionStart quarterHour false 0 0 0)
        ⟨.activity, 8 * 60 * minuteMs⟩ = some s' ∧
      deadlineInForce quarterHour (sessionStart quarterHour false 0 0 0) (8 * 60 * minuteMs)
        ≤ 8 * 60 * minuteMs ∧
      s'.requests = [] ∧ s'.isLocked = false ∧
      deadlineAt quarterHour s' = 8 * 60 * minuteMs + 15 * minuteMs :=
  ⟨_, rfl, by decide, by decide, by decide, by decide⟩

end HVault.AutoLock
