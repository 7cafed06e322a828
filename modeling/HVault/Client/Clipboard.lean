import Mathlib.Data.Rat.Floor
import HVault.Interleave.Runs

/-!
# The clipboard guard

A secret that is copied is erased at its deadline, or when an erase is asked for. Every write is
asynchronous: a copy waits for an erase under way, an erase defers to a copy under way. The guard's
variables are `Guard`; `Page` has them with the writes under way and the clipboard itself.

A page takes tasks one by one (a timer, a write that settles), and jobs between them: a copy whose
erase has settled goes on in a job of its own, and no task begins before it has. The module's
functions may be called from a task or from a job. The clock does not go back, and a timer does not
fire before its time.
-/

namespace HVault.Clipboard

/-! ## The guard -/

/-- What the countdown shows. -/
structure ClipboardGuardState where
  pending : Bool
  deadlineAt : Option ℕ
  overdue : Bool
deriving DecidableEq

/-- The module's variables. A `timer` is the time at which it fires, and of the erase in flight the
generation it is for is kept. -/
structure Guard where
  generation : ℕ
  pendingGeneration : Option ℕ
  deadlineAt : Option ℕ
  overdue : Bool
  timer : Option ℕ
  eraseInFlight : Option ℕ
  copiesInFlight : ℕ
  eraseRequested : Bool
  snapshot : ClipboardGuardState
deriving DecidableEq

def Guard.initial : Guard := ⟨0, none, none, false, none, none, 0, false, ⟨false, none, false⟩⟩

def clipboardClearSeconds : ℕ := 30
def clipboardClearMinSeconds : ℕ := 5
def clipboardClearMaxSeconds : ℕ := 300

def minClearMs : ℕ := clipboardClearMinSeconds * 1000
def maxClearMs : ℕ := clipboardClearMaxSeconds * 1000
def defaultClearMs : ℕ := clipboardClearSeconds * 1000

/-- `Math.trunc`. -/
def trunc (x : ℚ) : ℤ := if x < 0 then ⌈x⌉ else ⌊x⌋

/-- The delay is a number; `none` is one that is not finite. -/
def clampClearDelay (ms : Option ℚ) : ℕ :=
  match ms with
  | none => defaultClearMs
  | some ms => (min (maxClearMs : ℤ) (max minClearMs (trunc ms))).toNat

namespace Guard

def publish (g : Guard) : Guard :=
  { g with snapshot := ⟨g.pendingGeneration.isSome, g.deadlineAt, g.overdue⟩ }

def cancelTimer (g : Guard) : Guard := { g with timer := none }

def settleClean (g : Guard) : Guard :=
  { g.cancelTimer with pendingGeneration := none, deadlineAt := none, overdue := false }.publish

def markOverdue (g : Guard) : Guard := if g.overdue then g else { g with overdue := true }.publish

/-- Up to the erase's write, which begins at once. -/
def attemptErase (g : Guard) : Guard :=
  match g.pendingGeneration with
  | none => g
  | some target =>
    if g.eraseInFlight.isSome then g
    else if g.copiesInFlight > 0 then g
    else { g with eraseInFlight := some target }

/-- The rest of an erase, after its write. -/
def finishErase (target : ℕ) (erased : Bool) (g : Guard) : Guard :=
  let g := { g with eraseInFlight := none }
  if g.pendingGeneration ≠ some target then g
  else if erased then g.settleClean
  else g.markOverdue

def isDue (now : ℕ) (g : Guard) : Bool :=
  if g.pendingGeneration.isNone then false
  else if g.overdue then true
  else match g.deadlineAt with
    | some deadlineAt => deadlineAt ≤ now
    | none => false

def flushDueErase (now : ℕ) (g : Guard) : Guard := if g.isDue now then g.attemptErase else g

def eraseCopiedSecretNow (g : Guard) : Guard :=
  if g.pendingGeneration.isNone then g
  else if g.copiesInFlight > 0 then { g with eraseRequested := true }
  else g.attemptErase

def settleDeferredErase (now : ℕ) (g : Guard) : Guard :=
  if g.eraseRequested then { g with eraseRequested := false }.eraseCopiedSecretNow
  else g.flushDueErase now

def armDeadline (now : ℕ) (clearAfterMs : Option ℚ) (g : Guard) : Guard :=
  let deadlineAt := now + clampClearDelay clearAfterMs
  let g := { g with
    generation := g.generation + 1
    pendingGeneration := some (g.generation + 1)
    overdue := false }.cancelTimer
  ({ g with deadlineAt := some deadlineAt, timer := some deadlineAt }.publish).settleDeferredErase now

end Guard

/-! ## The page -/

/-- How a write settles, as the guard sees it: one that takes too long is given up. -/
inductive Outcome
  | written
  | refused
  | timedOut
deriving DecidableEq

/-- A call of `copySecretToClipboard`. Its secret goes by its number. -/
structure Copy where
  id : ℕ
  clearAfterMs : Option ℚ
deriving DecidableEq

/-- A write that was given up. -/
inductive Write
  | copy (id : ℕ)
  | erase
deriving DecidableEq

/-- `writing` are copies whose write is under way, `waiting` those that wait for the erase in flight,
and `resuming` those whose erase has settled. `abandoned` are the writes that were given up, which may
still land. `owed` are the copies that were on their way when an erase was asked for, `attempted`
those whose secret was on the clipboard when an erase's write began. -/
structure Page where
  guard : Guard
  now : ℕ
  calls : ℕ
  writing : List Copy
  waiting : List Copy
  resuming : List Copy
  abandoned : List Write
  clipboard : Option ℕ
  owed : List ℕ
  attempted : List ℕ
deriving DecidableEq

def Page.initial (now : ℕ) : Page := ⟨.initial, now, 0, [], [], [], [], none, [], []⟩

inductive Event
  | copySecretToClipboard (clearAfterMs : Option ℚ)
  | eraseCopiedSecretNow
  | flushDueErase
  /-- The copies whose erase has settled go on; their jobs follow one another. -/
  | resume
  | timer
  | copySettles (copy : Copy) (outcome : Outcome)
  | eraseSettles (outcome : Outcome)
  /-- A write that was given up settles after all. -/
  | abandonedSettles (write : Write) (landed : Bool)
  | tick (ms : ℕ)

namespace Page

/-- The guard acts, which may begin an erase. -/
def act (p : Page) (f : Guard → Guard) : Page :=
  { p with
    guard := f p.guard
    attempted := if p.guard.eraseInFlight.isNone ∧ (f p.guard).eraseInFlight.isSome then
      p.clipboard.toList ++ p.attempted else p.attempted }

/-- The writes of copies begin. -/
def beginCopies (p : Page) (copies : List Copy) : Page :=
  { p with
    guard := { p.guard with copiesInFlight := p.guard.copiesInFlight + copies.length }
    writing := p.writing ++ copies }

/-- `copySecretToClipboard`, up to its write or to the erase it waits for. -/
def copy (p : Page) (clearAfterMs : Option ℚ) : Page :=
  let copy := ⟨p.calls, clearAfterMs⟩
  let p := { p with calls := p.calls + 1 }
  if p.guard.eraseInFlight.isSome then { p with waiting := p.waiting ++ [copy] }
  else p.beginCopies [copy]

/-- The rest of `copySecretToClipboard`, after its write. -/
def finishCopy (p : Page) (copy : Copy) (outcome : Outcome) : Page :=
  let p := { p with
    guard := { p.guard with copiesInFlight := p.guard.copiesInFlight - 1 }
    writing := p.writing.erase copy }
  match outcome with
  | .written => { p with clipboard := some copy.id }.act (·.armDeadline p.now copy.clearAfterMs)
  | .timedOut =>
    { p with abandoned := .copy copy.id :: p.abandoned }.act (·.armDeadline p.now copy.clearAfterMs)
  | .refused => p.act (·.settleDeferredErase p.now)

/-- An erase's write settles; the copies that wait for it will go on. -/
def finishErase (p : Page) (target : ℕ) (outcome : Outcome) : Page :=
  let p := { p with
    guard := p.guard.finishErase target (outcome = .written)
    waiting := []
    resuming := p.resuming ++ p.waiting }
  match outcome with
  | .written => { p with clipboard := none }
  | .timedOut => { p with abandoned := .erase :: p.abandoned }
  | .refused => p

/-- What a write leaves on the clipboard. -/
def land (p : Page) : Write → Page
  | .copy id => { p with clipboard := some id }
  | .erase => { p with clipboard := none }

/-- The copies on their way, whose secrets an erase is now owed to. -/
def underWay (p : Page) : List ℕ := (p.writing ++ p.waiting ++ p.resuming).map Copy.id

/-- A task begins when no job is left. -/
def task (p : Page) (next : Option Page) : Option Page := if p.resuming = [] then next else none

def step (p : Page) : Event → Option Page
  | .copySecretToClipboard clearAfterMs => some (p.copy clearAfterMs)
  | .eraseCopiedSecretNow =>
    some ({ p with owed := p.underWay ++ p.owed }.act Guard.eraseCopiedSecretNow)
  | .flushDueErase => some (p.act (·.flushDueErase p.now))
  | .resume => some ({ p with resuming := [] }.beginCopies p.resuming)
  | .timer =>
    p.task <| match p.guard.timer with
      | some time =>
        if time ≤ p.now then
          some (p.act fun g => { g with timer := none }.attemptErase)
        else none
      | none => none
  | .copySettles copy outcome => p.task <| if copy ∈ p.writing then some (p.finishCopy copy outcome) else none
  | .eraseSettles outcome =>
    p.task <| match p.guard.eraseInFlight with
      | some target => some (p.finishErase target outcome)
      | none => none
  | .abandonedSettles write landed =>
    p.task <| if write ∈ p.abandoned then
        let p := { p with abandoned := p.abandoned.erase write }
        some (if landed then p.land write else p)
      else none
  | .tick ms => p.task (some { p with now := p.now + ms })

end Page

end HVault.Clipboard
