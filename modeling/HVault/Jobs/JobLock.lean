import HVault.Interleave.Runs
import Mathlib.Algebra.Order.Ring.Int

/-!
# Job locks

A lock is a row of its job's name with the id of an acquisition and an expiry. An acquisition reads
the clock, then looks for a row that has run out and takes it over; where there is none it inserts
one, which the unique name refuses if another row is there by then. Any number of processes make
these steps in any order; an answer of the database may be lost, whether or not its write took
effect, and rows that have run out are deleted at any time.

* `Locks.step`: the steps;
* `Exclusive`: the invariant: an acquisition that is out has its row as long as it has not run out;
* `job_locks_exclude`: what follows of every run.
-/

namespace HVault.Jobs

open Interleave Option

variable {Id : Type} [DecidableEq Id]

/-! ## The collection -/

/-- A stored lock. The code looks for rows without an expiry too. -/
structure JobLock (Id : Type) where
  lockedBy : Id
  lockedAt : ℤ
  expiresAt : Option ℤ

/-- `{ expiresAt: { $lte: now } }` or `{ expiresAt: { $exists: false } }`. -/
def JobLock.lapsed (row : JobLock Id) (now : ℤ) : Prop := ∀ expiresAt ∈ row.expiresAt, expiresAt ≤ now

instance (row : JobLock Id) (now : ℤ) : Decidable (row.lapsed now) :=
  inferInstanceAs (Decidable (∀ expiresAt ∈ row.expiresAt, expiresAt ≤ now))

/-- The ids that `randomUUID` gives, each only once, and the row that is there before: its id is
none of them. -/
structure Minting (Id : Type) where
  randomUUID : ℕ → Id
  injective : Function.Injective randomUUID
  stored : Option (JobLock Id)
  fresh : ∀ row ∈ stored, ∀ n, row.lockedBy ≠ randomUUID n

/-! ## The calls -/

/-- What `acquireJobLock` has read, and the expiry it has computed. -/
structure Reading where
  now : ℤ
  expiresAt : ℤ

/-- A call of `acquireJobLock`. While it inserts, `seen` is the row that its look met and `inserts`
the number of insertions before it. -/
inductive Acquisition (Id : Type) where
  | looking (reading : Reading)
  | inserting (reading : Reading) (seen : Option (JobLock Id)) (inserts : ℕ)
  /-- It returned its id. -/
  | acquired (expiresAt : ℤ)
  /-- It returned `null`. -/
  | refused
  /-- The database did not answer, and it threw. -/
  | failed
  /-- Its id was released. -/
  | released (expiresAt : ℤ)

/-- A call that returned `null`: what it had read and seen, and the insertions before its look and
before its own. -/
structure Refusal (Id : Type) where
  acquisition : ℕ
  reading : Reading
  seen : Option (JobLock Id)
  insertsSeen : ℕ
  inserts : ℕ

/-- The row of the job's name, the clock, and the calls by their number. The rest is a record: the
insertions so far, and the calls that returned `null`. -/
structure Locks (Id : Type) where
  clock : ℤ
  row : Option (JobLock Id)
  calls : ℕ → Option (Acquisition Id)
  callCount : ℕ
  inserts : ℕ
  refusals : List (Refusal Id)

namespace Locks

/-- Before the first call. -/
def start (mint : Minting Id) (clock : ℤ) : Locks Id := ⟨clock, mint.stored, fun _ => none, 0, 0, []⟩

def setCall (s : Locks Id) (a : ℕ) (call : Acquisition Id) : Locks Id :=
  { s with calls := Function.update s.calls a (some call) }

/-- The call reads the clock. -/
def acquireJobLock (s : Locks Id) (ttlMs : ℤ) : Locks Id :=
  { s.setCall s.callCount (.looking ⟨s.clock, s.clock + ttlMs⟩) with callCount := s.callCount + 1 }

/-- The row an acquisition writes. -/
def lockRow (mint : Minting Id) (a : ℕ) (reading : Reading) : JobLock Id :=
  ⟨mint.randomUUID a, reading.now, some reading.expiresAt⟩

/-- The call returns `null`. -/
def refuse (s : Locks Id) (refusal : Refusal Id) : Locks Id :=
  { s.setCall refusal.acquisition .refused with refusals := refusal :: s.refusals }

/-- What the call makes of the row that the database answers with. -/
def answer (s : Locks Id) (mint : Minting Id) (a : ℕ) (reading : Reading) (row : JobLock Id)
    (refusal : Refusal Id) : Locks Id :=
  if row.lockedBy = mint.randomUUID a then s.setCall a (.acquired reading.expiresAt)
  else s.refuse refusal

/-- The look of `findOneAndUpdate`: a row that has run out is taken over, or the call goes on to
insert one. -/
def look (s : Locks Id) (mint : Minting Id) (a : ℕ) (reading : Reading) (answered : Bool) : Locks Id :=
  match s.row with
  | none => s.setCall a (.inserting reading none s.inserts)
  | some row =>
    if row.lapsed reading.now then
      let written := lockRow mint a reading
      let s := { s with row := some written }
      if answered then s.answer mint a reading written ⟨a, reading, some row, s.inserts, s.inserts⟩
      else s.setCall a .failed
    else s.setCall a (.inserting reading (some row) s.inserts)

/-- The insertion of `findOneAndUpdate`. -/
def insert (s : Locks Id) (mint : Minting Id) (a : ℕ) (reading : Reading)
    (seen : Option (JobLock Id)) (inserts : ℕ) (answered : Bool) : Locks Id :=
  match s.row with
  | none =>
    let written := lockRow mint a reading
    let s' := { s with row := some written, inserts := s.inserts + 1 }
    if answered then s'.answer mint a reading written ⟨a, reading, seen, inserts, s.inserts⟩
    else s'.setCall a .failed
  | some _ =>
    -- A duplicate key.
    if answered then s.refuse ⟨a, reading, seen, inserts, s.inserts⟩ else s.setCall a .failed

/-- `deleteOne({ jobName, lockedBy: lockId })`. -/
def deleteRow (s : Locks Id) (lockId : Id) : Locks Id :=
  { s with row := s.row.filter fun row => row.lockedBy ≠ lockId }

/-- `releaseJobLock` by whoever was given the id, however late and however often. -/
def releaseJobLock (s : Locks Id) (mint : Minting Id) (a : ℕ) : Option (Locks Id) :=
  match s.calls a with
  | some (.acquired expiresAt) => some ((s.deleteRow (mint.randomUUID a)).setCall a (.released expiresAt))
  | some (.released _) => some (s.deleteRow (mint.randomUUID a))
  | _ => none

end Locks

inductive Event where
  /-- Time passes. -/
  | tick (ms : ℕ)
  | acquire (ttlMs : ℤ)
  /-- The next write of an acquisition. -/
  | write (a : ℕ) (answered : Bool)
  /-- A write of an acquisition fails without effect. -/
  | fail (a : ℕ)
  | release (a : ℕ)
  /-- The database deletes the row if it has run out. -/
  | expire
  deriving DecidableEq

namespace Locks

def step (mint : Minting Id) (s : Locks Id) : Event → Option (Locks Id)
  | .tick ms => some { s with clock := s.clock + ms }
  | .acquire ttlMs => some (s.acquireJobLock ttlMs)
  | .write a answered =>
    match s.calls a with
    | some (.looking reading) => some (s.look mint a reading answered)
    | some (.inserting reading seen inserts) => some (s.insert mint a reading seen inserts answered)
    | _ => none
  | .fail a =>
    match s.calls a with
    | some (.looking _) | some (.inserting ..) => some (s.setCall a .failed)
    | _ => none
  | .release a => s.releaseJobLock mint a
  | .expire => (s.row.filter fun row => row.lapsed s.clock).map fun _ => { s with row := none }

/-! ## What is asked of it -/

/-- The acquisition returned an id that is neither released nor run out. -/
def Holds (s : Locks Id) (a : ℕ) : Prop :=
  ∃ expiresAt, s.calls a = some (.acquired expiresAt) ∧ s.clock < expiresAt

end Locks

/-- What a call that returned `null` met: another row, live by the clock it had read, or an insertion
that came between its look and its own. -/
def Refusal.Justified (mint : Minting Id) (r : Refusal Id) : Prop :=
  (∃ row ∈ r.seen, row.lockedBy ≠ mint.randomUUID r.acquisition ∧ ¬ row.lapsed r.reading.now) ∨
    r.insertsSeen < r.inserts

/-- At most one acquisition holds the lock, no release removes the row of another acquisition, and no
call was refused without a reason. -/
structure Excludes (mint : Minting Id) (s : Locks Id) : Prop where
  exclusive : ∀ a b, s.Holds a → s.Holds b → a = b
  releases : ∀ a b row s', s.row = some row → row.lockedBy = mint.randomUUID b → b ≠ a →
    s.step mint (.release a) = some s' → s'.row = some row
  refusals : ∀ r ∈ s.refusals, r.Justified mint

/-! ## The invariant -/

/-- What holds of a call by how far it is. -/
def Acquisition.Sound (mint : Minting Id) (s : Locks Id) (a : ℕ) : Acquisition Id → Prop
  | .looking reading => reading.now ≤ s.clock ∧ ∀ row ∈ s.row, row.lockedBy ≠ mint.randomUUID a
  | .inserting reading seen inserts => reading.now ≤ s.clock ∧
    (∀ row ∈ s.row, row.lockedBy ≠ mint.randomUUID a) ∧
    (∀ row ∈ seen, row.lockedBy ≠ mint.randomUUID a ∧ ¬ row.lapsed reading.now) ∧
    inserts ≤ s.inserts ∧ (seen = none → inserts = s.inserts → s.row = none)
  | .acquired expiresAt => s.clock < expiresAt → ∃ row ∈ s.row, row.lockedBy = mint.randomUUID a ∧
    row.expiresAt = some expiresAt
  | _ => True

structure Exclusive (mint : Minting Id) (s : Locks Id) : Prop where
  calls : ∀ a call, s.calls a = some call → call.Sound mint s a
  unborn : ∀ a, s.callCount ≤ a → s.calls a = none ∧ ∀ row ∈ s.row, row.lockedBy ≠ mint.randomUUID a
  refusals : ∀ r ∈ s.refusals, r.Justified mint

/-! ## Steps -/

/-- What a step may do to the row, and whose acquisition does it. -/
inductive RowChange (mint : Minting Id) (s : Locks Id) : Option ℕ → Locks Id → Prop
  | kept {s' : Locks Id} {author : Option ℕ} (hrow : s'.row = s.row) (hinserts : s'.inserts = s.inserts) :
    RowChange mint s author s'
  | taken {s' : Locks Id} {a : ℕ} (reading : Reading) (row : JobLock Id) (hseen : s.row = some row)
    (hlapsed : row.lapsed s.clock) (hrow : s'.row = some (Locks.lockRow mint a reading))
    (hinserts : s'.inserts = s.inserts) : RowChange mint s (some a) s'
  | inserted {s' : Locks Id} {a : ℕ} (reading : Reading) (hnone : s.row = none)
    (hrow : s'.row = some (Locks.lockRow mint a reading)) (hinserts : s'.inserts = s.inserts + 1) :
    RowChange mint s (some a) s'
  | released {s' : Locks Id} {a : ℕ}
    (hrow : s'.row = s.row.filter fun row => row.lockedBy ≠ mint.randomUUID a)
    (hinserts : s'.inserts = s.inserts) : RowChange mint s (some a) s'
  | expired {s' : Locks Id} (row : JobLock Id) (hseen : s.row = some row)
    (hlapsed : row.lapsed s.clock) (hrow : s'.row = none) (hinserts : s'.inserts = s.inserts) :
    RowChange mint s none s'

variable {mint : Minting Id} {s s' : Locks Id} {author : Option ℕ}

/-- No row comes to have an id but by its own acquisition. -/
theorem RowChange.foreign (h : RowChange mint s author s') {b : ℕ} (hb : author ≠ some b)
    (hrow : ∀ row ∈ s.row, row.lockedBy ≠ mint.randomUUID b) :
    ∀ row ∈ s'.row, row.lockedBy ≠ mint.randomUUID b := by
  have hwritten : ∀ (a : ℕ) (reading : Reading), author = some a →
      (Locks.lockRow mint a reading).lockedBy ≠ mint.randomUUID b := by
    intro a reading ha heq
    apply hb
    rw [ha, mint.injective heq]
  intro row hmem
  cases h with
  | kept hsame hinserts =>
    rw [hsame] at hmem
    exact hrow row hmem
  | taken reading old hseen hlapsed hnew hinserts | inserted reading hnone hnew hinserts =>
    rw [hnew] at hmem
    rw [← some.inj hmem]
    exact hwritten _ reading rfl
  | released hfilter hinserts =>
    rw [hfilter] at hmem
    exact hrow row (mem_filter_iff.1 hmem).1
  | expired old hseen hlapsed hnone hinserts =>
    rw [hnone] at hmem
    cases hmem

/-- The row of an acquisition that has not run out is changed by itself only. -/
theorem RowChange.keeps (h : RowChange mint s author s') {b : ℕ} (hb : author ≠ some b)
    {row : JobLock Id} (hrow : s.row = some row) (hid : row.lockedBy = mint.randomUUID b)
    (hlive : ¬ row.lapsed s.clock) : s'.row = some row := by
  cases h with
  | kept hsame hinserts => rw [hsame, hrow]
  | taken reading old hseen hlapsed hnew hinserts =>
    rw [hrow] at hseen
    rw [some.inj hseen] at hlive
    exact absurd hlapsed hlive
  | inserted reading hnone hnew hinserts =>
    rw [hrow] at hnone
    cases hnone
  | @released _ a hfilter hinserts =>
    have hne : row.lockedBy ≠ mint.randomUUID a := by
      intro heq
      apply hb
      rw [mint.injective (hid.symm.trans heq)]
    rw [hfilter, hrow]
    exact filter_some_pos (decide_eq_true hne)
  | expired old hseen hlapsed hnone hinserts =>
    rw [hrow] at hseen
    rw [some.inj hseen] at hlive
    exact absurd hlapsed hlive

/-- Without an insertion, no row comes to be where there was none. -/
theorem RowChange.none (h : RowChange mint s author s') :
    s.inserts ≤ s'.inserts ∧ (s.row = none → s'.inserts = s.inserts → s'.row = none) := by
  cases h with
  | kept hsame hinserts => exact ⟨hinserts.ge, fun hnone _ => hsame.trans hnone⟩
  | taken reading old hseen hlapsed hnew hinserts =>
    refine ⟨hinserts.ge, fun hnone _ => ?_⟩
    rw [hnone] at hseen
    cases hseen
  | inserted reading hnone hnew hinserts => exact ⟨by omega, fun _ hsame => by omega⟩
  | released hfilter hinserts =>
    refine ⟨hinserts.ge, fun hnone _ => ?_⟩
    rw [hfilter, hnone]
    rfl
  | expired old hseen hlapsed hnone hinserts => exact ⟨hinserts.ge, fun _ _ => hnone⟩

/-- What holds of a call is not lost by the steps of others. -/
theorem Acquisition.Sound.other {b : ℕ} {call : Acquisition Id} (h : call.Sound mint s b)
    (hchange : RowChange mint s author s') (hb : author ≠ some b) (hclock : s.clock ≤ s'.clock) :
    call.Sound mint s' b := by
  cases call with
  | looking reading => exact ⟨h.1.trans hclock, hchange.foreign hb h.2⟩
  | inserting reading seen inserts =>
    obtain ⟨hnow, hforeign, hseen, hle, hnone⟩ := h
    have hinserts := hchange.none
    refine ⟨hnow.trans hclock, hchange.foreign hb hforeign, hseen, hle.trans hinserts.1, ?_⟩
    intro hunseen hsame
    have hrow := hnone hunseen (by omega)
    exact hinserts.2 hrow (by omega)
  | acquired expiresAt =>
    intro hlive
    have hlive' : s.clock < expiresAt := by omega
    obtain ⟨row, hrow, hid, hexpires⟩ := h hlive'
    refine ⟨row, hchange.keeps hb hrow hid ?_, hid, hexpires⟩
    intro hlapsed
    have hle := hlapsed expiresAt hexpires
    omega
  | refused => trivial
  | failed => trivial
  | released expiresAt => trivial

namespace Exclusive

variable {mint : Minting Id} {s : Locks Id}

variable {a : ℕ} {call : Acquisition Id}

omit [DecidableEq Id] in
theorem lt_callCount (h : Exclusive mint s) (ha : s.calls a = some call) : a < s.callCount := by
  by_contra hle
  have hnone := (h.unborn a (by omega)).1
  rw [hnone] at ha
  cases ha

omit [DecidableEq Id] in
theorem setCall_calls (b : ℕ) (hb : (some a : Option ℕ) ≠ some b) :
    (s.setCall a call).calls b = s.calls b :=
  Function.update_of_ne (fun heq => hb (by rw [heq])) _ _

omit [DecidableEq Id] in
theorem setCall_self {call' : Acquisition Id} (h : (s.setCall a call).calls a = some call') :
    call' = call := by
  have hself : (s.setCall a call).calls a = some call := Function.update_self ..
  rw [hself] at h
  exact (some.inj h).symm

variable {s' : Locks Id}

/-- A step that changes the row and one call, or none. -/
theorem advance (h : Exclusive mint s) (hchange : RowChange mint s author s')
    (hclock : s.clock ≤ s'.clock) (hcalls : ∀ b, author ≠ some b → s'.calls b = s.calls b)
    (hauthor : ∀ a, author = some a → a < s.callCount ∧
      ∀ call, s'.calls a = some call → call.Sound mint s' a) (hcount : s'.callCount = s.callCount)
    (hrefusals : ∀ r ∈ s'.refusals, r.Justified mint) :
    Exclusive mint s' where
  calls b call hb := by
    by_cases hmine : author = some b
    · exact (hauthor b hmine).2 call hb
    · rw [hcalls b hmine] at hb
      exact (h.calls b call hb).other hchange hmine hclock
  unborn b hb := by
    rw [hcount] at hb
    have hmine : author ≠ some b := by
      intro hmine
      have hlt := (hauthor b hmine).1
      omega
    rw [hcalls b hmine]
    exact ⟨(h.unborn b hb).1, hchange.foreign hmine (h.unborn b hb).2⟩
  refusals := hrefusals

variable {old : Acquisition Id}

/-- The call goes on, or ends, and the row stays. -/
theorem setCall (h : Exclusive mint s) (ha : s.calls a = some old) (hsound : call.Sound mint s a) :
    Exclusive mint (s.setCall a call) := by
  have hchange : RowChange mint s (some a) (s.setCall a call) := .kept rfl rfl
  apply h.advance hchange le_rfl setCall_calls _ rfl h.refusals
  intro b hb
  cases hb
  refine ⟨h.lt_callCount ha, fun call' hcall' => ?_⟩
  rw [setCall_self hcall']
  -- The row, the clock and the insertions are as before.
  cases call <;> exact hsound

theorem refuse (h : Exclusive mint s) {r : Refusal Id} (ha : s.calls r.acquisition = some old)
    (hr : r.Justified mint) :
    Exclusive mint (s.refuse r) := by
  have hset : Exclusive mint (s.setCall r.acquisition .refused) := h.setCall ha trivial
  refine ⟨?_, hset.unborn, List.forall_mem_cons.2 ⟨hr, h.refusals⟩⟩
  intro b call hb
  have hsound := hset.calls b call hb
  cases call <;> exact hsound

variable {reading : Reading}

/-- The call writes its row, over one that has run out or where there was none. -/
theorem write (h : Exclusive mint s) (ha : s.calls a = some old)
    (hchange : RowChange mint s (some a) s') (hclock : s'.clock = s.clock)
    (hcalls : s'.calls = s.calls) (hcount : s'.callCount = s.callCount)
    (hrefusals : s'.refusals = s.refusals) (hrow : s'.row = some (Locks.lockRow mint a reading))
    (hcall : call = .acquired reading.expiresAt ∨ call = .failed) :
    Exclusive mint (s'.setCall a call) := by
  have hchange' : RowChange mint s (some a) (s'.setCall a call) := by
    cases hchange with
    | kept hsame hinserts => exact .kept hsame hinserts
    | taken reading row hseen hlapsed hnew hinserts => exact .taken reading row hseen hlapsed hnew hinserts
    | inserted reading hnone hnew hinserts => exact .inserted reading hnone hnew hinserts
    | released hfilter hinserts => exact .released hfilter hinserts
  apply h.advance hchange' hclock.ge _ _ hcount
  · show ∀ r ∈ s'.refusals, r.Justified mint
    rw [hrefusals]
    exact h.refusals
  · intro b hb
    rw [setCall_calls b hb, hcalls]
  · intro b hb
    cases hb
    refine ⟨h.lt_callCount ha, fun call' hcall' => ?_⟩
    rw [setCall_self hcall']
    rcases hcall with hcall | hcall
    · rw [hcall]
      intro _
      exact ⟨_, hrow, rfl, rfl⟩
    · rw [hcall]
      trivial

theorem answer_written (s : Locks Id) (mint : Minting Id) (a : ℕ) (reading : Reading)
    (refusal : Refusal Id) : s.answer mint a reading (Locks.lockRow mint a reading) refusal =
      s.setCall a (.acquired reading.expiresAt) :=
  if_pos rfl

/-! ### One lemma for each step -/

theorem tick (h : Exclusive mint s) (ms : ℕ) : Exclusive mint { s with clock := s.clock + ms } := by
  have hclock : s.clock ≤ s.clock + ms := by omega
  have hchange : RowChange mint s none { s with clock := s.clock + ms } := .kept rfl rfl
  exact h.advance hchange hclock (fun _ _ => rfl) nofun rfl h.refusals

omit [DecidableEq Id] in
theorem acquireJobLock (h : Exclusive mint s) (ttlMs : ℤ) : Exclusive mint (s.acquireJobLock ttlMs) := by
  have hnew := h.unborn s.callCount le_rfl
  refine ⟨?_, ?_, h.refusals⟩
  · intro b call hb
    by_cases hmine : s.callCount = b
    · subst hmine
      rw [setCall_self hb]
      exact ⟨le_rfl, hnew.2⟩
    · have hold : s.calls b = some call := by
        rw [← setCall_calls b fun heq => hmine (some.inj heq)]
        exact hb
      have hsound := h.calls b call hold
      cases call <;> exact hsound
  · intro b hb
    have hlt : s.callCount + 1 ≤ b := hb
    have hold := h.unborn b (by omega)
    refine ⟨?_, hold.2⟩
    have hne : (some s.callCount : Option ℕ) ≠ some b := by
      intro heq
      have hsame := some.inj heq
      omega
    exact (setCall_calls b hne).trans hold.1

theorem look (h : Exclusive mint s) (ha : s.calls a = some (.looking reading)) (answered : Bool) :
    Exclusive mint (s.look mint a reading answered) := by
  obtain ⟨hnow, hforeign⟩ := h.calls a _ ha
  unfold Locks.look
  split
  · rename_i hnone
    have hsound : Acquisition.Sound mint s a (.inserting reading none s.inserts) :=
      ⟨hnow, hforeign, nofun, le_rfl, fun _ _ => hnone⟩
    exact h.setCall ha hsound
  · rename_i row hrow
    -- What had run out by the reading has run out by now.
    have hchange : row.lapsed reading.now →
        RowChange mint s (some a) { s with row := some (Locks.lockRow mint a reading) } := by
      intro hlapsed
      refine .taken reading row hrow ?_ rfl rfl
      intro expiresAt hexpires
      have hle := hlapsed expiresAt hexpires
      omega
    split_ifs with hlapsed hanswered
    · show Exclusive mint (Locks.answer _ mint a reading (Locks.lockRow mint a reading) _)
      rw [answer_written]
      exact h.write ha (hchange hlapsed) rfl rfl rfl rfl rfl (Or.inl rfl)
    · exact h.write ha (hchange hlapsed) rfl rfl rfl rfl rfl (Or.inr rfl)
    · have hsound : Acquisition.Sound mint s a (.inserting reading (some row) s.inserts) := by
        refine ⟨hnow, hforeign, ?_, le_rfl, nofun⟩
        intro seen hseen
        rw [← some.inj hseen]
        exact ⟨hforeign row hrow, hlapsed⟩
      exact h.setCall ha hsound

theorem insert (h : Exclusive mint s) {seen : Option (JobLock Id)} {inserts : ℕ}
    (ha : s.calls a = some (.inserting reading seen inserts)) (answered : Bool) :
    Exclusive mint (s.insert mint a reading seen inserts answered) := by
  obtain ⟨hnow, hforeign, hseen, hle, hnone⟩ := h.calls a _ ha
  unfold Locks.insert
  split
  · rename_i hrow
    have hchange : RowChange mint s (some a) { s with
        row := some (Locks.lockRow mint a reading), inserts := s.inserts + 1 } :=
      .inserted reading hrow rfl rfl
    cases answered with
    | true =>
      show Exclusive mint (Locks.answer _ mint a reading (Locks.lockRow mint a reading) _)
      rw [answer_written]
      exact h.write ha hchange rfl rfl rfl rfl rfl (Or.inl rfl)
    | false => exact h.write ha hchange rfl rfl rfl rfl rfl (Or.inr rfl)
  · rename_i row hrow
    split_ifs
    · apply h.refuse ha
      cases hsaw : seen with
      | some row => exact Or.inl ⟨row, rfl, hseen row hsaw⟩
      | none =>
        right
        show inserts < s.inserts
        by_contra hlt
        have hempty := hnone hsaw (by omega)
        rw [hrow] at hempty
        cases hempty
    · exact h.setCall ha trivial

theorem releaseJobLock (h : Exclusive mint s) (hs : s.releaseJobLock mint a = some s') :
    Exclusive mint s' := by
  unfold Locks.releaseJobLock at hs
  split at hs
  · rename_i expiresAt ha
    cases hs
    have hchange : RowChange mint s (some a)
        ((s.deleteRow (mint.randomUUID a)).setCall a (.released expiresAt)) := .released rfl rfl
    apply h.advance hchange le_rfl setCall_calls _ rfl h.refusals
    intro b hb
    cases hb
    refine ⟨h.lt_callCount ha, fun call hcall => ?_⟩
    rw [setCall_self hcall]
    trivial
  · rename_i expiresAt ha
    cases hs
    have hchange : RowChange mint s (some a) (s.deleteRow (mint.randomUUID a)) := .released rfl rfl
    apply h.advance hchange le_rfl (fun _ _ => rfl) _ rfl h.refusals
    intro b hb
    cases hb
    refine ⟨h.lt_callCount ha, fun call hcall => ?_⟩
    have hsame : call = .released expiresAt := some.inj (hcall.symm.trans ha)
    rw [hsame]
    trivial
  · cases hs

/-- Every step keeps the invariant. -/
theorem step {e : Event} (h : Exclusive mint s) (hs : s.step mint e = some s') :
    Exclusive mint s' := by
  cases e with
  | tick ms =>
    cases hs
    exact h.tick ms
  | acquire ttlMs =>
    cases hs
    exact h.acquireJobLock ttlMs
  | write a answered =>
    unfold Locks.step at hs
    dsimp only at hs
    split at hs
    · rename_i reading ha
      cases hs
      exact h.look ha answered
    · rename_i reading seen inserts ha
      cases hs
      exact h.insert ha answered
    · cases hs
  | fail a =>
    unfold Locks.step at hs
    dsimp only at hs
    split at hs
    · rename_i reading ha
      cases hs
      exact h.setCall ha trivial
    · rename_i reading seen inserts ha
      cases hs
      exact h.setCall ha trivial
    · cases hs
  | release a => exact h.releaseJobLock hs
  | expire =>
    obtain ⟨row, hrow, rfl⟩ := map_eq_some_iff.1 hs
    obtain ⟨hseen, hlapsed⟩ := filter_eq_some_iff.1 hrow
    have hchange : RowChange mint s none { s with row := none } :=
      .expired row hseen (of_decide_eq_true hlapsed) rfl rfl
    exact h.advance hchange le_rfl (fun _ _ => rfl) nofun rfl h.refusals

omit [DecidableEq Id] in
theorem start (mint : Minting Id) (clock : ℤ) : Exclusive mint (Locks.start mint clock) :=
  ⟨nofun, fun a _ => ⟨rfl, fun row hrow => mint.fresh row hrow a⟩, nofun⟩

/-- Two acquisitions that have not run out would share the row. -/
theorem excludes (h : Exclusive mint s) : Excludes mint s where
  exclusive a b := by
    intro ha hb
    obtain ⟨expiresAt, hacquired, hlive⟩ := ha
    obtain ⟨expiresAt', hacquired', hlive'⟩ := hb
    obtain ⟨row, hrow, hid, -⟩ := h.calls a _ hacquired hlive
    obtain ⟨row', hrow', hid', -⟩ := h.calls b _ hacquired' hlive'
    rw [hrow] at hrow'
    rw [← some.inj hrow', hid] at hid'
    exact mint.injective hid'
  releases a b row s' := by
    intro hrow hid hne hs
    have hkept : (s.deleteRow (mint.randomUUID a)).row = some row := by
      have hother : row.lockedBy ≠ mint.randomUUID a := by
        rw [hid]
        exact fun heq => hne (mint.injective heq)
      show s.row.filter _ = some row
      rw [hrow]
      exact filter_some_pos (decide_eq_true hother)
    have hs : s.releaseJobLock mint a = some s' := hs
    unfold Locks.releaseJobLock at hs
    split at hs
    · cases hs
      exact hkept
    · cases hs
      exact hkept
    · cases hs
  refusals := h.refusals

end Exclusive

/-! ## Every run -/

/-- **Job locks exclude**: in every run, at most one acquisition that returned an id is neither
released nor run out, a release removes no row but that of its own acquisition, and a call that
returned `null` met another row that was live by its reading, or was overtaken by an insertion. -/
theorem job_locks_exclude {mint : Minting Id} {clock : ℤ} {s : Locks Id}
    (h : Run (Locks.step mint) (fun _ _ => True) (Locks.start mint clock) s) : Excludes mint s :=
  (h.invariant (Exclusive.start mint clock) fun _ _ _ hkept _ hs => hkept.step hs).excludes

/-- Ids that are numbers, and no row to begin with. -/
def numbered : Minting ℕ :=
  ⟨id, Function.injective_id, none, fun _ h => absurd h (Option.not_mem_none _)⟩

/-- A lock runs out and is taken over; the release that comes late leaves it, and a third call is
refused. -/
theorem job_locks_exclude_takeover : ∃ s : Locks ℕ, Excludes numbered s ∧ s.Holds 1 ∧
    s.row.map JobLock.lockedBy = some 1 ∧ s.refusals.length = 1 := by
  have hrun : replay (Locks.step numbered) (fun _ _ => True) (Locks.start numbered 0)
      [.acquire 10, .write 0 true, .write 0 true, .tick 10, .acquire 10, .write 1 true, .release 0,
        .tick 5, .acquire 10, .write 2 true, .write 2 true] = some _ := rfl
  exact ⟨_, job_locks_exclude (Run.of_replay hrun), ⟨20, rfl, by decide⟩, rfl, rfl⟩

end HVault.Jobs
