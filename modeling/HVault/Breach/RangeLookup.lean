import HVault.Data.SingleFlight
import HVault.Interleave.Runs

/-!
# Breach-range lookups

`getRange` for one prefix: the in-memory entry, the lookup in flight for the prefix, which a call
joins, or a lookup of its own, which reads the stored range and may fetch a new one. A call is
identified by `ι`; each has the budget of its account. What an await of a lookup answers is given by
the event that ends it, so any interleaving of the calls and any failure is a list of events. The
calls awaiting one lookup go on in the order they came, as promise reactions do.

Beside what the code keeps, the state has three logs for the statements: the charges made, the
fetches made, and the ranges that were cached or fetched for the prefix.
-/

namespace HVault.Breach

open SingleFlight

/-- Where a stored range came from. -/
inductive Source where
  | seed
  | hibp
  deriving DecidableEq, Repr

/-- A row of the shared range cache. -/
structure RangeDoc (R : Type) where
  range : R
  source : Source
  fetchedAt : ℕ
  deriving DecidableEq, Repr

/-- An entry of the in-memory cache. -/
structure CacheEntry (R : Type) where
  data : R
  expires : ℕ
  deriving DecidableEq, Repr

def hibpCacheTtlMs : ℕ := 60 * 60 * 1000

def msPerDay : ℕ := 86400000

/-- Whether a stored range may be served without fetching it again. -/
def isRangeFresh {R : Type} (ttlDays : ℕ) (doc : RangeDoc R) (now : ℕ) : Bool :=
  doc.source = .seed || decide (now < doc.fetchedAt + ttlDays * msPerDay)

/-- What a shared lookup settles with. `notFetched` stands for the refusal of its creator's
budget. -/
inductive Outcome (R E : Type) where
  | range (range : R)
  | notFetched
  | failed (err : E)

/-- What a call is rejected with: what its budget threw, or what failed upstream. -/
inductive Rejection (E : Type) where
  | refusal (err : Option E)
  | upstream (err : E)

/-- What a lookup awaits. -/
inductive Phase (R : Type) where
  | finding
  | charging (doc : Option (RangeDoc R))
  | fetching (doc : Option (RangeDoc R))
  | storing (doc : Option (RangeDoc R)) (range : R)
  | noting (doc : Option (RangeDoc R)) (range : R)
  | done

/-- A lookup: when its call came, what it awaits, and the `refusal` of that call. -/
structure Lookup (R E : Type) where
  now : ℕ
  phase : Phase R
  refusal : Option E

/-- A call that has not been made, one under way, and one that has settled. -/
inductive Call (R E : Type) where
  | idle
  | called
  | settled (result : Except (Rejection E) R)

structure State (ι R E : Type) where
  clock : ℕ
  /-- The in-memory entry of the prefix. -/
  hibpCache : Option (CacheEntry R)
  /-- The stored row of the prefix. -/
  rangeDoc : Option (RangeDoc R)
  /-- The lookup in flight, and who awaits which lookup. -/
  rangeInFlight : Flight ι (Outcome R E)
  lookups : ℕ → Lookup R E
  calls : ι → Call R E
  /-- The charges made: for which lookup, on whose budget, and what came of it. -/
  charges : List (ℕ × ι × Except E Unit)
  /-- The lookups that fetched. -/
  fetches : List ℕ
  /-- The ranges cached or fetched so far. -/
  known : List R

variable {ι R E : Type}

/-- How the store of a fetched range ends: a unique key that is taken means another worker stored
one, and a store that fails may have been applied. -/
inductive StoreOutcome (E : Type) where
  | written
  | taken
  | failed (err : E) (applied : Bool)

/-- What happens: a call, the answer to what a lookup awaits, the next ready call going on, and what
goes on beside the lookups. -/
inductive Event (ι R E : Type) where
  | call (i : ι)
  | found (t : ℕ) (failure : Option E)
  | charged (t : ℕ) (outcome : Except E Unit)
  | fetched (t : ℕ) (outcome : Except E R)
  | stored (t : ℕ) (outcome : StoreOutcome E)
  | noted (t : ℕ) (failure : Option E)
  | resume
  | tick
  /-- The in-memory entry is evicted, or pruned. -/
  | evict
  /-- Somebody else writes or deletes the stored row. -/
  | rewrite (doc : Option (RangeDoc R))

/-- The events that are neither calls nor steps of one. -/
def Event.beside : Event ι R E → Bool
  | .tick => true
  | .evict => true
  | .rewrite _ => true
  | _ => false

namespace State

/-- The ranges the two caches hold. -/
def cached (hibpCache : Option (CacheEntry R)) (rangeDoc : Option (RangeDoc R)) : List R :=
  (hibpCache.map (·.data)).toList ++ (rangeDoc.map (·.range)).toList

/-- Before any call, with whatever is cached. -/
def init (clock : ℕ) (hibpCache : Option (CacheEntry R)) (rangeDoc : Option (RangeDoc R)) :
    State ι R E where
  clock := clock
  hibpCache := hibpCache
  rangeDoc := rangeDoc
  rangeInFlight := .empty
  lookups _ := ⟨0, .done, none⟩
  calls _ := .idle
  charges := []
  fetches := []
  known := cached hibpCache rangeDoc

def setHibpCacheEntry (range : R) (expires : ℕ) (s : State ι R E) : State ι R E :=
  { s with hibpCache := some ⟨range, expires⟩ }

/-- The lookup `t` goes on to await something else. -/
def await (t : ℕ) (phase : Phase R) (s : State ι R E) : State ι R E :=
  { s with lookups := Function.update s.lookups t { s.lookups t with phase := phase } }

/-- The call that created the lookup `t` keeps what its budget threw. -/
def refuse (t : ℕ) (err : E) (s : State ι R E) : State ι R E :=
  { s with lookups := Function.update s.lookups t { s.lookups t with refusal := some err } }

/-- The lookup `t` settles. -/
def settle (t : ℕ) (outcome : Outcome R E) (s : State ι R E) : State ι R E :=
  { s.await t .done with rangeInFlight := s.rangeInFlight.settle t outcome }

/-- What a lookup that cannot fetch serves: the stored range, however old. -/
def serveStale (t : ℕ) (doc : Option (RangeDoc R)) (err : E) (s : State ι R E) : State ι R E :=
  match doc with
  | some doc => s.settle t (.range doc.range)
  | none => s.settle t (.failed err)

variable [DecidableEq ι]

/-- The call `i` settles. -/
def answer (i : ι) (result : Except (Rejection E) R) (s : State ι R E) : State ι R E :=
  { s with calls := Function.update s.calls i (.settled result) }

/-- `getRange` up to its first await. -/
def getRange (i : ι) (s : State ι R E) : State ι R E :=
  match s.hibpCache.filter fun l1 => decide (s.clock < l1.expires) with
  | some l1 => s.answer i (.ok l1.data)
  | none =>
    match s.rangeInFlight.current with
    | some pending => { s with rangeInFlight := s.rangeInFlight.join i pending }
    | none =>
      { s with
        rangeInFlight := s.rangeInFlight.start i
        lookups := Function.update s.lookups s.rangeInFlight.minted ⟨s.clock, .finding, none⟩ }

/-- `findOne` answers: a fresh row is served and cached, else the budget is asked. -/
def found (ttlDays t : ℕ) (failure : Option E) (s : State ι R E) : State ι R E :=
  match failure with
  | some err => s.settle t (.failed err)
  | none =>
    match s.rangeDoc.filter fun doc => isRangeFresh ttlDays doc (s.lookups t).now with
    | some doc =>
      (s.setHibpCacheEntry doc.range ((s.lookups t).now + hibpCacheTtlMs)).settle t (.range doc.range)
    | none => s.await t (.charging s.rangeDoc)

/-- The budget answers. -/
def charged (t : ℕ) (creator : ι) (doc : Option (RangeDoc R)) (outcome : Except E Unit)
    (s : State ι R E) : State ι R E :=
  let s := { s with charges := (t, creator, outcome) :: s.charges }
  match outcome with
  | .ok () => s.await t (.fetching doc)
  | .error err =>
    match doc with
    | some doc => s.settle t (.range doc.range)
    | none => (s.refuse t err).settle t .notFetched

/-- The fetch answers. -/
def fetched (t : ℕ) (doc : Option (RangeDoc R)) (outcome : Except E R) (s : State ι R E) :
    State ι R E :=
  let s := { s with fetches := t :: s.fetches }
  match outcome with
  | .ok range => { s with known := range :: s.known }.await t (.storing doc range)
  | .error err => s.serveStale t doc err

/-- The row after a fetched range is stored, and whether that inserted it. A seeded row stays. -/
def storeFetchedRange (range : R) (s : State ι R E) : Option (RangeDoc R) × Bool :=
  match s.rangeDoc with
  | some doc =>
    if doc.source = .seed then (some doc, false) else (some ⟨range, .hibp, s.clock⟩, false)
  | none => (some ⟨range, .hibp, s.clock⟩, true)

/-- The store answers. -/
def stored (t : ℕ) (doc : Option (RangeDoc R)) (range : R) (outcome : StoreOutcome E)
    (s : State ι R E) : State ι R E :=
  match outcome with
  | .written =>
    let written := s.storeFetchedRange range
    let s := { s with rangeDoc := written.1 }.setHibpCacheEntry range (s.clock + hibpCacheTtlMs)
    if written.2 then s.await t (.noting doc range) else s.settle t (.range range)
  | .taken => (s.setHibpCacheEntry range (s.clock + hibpCacheTtlMs)).settle t (.range range)
  | .failed err applied =>
    let rangeDoc := if applied then (s.storeFetchedRange range).1 else s.rangeDoc
    { s with rangeDoc := rangeDoc }.serveStale t doc err

/-- The count of inserted rows is taken. -/
def noted (t : ℕ) (doc : Option (RangeDoc R)) (range : R) (failure : Option E) (s : State ι R E) :
    State ι R E :=
  match failure with
  | some err => s.serveStale t doc err
  | none => s.settle t (.range range)

/-- A call goes on with the outcome of the lookup it awaited: the call that created the lookup is
done with it, any other looks again where nothing was fetched. -/
def goOn (i creator : ι) (refusal : Option E) (outcome : Outcome R E) (s : State ι R E) :
    State ι R E :=
  let s := { s with rangeInFlight := s.rangeInFlight.leave i (decide (creator = i)) }
  match outcome with
  | .range range => s.answer i (.ok range)
  | .failed err => s.answer i (.error (.upstream err))
  | .notFetched => if creator = i then s.answer i (.error (.refusal refusal)) else s.getRange i

/-- What an event does, where it can happen. -/
def step (ttlDays : ℕ) (s : State ι R E) : Event ι R E → Option (State ι R E)
  | .call i =>
    match s.calls i with
    | .idle => some ({ s with calls := Function.update s.calls i .called }.getRange i)
    | _ => none
  | .found t failure =>
    match (s.lookups t).phase with
    | .finding => some (s.found ttlDays t failure)
    | _ => none
  | .charged t outcome =>
    match (s.lookups t).phase, s.rangeInFlight.tasks t with
    | .charging doc, some task => some (s.charged t task.creator doc outcome)
    | _, _ => none
  | .fetched t outcome =>
    match (s.lookups t).phase with
    | .fetching doc => some (s.fetched t doc outcome)
    | _ => none
  | .stored t outcome =>
    match (s.lookups t).phase with
    | .storing doc range => some (s.stored t doc range outcome)
    | _ => none
  | .noted t failure =>
    match (s.lookups t).phase with
    | .noting doc range => some (s.noted t doc range failure)
    | _ => none
  | .resume =>
    match s.rangeInFlight.ready with
    | [] => none
    | i :: _ =>
      match (s.rangeInFlight.waits i).bind fun t => (s.rangeInFlight.tasks t).map fun task =>
        (t, task) with
      | some (t, ⟨creator, _, some outcome⟩) =>
        some (s.goOn i creator (s.lookups t).refusal outcome)
      | _ => none
  | .tick => some { s with clock := s.clock + 1 }
  | .evict => some { s with hibpCache := none }
  | .rewrite doc =>
    some { s with rangeDoc := doc, known := (doc.map (·.range)).toList ++ s.known }

end State

end HVault.Breach
