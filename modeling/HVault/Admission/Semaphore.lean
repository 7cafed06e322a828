import Mathlib.Data.Nat.Notation
import Mathlib.Logic.Function.Basic

/-!
# A counting semaphore and a quota per key

The semaphore hands its slots to waiting tasks first come, first served. The loop that does it calls
each task synchronously, and a task may give its slot back at once: the flag `draining` leaves that
to the loop which is already running. Here a drain only sets the flag, and each turn of the loop is
a step of its own, so that whatever a task does falls between two turns.

The quota refuses a key at its limit instead of making it wait.
-/

namespace HVault.Admission

open Function Option

/-- `Number.MAX_SAFE_INTEGER`. -/
def maxSafeInteger : ℕ := 9007199254740991

/-! ## The semaphore -/

structure Semaphore (τ : Type) where
  permits : ℕ
  free : ℕ
  waiters : List τ
  draining : Bool
  deriving DecidableEq, Repr

def createSemaphore (τ : Type) (permits : ℕ) : Except String (Semaphore τ) :=
  if maxSafeInteger < permits ∨ permits < 1 then
    .error "permits must be a safe integer of at least 1"
  else .ok ⟨permits, permits, [], false⟩

namespace Semaphore

variable {τ : Type} (m : Semaphore τ)

/-- Starts the loop, unless it is running. -/
def drain : Semaphore τ := { m with draining := true }

/-- What a release function does when it is called for the first time. -/
def release : Semaphore τ := { m with free := m.free + 1 }.drain

def acquire (task : τ) : Semaphore τ := { m with waiters := m.waiters ++ [task] }.drain

/-- One turn of the loop: the task to call, or the end of the loop. -/
def turn : Option τ × Semaphore τ :=
  if 0 < m.free then
    match m.waiters with
    | [] => (none, { m with draining := false })
    | task :: rest => (some task, { m with free := m.free - 1, waiters := rest })
  else (none, { m with draining := false })

variable {m}

/-- A turn that calls a task takes a free slot, and the task that has waited longest. -/
theorem turn_some {task : τ} {m' : Semaphore τ} (h : m.turn = (some task, m')) :
    m.waiters = task :: m'.waiters ∧ m.free = m'.free + 1 ∧ m'.permits = m.permits ∧
      m'.draining = m.draining := by
  unfold turn at h
  split at h
  · rename_i hfree
    split at h
    · cases h
    · rename_i hwaiters
      cases h
      exact ⟨hwaiters, (Nat.sub_add_cancel hfree).symm, rfl, rfl⟩
  · cases h

/-- The loop ends when there is no free slot or nobody to take it. -/
theorem turn_none {m' : Semaphore τ} (h : m.turn = (none, m')) :
    m' = { m with draining := false } ∧ (m.free = 0 ∨ m.waiters = []) := by
  unfold turn at h
  split at h
  · split at h
    · rename_i hwaiters
      cases h
      exact ⟨rfl, .inr hwaiters⟩
    · cases h
  · rename_i hfree
    cases h
    exact ⟨rfl, .inl (Nat.eq_zero_of_not_pos hfree)⟩

end Semaphore

theorem createSemaphore_ok {τ : Type} {permits : ℕ} {m : Semaphore τ}
    (h : createSemaphore τ permits = .ok m) : m = ⟨permits, permits, [], false⟩ := by
  unfold createSemaphore at h
  split at h
  · cases h
  · cases h
    rfl

/-! ## The quota -/

structure KeyedQuota (κ : Type) where
  limit : ℕ
  held : κ → Option ℕ

def createKeyedQuota (κ : Type) (limit : ℕ) : Except String (KeyedQuota κ) :=
  if maxSafeInteger < limit ∨ limit < 1 then
    .error "limit must be a safe integer of at least 1"
  else .ok ⟨limit, fun _ => none⟩

namespace KeyedQuota

variable {κ : Type} [DecidableEq κ] (q : KeyedQuota κ)

def heldBy (key : κ) : ℕ := (q.held key).getD 0

/-- Charges one unit to `key`, unless it holds its limit. -/
def charge (key : κ) : Option (KeyedQuota κ) :=
  if q.limit ≤ q.heldBy key then none
  else some { q with held := Function.update q.held key (some (q.heldBy key + 1)) }

/-- What a release of `key` does when it is called for the first time. -/
def release (key : κ) : KeyedQuota κ :=
  let remaining := (q.held key).getD 1 - 1
  { q with held := Function.update q.held key (if remaining = 0 then none else some remaining) }

/-- No key is kept without a charge. -/
def Tidy : Prop := ∀ key, q.held key ≠ some 0

variable {q}

theorem charge_some {key : κ} {q' : KeyedQuota κ} (h : q.charge key = some q') :
    q.heldBy key < q.limit ∧
      q' = { q with held := Function.update q.held key (some (q.heldBy key + 1)) } := by
  unfold charge at h
  split at h
  · cases h
  · rename_i hroom
    cases h
    exact ⟨Nat.lt_of_not_le hroom, rfl⟩

theorem heldBy_charge {key : κ} {q' : KeyedQuota κ} (h : q.charge key = some q') (key' : κ) :
    q'.heldBy key' = q.heldBy key' + if key' = key then 1 else 0 := by
  obtain ⟨-, rfl⟩ := charge_some h
  unfold heldBy
  dsimp only
  by_cases hkey : key' = key
  · subst hkey
    rw [update_self, if_pos rfl]
    rfl
  · rw [update_of_ne hkey, if_neg hkey]
    rfl

theorem Tidy.charge (hq : q.Tidy) {key : κ} {q' : KeyedQuota κ} (h : q.charge key = some q') :
    q'.Tidy := by
  obtain ⟨-, rfl⟩ := charge_some h
  intro key'
  dsimp only
  by_cases hkey : key' = key
  · subst hkey
    rw [update_self]
    exact fun hzero => Nat.succ_ne_zero _ (some.inj hzero)
  · rw [update_of_ne hkey]
    exact hq key'

theorem Tidy.release (hq : q.Tidy) (key : κ) : (q.release key).Tidy := by
  intro key'
  unfold KeyedQuota.release
  dsimp only
  by_cases hkey : key' = key
  · subst hkey
    rw [update_self]
    split
    · nofun
    · rename_i hleft
      exact fun hzero => hleft (some.inj hzero)
  · rw [update_of_ne hkey]
    exact hq key'

/-- The release of a charge that is held takes one unit back. -/
theorem heldBy_release {key : κ} (h : 0 < q.heldBy key) (key' : κ) :
    q.heldBy key' = (q.release key).heldBy key' + if key' = key then 1 else 0 := by
  unfold KeyedQuota.release heldBy
  dsimp only
  by_cases hkey : key' = key
  · subst hkey
    rw [update_self, if_pos rfl]
    unfold heldBy at h
    cases hheld : q.held key' with
    | none =>
      rw [hheld] at h
      cases h
    | some n =>
      rw [hheld] at h
      rw [getD_some, getD_some] at *
      split
      · rw [getD_none]
        omega
      · rw [getD_some]
        omega
  · rw [update_of_ne hkey, if_neg hkey]
    rfl

end KeyedQuota

theorem createKeyedQuota_ok {κ : Type} {limit : ℕ} {q : KeyedQuota κ}
    (h : createKeyedQuota κ limit = .ok q) : q = ⟨limit, fun _ => none⟩ := by
  unfold createKeyedQuota at h
  split at h
  · cases h
  · cases h
    rfl

end HVault.Admission
