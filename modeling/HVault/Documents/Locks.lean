import HVault.Documents.Store

/-!
# Locks that do not lapse

A lock of the document code is a row with an expiry. As long as every acquisition finds the lock
free, and not merely run out, at most one program of a run holds it, and the row names the
acquisition of that program.
-/

namespace HVault.Documents

open Function

variable {ι φ : Type}

/-- An acquisition of `name` does not find a lock that has run out: whoever holds the lock holds it
until it releases it. -/
def LockHolds (name : LockName) (s : Store) (l : Site) : Prop :=
  l = .acquireLock name → ∀ lock, s.locks name = some lock → s.clock < lock.expiresAt

instance (name : LockName) (s : Store) (l : Site) : Decidable (LockHolds name s l) :=
  inferInstanceAs (Decidable (l = .acquireLock name →
    ∀ lock ∈ s.locks name, s.clock < lock.expiresAt))

/-- What an access may do to the lock `name`, and to the acquisition of it that the program making
the access holds. -/
inductive LockStep (name : LockName) : Option ℕ → Site → Store → Option ℕ → Store → Prop
  | acquired {s s' : Store} {expiresAt : ℕ} (hexpires : s.clock < expiresAt)
      (hfree : ∀ lock, s.locks name = some lock → lock.expiresAt ≤ s.clock)
      (hs : s'.locks name = some ⟨s.minted, expiresAt⟩) :
      LockStep name none (.acquireLock name) s (some s.minted) s'
  | released {s s' : Store} {l : Site} {lockId : ℕ}
      (hs : s'.locks name = (releaseStatement name lockId s).locks name) :
      LockStep name (some lockId) l s none s'
  | kept {s s' : Store} {l : Site} {hold : Option ℕ} (hs : s'.locks name = s.locks name) :
      LockStep name hold l s hold s'

/-- The acquisition of a free lock. -/
theorem acquireStatement_cases (name : LockName) (ttl : ℕ) (s : Store) :
    (acquireStatement name ttl s = (none, s)) ∨
      (∀ lock, s.locks name = some lock → lock.expiresAt ≤ s.clock) ∧
        acquireStatement name ttl s = (some s.minted, { s with
          locks := Function.update s.locks name (some ⟨s.minted, s.clock + ttl⟩)
          minted := s.minted + 1 }) := by
  unfold acquireStatement
  split
  · rename_i hfree
    refine .inr ⟨fun lock hlock => ?_, rfl⟩
    rw [hlock] at hfree
    simpa using hfree
  · exact .inl rfl

variable {name : LockName} {s : Store}

/-- An acquisition that finds the lock free or run out. -/
theorem acquireStatement_taken (ttl : ℕ)
    (h : ∀ lock, s.locks name = some lock → lock.expiresAt ≤ s.clock) :
    acquireStatement name ttl s = (some s.minted, { s with
      locks := Function.update s.locks name (some ⟨s.minted, s.clock + ttl⟩)
      minted := s.minted + 1 }) := by
  have hfree : ((s.locks name).all fun lock => decide (lock.expiresAt ≤ s.clock)) = true := by
    cases hlock : s.locks name with
    | none => rfl
    | some lock => simpa using h lock hlock
  unfold acquireStatement
  rw [if_pos hfree]

theorem acquireStatement_free (ttl : ℕ)
    (h : ∀ lock, s.locks name = some lock → lock.expiresAt ≤ s.clock) :
    (acquireStatement name ttl s).2.locks name = some ⟨s.minted, s.clock + ttl⟩ := by
  rw [acquireStatement_taken ttl h]
  exact update_self ..

theorem acquireStatement_locks_of_ne {name' : LockName} (hne : name' ≠ name) (ttl : ℕ) (s : Store) :
    (acquireStatement name ttl s).2.locks name' = s.locks name' := by
  rcases acquireStatement_cases name ttl s with h | ⟨-, h⟩
  · rw [h]
  · rw [h]
    exact update_of_ne hne _ _

theorem acquireStatement_rows (name : LockName) (ttl : ℕ) (s : Store) :
    (acquireStatement name ttl s).2.uploads = s.uploads ∧
      (acquireStatement name ttl s).2.documents = s.documents ∧
      (acquireStatement name ttl s).2.clock = s.clock ∧
      s.minted ≤ (acquireStatement name ttl s).2.minted := by
  rcases acquireStatement_cases name ttl s with h | ⟨-, h⟩
  · rw [h]
    exact ⟨rfl, rfl, rfl, le_rfl⟩
  · rw [h]
    exact ⟨rfl, rfl, rfl, Nat.le_succ _⟩

theorem releaseStatement_rows (name : LockName) (lockId : ℕ) (s : Store) :
    (releaseStatement name lockId s).uploads = s.uploads ∧
      (releaseStatement name lockId s).documents = s.documents ∧
      (releaseStatement name lockId s).clock = s.clock ∧
      (releaseStatement name lockId s).minted = s.minted := by
  unfold releaseStatement
  split
  · exact ⟨rfl, rfl, rfl, rfl⟩
  · exact ⟨rfl, rfl, rfl, rfl⟩

theorem releaseStatement_locks_of_ne {name' : LockName} (hne : name' ≠ name) (lockId : ℕ)
    (s : Store) : (releaseStatement name lockId s).locks name' = s.locks name' := by
  unfold releaseStatement
  split
  · exact update_of_ne hne _ _
  · rfl

/-- At most one program holds the lock, and the row of the lock names its acquisition. -/
structure Exclusive (name : LockName) (hold : φ → Option ℕ) (s : Store) (x : ι → φ) : Prop where
  held : ∀ i lockId, hold (x i) = some lockId → ∃ expiresAt,
    s.locks name = some ⟨lockId, expiresAt⟩
  unique : ∀ i j, (hold (x i)).isSome → (hold (x j)).isSome → i = j

theorem exclusive_start {hold : φ → Option ℕ} {x : ι → φ} (h : ∀ i, hold (x i) = none) :
    Exclusive name hold s x where
  held i lockId hi := by
    rw [h] at hi
    cases hi
  unique i j hi := by
    rw [h] at hi
    exact nomatch hi

/-- A step of one program keeps a lock exclusive, if the lock does not lapse. -/
theorem Exclusive.step [DecidableEq ι] {hold : φ → Option ℕ} {s' : Store} {x : ι → φ} {x' : φ}
    {i : ι} {l : Site} (h : Exclusive name hold s x) (hok : LockHolds name s l)
    (hstep : LockStep name (hold (x i)) l s (hold x') s') :
    Exclusive name hold s' (Function.update x i x') := by
  have hself : hold (update x i x' i) = hold x' := by rw [update_self]
  have hother : ∀ j, j ≠ i → hold (update x i x' j) = hold (x j) := by
    intro j hj
    rw [update_of_ne hj]
  generalize hbefore : hold (x i) = before at hstep
  generalize hafter : hold x' = after at hstep
  cases hstep with
  | acquired _ hfree hs =>
    -- the lock was free: nobody else holds it
    have hnobody : ∀ j lockId, hold (x j) ≠ some lockId := by
      intro j lockId hj
      obtain ⟨expiresAt, hlock⟩ := h.held j lockId hj
      have hlive := hok rfl _ hlock
      have hover := hfree _ hlock
      omega
    have honly : ∀ j, (hold (update x i x' j)).isSome → j = i := by
      intro j hj
      by_contra hji
      rw [hother j hji] at hj
      obtain ⟨lockId, hlockId⟩ := Option.isSome_iff_exists.1 hj
      exact hnobody j lockId hlockId
    refine ⟨fun j lockId hj => ?_, fun j j' hj hj' => ?_⟩
    · have hji : j = i := honly j (by rw [hj]; rfl)
      subst hji
      rw [hself, hafter] at hj
      cases hj
      exact ⟨_, hs⟩
    · rw [honly j hj, honly j' hj']
  | @released _ _ _ lockId hs =>
    obtain ⟨expiresAt, hlock⟩ := h.held i lockId hbefore
    have hnobody : ∀ j, ¬ (hold (update x i x' j)).isSome := by
      intro j hj
      by_cases hji : j = i
      · subst hji
        rw [hself, hafter] at hj
        cases hj
      · rw [hother j hji] at hj
        apply hji
        apply h.unique j i hj
        rw [hbefore]
        rfl
    refine ⟨fun j lockId' hj => ?_, fun j _ hj => (hnobody j hj).elim⟩
    exact (hnobody j (by rw [hj]; rfl)).elim
  | kept hs =>
    have hsame : ∀ j, hold (update x i x' j) = hold (x j) := by
      intro j
      by_cases hji : j = i
      · subst hji
        rw [hself, hafter, hbefore]
      · exact hother j hji
    refine ⟨fun j lockId hj => ?_, fun j j' hj hj' => ?_⟩
    · rw [hs]
      rw [hsame j] at hj
      exact h.held j lockId hj
    · rw [hsame j] at hj
      rw [hsame j'] at hj'
      exact h.unique j j' hj hj'

end HVault.Documents
