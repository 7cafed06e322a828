import Mathlib.Data.Nat.Notation
import Mathlib.Data.Int.Notation
import Mathlib.Logic.Function.Basic

/-!
# Claiming what is due

Workers share a table of tasks. A task that is due is claimed by one worker, which tries it and
hands it back when the try fails, with a count of the failed tries. A claim ends with the try that
succeeds, with the hand-back, or when its worker is gone.

A claim covers one try only, whoever makes it (`Exclusive.move`). That a task fails at most `limit`
times holds of the moves that are `careful`: a worker that hands a task back must have read the
count the table still has (`Counted.move`).
-/

namespace Interleave

open List Function Option

variable {ι κ : Type} [DecidableEq ι] [DecidableEq κ]

/-- A task: whether it is due, how often it failed, and when it was claimed. -/
structure Task where
  due : Bool
  attempts : ℕ
  claimedAt : Option ℤ

/-- A claim on the task of a key: when it was made, and whether its try has failed. -/
structure TaskClaim (κ : Type) where
  key : κ
  madeAt : ℤ
  failed : Bool
  deriving DecidableEq

/-- The tasks and the claims on them, with what happened so far: the failed tries, the hand-backs,
and every try with how often its task had been handed back before. -/
structure ClaimLedger (ι κ : Type) where
  tasks : κ → Option Task
  claims : ι → Option (TaskClaim κ)
  failures : List κ
  handedBack : List κ
  tries : List (κ × ℕ)

namespace ClaimLedger

/-- How often the task of a key was handed back. -/
def turn (s : ClaimLedger ι κ) (k : κ) : ℕ := s.handedBack.count k

/-- One move of a worker. -/
inductive Moves (limit : ℕ) (careful : Prop) (s : ClaimLedger ι κ) : ClaimLedger ι κ → Prop where
  | still : Moves limit careful s s
  | drop (i : ι) : Moves limit careful s { s with claims := Function.update s.claims i none }
  | claim (i : ι) (k : κ) (now : ℤ) (t : Task) (htask : s.tasks k = some t) (hdue : t.due = true) :
    Moves limit careful s
      { s with
        tasks := Function.update s.tasks k (some { t with due := false, claimedAt := some now })
        claims := Function.update s.claims i (some ⟨k, now, false⟩) }
  | succeed (i : ι) (k : κ) (now : ℤ) (hclaim : s.claims i = some ⟨k, now, false⟩) :
    Moves limit careful s
      { s with
        claims := Function.update s.claims i none
        tries := (k, s.turn k) :: s.tries }
  | fail (i : ι) (k : κ) (now : ℤ) (hclaim : s.claims i = some ⟨k, now, false⟩) :
    Moves limit careful s
      { s with
        claims := Function.update s.claims i (some ⟨k, now, true⟩)
        failures := k :: s.failures
        tries := (k, s.turn k) :: s.tries }
  | handBack (i : ι) (k : κ) (now : ℤ) (failed : Bool) (t : Task) (read : ℕ)
      (hclaim : s.claims i = some ⟨k, now, failed⟩) (htask : s.tasks k = some t)
      (hread : careful → t.attempts = read) :
    Moves limit careful s
      { s with
        tasks := Function.update s.tasks k <| some
          ⟨decide (read + (if failed then 1 else 0) < limit), read + (if failed then 1 else 0),
            none⟩
        claims := Function.update s.claims i none
        handedBack := k :: s.handedBack }

/-! ## One try for a claim -/

/-- A claimed task is not due, nobody else has claimed it, and its try is still to come unless it
has failed. -/
structure Exclusive (s : ClaimLedger ι κ) : Prop where
  held : ∀ i c, s.claims i = some c → ∃ t, s.tasks c.key = some t ∧ t.due = false ∧
    t.claimedAt = some c.madeAt
  one : ∀ i j c d, s.claims i = some c → s.claims j = some d → c.key = d.key → i = j
  untried : ∀ i c, s.claims i = some c → c.failed = false → (c.key, s.turn c.key) ∉ s.tries
  due : ∀ k t, s.tasks k = some t → t.due = true → (k, s.turn k) ∉ s.tries
  past : ∀ k n, (k, n) ∈ s.tries → n ≤ s.turn k
  nodup : s.tries.Nodup

variable {limit : ℕ} {careful : Prop} {s s' : ClaimLedger ι κ}

omit [DecidableEq ι] [DecidableEq κ] in
/-- A value of an updated table is the new one, or an old one of another key. -/
theorem update_eq_some {α β : Type} [DecidableEq α] {f : α → Option β} {a b : α} {x : Option β}
    {y : β} : Function.update f a x b = some y ↔ b = a ∧ x = some y ∨ b ≠ a ∧ f b = some y := by
  by_cases h : b = a
  · simp [h]
  · simp [h]

/-- The try a claim was made for. `after` is what becomes of the claim. -/
theorem Exclusive.tried (h : Exclusive s) {i : ι} {k : κ} {now : ℤ}
    (hclaim : s.claims i = some ⟨k, now, false⟩) {after : Option (TaskClaim κ)}
    (hafter : ∀ c, after = some c → c = ⟨k, now, true⟩) (failures : List κ) :
    Exclusive { s with
      claims := Function.update s.claims i after
      failures := failures
      tries := (k, s.turn k) :: s.tries } := by
  obtain ⟨t, htask, hdue, hat⟩ := h.held i _ hclaim
  have hold : ∀ j c, update s.claims i after j = some c →
      ∃ c', s.claims j = some c' ∧ c'.key = c.key ∧ c'.madeAt = c.madeAt := by
    intro j c hj
    rcases update_eq_some.1 hj with ⟨rfl, hc⟩ | ⟨-, hj⟩
    · cases hafter c hc
      exact ⟨_, hclaim, rfl, rfl⟩
    · exact ⟨c, hj, rfl, rfl⟩
  refine ⟨?_, ?_, ?_, ?_, ?_, ?_⟩
  · intro j c hj
    obtain ⟨c', hj', hkey, hmade⟩ := hold j c hj
    rw [← hkey, ← hmade]
    exact h.held j c' hj'
  · intro j j' c d hj hj' hkey
    obtain ⟨c', hc, hckey, -⟩ := hold j c hj
    obtain ⟨d', hd, hdkey, -⟩ := hold j' d hj'
    exact h.one j j' c' d' hc hd (by rw [hckey, hdkey, hkey])
  · intro j c hj hfailed
    rcases update_eq_some.1 hj with ⟨rfl, hc⟩ | ⟨hij, hj⟩
    · cases hafter c hc
      simp at hfailed
    · have hkey : c.key ≠ k := fun hkey => hij (h.one j i c _ hj hclaim hkey)
      have huntried : (c.key, s.turn c.key) ∉ s.tries := h.untried j c hj hfailed
      simp [turn, hkey] at huntried ⊢
      exact huntried
  · intro k' t' htask' hdue'
    have hkey : k' ≠ k := by
      rintro rfl
      cases htask.symm.trans htask'
      simp [hdue] at hdue'
    have hdue'' : (k', s.turn k') ∉ s.tries := h.due k' t' htask' hdue'
    simp [turn, hkey] at hdue'' ⊢
    exact hdue''
  · intro k' n hmem
    rcases mem_cons.1 hmem with heq | hmem
    · cases heq
      exact Nat.le_refl _
    · exact h.past k' n hmem
  · exact nodup_cons.2 ⟨h.untried i _ hclaim rfl, h.nodup⟩

/-- **A claim covers one try**: whatever the workers do, no task is tried twice between two
hand-backs. -/
theorem Exclusive.move (h : Exclusive s) (hmove : Moves limit careful s s') : Exclusive s' := by
  cases hmove with
  | still => exact h
  | drop i =>
    have hclaims : ∀ j c, update s.claims i none j = some c → s.claims j = some c := by
      intro j c hj
      rcases update_eq_some.1 hj with ⟨-, hc⟩ | ⟨-, hj⟩
      · cases hc
      · exact hj
    exact { h with
      held := fun j c hj => h.held j c (hclaims j c hj)
      one := fun j j' c d hj hj' => h.one j j' c d (hclaims j c hj) (hclaims j' d hj')
      untried := fun j c hj => h.untried j c (hclaims j c hj) }
  | claim i k now t htask hdue =>
    -- the task was due, so no claim on it is out
    have hfree : ∀ j c, s.claims j = some c → c.key ≠ k := by
      rintro j c hj rfl
      obtain ⟨t', htask', hdue', -⟩ := h.held j c hj
      cases htask.symm.trans htask'
      simp [hdue] at hdue'
    refine { h with held := ?_, one := ?_, untried := ?_, due := ?_ }
    · intro j c hj
      rcases update_eq_some.1 hj with ⟨rfl, hc⟩ | ⟨-, hj⟩
      · cases hc
        exact ⟨_, update_self .., rfl, rfl⟩
      · obtain ⟨t', ht'⟩ := h.held j c hj
        exact ⟨t', by simpa [hfree j c hj] using ht'⟩
    · intro j j' c d hj hj' hkey
      rcases update_eq_some.1 hj with ⟨hij, hc⟩ | ⟨-, hold⟩ <;>
        rcases update_eq_some.1 hj' with ⟨hij', hd⟩ | ⟨-, hold'⟩
      · rw [hij, hij']
      · cases hc
        exact absurd hkey.symm (hfree j' d hold')
      · cases hd
        exact absurd hkey (hfree j c hold)
      · exact h.one j j' c d hold hold' hkey
    · intro j c hj hfailed
      rcases update_eq_some.1 hj with ⟨rfl, hc⟩ | ⟨-, hj⟩
      · cases hc
        exact h.due k t htask hdue
      · exact h.untried j c hj hfailed
    · intro k' t' htask' hdue'
      rcases update_eq_some.1 htask' with ⟨-, ht'⟩ | ⟨-, hold⟩
      · have hdue := congrArg Task.due (some_inj.1 ht')
        simp [hdue'] at hdue
      · exact h.due k' t' hold hdue'
  | succeed i k now hclaim =>
    have hnone : ∀ c, (none : Option (TaskClaim κ)) = some c → c = ⟨k, now, true⟩ :=
      nofun
    exact h.tried hclaim hnone s.failures
  | fail i k now hclaim =>
    exact h.tried hclaim (fun c hc => (some_inj.1 hc).symm) (k :: s.failures)
  | handBack i k now failed t read hclaim htask hread =>
    -- the claim handed back was the only one on the task
    have hothers : ∀ j c, update s.claims i none j = some c →
        s.claims j = some c ∧ c.key ≠ k := by
      intro j c hj
      rcases update_eq_some.1 hj with ⟨-, hc⟩ | ⟨hij, hj⟩
      · exact nomatch hc
      · exact ⟨hj, fun hkey => hij (h.one j i c _ hj hclaim hkey)⟩
    have hturn : ∀ k', k' ≠ k → (k :: s.handedBack).count k' = s.turn k' := by
      intro k' hk
      rw [count_cons_of_ne (Ne.symm hk), turn]
    refine ⟨?_, ?_, ?_, ?_, ?_, h.nodup⟩
    · intro j c hj
      obtain ⟨hj, hkey⟩ := hothers j c hj
      obtain ⟨t', ht'⟩ := h.held j c hj
      exact ⟨t', by simpa [hkey] using ht'⟩
    · intro j j' c d hj hj' hkey
      exact h.one j j' c d (hothers j c hj).1 (hothers j' d hj').1 hkey
    · intro j c hj hfailed
      obtain ⟨hj, hkey⟩ := hothers j c hj
      show (c.key, (k :: s.handedBack).count c.key) ∉ s.tries
      rw [hturn c.key hkey]
      exact h.untried j c hj hfailed
    · intro k' t' htask' hdue'
      show (k', (k :: s.handedBack).count k') ∉ s.tries
      rcases update_eq_some.1 htask' with ⟨hk, -⟩ | ⟨hk, hold⟩
      · -- the turn that begins with the hand-back has seen no try
        intro hmem
        have hpast := h.past k' _ hmem
        rw [hk, count_cons_self, turn] at hpast
        omega
      · rw [hturn k' hk]
        exact h.due k' t' hold hdue'
    · intro k' n hmem
      have hpast := h.past k' n hmem
      have hle : s.handedBack.count k' ≤ (k :: s.handedBack).count k' := count_le_count_cons
      exact Nat.le_trans hpast hle

/-! ## The failed tries -/

/-- While a task is due, or claimed and not yet failed, its count is that of its failures, `start`
of them from before. A claim whose try has failed is one behind. -/
structure Counted (limit : ℕ) (start : κ → ℕ) (s : ClaimLedger ι κ) : Prop where
  due : ∀ k t, s.tasks k = some t → t.due = true →
    t.attempts = start k + s.failures.count k ∧ (s.failures.count k = 0 ∨ t.attempts < limit)
  untried : ∀ i k now t, s.claims i = some ⟨k, now, false⟩ → s.tasks k = some t →
    t.attempts = start k + s.failures.count k ∧ (s.failures.count k = 0 ∨ t.attempts < limit)
  failed : ∀ i k now t, s.claims i = some ⟨k, now, true⟩ → s.tasks k = some t →
    t.attempts + 1 = start k + s.failures.count k
  bound : ∀ k, s.failures.count k ≤ 1 ∨ start k + s.failures.count k ≤ limit

variable {start : κ → ℕ}

/-- **The limit holds of careful moves.** -/
theorem Counted.move (h : Counted limit start s) (he : Exclusive s) (hcareful : careful)
    (hmove : Moves limit careful s s') : Counted limit start s' := by
  cases hmove with
  | still => exact h
  | drop i =>
    refine { h with untried := ?_, failed := ?_ }
    · intro j k now t hj
      rcases update_eq_some.1 hj with ⟨-, hc⟩ | ⟨-, hj⟩
      · cases hc
      · exact h.untried j k now t hj
    · intro j k now t hj
      rcases update_eq_some.1 hj with ⟨-, hc⟩ | ⟨-, hj⟩
      · exact nomatch hc
      · exact h.failed j k now t hj
  | claim i k now t htask hdue =>
    have hcount := h.due k t htask hdue
    have htasks : ∀ k' t', update s.tasks k
        (some { t with due := false, claimedAt := some now }) k' = some t' →
        k' = k ∧ t'.attempts = t.attempts ∧ t'.due = false ∨ k' ≠ k ∧ s.tasks k' = some t' := by
      intro k' t' ht'
      rcases update_eq_some.1 ht' with ⟨hk, heq⟩ | hold
      · rw [← some_inj.1 heq]
        exact .inl ⟨hk, rfl, rfl⟩
      · exact .inr hold
    refine ⟨?_, ?_, ?_, h.bound⟩
    · intro k' t' ht' hdue'
      rcases htasks k' t' ht' with ⟨-, -, hnot⟩ | ⟨-, ht'⟩
      · simp [hnot] at hdue'
      · exact h.due k' t' ht' hdue'
    · intro j k' now' t' hj ht'
      rcases htasks k' t' ht' with ⟨hk, hattempts, -⟩ | ⟨hk, hold⟩
      · rw [hattempts, hk]
        exact hcount
      · rcases update_eq_some.1 hj with ⟨-, hc⟩ | ⟨-, hclaim⟩
        · cases hc
          exact absurd rfl hk
        · exact h.untried j k' now' t' hclaim hold
    · intro j k' now' t' hj ht'
      rcases update_eq_some.1 hj with ⟨-, hc⟩ | ⟨-, hclaim⟩
      · cases hc
      · rcases htasks k' t' ht' with ⟨hk, hattempts, -⟩ | ⟨-, hold⟩
        · rw [hattempts]
          rw [hk] at hclaim ⊢
          exact h.failed j k now' t hclaim htask
        · exact h.failed j k' now' t' hclaim hold
  | succeed i k now hclaim =>
    refine { h with untried := ?_, failed := ?_ }
    · intro j k' now' t hj
      rcases update_eq_some.1 hj with ⟨-, hc⟩ | ⟨-, hj⟩
      · exact nomatch hc
      · exact h.untried j k' now' t hj
    · intro j k' now' t hj
      rcases update_eq_some.1 hj with ⟨-, hc⟩ | ⟨-, hj⟩
      · cases hc
      · exact h.failed j k' now' t hj
  | fail i k now hclaim =>
    obtain ⟨t, htask, hdue, -⟩ := he.held i _ hclaim
    have hcount := h.untried i k now t hclaim htask
    have hsame : (k :: s.failures).count k = s.failures.count k + 1 := count_cons_self
    have hother : ∀ k', k' ≠ k → (k :: s.failures).count k' = s.failures.count k' :=
      fun k' hk => count_cons_of_ne (Ne.symm hk)
    refine ⟨?_, ?_, ?_, ?_⟩
    · intro k' t' ht' hdue'
      have hk : k' ≠ k := by
        rintro rfl
        cases htask.symm.trans ht'
        simp [hdue] at hdue'
      show t'.attempts = start k' + (k :: s.failures).count k' ∧ _
      rw [hother k' hk]
      exact h.due k' t' ht' hdue'
    · intro j k' now' t' hj ht'
      rcases update_eq_some.1 hj with ⟨-, hc⟩ | ⟨hij, hj⟩
      · cases hc
      · have hk : k' ≠ k := fun hk => hij (he.one j i _ _ hj hclaim hk)
        show t'.attempts = start k' + (k :: s.failures).count k' ∧ _
        rw [hother k' hk]
        exact h.untried j k' now' t' hj ht'
    · intro j k' now' t' hj ht'
      show t'.attempts + 1 = start k' + (k :: s.failures).count k'
      rcases update_eq_some.1 hj with ⟨-, hc⟩ | ⟨hij, hj⟩
      · cases hc
        cases htask.symm.trans ht'
        omega
      · rw [hother k' fun hk => hij (he.one j i _ _ hj hclaim hk)]
        exact h.failed j k' now' t' hj ht'
    · intro k'
      show (k :: s.failures).count k' ≤ 1 ∨ start k' + (k :: s.failures).count k' ≤ limit
      by_cases hk : k' = k
      · subst hk
        omega
      · rw [hother k' hk]
        exact h.bound k'
  | handBack i k now failed t read hclaim htask hread =>
    have hread := hread hcareful
    refine ⟨?_, ?_, ?_, h.bound⟩
    · intro k' t' ht' hdue'
      rcases update_eq_some.1 ht' with ⟨hk, heq⟩ | ⟨-, hold⟩
      · rw [← some_inj.1 heq] at hdue' ⊢
        rw [hk]
        refine ⟨?_, .inr (of_decide_eq_true hdue')⟩
        show read + (if failed then 1 else 0) = start k + s.failures.count k
        cases failed with
        | false => simpa [hread] using (h.untried i k now t hclaim htask).1
        | true => simpa [hread] using h.failed i k now t hclaim htask
      · exact h.due k' t' hold hdue'
    · intro j k' now' t' hj ht'
      rcases update_eq_some.1 hj with ⟨-, hc⟩ | ⟨hij, hout⟩
      · exact nomatch hc
      · rcases update_eq_some.1 ht' with ⟨hk, -⟩ | ⟨-, hold⟩
        · exact absurd (he.one j i _ _ hout hclaim hk) hij
        · exact h.untried j k' now' t' hout hold
    · intro j k' now' t' hj ht'
      rcases update_eq_some.1 hj with ⟨-, hc⟩ | ⟨hij, hout⟩
      · cases hc
      · rcases update_eq_some.1 ht' with ⟨hk, -⟩ | ⟨-, hold⟩
        · exact absurd (he.one j i _ _ hout hclaim hk) hij
        · exact h.failed j k' now' t' hout hold

end ClaimLedger

end Interleave
