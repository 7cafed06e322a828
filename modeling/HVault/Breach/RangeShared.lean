import HVault.Breach.RangeSettles

/-!
# What getRange promises its callers

The invariant and the measure put together (`getRange_shares_work`), and a run in which a budget
refuses the call that created a lookup while another call has joined it.
-/

namespace HVault.Breach

open SingleFlight Interleave

variable {ι R E : Type} [DecidableEq ι] {ttlDays : ℕ}

/-- The runs of a prefix: any events, as they can happen. -/
abbrev RangeRun (ttlDays : ℕ) : State ι R E → State ι R E → Prop :=
  Run (State.step ttlDays) fun _ _ => True

theorem inv_of_run {s₀ s : State ι R E} (h : RangeRun ttlDays s₀ s) (hinv : s₀.Inv none none) :
    s.Inv none none :=
  h.invariant hinv fun _ _ _ hs _ hstep => hs.step hstep

/-- A call that goes on no longer awaits the lookup it awaited. -/
theorem State.Inv.moves_on {s s' : State ι R E} (h : s.Inv none none) {i : ι} {t : ℕ}
    (hready : s.rangeInFlight.ready.head? = some i) (hi : s.rangeInFlight.waits i = some t)
    (hstep : s.step ttlDays .resume = some s') : s'.rangeInFlight.waits i ≠ some t := by
  obtain ⟨j, rest, u, task, outcome, hready', hj, ht, ho, rfl⟩ := State.Inv.resume_cases hstep
  rw [hready', List.head?_cons] at hready
  cases hready
  cases hi.symm.trans hj
  have hleft : ∀ result, (({ s with
      rangeInFlight := s.rangeInFlight.leave i (decide (task.creator = i)) } :
        State ι R E).answer i result).rangeInFlight.waits i ≠ some t := by
    intro result
    simp [State.answer]
  unfold State.goOn
  cases outcome with
  | range range | failed err => exact hleft _
  | notFetched =>
    dsimp only
    split
    · exact hleft _
    · rename_i hcreator
      -- the lookup is off the register, so what the call joins or creates is another one
      have hfreed := h.sound.freed hready' hi ht hcreator
      unfold State.getRange
      split
      · exact hleft _
      · split
        · rename_i pending hpending
          have hpending : s.rangeInFlight.current = some pending := by
            simpa [Flight.leave, hcreator] using hpending
          obtain ⟨task', ht', -⟩ := h.sound.creator_waits pending hpending
          have ht' : (s.rangeInFlight.leave i (decide (task.creator = i))).tasks pending =
              some task' := ht'
          simp only [Flight.waits_join ht', Function.update_self]
          rw [← hpending]
          exact hfreed
        · have hlt := h.sound.lt_minted ht
          simp [Flight.leave]
          omega

variable [Fintype ι] [Inhabited R]

/-- **Breach-range lookups share work and not refusals.** In every run of the calls for one prefix,
whatever their budgets, the caches and the failures: one lookup is open at a time; a lookup is
charged at most once, to the call that created it, and fetches only then; a call is rejected with a
refusal only where its own budget threw it; a call is answered with a range that was cached or
fetched; and a call that goes on never awaits the same lookup again. And every call settles, where
no lookup and no call is put off for ever. -/
theorem getRange_shares_work (clock : ℕ) (hibpCache : Option (CacheEntry R))
    (rangeDoc : Option (RangeDoc R)) :
    (∀ s : State ι R E, RangeRun ttlDays (State.init clock hibpCache rangeDoc) s →
      (∀ t t', (s.lookups t).phase ≠ .done → (s.lookups t').phase ≠ .done → t = t') ∧
      (∀ t i outcome, (t, i, outcome) ∈ s.charges →
        (s.rangeInFlight.tasks t).map (·.creator) = some i) ∧
      (s.charges.map Prod.fst).Nodup ∧
      (∀ t ∈ s.fetches, ∃ i, (t, i, .ok ()) ∈ s.charges) ∧
      (∀ i err, s.calls i = .settled (.error (.refusal err)) →
        ∃ t err', err = some err' ∧ (t, i, .error err') ∈ s.charges) ∧
      (∀ i range, s.calls i = .settled (.ok range) → range ∈ s.known) ∧
      ∀ i t s', s.rangeInFlight.ready.head? = some i → s.rangeInFlight.waits i = some t →
        s.step ttlDays .resume = some s' → s'.rangeInFlight.waits i ≠ some t) ∧
    ∀ (run : ℕ → State ι R E) (event : ℕ → Event ι R E), FairRun ttlDays run event →
      run 0 = State.init clock hibpCache rangeDoc →
      ∀ n i, (run n).calls i ≠ .idle → ∃ m ≥ n, ∃ result, (run m).calls i = .settled result := by
  have hinit := State.Inv.init (ι := ι) (E := E) clock hibpCache rangeDoc
  constructor
  · intro s hrun
    have h := inv_of_run hrun hinit
    refine ⟨fun t t' ht ht' => ?_, fun t i outcome hcharge => ?_, h.charge_once, h.fetch_paid,
      h.rejected, h.answer_known, fun i t s' hready hi hstep => h.moves_on hready hi hstep⟩
    · obtain ⟨task, htask, ho⟩ := h.open_task ht
      obtain ⟨task', htask', ho'⟩ := h.open_task ht'
      exact h.sound.open_unique htask ho htask' ho'
    · obtain ⟨task, htask, hcreator⟩ := h.charge_creator t i outcome hcharge
      rw [htask, Option.map_some, hcreator]
  · intro run event hfair hstart n i hi
    exact hfair.settles (by rwa [hstart]) hi

/-- The call `false` creates a lookup and `true` joins it; the budget of the first is spent, the
second looks again and fetches. -/
def refusedAndServed : List (Event Bool ℕ Unit) :=
  [.call false, .call true, .found 0 none, .charged 0 (.error ()), .resume, .resume, .found 1 none,
    .charged 1 (.ok ()), .fetched 1 (.ok 9), .stored 1 .written, .noted 1 none, .resume]

/-- The first call is refused and the second answered. -/
def State.refusedAndServed (s : State Bool ℕ Unit) : Bool :=
  match s.calls false, s.calls true with
  | .settled (.error (.refusal (some ()))), .settled (.ok 9) => true
  | _, _ => false

theorem getRange_shares_work_sample :
    ∃ s : State Bool ℕ Unit, RangeRun 30 (State.init 0 none none) s ∧
      (∃ t, (t, false, .error ()) ∈ s.charges) ∧ s.calls true = .settled (.ok 9) ∧ 9 ∈ s.known := by
  obtain ⟨s, hrun, hkind⟩ := Run.of_any (State.step 30) (fun _ _ => True)
    (State.init 0 none none : State Bool ℕ Unit) refusedAndServed State.refusedAndServed rfl
  obtain ⟨-, -, -, -, hrejected, hknown, -⟩ := (getRange_shares_work 0 none none).1 s hrun
  unfold State.refusedAndServed at hkind
  split at hkind
  · rename_i hfalse htrue
    obtain ⟨t, err', -, hcharge⟩ := hrejected false _ hfalse
    exact ⟨s, hrun, ⟨t, hcharge⟩, htrue, hknown true 9 htrue⟩
  · cases hkind

end HVault.Breach
