import HVault.Breach.RangeRuns
import Mathlib.Algebra.Order.BigOperators.Group.Finset

/-!
# Every breach-range lookup settles

What is left to do for the calls is a number (`State.left`) that every step of a call or of a lookup
lowers: a lookup that settles has its creator settle, and a call that looks again either creates a
lookup itself or joins a newer one. While a call is under way some such step can be taken
(`State.Inv.progress`), so where these steps are not put off for ever every call settles
(`calls_settle`).
-/

namespace HVault.Breach

open SingleFlight Interleave Function Finset State Flight Fintype

variable {ι R E : Type} {s s' : State ι R E} {i : ι} {t : ℕ}

/-- The answers a lookup still awaits. -/
def Phase.left : Phase R → ℕ
  | .finding => 5
  | .charging _ => 4
  | .fetching _ => 3
  | .storing _ _ => 2
  | .noting _ _ => 1
  | .done => 0

/-- A step of a call under way, or of a lookup. -/
def Event.onward : Event ι R E → Bool
  | .call _ => false
  | e => !e.beside

namespace State

/-- What is left to do for the lookup that is registered. -/
def leftForLookup (s : State ι R E) : ℕ :=
  match s.rangeInFlight.current with
  | some t => (s.lookups t).phase.left
  | none => 0

variable [Fintype ι] [DecidableEq ι]

/-- What is left to do for a call: it is the creator of the lookup it awaits, or it may have to look
again, at once where that lookup is off the register. -/
def leftFor (s : State ι R E) (i : ι) : ℕ :=
  match s.calls i with
  | .idle => Fintype.card ι + 10
  | .settled _ => 0
  | .called =>
    match s.rangeInFlight.waits i with
    | none => 0
    | some t =>
      if (s.rangeInFlight.tasks t).map (·.creator) = some i then Fintype.card ι + 1
      else if s.rangeInFlight.current = some t then Fintype.card ι + 8 else Fintype.card ι + 9

def left (s : State ι R E) : ℕ := ∑ i, s.leftFor i + s.leftForLookup

omit [DecidableEq ι] in
theorem sum_lt {f g : ι → ℕ} [DecidableEq ι] (i : ι) {a b : ℕ} (hother : ∀ j, j ≠ i → f j = g j)
    (hi : f i + a < g i + b) : ∑ j, f j + a < ∑ j, g j + b := by
  have hf := add_sum_erase univ f (mem_univ i)
  have hg := add_sum_erase univ g (mem_univ i)
  have hsame : ∑ j ∈ univ.erase i, f j = ∑ j ∈ univ.erase i, g j :=
    sum_congr rfl fun j hj => hother j (ne_of_mem_erase hj)
  omega

/-- Where only `i` has moved, what it and the lookup have left decides. -/
theorem left_lt (hother : ∀ j, j ≠ i → s'.leftFor j = s.leftFor j)
    (hi : s'.leftFor i + s'.leftForLookup < s.leftFor i + s.leftForLookup) : s'.left < s.left :=
  sum_lt i hother hi

/-- Where a lookup has moved and no call, the lookup has less left. -/
theorem left_lt_of_lookup (hsame : ∀ j, s'.leftFor j = s.leftFor j)
    (h : s'.leftForLookup < s.leftForLookup) : s'.left < s.left := by
  unfold left
  simp only [hsame]
  omega

/-- What is left for a call depends on where it stands alone. -/
theorem leftFor_congr (hcalls : s'.calls i = s.calls i)
    (hwaits : s'.rangeInFlight.waits i = s.rangeInFlight.waits i)
    (hcreator : ∀ t, s.rangeInFlight.waits i = some t →
      (s'.rangeInFlight.tasks t).map (·.creator) = (s.rangeInFlight.tasks t).map (·.creator))
    (hcurrent : ∀ t, s.rangeInFlight.waits i = some t →
      (s'.rangeInFlight.current = some t ↔ s.rangeInFlight.current = some t)) :
    s'.leftFor i = s.leftFor i := by
  unfold leftFor
  rw [hcalls, hwaits]
  cases hw : s.rangeInFlight.waits i with
  | none => rfl
  | some t => simp only [hcreator t hw, hcurrent t hw]

end State

/-! ## The steps of a lookup -/

/-- The lookup `t` has moved on, and nothing else but the caches and the logs has. -/
structure State.Moved (t : ℕ) (s s' : State ι R E) : Prop where
  calls : s'.calls = s.calls
  flight : s'.rangeInFlight = s.rangeInFlight ∨
    ∃ outcome, s'.rangeInFlight = s.rangeInFlight.settle t outcome
  phase : (s'.lookups t).phase.left < (s.lookups t).phase.left

namespace State.Moved

theorem of_await {phase : Phase R} (h : phase.left < (s.lookups t).phase.left) :
    s.Moved t (s.await t phase) where
  calls := rfl
  flight := .inl rfl
  phase := by simpa [await] using h

theorem of_settle {outcome : Outcome R E} (h : 0 < (s.lookups t).phase.left) :
    s.Moved t (s.settle t outcome) where
  calls := rfl
  flight := .inr ⟨outcome, rfl⟩
  phase := by simpa [settle, await, Phase.left] using h

/-- What changes the caches and the logs alone does not matter. -/
theorem congr {s₁ : State ι R E} (h : s₁.Moved t s') (hcalls : s₁.calls = s.calls)
    (hflight : s₁.rangeInFlight = s.rangeInFlight) (hphase : (s₁.lookups t).phase = (s.lookups t).phase) :
    s.Moved t s' where
  calls := h.calls.trans hcalls
  flight := hflight ▸ h.flight
  phase := hphase ▸ h.phase

variable {doc : Option (RangeDoc R)}

theorem of_serveStale {err : E} (h : 0 < (s.lookups t).phase.left) :
    s.Moved t (s.serveStale t doc err) := by
  cases doc with
  | some doc | none => exact of_settle h

theorem of_found {ttlDays : ℕ} {failure : Option E} (hphase : (s.lookups t).phase = .finding) :
    s.Moved t (s.found ttlDays t failure) := by
  have hpos : 0 < (s.lookups t).phase.left := by simp [hphase, Phase.left]
  unfold found
  cases failure with
  | some err => exact of_settle hpos
  | none =>
    dsimp only
    split
    · refine (of_settle ?_).congr rfl rfl rfl
      exact hpos
    · exact of_await (by simp [hphase, Phase.left])

theorem of_charged {creator : ι} {outcome : Except E Unit}
    (hphase : (s.lookups t).phase = .charging doc) :
    s.Moved t (s.charged t creator doc outcome) := by
  have hpos : 0 < (s.lookups t).phase.left := by simp [hphase, Phase.left]
  cases outcome with
  | ok _ =>
    refine (of_await ?_).congr rfl rfl rfl
    simp [hphase, Phase.left]
  | error err =>
    cases doc with
    | some doc =>
      refine (of_settle ?_).congr rfl rfl rfl
      exact hpos
    | none =>
      refine (of_settle ?_).congr rfl rfl ?_
      · simp [refuse, hphase, Phase.left]
      · simp [refuse]

theorem of_fetched {outcome : Except E R} (hphase : (s.lookups t).phase = .fetching doc) :
    s.Moved t (s.fetched t doc outcome) := by
  cases outcome with
  | ok range =>
    refine (of_await ?_).congr rfl rfl rfl
    simp [hphase, Phase.left]
  | error err =>
    refine (of_serveStale ?_).congr rfl rfl rfl
    simp [hphase, Phase.left]

theorem of_stored {range : R} {outcome : StoreOutcome E}
    (hphase : (s.lookups t).phase = .storing doc range) :
    s.Moved t (s.stored t doc range outcome) := by
  have hpos : 0 < (s.lookups t).phase.left := by simp [hphase, Phase.left]
  unfold stored
  cases outcome with
  | written =>
    dsimp only
    split
    · refine (of_await ?_).congr rfl rfl rfl
      simp [hphase, Phase.left, setHibpCacheEntry]
    · refine (of_settle ?_).congr rfl rfl rfl
      exact hpos
  | taken =>
    refine (of_settle ?_).congr rfl rfl rfl
    exact hpos
  | failed err applied =>
    refine (of_serveStale ?_).congr rfl rfl rfl
    exact hpos

theorem of_noted {range : R} {failure : Option E}
    (hphase : (s.lookups t).phase = .noting doc range) :
    s.Moved t (s.noted t doc range failure) := by
  have hpos : 0 < (s.lookups t).phase.left := by simp [hphase, Phase.left]
  cases failure with
  | some err => exact of_serveStale hpos
  | none => exact of_settle hpos

variable [Fintype ι] [DecidableEq ι]

/-- A lookup that moves on has less left, and no call has more. -/
theorem left_lt (h : s.Moved t s') (hinv : s.Inv none none) : s'.left < s.left := by
  have hopen : (s.lookups t).phase ≠ .done := by
    intro hdone
    have := h.phase
    simp [hdone, Phase.left] at this
  obtain ⟨task, ht, ho⟩ := hinv.open_task hopen
  have hcurrent : s.rangeInFlight.current = some t := hinv.sound.registered t task ht ho
  have hcurrent' : s'.rangeInFlight.current = some t := by
    rcases h.flight with hf | ⟨outcome, hf⟩
    · rw [hf, hcurrent]
    · simp [hf, Flight.settle, ht, hcurrent]
  apply left_lt_of_lookup
  · intro j
    apply leftFor_congr
    · rw [h.calls]
    · rcases h.flight with hf | ⟨outcome, hf⟩
      · rw [hf]
      · simp [hf, Flight.settle, ht]
    · intro u _
      rcases h.flight with hf | ⟨outcome, hf⟩
      · rw [hf]
      · by_cases hu : u = t
        · simp [hf, Flight.settle, ht, hu]
        · simp [hf, Flight.settle, ht, hu]
    · intro u _
      rw [hcurrent, hcurrent']
  · simpa [leftForLookup, hcurrent, hcurrent'] using h.phase

end State.Moved

/-! ## The steps of a call -/

section Calls

variable [Fintype ι] [DecidableEq ι]

/-- A call that looks has at most the wait for the lookup in flight left, or its own lookup. -/
theorem State.Inv.left_getRange (h : s.Inv (some i) none) :
    (∀ j, j ≠ i → (s.getRange i).leftFor j = s.leftFor j) ∧
      (s.getRange i).leftFor i + (s.getRange i).leftForLookup ≤
        card ι + 8 + s.leftForLookup := by
  have hcalled : s.calls i = .called := (h.called i).2 (.inr rfl)
  unfold State.getRange
  split
  · constructor
    · intro j hj
      exact leftFor_congr (by simp [State.answer, hj]) rfl (fun _ _ => rfl) fun _ _ => .rfl
    · simp [State.answer, leftFor, leftForLookup]
  · split
    · rename_i pending hpending
      obtain ⟨task, ht, -⟩ := h.sound.creator_waits pending hpending
      have hview := tasks_join (f := s.rangeInFlight) (i := i) (t := pending)
      have hcurrent : (s.rangeInFlight.join i pending).current = some pending := by
        rw [← hpending]
        simp only [Flight.join, ht]
        cases task.outcome with
        | none => rfl
        | some outcome => rfl
      constructor
      · intro j hj
        refine leftFor_congr rfl ?_ (fun u _ => ?_) fun u _ => ?_
        · simp [waits_join ht, hj]
        · have := congrArg (Option.map Prod.fst) (hview u)
          simpa [Option.map_map, comp_def] using this
        · simp [hcurrent, hpending]
      · simp only [leftFor, hcalled, waits_join ht, update_self, hcurrent,
          if_true, leftForLookup, hpending]
        split <;> omega
    · rename_i hnone
      constructor
      · intro j hj
        have hold : ∀ u, s.rangeInFlight.waits j = some u → u ≠ s.rangeInFlight.minted := by
          intro u hu
          obtain ⟨task, ht, -⟩ := h.sound.placed j u hu
          exact Nat.ne_of_lt (h.sound.lt_minted ht)
        refine leftFor_congr rfl ?_ (fun u hu => ?_) fun u hu => ?_
        · simp [hj]
        · simp [Flight.start, hold u hu]
        · simp [Flight.start, hnone, Ne.symm (hold u hu)]
      · simp [leftFor, hcalled, Flight.start, leftForLookup, Phase.left]
        omega

/-- A call that settles has nothing left, and leaves the others as they were. -/
theorem State.leftFor_answer (result : Except (Rejection E) R) :
    (∀ j, j ≠ i → (s.answer i result).leftFor j = s.leftFor j) ∧
      (s.answer i result).leftFor i = 0 := by
  constructor
  · intro j hj
    exact leftFor_congr (by simp [answer, hj]) rfl (fun _ _ => rfl) fun _ _ => .rfl
  · simp [answer, leftFor]

theorem State.Inv.left_goOn (h : s.Inv none none) {rest : List ι}
    (hready : s.rangeInFlight.ready = i :: rest) (hi : s.rangeInFlight.waits i = some t)
    {task : Task ι (Outcome R E)} (ht : s.rangeInFlight.tasks t = some task)
    {outcome : Outcome R E} (ho : task.outcome = some outcome) :
    (s.goOn i task.creator (s.lookups t).refusal outcome).left < s.left := by
  have hcalled : s.calls i = .called := by
    rw [h.called i, hi]
    exact .inl rfl
  obtain ⟨s₁, hs₁⟩ : ∃ s₁, s₁ = { s with
      rangeInFlight := s.rangeInFlight.leave i (decide (task.creator = i)) } := ⟨_, rfl⟩
  have hwaits : ∀ j, j ≠ i → s₁.rangeInFlight.waits j = s.rangeInFlight.waits j := fun j hj => by
    simp [hs₁, hj]
  by_cases hcreator : task.creator = i
  · -- the lookup comes off the register, and the others that await it may have to look again
    have hcurrent : s.rangeInFlight.current = some t := h.sound.creator_current i t task hi ht hcreator
    have hdone : (s.lookups t).phase = .done := by
      by_contra hne
      obtain ⟨task', ht', ho'⟩ := h.open_task hne
      cases ht.symm.trans ht'
      simp [ho] at ho'
    have hgoOn : ∃ result, s.goOn i task.creator (s.lookups t).refusal outcome =
        s₁.answer i result := by
      subst hs₁
      cases outcome with
      | range range | failed err => exact ⟨_, rfl⟩
      | notFetched => exact ⟨_, if_pos hcreator⟩
    obtain ⟨result, hgoOn⟩ := hgoOn
    rw [hgoOn]
    obtain ⟨hother, hself⟩ := leftFor_answer (i := i) result
    have hmore : ∀ j ∈ univ.erase i, (s₁.answer i result).leftFor j ≤ s.leftFor j + 1 := by
      intro j hj
      have hji := ne_of_mem_erase hj
      rw [hother j hji]
      unfold leftFor
      rw [hwaits j hji]
      simp only [hs₁, tasks_leave]
      cases s.calls j with
      | idle | settled result => exact Nat.le_succ _
      | called =>
        cases s.rangeInFlight.waits j with
        | none => exact Nat.le_succ _
        | some u =>
          dsimp only
          split
          · omega
          · split <;> split <;> omega
    have hsum := sum_le_sum hmore
    rw [sum_add_distrib, ← card_eq_sum_ones,
      card_erase_of_mem (mem_univ i), card_univ] at hsum
    have hnew := add_sum_erase univ (s₁.answer i result).leftFor (mem_univ i)
    have hold := add_sum_erase univ s.leftFor (mem_univ i)
    have hleft : s.leftFor i = card ι + 1 := by
      simp [leftFor, hcalled, hi, ht, hcreator]
    have hlookup : (s₁.answer i result).leftForLookup = 0 := by
      simp [leftForLookup, State.answer, hs₁, leave, hcreator]
    have hlookup' : s.leftForLookup = 0 := by
      simp [leftForLookup, hcurrent, hdone, Phase.left]
    unfold State.left
    omega
  · -- the call has found its lookup off the register
    have hfreed : s.rangeInFlight.current ≠ some t := h.sound.freed hready hi ht hcreator
    have hcurrent : s₁.rangeInFlight.current = s.rangeInFlight.current := by
      simp [hs₁, leave, hcreator]
    have hleft : s.leftFor i = card ι + 9 := by
      simp [leftFor, hcalled, hi, ht, hcreator, hfreed]
    have hlookup : s₁.leftForLookup = s.leftForLookup := by
      simp [leftForLookup, hs₁, leave, hcreator]
    have hsame : ∀ j, j ≠ i → s₁.leftFor j = s.leftFor j := by
      intro j hj
      refine leftFor_congr (by rw [hs₁]) (hwaits j hj) (fun u _ => ?_) fun u _ => ?_
      · simp [hs₁]
      · rw [hcurrent]
    have hanswer : ∀ result, (s₁.answer i result).left < s.left := by
      intro result
      obtain ⟨hother, hself⟩ := leftFor_answer (s := s₁) result
      apply left_lt (i := i) fun j hj => (hother j hj).trans (hsame j hj)
      have : (s₁.answer i result).leftForLookup = s₁.leftForLookup := rfl
      omega
    unfold State.goOn
    simp only [← hs₁]
    cases outcome with
    | range range | failed err => exact hanswer _
    | notFetched =>
      have hleave := h.left hready hi ht
      rw [← hs₁] at hleave
      obtain ⟨hother, hself⟩ := hleave.left_getRange
      simp only [if_neg hcreator]
      apply left_lt fun j hj => (hother j hj).trans (hsame j hj)
      omega

/-! ## All steps -/

variable {ttlDays : ℕ}

variable {e : Event ι R E}

/-- **Every call, and every step of a call or of a lookup, leaves less to do.** -/
theorem State.Inv.left_lt (h : s.Inv none none) (he : e.beside = false)
    (hstep : s.step ttlDays e = some s') : s'.left < s.left := by
  cases e with
  | call i =>
    simp only [State.step] at hstep
    split at hstep
    · rename_i hidle
      cases hstep
      obtain ⟨hother, hself⟩ := (h.call hidle).left_getRange
      have hsame : ∀ j, j ≠ i →
          { s with calls := update s.calls i .called }.leftFor j = s.leftFor j := by
        intro j hj
        exact leftFor_congr (by simp [hj]) rfl (fun _ _ => rfl) fun _ _ => .rfl
      apply left_lt fun j hj => (hother j hj).trans (hsame j hj)
      have hlookup : { s with calls := update s.calls i .called }.leftForLookup =
          s.leftForLookup := rfl
      have hidle : s.leftFor i = card ι + 10 := by simp [leftFor, hidle]
      omega
    · cases hstep
  | found t failure =>
    simp only [State.step] at hstep
    split at hstep
    · rename_i hphase
      cases hstep
      exact (State.Moved.of_found hphase).left_lt h
    · cases hstep
  | charged t outcome =>
    simp only [State.step] at hstep
    split at hstep
    · rename_i hphase ht
      cases hstep
      exact (State.Moved.of_charged hphase).left_lt h
    · cases hstep
  | fetched t outcome =>
    simp only [State.step] at hstep
    split at hstep
    · rename_i hphase
      cases hstep
      exact (State.Moved.of_fetched hphase).left_lt h
    · cases hstep
  | stored t outcome =>
    simp only [State.step] at hstep
    split at hstep
    · rename_i hphase
      cases hstep
      exact (State.Moved.of_stored hphase).left_lt h
    · cases hstep
  | noted t failure =>
    simp only [State.step] at hstep
    split at hstep
    · rename_i hphase
      cases hstep
      exact (State.Moved.of_noted hphase).left_lt h
    · cases hstep
  | resume =>
    obtain ⟨i, rest, t, task, outcome, hready, hi, ht, ho, rfl⟩ := State.Inv.resume_cases hstep
    exact h.left_goOn hready hi ht ho
  | tick => cases he
  | evict => cases he
  | rewrite doc => cases he

/-- What goes on beside the calls leaves as much to do. -/
theorem State.left_eq (he : e.beside = true) (hstep : s.step ttlDays e = some s') :
    s'.left = s.left := by
  cases e with
  | tick | evict | rewrite doc =>
    cases hstep
    rfl
  | _ => cases he

omit [Fintype ι] in
/-- **While a call is under way, it or a lookup can go on.** -/
theorem State.Inv.progress [Inhabited R] (h : s.Inv none none) (hi : s.calls i = .called) :
    ∃ e : Event ι R E, e.onward ∧ (s.step ttlDays e).isSome := by
  obtain ⟨t, hwaits⟩ := Option.isSome_iff_exists.1 (((h.called i).1 hi).resolve_right (by simp))
  obtain ⟨task, ht, hopen, hready⟩ := h.sound.placed i t hwaits
  cases ho : task.outcome with
  | none =>
    -- the lookup it awaits is open, and awaits something itself
    have hphase : (s.lookups t).phase ≠ .done := (h.running t).2 ⟨task, ht, ho⟩
    cases hp : (s.lookups t).phase with
    | finding => exact ⟨.found t none, rfl, by simp [State.step, hp]⟩
    | charging doc => exact ⟨.charged t (.ok ()), rfl, by simp [State.step, hp, ht]⟩
    | fetching doc => exact ⟨.fetched t (.ok default), rfl, by simp [State.step, hp]⟩
    | storing doc range => exact ⟨.stored t .written, rfl, by simp [State.step, hp]⟩
    | noting doc range => exact ⟨.noted t none, rfl, by simp [State.step, hp]⟩
    | done => exact (hphase hp).elim
  | some outcome =>
    have hmem := hready (by simp [ho])
    cases hr : s.rangeInFlight.ready with
    | nil => simp [hr] at hmem
    | cons j rest =>
      obtain ⟨u, task', hju, hu, ho'⟩ := h.sound.ready_waits j (by simp [hr])
      obtain ⟨outcome', ho'⟩ := Option.isSome_iff_exists.1 ho'
      obtain ⟨creator, waiting, _⟩ := task'
      cases ho'
      exact ⟨.resume, rfl, by simp [State.step, hr, hju, hu]⟩

omit [Fintype ι] in
theorem State.getRange_ne_idle {j : ι} (h : s.calls i ≠ .idle) : (s.getRange j).calls i ≠ .idle := by
  unfold getRange
  split
  · by_cases hij : i = j
    · simp [answer, hij]
    · simpa [answer, hij] using h
  · split
    · exact h
    · exact h

omit [Fintype ι] in
/-- A call that has been made stays made. -/
theorem State.step_ne_idle (h : s.calls i ≠ .idle) (hstep : s.step ttlDays e = some s') :
    s'.calls i ≠ .idle := by
  have hanswer : ∀ (s₁ : State ι R E) (j : ι) (result : Except (Rejection E) R),
      s₁.calls = s.calls → (s₁.answer j result).calls i ≠ .idle := by
    intro s₁ j result hcalls
    by_cases hij : i = j
    · simp [answer, hij]
    · simpa [answer, hij, hcalls] using h
  cases e with
  | call j =>
    simp only [step] at hstep
    split at hstep
    · cases hstep
      apply getRange_ne_idle
      by_cases hij : i = j
      · simp [hij]
      · simpa [hij] using h
    · cases hstep
  | found t failure =>
    simp only [step] at hstep
    split at hstep
    · rename_i hphase
      cases hstep
      rwa [(State.Moved.of_found hphase).calls]
    · cases hstep
  | charged t outcome =>
    simp only [step] at hstep
    split at hstep
    · rename_i hphase ht
      cases hstep
      rwa [(State.Moved.of_charged hphase).calls]
    · cases hstep
  | fetched t outcome =>
    simp only [step] at hstep
    split at hstep
    · rename_i hphase
      cases hstep
      rwa [(State.Moved.of_fetched hphase).calls]
    · cases hstep
  | stored t outcome =>
    simp only [step] at hstep
    split at hstep
    · rename_i hphase
      cases hstep
      rwa [(State.Moved.of_stored hphase).calls]
    · cases hstep
  | noted t failure =>
    simp only [step] at hstep
    split at hstep
    · rename_i hphase
      cases hstep
      rwa [(State.Moved.of_noted hphase).calls]
    · cases hstep
  | resume =>
    obtain ⟨j, rest, t, task, outcome, -, -, -, -, rfl⟩ := State.Inv.resume_cases hstep
    unfold goOn
    cases outcome with
    | range range | failed err => exact hanswer _ _ _ rfl
    | notFetched =>
      dsimp only
      split
      · exact hanswer _ _ _ rfl
      · exact getRange_ne_idle h
  | tick | evict | rewrite doc =>
    cases hstep
    exact h

/-- A run without end in which no lookup and no call is put off for ever: while one can go on, some
such step is taken at some time. -/
structure FairRun (ttlDays : ℕ) (run : ℕ → State ι R E) (event : ℕ → Event ι R E) : Prop where
  steps : ∀ n, (run n).step ttlDays (event n) = some (run (n + 1))
  fair : ∀ n, (∃ e : Event ι R E, e.onward ∧ ((run n).step ttlDays e).isSome) →
    ∃ m ≥ n, (event m).onward

/-- **Every call settles.** -/
theorem FairRun.settles [Inhabited R] {run : ℕ → State ι R E} {event : ℕ → Event ι R E}
    (h : FairRun ttlDays run event) (hinv : (run 0).Inv none none) {n : ℕ}
    (hi : (run n).calls i ≠ .idle) : ∃ m ≥ n, ∃ result, (run m).calls i = .settled result := by
  have hall : ∀ k, (run k).Inv none none := by
    intro k
    induction k with
    | zero => exact hinv
    | succ k ih => exact ih.step (h.steps k)
  have hle : ∀ k, (run (k + 1)).left ≤ (run k).left := by
    intro k
    cases hbeside : (event k).beside with
    | true => exact (left_eq hbeside (h.steps k)).le
    | false => exact ((hall k).left_lt hbeside (h.steps k)).le
  obtain ⟨N, hN⟩ := eventually_still (fun s : State ι R E => s.left) hle
  -- from then on no call and no lookup takes a step
  have hquiet : ∀ k ≥ N, (event k).beside = true := by
    intro k hk
    by_contra hbeside
    have hlt := (hall k).left_lt (by simpa using hbeside) (h.steps k)
    have := hN k hk
    omega
  obtain ⟨m, hm⟩ : ∃ m, m = max n N := ⟨_, rfl⟩
  have hmade : (run m).calls i ≠ .idle := by
    have hkeep : ∀ k, (run (n + k)).calls i ≠ .idle := by
      intro k
      induction k with
      | zero => exact hi
      | succ k ih => exact step_ne_idle ih (h.steps (n + k))
    have := hkeep (m - n)
    rwa [show n + (m - n) = m by omega] at this
  refine ⟨m, by omega, ?_⟩
  cases hcall : (run m).calls i with
  | idle => exact (hmade hcall).elim
  | settled result => exact ⟨result, rfl⟩
  | called =>
    obtain ⟨k, hk, honward⟩ := h.fair m ((hall m).progress hcall)
    have hbeside := hquiet k (by omega)
    cases he : event k <;> simp [he, Event.onward, Event.beside] at honward hbeside

end Calls

end HVault.Breach
