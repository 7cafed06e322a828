import Mathlib.Algebra.BigOperators.Group.Finset.Piecewise
import Mathlib.Algebra.Order.BigOperators.Group.Finset
import HVault.Interleave.Schedule
import HVault.Interleave.Steps

/-!
# Programs as walks through phases

What a program knows between two accesses is often no more than a phase: the lock it holds, the
number it has read, the row it is about to write. `Prog.Obeys` says that every access of a program
is an event of the phase it is made in and leads to the next phase. `Reaches.phases` then replaces
the programs of a run by their phases: an invariant of store and phases that every event keeps
holds in every configuration reached, and its proof looks at the events only, not at the programs.

`Carries` is for invariants that add up what the programs have in hand.
-/

namespace Interleave

open Function Finset

variable {ι σ ℓ ε α β φ : Type}

/-! ## One program -/

section Walk

variable (faults : ℓ → ε → Bool → Prop) (E : φ → ℓ → σ → φ → σ → Prop)

/-- Whatever its accesses find and answer, the program goes from event to event and ends in `Q`. -/
def Prog.Obeys (Q : Except ε α → φ → Prop) : Prog σ ℓ ε α → φ → Prop
  | .ret a, x => Q (.ok a) x
  | .raise e, x => Q (.error e) x
  | .access l f k, x => ∀ s r s', Outcome faults l f s r s' →
      ∃ x', E x l s x' s' ∧ (k r).Obeys Q x'

variable {faults E} {Q Q' : Except ε α → φ → Prop} {x : φ}

namespace Prog

theorem obeys_ret {a : α} (h : Q (.ok a) x) : (ret a : Prog σ ℓ ε α).Obeys faults E Q x := h

theorem obeys_raise {e : ε} (h : Q (.error e) x) :
    (raise e : Prog σ ℓ ε α).Obeys faults E Q x := h

theorem obeys_ofExcept {r : Except ε α} (h : Q r x) :
    (ofExcept r : Prog σ ℓ ε α).Obeys faults E Q x := by
  cases r with
  | ok a => exact h
  | error e => exact h

variable {p : Prog σ ℓ ε α}

theorem Obeys.mono (h : p.Obeys faults E Q x) (hQ : ∀ r x, Q r x → Q' r x) :
    p.Obeys faults E Q' x := by
  induction p generalizing x with
  | ret a | raise e => exact hQ _ _ h
  | access l f k ih =>
    intro s r s' ho
    obtain ⟨x', hE, hk⟩ := h s r s' ho
    exact ⟨x', hE, ih r hk⟩

variable {h : β → Prog σ ℓ ε α}

/-- One part after the other. -/
theorem Obeys.bind {M : Except ε β → φ → Prop} {p : Prog σ ℓ ε β} (hp : p.Obeys faults E M x)
    (hh : ∀ b x, M (.ok b) x → (h b).Obeys faults E Q x)
    (he : ∀ e x, M (.error e) x → Q (.error e) x) : (p.bind h).Obeys faults E Q x := by
  induction p generalizing x with
  | ret b => exact hh b x hp
  | raise e => exact he e x hp
  | access l f k ih =>
    intro s r s' ho
    obtain ⟨x', hE, hk⟩ := hp s r s' ho
    exact ⟨x', hE, ih r hk⟩

/-- A part whose failure is handed to the rest. -/
theorem Obeys.attempt_bind {M : Except ε β → φ → Prop} {p : Prog σ ℓ ε β}
    {h : Except ε β → Prog σ ℓ ε α} (hp : p.Obeys faults E M x)
    (hh : ∀ r x, M r x → (h r).Obeys faults E Q x) : (p.attempt.bind h).Obeys faults E Q x := by
  induction p generalizing x with
  | ret b => exact hh (.ok b) x hp
  | raise e => exact hh (.error e) x hp
  | access l f k ih =>
    intro s r s' ho
    obtain ⟨x', hE, hk⟩ := hp s r s' ho
    exact ⟨x', hE, ih r hk⟩

/-- A part, and what is done after it in any case. -/
theorem Obeys.andFinally {M : Except ε α → φ → Prop} {q : Prog σ ℓ ε Unit}
    (hp : p.Obeys faults E M x) (hq : ∀ r x, M r x → q.Obeys faults E
      (fun ended x => (∀ u, ended = .ok u → Q r x) ∧ ∀ e, ended = .error e → Q (.error e) x) x) :
    (p.andFinally q).Obeys faults E Q x := by
  apply hp.attempt_bind
  intro r x hM
  apply (hq r x hM).bind
  · intro _ x h
    exact obeys_ofExcept (h.1 _ rfl)
  · intro e x h
    exact h.2 e rfl

variable {l : ℓ}

/-- One access that cannot fail, then the rest. -/
theorem obeys_db_bind (hsure : ∀ l e b, ¬ faults l e b) {f : σ → β × σ}
    (hf : ∀ s, ∃ x', E x l s x' (f s).2 ∧ (h (f s).1).Obeys faults E Q x') :
    ((db l f).bind h).Obeys faults E Q x := by
  intro s r s' ho
  cases ho with
  | applied => exact hf s
  | refused hfault | lost hfault => exact (hsure _ _ _ hfault).elim

/-- The same with the access tried. -/
theorem obeys_attempt_db_bind (hsure : ∀ l e b, ¬ faults l e b) {f : σ → β × σ}
    {h : Except ε β → Prog σ ℓ ε α}
    (hf : ∀ s, ∃ x', E x l s x' (f s).2 ∧ (h (.ok (f s).1)).Obeys faults E Q x') :
    (((db l f).attempt).bind h).Obeys faults E Q x := by
  intro s r s' ho
  cases ho with
  | applied => exact hf s
  | refused hfault | lost hfault => exact (hsure _ _ _ hfault).elim

/-- One access that cannot fail and ends the program. -/
theorem obeys_db (hsure : ∀ l e b, ¬ faults l e b) {f : σ → α × σ}
    (hf : ∀ s, ∃ x', E x l s x' (f s).2 ∧ Q (.ok (f s).1) x') :
    (db l f).Obeys faults E Q x := by
  intro s r s' ho
  cases ho with
  | applied => exact hf s
  | refused hfault | lost hfault => exact (hsure _ _ _ hfault).elim

/-- A read that leads to another phase, then the rest. -/
theorem obeys_read_event (hsure : ∀ l e b, ¬ faults l e b) {f : σ → β}
    (hf : ∀ s, ∃ x', E x l s x' s ∧ (h (f s)).Obeys faults E Q x') :
    ((read l f).bind h).Obeys faults E Q x :=
  obeys_db_bind hsure hf

/-- A read that is no event of its own, then the rest. -/
theorem obeys_read_bind (hsure : ∀ l e b, ¬ faults l e b) {f : σ → β} (hE : ∀ s, E x l s x s)
    (hh : ∀ b, (h b).Obeys faults E Q x) :
    ((read l f).bind h).Obeys faults E Q x :=
  obeys_db_bind hsure fun s => ⟨x, hE s, hh (f s)⟩

/-- A part whose accesses all obey a law that is an event of the phase it is run in. -/
theorem Each.obeys {T : ℓ → σ → σ → Prop} {A : Except ε α → Prop} (hp : p.Each (fun _ => True) T)
    (hl : p.Leaves faults A) (hT : ∀ l s s₁ s', T l s s₁ → s' = s ∨ s' = s₁ → E x l s x s') :
    p.Obeys faults E (fun r x' => x' = x ∧ A r) x := by
  induction p with
  | ret a | raise e => exact ⟨rfl, hl⟩
  | access l f k ih =>
    intro s r s' ho
    refine ⟨x, hT l s _ s' (hp.1 s trivial) ho.store_eq, ?_⟩
    cases ho with
    | applied => exact ih _ (hp.2 _) (hl.1 _)
    | refused hfault | lost hfault => exact ih _ (hp.2 _) (hl.2 _ _ hfault)

end Prog

end Walk

/-! ## Runs -/

section Runs

variable {faults : ℓ → ε → Bool → Prop} {E : φ → ℓ → σ → φ → σ → Prop}
  {Q : ι → Except ε α → φ → Prop} {x₀ : ι → φ} {c : Config ι σ ℓ ε α} {x : ι → φ}

variable (faults E Q x₀) in
/-- Every program of a configuration is in its phase; one that has not arrived is in its first. -/
def Config.In (c : Config ι σ ℓ ε α) (x : ι → φ) : Prop :=
  ∀ i, match c.threads i with
    | none => x i = x₀ i
    | some p => p.Obeys faults E (Q i) (x i)

theorem Config.In.obeys (h : c.In faults E Q x₀ x) {i : ι} {p : Prog σ ℓ ε α}
    (hi : c.threads i = some p) : p.Obeys faults E (Q i) (x i) := by
  have hin := h i
  rwa [hi] at hin

/-- The next access of a program is an event of its phase. -/
theorem Config.In.site (h : c.In faults E Q x₀ x) {i : ι} {l : ℓ} (hl : c.nextSite i = some l) :
    ∃ x' s', E (x i) l c.store x' s' := by
  unfold Config.nextSite at hl
  split at hl
  · rename_i l' f k hi
    cases hl
    obtain ⟨x', hE, -⟩ := h.obeys hi c.store _ _ .applied
    exact ⟨x', _, hE⟩
  · cases hl

/-- A program in a phase that neither starts nor ends one has a next access. -/
theorem Config.In.waiting (h : c.In faults E Q x₀ x) {i : ι} (hstart : x i ≠ x₀ i)
    (hend : ∀ r, ¬ Q i r (x i)) :
    ∃ l, c.nextSite i = some l ∧ ∃ x' s', E (x i) l c.store x' s' := by
  have hnext : ∃ l, c.nextSite i = some l := by
    have hin := h i
    unfold Config.nextSite
    cases hi : c.threads i with
    | none =>
      rw [hi] at hin
      exact (hstart hin).elim
    | some p =>
      rw [hi] at hin
      cases p with
      | ret a | raise e => exact (hend _ hin).elim
      | access l f k => exact ⟨l, rfl⟩
  obtain ⟨l, hl⟩ := hnext
  exact ⟨l, hl, h.site hl⟩

/-- A program that has ended is in a phase it may end in. -/
theorem Config.In.ended (h : c.In faults E Q x₀ x) {i : ι} {r : Except ε α}
    (hr : c.resultOf i = some r) : Q i r (x i) := by
  obtain ⟨p, hi, hp⟩ := Option.bind_eq_some_iff.1 hr
  have hobeys := h.obeys hi
  cases p with
  | ret a | raise e =>
    cases hp
    exact hobeys
  | access l f k => cases hp

variable [DecidableEq ι] {S : System ι σ ℓ ε α} {ok : Config ι σ ℓ ε α → ι → ℓ → Prop}

/-- **Phases for programs.** What holds of store and phases at the start, and is kept by every
event that the side condition of the run allows, holds wherever the run gets. -/
theorem Reaches.phases
    (hadm : ∀ i p, S.admits i p → p.Obeys S.faults E (Q i) (x₀ i)) {J : σ → (ι → φ) → Prop}
    (hJ : ∀ c x i l x' s', c.In S.faults E Q x₀ x → J c.store x → ok c i l →
      E (x i) l c.store x' s' → J s' (Function.update x i x'))
    {s₀ : σ} (h₀ : J s₀ x₀) (h : Reaches S ok (Config.start s₀) c) :
    ∃ x, c.In S.faults E Q x₀ x ∧ J c.store x := by
  induction h with
  | refl => exact ⟨x₀, fun _ => rfl, h₀⟩
  | arrive _ hs ih =>
    obtain ⟨x, hin, hj⟩ := ih
    cases hs with
    | @arrive i p hnone hp =>
      refine ⟨x, fun j => ?_, hj⟩
      by_cases hji : j = i
      · subst hji
        have hx : x j = x₀ j := by
          have hin := hin j
          rwa [hnone] at hin
        simp only [update_self]
        rw [hx]
        exact hadm j p hp
      · simp only [update_of_ne hji]
        exact hin j
  | @run c c' i l _ hok hs ih =>
    obtain ⟨x, hin, hj⟩ := ih
    cases hs with
    | run hi hstep =>
      cases hstep with
      | mk ho =>
        obtain ⟨x', hE, hk⟩ := hin.obeys hi _ _ _ ho
        refine ⟨update x i x', fun j => ?_, hJ c x i l x' _ hin hj hok hE⟩
        by_cases hji : j = i
        · subst hji
          simp only [update_self]
          exact hk
        · simp only [update_of_ne hji]
          exact hin j

end Runs

/-! ## What the programs have in hand -/

section Carried

variable {w : φ → ℤ} {x : ι → φ} {n : ℤ}

/-- The programs have `n` in hand together, each what `w` says of its phase. -/
def Carries (w : φ → ℤ) (x : ι → φ) (n : ℤ) : Prop :=
  ∃ F : Finset ι, (∀ i ∉ F, w (x i) = 0) ∧ ∑ i ∈ F, w (x i) = n

theorem carries_zero (h : ∀ i, w (x i) = 0) : Carries w x 0 := ⟨∅, fun i _ => h i, rfl⟩

theorem Carries.nonneg (h : Carries w x n) (hw : ∀ i, 0 ≤ w (x i)) : 0 ≤ n := by
  obtain ⟨F, -, rfl⟩ := h
  exact sum_nonneg fun i _ => hw i

theorem Carries.zero (h : Carries w x n) (hw : ∀ i, w (x i) = 0) : n = 0 := by
  obtain ⟨F, -, rfl⟩ := h
  exact sum_eq_zero fun i _ => hw i

/-- One program goes on to its next phase. -/
theorem Carries.update [DecidableEq ι] (h : Carries w x n) (i : ι) (x' : φ) :
    Carries w (Function.update x i x') (n - w (x i) + w x') := by
  obtain ⟨F, hF, rfl⟩ := h
  refine ⟨insert i F, fun j hj => ?_, ?_⟩
  · rw [mem_insert, not_or] at hj
    rw [update_of_ne hj.1]
    exact hF j hj.2
  · have hsum : ∑ j ∈ insert i F, w (x j) = ∑ j ∈ F, w (x j) :=
      (sum_subset (subset_insert i F) fun j _ hj => hF j hj).symm
    have hrest : ∀ y : ι → φ, ∑ j ∈ insert i F, w (y j)
        = w (y i) + ∑ j ∈ (insert i F).erase i, w (y j) := fun y =>
      (add_sum_erase _ (fun j => w (y j)) (mem_insert_self i F)).symm
    have hsame : ∑ j ∈ (insert i F).erase i, w (update x i x' j)
        = ∑ j ∈ (insert i F).erase i, w (x j) := by
      apply sum_congr rfl
      intro j hj
      rw [update_of_ne (ne_of_mem_erase hj)]
    have hbefore := hrest x
    have hafter := hrest (update x i x')
    rw [update_self] at hafter
    omega

end Carried

end Interleave
