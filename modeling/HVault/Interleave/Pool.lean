import Mathlib.Logic.Function.Basic
import HVault.Interleave.Prog

/-!
# Interleaved runs and the rely-guarantee rule

A `Config` is a store together with the programs that have arrived so far. A step lets one
more program arrive or one of those present make its next access, so a run is an arbitrary
interleaving of arbitrarily many programs.

Invariants of such runs are proved one program at a time. A `Protocol` names what always
holds of the store (`inv`) and what an access of program `i` may do (`guar i`), both over the
store and a ghost part that the proof chooses at every step and no program can read.
`Safe` then says of one program that each of its accesses keeps `inv` and stays within
`guar`, provided the steps of the others stay within theirs: before every access it names
an assertion that the others cannot break. `Sound.reaches` puts the programs together.
-/

namespace Interleave

open Function Prog

variable {ι σ ℓ ε α β γ : Type}

/-! ## Configurations and runs -/

/-- The shared store and the programs that have arrived. -/
structure Config (ι σ ℓ ε α : Type) where
  store : σ
  threads : ι → Option (Prog σ ℓ ε α)

/-- The store `s` before any program has arrived. -/
def Config.start (s : σ) : Config ι σ ℓ ε α := ⟨s, fun _ => none⟩

/-- The programs of a system: which may arrive as `i`, and how accesses may fail. -/
structure System (ι σ ℓ ε α : Type) where
  admits : ι → Prog σ ℓ ε α → Prop
  faults : ℓ → ε → Bool → Prop

/-- `i` is in flight: it has arrived and has not ended. -/
def Config.InFlight (c : Config ι σ ℓ ε α) (i : ι) : Prop :=
  ∃ p, c.threads i = some p ∧ ¬ p.Finished

/-- No program is in flight. -/
def Config.Quiet (c : Config ι σ ℓ ε α) : Prop := ∀ i, ¬ c.InFlight i

section Steps

variable [DecidableEq ι] (S : System ι σ ℓ ε α)

/-- One step of a configuration, with the program and the site of an access. -/
inductive CStep : Config ι σ ℓ ε α → Option (ι × ℓ) → Config ι σ ℓ ε α → Prop
  | arrive {c : Config ι σ ℓ ε α} {i : ι} {p : Prog σ ℓ ε α} (hi : c.threads i = none)
      (hp : S.admits i p) :
      CStep c none ⟨c.store, Function.update c.threads i (some p)⟩
  | run {c : Config ι σ ℓ ε α} {i : ι} {p p' : Prog σ ℓ ε α} {l : ℓ} {s' : σ}
      (hi : c.threads i = some p) (hp : Prog.Step S.faults p c.store l p' s') :
      CStep c (some (i, l)) ⟨s', Function.update c.threads i (some p')⟩

/-- Runs whose accesses all meet `ok`, which may look at the configuration they start in. -/
inductive Reaches (ok : Config ι σ ℓ ε α → ι → ℓ → Prop) (c₀ : Config ι σ ℓ ε α) :
    Config ι σ ℓ ε α → Prop
  | refl : Reaches ok c₀ c₀
  | arrive {c c' : Config ι σ ℓ ε α} (h : Reaches ok c₀ c) (hs : CStep S c none c') :
      Reaches ok c₀ c'
  | run {c c' : Config ι σ ℓ ε α} {i : ι} {l : ℓ} (h : Reaches ok c₀ c) (hok : ok c i l)
      (hs : CStep S c (some (i, l)) c') : Reaches ok c₀ c'

/-- Runs without a side condition. -/
abbrev Reach (c₀ c : Config ι σ ℓ ε α) : Prop := Reaches S (fun _ _ _ => True) c₀ c

variable {S}

theorem Reaches.trans {ok : Config ι σ ℓ ε α → ι → ℓ → Prop} {c₀ c₁ c₂ : Config ι σ ℓ ε α}
    (h₁ : Reaches S ok c₀ c₁) (h₂ : Reaches S ok c₁ c₂) : Reaches S ok c₀ c₂ := by
  induction h₂ with
  | refl => exact h₁
  | arrive _ hs ih => exact .arrive ih hs
  | run _ hok hs ih => exact .run ih hok hs

variable {c : Config ι σ ℓ ε α} {p : Prog σ ℓ ε α}

/-- One program may run to its end while all the others wait. -/
theorem Reach.alone {i : ι} (hi : c.threads i = some p) :
    ∃ q, q.Finished ∧ q.result = some (p.alone c.store).1 ∧
      Reach S c ⟨(p.alone c.store).2, update c.threads i (some q)⟩ := by
  induction p generalizing c with
  | ret a =>
    refine ⟨.ret a, trivial, rfl, ?_⟩
    rw [← hi, update_eq_self]
    exact .refl
  | raise e =>
    refine ⟨.raise e, trivial, rfl, ?_⟩
    rw [← hi, update_eq_self]
    exact .refl
  | access l f k ih =>
    have hstep : Reach S c
        ⟨(f c.store).2, update c.threads i (some (k (.ok (f c.store).1)))⟩ :=
      .run .refl trivial (.run hi (.mk .applied))
    obtain ⟨q, hfin, hres, hrun⟩ := ih (.ok (f c.store).1)
      (c := ⟨(f c.store).2, update c.threads i (some (k (.ok (f c.store).1)))⟩)
      (update_self ..)
    rw [update_idem] at hrun
    exact ⟨q, hfin, hres, hstep.trans hrun⟩

/-- One program may go on by itself. -/
theorem Reach.goes {i : ι} {q : Prog σ ℓ ε α} {s' : σ} (hi : c.threads i = some p)
    (h : p.Goes c.store q s') :
    Reach S c ⟨s', update c.threads i (some q)⟩ := by
  obtain ⟨s, threads⟩ := c
  replace h : p.Goes s q s' := h
  induction h generalizing threads with
  | refl p s =>
    rw [← hi, update_eq_self]
    exact .refl
  | @step l β f k s s' q _ ih =>
    have hstep : Reach S ⟨s, threads⟩
        ⟨(f s).2, update threads i (some (k (.ok (f s).1)))⟩ :=
      .run .refl trivial (.run hi (.mk .applied))
    have hrest := ih (update threads i (some (k (.ok (f s).1)))) (update_self ..)
    rw [update_idem] at hrest
    exact hstep.trans hrest

/-- A program may arrive and run to its end while all the others wait. -/
theorem Reach.visit {c₀ : Config ι σ ℓ ε α} {i : ι} (h : Reach S c₀ c) (hi : c.threads i = none)
    (hp : S.admits i p) :
    ∃ q, Reach S c₀ ⟨(p.alone c.store).2, update c.threads i (some q)⟩ := by
  have harrive : Reach S c₀ ⟨c.store, update c.threads i (some p)⟩ :=
    .arrive h (.arrive hi hp)
  obtain ⟨q, -, -, hrun⟩ := Reach.alone
    (c := ⟨c.store, update c.threads i (some p)⟩) (update_self i (some p) c.threads)
  rw [update_idem] at hrun
  exact ⟨q, harrive.trans hrun⟩

/-- A program that may arrive may run to its end before any other does. -/
theorem Reach.first {s : σ} {i : ι} (hp : S.admits i p) :
    ∃ c, Reach S (Config.start s) c ∧ c.store = (p.alone s).2 ∧ c.Quiet := by
  have harrive : Reach S (Config.start s) ⟨s, update (fun _ => none) i (some p)⟩ :=
    .arrive .refl (.arrive rfl hp)
  have hi : (⟨s, update (fun _ => none) i (some p)⟩ : Config ι σ ℓ ε α).threads i
      = some p := by simp
  obtain ⟨q, hfin, -, hrun⟩ := Reach.alone hi
  refine ⟨_, harrive.trans hrun, rfl, fun j ⟨q', hq', hnot⟩ => ?_⟩
  by_cases hj : j = i
  · subst hj
    simp only [update_self, Option.some.injEq] at hq'
    exact hnot (hq' ▸ hfin)
  · simp [update_of_ne hj] at hq'

end Steps

/-! ## Protocols -/

/-- What a family of programs promises: an invariant of store and ghost, and what one access
of `i` at a site may do to them. `guar i none` is what `i` may do to the ghost alone, when it
ends. -/
structure Protocol (ι σ ℓ γ : Type) where
  inv : σ → γ → Prop
  guar : ι → Option ℓ → σ → γ → σ → γ → Prop

namespace Protocol

variable (R : Protocol ι σ ℓ γ)

/-- `P` survives every step of the programs other than `i`. -/
def Stable (i : ι) (P : σ → γ → Prop) : Prop :=
  ∀ j, j ≠ i → ∀ l s g s' g', R.inv s g → P s g → R.guar j l s g s' g' → R.inv s' g' → P s' g'

variable {R}

theorem Stable.and {i : ι} {P P' : σ → γ → Prop} (h : R.Stable i P) (h' : R.Stable i P') :
    R.Stable i fun s g => P s g ∧ P' s g :=
  fun j hj l s g s' g' hi hp hg hi' =>
    ⟨h j hj l s g s' g' hi hp.1 hg hi', h' j hj l s g s' g' hi hp.2 hg hi'⟩

theorem Stable.const {i : ι} (P : Prop) : R.Stable i fun _ _ => P :=
  fun _ _ _ _ _ _ _ _ hp _ _ => hp

theorem Stable.imp_const {i : ι} {P : σ → γ → Prop} (A : Prop) (h : R.Stable i P) :
    R.Stable i fun s g => A → P s g :=
  fun j hj l s g s' g' hi hp hg hi' ha => h j hj l s g s' g' hi (hp ha) hg hi'

end Protocol

/-! ## The logic of one program -/

section Logic

variable (R : Protocol ι σ ℓ γ) (faults : ℓ → ε → Bool → Prop)
  (pre : ι → ℓ → σ → γ → Prop) (i : ι)

/-- Program `p` of `i` is safe at `(s, g)`: it ends in `Q`, or the assertion `P` it has
reached survives the others, and its next access, made anywhere in `P` (and in `pre`, the
side condition of the run), keeps `inv`, stays within `guar i` and leaves a safe program. -/
def Safe (Q : Except ε α → σ → γ → Prop) : Prog σ ℓ ε α → σ → γ → Prop
  | .ret a, s, g => Q (.ok a) s g
  | .raise e, s, g => Q (.error e) s g
  | .access l f k, s, g => ∃ P : σ → γ → Prop, R.Stable i P ∧ P s g ∧
      ∀ s g, R.inv s g → P s g → pre i l s g → ∀ r s', Outcome faults l f s r s' →
        ∃ g', R.inv s' g' ∧ R.guar i (some l) s g s' g' ∧ Safe Q (k r) s' g'

variable {R faults pre i}

namespace Safe

variable {Q Q' : Except ε α → σ → γ → Prop} {s : σ} {g : γ}

variable {f : σ → β × σ} (P : σ → γ → Prop)

/-- The rule of one access. -/
theorem access {l : ℓ} {k : Except ε β → Prog σ ℓ ε α} (hst : R.Stable i P) (hp : P s g)
    (h : ∀ s g, R.inv s g → P s g → pre i l s g → ∀ r s', Outcome faults l f s r s' →
      ∃ g', R.inv s' g' ∧ R.guar i (some l) s g s' g' ∧ Safe R faults pre i Q (k r) s' g') :
    Safe R faults pre i Q (access l f k) s g := ⟨P, hst, hp, h⟩

theorem mono {p : Prog σ ℓ ε α} (h : Safe R faults pre i Q p s g)
    (hQ : ∀ r s g, Q r s g → Q' r s g) : Safe R faults pre i Q' p s g := by
  induction p generalizing s g with
  | ret a | raise e => exact hQ _ _ _ h
  | access l f k ih =>
    obtain ⟨P, hst, hp, hs⟩ := h
    refine ⟨P, hst, hp, fun s g hi hp hpre r s' ho => ?_⟩
    obtain ⟨g', hi', hg, hk⟩ := hs s g hi hp hpre r s' ho
    exact ⟨g', hi', hg, ih r hk⟩

variable {p : Prog σ ℓ ε β} {h : β → Prog σ ℓ ε α}

/-- Sequencing: the second program starts where the first one ended. -/
theorem bind (hp : Safe R faults pre i (fun r s g => match r with
      | .ok b => Safe R faults pre i Q (h b) s g
      | .error e => Q (.error e) s g) p s g) :
    Safe R faults pre i Q (p.bind h) s g := by
  induction p generalizing s g with
  | ret b => exact hp
  | raise e => exact hp
  | access l f k ih =>
    obtain ⟨P, hst, hP, hs⟩ := hp
    refine ⟨P, hst, hP, fun s g hi hP hpre r s' ho => ?_⟩
    obtain ⟨g', hi', hg, hk⟩ := hs s g hi hP hpre r s' ho
    exact ⟨g', hi', hg, ih r hk⟩

/-- An answer nobody looks at. -/
theorem discard {a : α} {C : σ → γ → Prop} (hp : Safe R faults pre i (fun _ => C) p s g) :
    Safe R faults pre i (fun _ => C) (p.bind fun _ => .ret a) s g := by
  refine bind (hp.mono fun r s g h => ?_)
  cases r with
  | ok b => exact h
  | error e => exact h

theorem attempt {Q : Except ε (Except ε β) → σ → γ → Prop}
    (hp : Safe R faults pre i (fun r => Q (.ok r)) p s g) :
    Safe R faults pre i Q p.attempt s g := by
  induction p generalizing s g with
  | ret b => exact hp
  | raise e => exact hp
  | access l f k ih =>
    obtain ⟨P, hst, hP, hs⟩ := hp
    refine ⟨P, hst, hP, fun s g hi hP hpre r s' ho => ?_⟩
    obtain ⟨g', hi', hg, hk⟩ := hs s g hi hP hpre r s' ho
    exact ⟨g', hi', hg, ih r hk⟩

/-- One access followed by the rest of the program: the rest after an answer, the error of
the access otherwise. -/
theorem db_bind {l : ℓ} (hst : R.Stable i P) (hp : P s g)
    (hok : ∀ s g, R.inv s g → P s g → pre i l s g → ∃ g', R.inv (f s).2 g' ∧
      R.guar i (some l) s g (f s).2 g' ∧ Safe R faults pre i Q (h (f s).1) (f s).2 g')
    (hrefused : ∀ s g e, R.inv s g → P s g → pre i l s g → faults l e false →
      ∃ g', R.inv s g' ∧ R.guar i (some l) s g s g' ∧ Q (.error e) s g')
    (hlost : ∀ s g e, R.inv s g → P s g → pre i l s g → faults l e true →
      ∃ g', R.inv (f s).2 g' ∧ R.guar i (some l) s g (f s).2 g' ∧ Q (.error e) (f s).2 g') :
    Safe R faults pre i Q ((db l f).bind h) s g := by
  refine access P hst hp fun s g hi hP hpre r s' ho => ?_
  cases ho with
  | applied => exact hok s g hi hP hpre
  | refused he => exact hrefused s g _ hi hP hpre he
  | lost he => exact hlost s g _ hi hP hpre he

/-- One access whose failure is handed on to the rest of the program. -/
theorem attempt_db_bind {l : ℓ} {h : Except ε β → Prog σ ℓ ε α} (hst : R.Stable i P) (hp : P s g)
    (hok : ∀ s g, R.inv s g → P s g → pre i l s g → ∃ g', R.inv (f s).2 g' ∧
      R.guar i (some l) s g (f s).2 g' ∧ Safe R faults pre i Q (h (.ok (f s).1)) (f s).2 g')
    (hrefused : ∀ s g e, R.inv s g → P s g → pre i l s g → faults l e false →
      ∃ g', R.inv s g' ∧ R.guar i (some l) s g s g' ∧ Safe R faults pre i Q (h (.error e)) s g')
    (hlost : ∀ s g e, R.inv s g → P s g → pre i l s g → faults l e true →
      ∃ g', R.inv (f s).2 g' ∧ R.guar i (some l) s g (f s).2 g' ∧
        Safe R faults pre i Q (h (.error e)) (f s).2 g') :
    Safe R faults pre i Q ((db l f).attempt.bind h) s g := by
  refine access P hst hp fun s g hi hP hpre r s' ho => ?_
  cases ho with
  | applied => exact hok s g hi hP hpre
  | refused he => exact hrefused s g _ hi hP hpre he
  | lost he => exact hlost s g _ hi hP hpre he

/-- A read followed by the rest of the program. -/
theorem read_bind {l : ℓ} {f : σ → β} (hst : R.Stable i P) (hp : P s g)
    (hg : ∀ s g, R.inv s g → P s g → pre i l s g → R.guar i (some l) s g s g)
    (hok : ∀ s g, R.inv s g → P s g → Safe R faults pre i Q (h (f s)) s g)
    (herror : ∀ s g e, R.inv s g → P s g → Q (.error e) s g) :
    Safe R faults pre i Q ((read l f).bind h) s g := by
  refine db_bind P hst hp (fun s g hi hP hpre => ?_) (fun s g e hi hP hpre _ => ?_)
    fun s g e hi hP hpre _ => ?_
  · exact ⟨g, hi, hg s g hi hP hpre, hok s g hi hP⟩
  all_goals exact ⟨g, hi, hg s g hi hP hpre, herror s g e hi hP⟩

/-- A program that only reads keeps every stable assertion. -/
theorem readsAt {p : Prog σ ℓ ε α} {site : ℓ} (hp : p.ReadsAt site) (F : σ → γ → Prop)
    (hst : R.Stable i F) (hF : F s g)
    (hg : ∀ s g, R.inv s g → F s g → R.guar i (some site) s g s g)
    (hQ : ∀ r s g, F s g → Q r s g) : Safe R faults pre i Q p s g := by
  induction p generalizing s g with
  | ret a | raise e => exact hQ _ _ _ hF
  | access l f k ih =>
    obtain ⟨rfl, hread, hk⟩ := hp
    refine ⟨F, hst, hF, fun s g hi hF _ r s' ho => ?_⟩
    have hs' : s' = s := by
      rcases ho.store_eq with h | h
      · exact h
      · rw [h, hread]
    subst hs'
    exact ⟨g, hi, hg s' g hi hF, ih r (hk r) hF⟩

end Safe

/-! ## From one program to the run -/

/-- `Q` after `i` has put the ghost in order. -/
def Ending (R : Protocol ι σ ℓ γ) (i : ι) (Q : Except ε α → σ → γ → Prop) (r : Except ε α)
    (s : σ) (g : γ) : Prop :=
  R.inv s g → ∃ g', R.inv s g' ∧ R.guar i none s g s g' ∧ Q r s g'

/-- What is known of `i` from the outside: its precondition before it arrives, its
postcondition once it has ended. -/
def Known (Pre : ι → σ → γ → Prop) (Post : ι → Except ε α → σ → γ → Prop) (i : ι)
    (p : Option (Prog σ ℓ ε α)) (s : σ) (g : γ) : Prop :=
  match p with
  | none => Pre i s g
  | some p => ∀ r, p.result = some r → Post i r s g

/-- `i` is where a safe program may be: not arrived, ended, or safe. -/
def Placed (R : Protocol ι σ ℓ γ) (faults : ℓ → ε → Bool → Prop) (pre : ι → ℓ → σ → γ → Prop)
    (Pre : ι → σ → γ → Prop) (Post : ι → Except ε α → σ → γ → Prop) (i : ι)
    (p : Option (Prog σ ℓ ε α)) (s : σ) (g : γ) : Prop :=
  match p with
  | none => Pre i s g
  | some (.ret a) => Post i (.ok a) s g
  | some (.raise e) => Post i (.error e) s g
  | some (.access l f k) => Safe R faults pre i (Ending R i (Post i)) (.access l f k) s g

variable {Pre : ι → σ → γ → Prop} {Post : ι → Except ε α → σ → γ → Prop}

theorem Placed.known {p : Option (Prog σ ℓ ε α)} {s : σ} {g : γ}
    (h : Placed R faults pre Pre Post i p s g) : Known Pre Post i p s g := by
  match p with
  | none => exact h
  | some (.ret a) | some (.raise e) =>
    intro r hr
    cases hr
    exact h
  | some (.access l f k) =>
    intro r hr
    cases hr

/-- A step of another program leaves `i` where a safe program may be. -/
theorem Placed.step {p : Option (Prog σ ℓ ε α)} {j : ι} {l : Option ℓ} {s s' : σ} {g g' : γ}
    (hPre : R.Stable i (Pre i)) (hPost : ∀ r, R.Stable i (Post i r))
    (h : Placed R faults pre Pre Post i p s g) (hj : j ≠ i) (hi : R.inv s g)
    (hg : R.guar j l s g s' g') (hi' : R.inv s' g') :
    Placed R faults pre Pre Post i p s' g' := by
  match p with
  | none => exact hPre j hj l s g s' g' hi h hg hi'
  | some (.ret a) | some (.raise e) => exact hPost _ j hj l s g s' g' hi h hg hi'
  | some (.access _ _ _) =>
    obtain ⟨P, hst, hP, hs⟩ := h
    exact ⟨P, hst, hst j hj l s g s' g' hi hP hg hi', hs⟩

/-- A safe program can be placed, after putting the ghost in order if it has ended. -/
theorem Safe.placed {p : Prog σ ℓ ε α} {s : σ} {g : γ}
    (h : Safe R faults pre i (Ending R i (Post i)) p s g) (hi : R.inv s g) :
    ∃ g', R.inv s g' ∧ (g' = g ∨ R.guar i none s g s g') ∧
      Placed R faults pre Pre Post i (some p) s g' := by
  match p with
  | .ret a | .raise e =>
    obtain ⟨g', hi', hg, hq⟩ := h hi
    exact ⟨g', hi', .inr hg, hq⟩
  | .access l f k => exact ⟨g, hi, .inl rfl, h⟩

end Logic

section Runs

variable [DecidableEq ι] {S : System ι σ ℓ ε α} {R : Protocol ι σ ℓ γ}
  {pre : ι → ℓ → σ → γ → Prop} {ok : Config ι σ ℓ ε α → ι → ℓ → Prop}
  {Pre : ι → σ → γ → Prop} {Post : ι → Except ε α → σ → γ → Prop}

/-- The obligations of a system towards a protocol. -/
structure Sound (S : System ι σ ℓ ε α) (R : Protocol ι σ ℓ γ) (pre : ι → ℓ → σ → γ → Prop)
    (ok : Config ι σ ℓ ε α → ι → ℓ → Prop) (Pre : ι → σ → γ → Prop)
    (Post : ι → Except ε α → σ → γ → Prop) : Prop where
  /-- Every program that may arrive is safe. -/
  safe : ∀ i p, S.admits i p → ∀ s g, R.inv s g → Pre i s g →
    Safe R S.faults pre i (Ending R i (Post i)) p s g
  stable_pre : ∀ i, R.Stable i (Pre i)
  stable_post : ∀ i r, R.Stable i (Post i r)
  /-- The side condition of the run gives the assumption of the accesses. -/
  side : ∀ c i l g, R.inv c.store g → (∀ j, Known Pre Post j (c.threads j) c.store g) →
    ok c i l → pre i l c.store g

/-- Every program of a configuration is where a safe one may be. -/
abbrev Sound.At (_ : Sound S R pre ok Pre Post) (c : Config ι σ ℓ ε α) (g : γ) : Prop :=
  R.inv c.store g ∧ ∀ j, Placed R S.faults pre Pre Post j (c.threads j) c.store g

/-- Putting a safe program in place of `i` leaves every program placed. -/
theorem Sound.place (hS : Sound S R pre ok Pre Post) {threads : ι → Option (Prog σ ℓ ε α)}
    {i : ι} {p : Prog σ ℓ ε α} {s : σ} {g : γ} (hi : R.inv s g)
    (hp : Safe R S.faults pre i (Ending R i (Post i)) p s g)
    (hothers : ∀ j, j ≠ i → Placed R S.faults pre Pre Post j (threads j) s g) :
    ∃ g', (g' = g ∨ R.guar i none s g s g') ∧
      hS.At ⟨s, update threads i (some p)⟩ g' := by
  obtain ⟨g', hi', hg, hp'⟩ : ∃ g', R.inv s g' ∧ (g' = g ∨ R.guar i none s g s g') ∧
      Placed R S.faults pre Pre Post i (some p) s g' := hp.placed hi
  refine ⟨g', hg, hi', fun j => ?_⟩
  by_cases hj : j = i
  · subst hj
    simpa only [update_self] using hp'
  · simp only [update_of_ne hj]
    rcases hg with rfl | hg
    · exact hothers j hj
    · exact (hothers j hj).step (hS.stable_pre j) (hS.stable_post j) (Ne.symm hj) hi hg hi'

variable {c c' : Config ι σ ℓ ε α}

/-- One access of a placed program whose assumption holds stays within the guarantee of its site
and leaves every program placed. -/
theorem Sound.run_of_pre (hS : Sound S R pre ok Pre Post) {i : ι} {l : ℓ} {g : γ} (h : hS.At c g)
    (hpre : pre i l c.store g) (hs : CStep S c (some (i, l)) c') :
    ∃ g' g'', R.guar i (some l) c.store g c'.store g' ∧
      (g'' = g' ∨ R.guar i none c'.store g' c'.store g'') ∧ hS.At c' g'' := by
  obtain ⟨hi, hp⟩ := h
  cases hs with
  | @run i p p' l s' hsome hstep =>
    cases hstep with
    | @mk site β f k s s' r ho =>
      have hsafe : Safe R S.faults pre i (Ending R i (Post i)) (.access l f k) c.store g := by
        have := hp i
        rwa [hsome] at this
      obtain ⟨P, _, hP, hacc⟩ := hsafe
      obtain ⟨g', hi', hg, hk⟩ := hacc _ g hi hP hpre _ _ ho
      have hothers : ∀ j, j ≠ i → Placed R S.faults pre Pre Post j (c.threads j) s' g' :=
        fun j hj => (hp j).step (hS.stable_pre j) (hS.stable_post j) (Ne.symm hj) hi hg hi'
      obtain ⟨g'', hg'', hat⟩ := hS.place hi' hk hothers
      exact ⟨g', g'', hg, hg'', hat⟩

/-- One access of a placed program stays within the guarantee of its site and leaves every
program placed. -/
theorem Sound.run (hS : Sound S R pre ok Pre Post) {i : ι} {l : ℓ} {g : γ} (h : hS.At c g)
    (hok : ok c i l) (hs : CStep S c (some (i, l)) c') :
    ∃ g' g'', R.guar i (some l) c.store g c'.store g' ∧
      (g'' = g' ∨ R.guar i none c'.store g' c'.store g'') ∧ hS.At c' g'' :=
  hS.run_of_pre h (hS.side c i l g h.1 (fun j => (h.2 j).known) hok) hs

/-- An arrival leaves every program placed. -/
theorem Sound.arrive (hS : Sound S R pre ok Pre Post) {g : γ} (h : hS.At c g)
    (hs : CStep S c none c') :
    ∃ i g', (g' = g ∨ R.guar i none c'.store g c'.store g') ∧ hS.At c' g' := by
  obtain ⟨hi, hp⟩ := h
  cases hs with
  | @arrive i p hnone hadm =>
    have hpre : Pre i c.store g := by
      have := hp i
      rwa [hnone] at this
    obtain ⟨g', hg', hat⟩ := hS.place hi (hS.safe i p hadm c.store g hi hpre) fun j _ => hp j
    exact ⟨i, g', hg', hat⟩

/-- **Rely-guarantee.** In every configuration a run reaches, some ghost satisfies the
invariant and places every program where a safe one may be. What every access keeps of the
ghost (`J`), the run keeps. -/
theorem Sound.reaches (hS : Sound S R pre ok Pre Post) {J : γ → Prop}
    (hJ : ∀ i l s g s' g', R.guar i l s g s' g' → J g → J g') {c₀ : Config ι σ ℓ ε α} {g₀ : γ}
    (h₀ : hS.At c₀ g₀) (hJ₀ : J g₀) (h : Reaches S ok c₀ c) : ∃ g, hS.At c g ∧ J g := by
  induction h with
  | refl => exact ⟨g₀, h₀, hJ₀⟩
  | arrive _ hs ih =>
    obtain ⟨g, hat, hj⟩ := ih
    obtain ⟨i, g', hg, hat'⟩ := hS.arrive hat hs
    refine ⟨g', hat', ?_⟩
    rcases hg with rfl | hg
    · exact hj
    · exact hJ _ _ _ _ _ _ hg hj
  | run _ hok hs ih =>
    obtain ⟨g, hat, hj⟩ := ih
    obtain ⟨g', g'', hg, hg', hat'⟩ := hS.run hat hok hs
    refine ⟨g'', hat', ?_⟩
    have hj' : J g' := hJ _ _ _ _ _ _ hg hj
    rcases hg' with rfl | hg'
    · exact hj'
    · exact hJ _ _ _ _ _ _ hg' hj'

/-- The run from a store no program has touched. -/
theorem Sound.reaches_start (hS : Sound S R pre ok Pre Post) {s₀ : σ} {g₀ : γ} (h₀ : R.inv s₀ g₀)
    (hPre : ∀ i, Pre i s₀ g₀) (h : Reaches S ok (Config.start s₀) c) : ∃ g, hS.At c g := by
  have hat : hS.At (Config.start s₀) g₀ := ⟨h₀, hPre⟩
  obtain ⟨g, hat, -⟩ := hS.reaches (J := fun _ => True) (fun _ _ _ _ _ _ _ h => h) hat trivial h
  exact ⟨g, hat⟩

end Runs

/-! ## A safe program on its own -/

/-- Run alone to its end, a safe program keeps the invariant, ends in its postcondition, and
does as a whole what `T` says of each of its steps. -/
theorem Safe.alone {R : Protocol ι σ ℓ γ} {faults : ℓ → ε → Bool → Prop}
    {pre : ι → ℓ → σ → γ → Prop} {i : ι} {Q : Except ε α → σ → γ → Prop}
    {T : σ → γ → σ → γ → Prop} (hpre : ∀ l s g, pre i l s g) (hrefl : ∀ s g, T s g s g)
    (htrans : ∀ l s g s' g' s'' g'', R.guar i l s g s' g' → T s' g' s'' g'' → T s g s'' g'')
    {p : Prog σ ℓ ε α} {s : σ} {g : γ} (hi : R.inv s g)
    (h : Safe R faults pre i (Ending R i Q) p s g) :
    ∃ g', R.inv (p.alone s).2 g' ∧ Q (p.alone s).1 (p.alone s).2 g' ∧
      T s g (p.alone s).2 g' := by
  induction p generalizing s g with
  | ret a | raise e =>
    obtain ⟨g', hi', hg, hq⟩ := h hi
    exact ⟨g', hi', hq, htrans _ _ _ _ _ _ _ hg (hrefl _ _)⟩
  | access l f k ih =>
    obtain ⟨P, _, hP, hacc⟩ := h
    obtain ⟨g', hi', hg, hk⟩ := hacc s g hi hP (hpre l s g) _ _ .applied
    obtain ⟨g'', hi'', hq, ht⟩ := ih _ hi' hk
    exact ⟨g'', hi'', hq, htrans _ _ _ _ _ _ _ hg ht⟩

end Interleave
