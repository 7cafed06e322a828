import HVault.Interleave.Pool

/-!
# Programs judged access by access

Many laws of a run say only what a single access may do: which fields it may touch, and on
which condition. `Prog.Each` states such a law of a program, for whatever answers its accesses
get, and `Reaches.each` carries it to every step of every run.

Where a program must remember something from one access to the next, the rely-guarantee rule of
`Pool` is the tool. Most parts of such a program still only have to leave alone what it remembers:
`Keeps` states that of a part, and follows from the law of its accesses.
-/

namespace Interleave

open Function Prog Config

variable {ι σ ℓ ε α β : Type}

namespace Prog

/-- Every access the program can make on a store in `I`, whatever the answers so far, does
`T`. -/
def Each (I : σ → Prop) (T : ℓ → σ → σ → Prop) : Prog σ ℓ ε α → Prop
  | ret _ => True
  | raise _ => True
  | access l f k => (∀ s, I s → T l s (f s).2) ∧ ∀ r, (k r).Each I T

variable {I : σ → Prop} {T : ℓ → σ → σ → Prop}

theorem each_ret (a : α) : (ret a : Prog σ ℓ ε α).Each I T := trivial

theorem each_raise (e : ε) : (raise e : Prog σ ℓ ε α).Each I T := trivial

theorem Each.bind {p : Prog σ ℓ ε β} {h : β → Prog σ ℓ ε α} (hp : p.Each I T)
    (hh : ∀ b, (h b).Each I T) : (p.bind h).Each I T := by
  induction p with
  | ret b => exact hh b
  | raise e => exact trivial
  | access l f k ih => exact ⟨hp.1, fun r => ih r (hp.2 r)⟩

variable {p : Prog σ ℓ ε α}

theorem Each.attempt (hp : p.Each I T) : p.attempt.Each I T := by
  induction p with
  | ret a | raise e => exact trivial
  | access l f k ih => exact ⟨hp.1, fun r => ih r (hp.2 r)⟩

theorem Each.mono {T' : ℓ → σ → σ → Prop} (hp : p.Each I T)
    (h : ∀ l s s', I s → T l s s' → T' l s s') : p.Each I T' := by
  induction p with
  | ret a | raise e => exact trivial
  | access l f k ih => exact ⟨fun s hs => h l s _ hs (hp.1 s hs), fun r => ih r (hp.2 r)⟩

/-- A law on more stores is one on fewer. -/
theorem Each.restrict {J : σ → Prop} (hp : p.Each I T) (h : ∀ s, J s → I s) : p.Each J T := by
  induction p with
  | ret a | raise e => exact trivial
  | access l f k ih => exact ⟨fun s hs => hp.1 s (h s hs), fun r => ih r (hp.2 r)⟩

/-- A law that any access meets. -/
theorem each_of_forall (hT : ∀ l s s', T l s s') (p : Prog σ ℓ ε α) : p.Each I T := by
  induction p with
  | ret a | raise e => exact trivial
  | access l f k ih => exact ⟨fun s _ => hT l s _, ih⟩

/-- A program that may not touch the store `s`, run alone from it, leaves it as it is. -/
theorem Each.alone_eq {s : σ} (hp : p.Each (fun _ => True) T) (hT : ∀ l s', T l s s' → s' = s) :
    (p.alone s).2 = s := by
  induction p with
  | ret a => rfl
  | raise e => rfl
  | access l f k ih =>
    have hs : (f s).2 = s := hT l _ (hp.1 s trivial)
    rw [alone, hs]
    exact ih _ (hp.2 _)

theorem each_db {l : ℓ} {f : σ → β × σ} (hf : ∀ s, I s → T l s (f s).2) :
    (db l f : Prog σ ℓ ε β).Each I T := by
  refine ⟨hf, fun r => ?_⟩
  cases r with
  | ok b | error e => exact trivial

theorem each_read {l : ℓ} {f : σ → β} (hf : ∀ s, I s → T l s s) :
    (read l f : Prog σ ℓ ε β).Each I T := each_db hf

theorem ReadsAt.each {site : ℓ} (hp : p.ReadsAt site) (hT : ∀ s, I s → T site s s) :
    p.Each I T := by
  induction p with
  | ret a | raise e => exact trivial
  | access l f k ih =>
    obtain ⟨rfl, hread, hk⟩ := hp
    refine ⟨fun s hs => ?_, fun r => ih r (hk r)⟩
    rw [hread s]
    exact hT s hs

theorem Each.orElse {h : ε → Prog σ ℓ ε α} (hp : p.Each I T) (hh : ∀ e, (h e).Each I T) :
    (p.orElse h).Each I T := by
  apply hp.attempt.bind
  intro r
  cases r with
  | ok a => exact trivial
  | error e => exact hh e

theorem each_ofExcept (r : Except ε α) : (ofExcept r : Prog σ ℓ ε α).Each I T := by
  cases r with
  | ok a | error e => exact trivial

end Prog

/-- In a run among others, every access does what the law says or was not applied. -/
theorem Prog.Each.own {I : σ → Prop} {T : ℓ → σ → σ → Prop} {faults : ℓ → ε → Bool → Prop}
    {p : Prog σ ℓ ε α} (hp : p.Each I T) {ws : List (ℓ × σ × σ)} {a : Except ε α}
    (hrun : Own faults p ws a) (hI : ∀ w ∈ ws, I w.2.1) {w : ℓ × σ × σ} (hw : w ∈ ws) :
    ∃ s₁, T w.1 w.2.1 s₁ ∧ (w.2.2 = w.2.1 ∨ w.2.2 = s₁) := by
  induction hrun with
  | ret a | raise e => cases hw
  | access ho hk ih =>
    rcases List.mem_cons.1 hw with rfl | hw
    · exact ⟨_, hp.1 _ (hI _ List.mem_cons_self), ho.store_eq⟩
    · exact ih (hp.2 _) (fun w hw => hI w (List.mem_cons_of_mem _ hw)) hw

section Runs

variable [DecidableEq ι] {S : System ι σ ℓ ε α} {I : σ → Prop} {T : ι → ℓ → σ → σ → Prop}
  {ok : Config ι σ ℓ ε α → ι → ℓ → Prop}

variable {c : Config ι σ ℓ ε α}

/-- What holds of every configuration a run can reach may be added to its side condition. -/
theorem Reaches.with_invariant {J : Config ι σ ℓ ε α → Prop} {c₀ : Config ι σ ℓ ε α}
    (hJ : ∀ c, Reach S c₀ c → J c) (h : Reaches S ok c₀ c) :
    Reaches S (fun c i l => ok c i l ∧ J c) c₀ c := by
  have hreach : ∀ {c}, Reaches S ok c₀ c → Reach S c₀ c := by
    intro c h
    induction h with
    | refl => exact .refl
    | arrive _ hs ih => exact .arrive ih hs
    | run _ _ hs ih => exact .run ih trivial hs
  induction h with
  | refl => exact .refl
  | arrive _ hs ih => exact .arrive ih hs
  | run h hok hs ih => exact .run ih ⟨hok, hJ _ (hreach h)⟩ hs

theorem Reaches.mono {ok' : Config ι σ ℓ ε α → ι → ℓ → Prop} {c₀ : Config ι σ ℓ ε α}
    (h : Reaches S ok c₀ c) (hok : ∀ c i l, ok c i l → ok' c i l) : Reaches S ok' c₀ c := by
  induction h with
  | refl => exact .refl
  | arrive _ hs ih => exact .arrive ih hs
  | run _ hl hs ih => exact .run ih (hok _ _ _ hl) hs

/-- A step of a program that obeys `T` does `T`, or left the store alone. -/
theorem CStep.each {c' : Config ι σ ℓ ε α} {i : ι} {l : ℓ} (hI : I c.store)
    (hp : ∀ p, c.threads i = some p → p.Each I (T i)) (h : CStep S c (some (i, l)) c') :
    c'.store = c.store ∨ T i l c.store c'.store := by
  cases h with
  | run hi hstep =>
    have hp := hp _ hi
    cases hstep with
    | mk ho =>
      rcases ho.store_eq with hs | hs
      · exact .inl hs
      · right
        show T i l c.store _
        rw [hs]
        exact hp.1 _ hI

/-- **Every step of every run obeys the law of its program**, and the invariant it keeps (on the
side condition of the run) holds of every store reached. -/
theorem Reaches.each (hadm : ∀ i p, S.admits i p → p.Each I (T i))
    (hkeep : ∀ c i l s', ok c i l → I c.store → T i l c.store s' → I s') {s₀ : σ} (h₀ : I s₀)
    (h : Reaches S ok (start s₀) c) :
    I c.store ∧ ∀ i p, c.threads i = some p → p.Each I (T i) := by
  induction h with
  | refl => exact ⟨h₀, nofun⟩
  | arrive _ hs ih =>
    cases hs with
    | @arrive i p hnone hp =>
      refine ⟨ih.1, fun j q hq => ?_⟩
      by_cases hj : j = i
      · subst hj
        simp only [update_self, Option.some.injEq] at hq
        exact hq ▸ hadm j p hp
      · simp only [update_of_ne hj] at hq
        exact ih.2 j q hq
  | @run c c' i l _ hok hs ih =>
    have hstep := hs.each ih.1 (ih.2 i)
    refine ⟨?_, fun j q hq => ?_⟩
    · rcases hstep with hs' | hs'
      · exact hs' ▸ ih.1
      · exact hkeep c i l _ hok ih.1 hs'
    · cases hs with
      | run hi hpstep =>
        by_cases hj : j = i
        · subst hj
          simp only [update_self, Option.some.injEq] at hq
          have hp := ih.2 j _ hi
          cases hpstep with
          | mk ho => exact hq ▸ hp.2 _
        · simp only [update_of_ne hj] at hq
          exact ih.2 j q hq

/-! ## Leaving programs out -/

/-- The configuration without the programs of `D`. -/
def Config.without (c : Config ι σ ℓ ε α) (D : ι → Prop) [DecidablePred D] : Config ι σ ℓ ε α :=
  ⟨c.store, fun i => if D i then none else c.threads i⟩

variable {D : ι → Prop} [DecidablePred D] {threads : ι → Option (Prog σ ℓ ε α)}
  {p : Option (Prog σ ℓ ε α)} {s : σ} {i : ι}

omit [DecidableEq ι] in
theorem Config.threads_without (hi : D i) : (c.without D).threads i = none := if_pos hi

omit [DecidableEq ι] in
theorem Config.threads_without_of_not (hi : ¬ D i) : (c.without D).threads i = c.threads i :=
  if_neg hi

omit [DecidableEq ι] in
theorem Config.without_start (s : σ) :
    (start s : Config ι σ ℓ ε α).without D = start s :=
  congrArg (mk s) (funext fun _ => ite_self none)

/-- What a program of `D` comes to is not seen without it. -/
theorem Config.without_update (hi : D i) :
    without ⟨s, update threads i p⟩ D = without ⟨s, threads⟩ D := by
  refine congrArg (mk s) (funext fun j => ?_)
  show (if D j then none else update threads i p j) = if D j then none else threads j
  by_cases hj : j = i
  · rw [hj, if_pos hi, if_pos hi]
  · rw [update_of_ne hj]

theorem Config.without_update_of_not (hi : ¬ D i) :
    without ⟨s, update threads i p⟩ D
      = ⟨s, update (without ⟨s, threads⟩ D).threads i p⟩ := by
  refine congrArg (mk s) (funext fun j => ?_)
  show (if D j then none else update threads i p j)
    = update (fun j => if D j then none else threads j) i p j
  by_cases hj : j = i
  · rw [hj, if_neg hi, update_self, update_self]
  · rw [update_of_ne hj, update_of_ne hj]

/-- **Programs whose accesses change nothing may be left out of a run.** That they change nothing
may be shown with what is left already known to be a run. -/
theorem Reach.without {S' : System ι σ ℓ ε α} {c₀ : Config ι σ ℓ ε α}
    (hadmits : ∀ i p, ¬ D i → S.admits i p → S'.admits i p) (hfaults : S'.faults = S.faults)
    (hidle : ∀ c c' i l, Reach S c₀ c → Reach S' (c₀.without D) (c.without D) → D i →
      CStep S c (some (i, l)) c' → c'.store = c.store) (h : Reach S c₀ c) :
    Reach S' (c₀.without D) (c.without D) := by
  induction h with
  | refl => exact .refl
  | @arrive c c' _ hs ih =>
    cases hs with
    | @arrive i p hnone hp =>
      by_cases hi : D i
      · rw [without_update hi]
        exact ih
      · rw [without_update_of_not hi]
        exact .arrive ih (.arrive ((c.threads_without_of_not hi).trans hnone) (hadmits i p hi hp))
  | @run c c' i l h _ hs ih =>
    by_cases hi : D i
    · have hstore := hidle c c' i l h ih hi hs
      cases hs with
      | run _ _ =>
        obtain rfl := hstore
        rw [without_update hi]
        exact ih
    · cases hs with
      | run hthread hstep =>
        rw [without_update_of_not hi]
        exact .run ih trivial (.run ((c.threads_without_of_not hi).trans hthread) (hfaults ▸ hstep))

end Runs

/-! ## Parts that keep an assertion -/

section Keeps

variable {γ : Type} {R : Protocol ι σ ℓ γ} {faults : ℓ → ε → Bool → Prop}
  {pre : ι → ℓ → σ → γ → Prop} {i : ι}

variable (R faults pre i) in
/-- Run by `i` from `P`, the program ends in `P`, with an answer in `A`. -/
def Keeps (P : σ → γ → Prop) (A : Except ε α → Prop) (p : Prog σ ℓ ε α) : Prop :=
  ∀ s g, P s g → Safe R faults pre i (fun r s g => P s g ∧ A r) p s g

variable {P : σ → γ → Prop}

variable {A : Except ε β → Prop} {h : β → Prog σ ℓ ε α}

/-- A part before a program that ends in `Q`, as its failure must. -/
theorem Keeps.before {Q : Except ε α → σ → γ → Prop} {p : Prog σ ℓ ε β}
    (hp : Keeps R faults pre i P A p) {s : σ} {g : γ} (hP : P s g)
    (hh : ∀ b s g, A (.ok b) → P s g → Safe R faults pre i Q (h b) s g)
    (he : ∀ e s g, A (.error e) → P s g → Q (.error e) s g) :
    Safe R faults pre i Q (p.bind h) s g := by
  refine Safe.bind ((hp s g hP).mono fun r s g hr => ?_)
  cases r with
  | ok b => exact hh b s g hr.2 hr.1
  | error e => exact he e s g hr.2 hr.1

variable (faults) in
/-- Every end the program can come to, whatever its accesses answer, is in `A`. -/
def Prog.Leaves (A : Except ε α → Prop) : Prog σ ℓ ε α → Prop
  | .ret a => A (.ok a)
  | .raise e => A (.error e)
  | .access l _ k => (∀ b, (k (.ok b)).Leaves A) ∧ ∀ e b, faults l e b → (k (.error e)).Leaves A

theorem Prog.Leaves.bind {B : Except ε α → Prop} {p : Prog σ ℓ ε β} (hp : p.Leaves faults A)
    (hh : ∀ b, A (.ok b) → (h b).Leaves faults B) (he : ∀ e, A (.error e) → B (.error e)) :
    (p.bind h).Leaves faults B := by
  induction p with
  | ret b => exact hh b hp
  | raise e => exact he e hp
  | access l f k ih => exact ⟨fun b => ih _ (hp.1 b), fun e b hf => ih _ (hp.2 e b hf)⟩

variable {p : Prog σ ℓ ε α}

theorem Prog.Leaves.attempt {A : Except ε α → Prop} (hp : p.Leaves faults A) :
    p.attempt.Leaves faults fun r => ∃ b, r = .ok b ∧ A b := by
  induction p with
  | ret b | raise e => exact ⟨_, rfl, hp⟩
  | access l f k ih => exact ⟨fun b => ih _ (hp.1 b), fun e b hf => ih _ (hp.2 e b hf)⟩

theorem Prog.Leaves.mono {A B : Except ε α → Prop} (hp : p.Leaves faults A) (h : ∀ r, A r → B r) :
    p.Leaves faults B := by
  induction p with
  | ret a | raise e => exact h _ hp
  | access l f k ih => exact ⟨fun b => ih _ (hp.1 b), fun e b hf => ih _ (hp.2 e b hf)⟩

theorem Prog.leaves_true (p : Prog σ ℓ ε α) : p.Leaves faults fun _ => True := by
  induction p with
  | ret a | raise e => exact trivial
  | access l f k ih => exact ⟨fun b => ih _, fun e b _ => ih _⟩

theorem Prog.leaves_db {l : ℓ} {f : σ → β × σ} (hok : ∀ b, A (.ok b))
    (herror : ∀ e b, faults l e b → A (.error e)) : (db l f : Prog σ ℓ ε β).Leaves faults A :=
  ⟨hok, fun e b hf => herror e b hf⟩

/-- A part that keeps an assertion ends as its text says. -/
theorem Keeps.leaves {A : Except ε α → Prop} (hp : Keeps R faults pre i P (fun _ => True) p)
    (hl : p.Leaves faults A) :
    Keeps R faults pre i P A p := by
  intro s g hP
  have hsafe := hp s g hP
  clear hP hp
  induction p generalizing s g with
  | ret a | raise e => exact ⟨hsafe.1, hl⟩
  | access l f k ih =>
    obtain ⟨P', hst, hP', hacc⟩ := hsafe
    refine ⟨P', hst, hP', fun s g hi hP hpre r s' ho => ?_⟩
    obtain ⟨g', hi', hg, hk⟩ := hacc s g hi hP hpre r s' ho
    refine ⟨g', hi', hg, ?_⟩
    cases ho with
    | applied => exact ih _ (hl.1 _) _ _ hk
    | refused hf | lost hf => exact ih _ (hl.2 _ _ hf) _ _ hk

/-- A program keeps an assertion that no access its law allows can break, be it applied or not. -/
theorem Prog.Each.keeps {I : σ → Prop} {T : ℓ → σ → σ → Prop} (hp : p.Each I T)
    (hst : R.Stable i P) (hI : ∀ s g, R.inv s g → I s)
    (hstep : ∀ l s g s₁ s', R.inv s g → P s g → pre i l s g → T l s s₁ → s' = s ∨ s' = s₁ →
      ∃ g', R.inv s' g' ∧ R.guar i (some l) s g s' g' ∧ P s' g') :
    Keeps R faults pre i P (fun _ => True) p := by
  intro s g hP
  induction p generalizing s g with
  | ret a | raise e => exact ⟨hP, trivial⟩
  | access l f k ih =>
    refine ⟨P, hst, hP, fun s g hi hP hpre r s' ho => ?_⟩
    have hT := hp.1 s (hI s g hi)
    obtain ⟨g', hi', hg, hP'⟩ := hstep l s g _ s' hi hP hpre hT ho.store_eq
    exact ⟨g', hi', hg, ih r (hp.2 r) s' g' hP'⟩

/-- One access that cannot fail, then the rest of the program. -/
theorem Safe.sure_bind {Q : Except ε α → σ → γ → Prop} {l : ℓ} {f : σ → β × σ} {s : σ} {g : γ}
    (hsure : ∀ e b, ¬ faults l e b) (hst : R.Stable i P) (hP : P s g)
    (hok : ∀ s g, R.inv s g → P s g → pre i l s g → ∃ g', R.inv (f s).2 g' ∧
      R.guar i (some l) s g (f s).2 g' ∧ Safe R faults pre i Q (h (f s).1) (f s).2 g') :
    Safe R faults pre i Q ((db l f).bind h) s g :=
  Safe.db_bind P hst hP hok (fun _ _ e _ _ _ hf => (hsure e false hf).elim)
    fun _ _ e _ _ _ hf => (hsure e true hf).elim

end Keeps

/-! ## Assertions before and after a part -/

section Yields

variable {γ : Type} {R : Protocol ι σ ℓ γ} {faults : ℓ → ε → Bool → Prop}
  {pre : ι → ℓ → σ → γ → Prop} {i : ι} {P P' : σ → γ → Prop}

variable (R faults pre i) in
/-- Run by `i` from `P`, an answer `a` of the program leaves `M a`. Of a failure nothing is said. -/
def Yields (P : σ → γ → Prop) (p : Prog σ ℓ ε α) (M : α → σ → γ → Prop) : Prop :=
  ∀ s g, P s g → Safe R faults pre i (fun r s g => ∀ a, r = .ok a → M a s g) p s g

variable {M : α → σ → γ → Prop}

theorem yields_ret {a : α} (h : ∀ s g, P s g → M a s g) : Yields R faults pre i P (.ret a) M := by
  intro s g hP b hb
  cases hb
  exact h s g hP

theorem yields_raise {e : ε} : Yields R faults pre i P (.raise e) M :=
  nofun

theorem Yields.conseq {M' : α → σ → γ → Prop} {p : Prog σ ℓ ε α} (h : Yields R faults pre i P p M)
    (hP : ∀ s g, P' s g → P s g) (hM : ∀ a s g, M a s g → M' a s g) :
    Yields R faults pre i P' p M' :=
  fun s g hs => (h s g (hP s g hs)).mono fun _ s g hr a ha => hM a s g (hr a ha)

/-- One part after the other. -/
theorem Yields.bind {M : β → σ → γ → Prop} {N : α → σ → γ → Prop} {p : Prog σ ℓ ε β}
    {h : β → Prog σ ℓ ε α} (hp : Yields R faults pre i P p M)
    (hh : ∀ b, Yields R faults pre i (M b) (h b) N) : Yields R faults pre i P (p.bind h) N := by
  intro s g hP
  refine Safe.bind ((hp s g hP).mono fun r s g hr => ?_)
  cases r with
  | ok b => exact hh b s g (hr b rfl)
  | error e => exact nofun

/-- A part whose failure is handed on. -/
theorem Yields.attempt {p : Prog σ ℓ ε α} (hp : Yields R faults pre i P p M) :
    Yields R faults pre i P p.attempt fun r s g => ∀ a, r = .ok a → M a s g := by
  intro s g hP
  refine Safe.attempt ((hp s g hP).mono fun r s g hr => ?_)
  intro r' hr' a ha
  cases hr'
  exact hr a ha

/-- One access, which may also fail and leave the store as it was. -/
theorem yields_db {M : β → σ → γ → Prop} {l : ℓ} {f : σ → β × σ} (hst : R.Stable i P)
    (hskip : ∀ s g, R.inv s g → P s g → pre i l s g → R.guar i (some l) s g s g)
    (hstep : ∀ s g, R.inv s g → P s g → pre i l s g → ∃ g', R.inv (f s).2 g' ∧
      R.guar i (some l) s g (f s).2 g' ∧ M (f s).1 (f s).2 g') :
    Yields R faults pre i P (db l f) M := by
  intro s g hP
  refine Safe.access P hst hP fun s g hinv hP hpre r s' ho => ?_
  cases ho with
  | applied =>
    obtain ⟨g', hinv', hguar, hM⟩ := hstep s g hinv hP hpre
    refine ⟨g', hinv', hguar, fun b hb => ?_⟩
    cases hb
    exact hM
  | refused _ => exact ⟨g, hinv, hskip s g hinv hP hpre, nofun⟩
  | lost _ =>
    obtain ⟨g', hinv', hguar, -⟩ := hstep s g hinv hP hpre
    exact ⟨g', hinv', hguar, nofun⟩

/-- A read. -/
theorem yields_read {M : β → σ → γ → Prop} {l : ℓ} {f : σ → β} (hst : R.Stable i P)
    (hskip : ∀ s g, R.inv s g → P s g → pre i l s g → R.guar i (some l) s g s g)
    (hM : ∀ s g, R.inv s g → P s g → M (f s) s g) :
    Yields R faults pre i P (read l f) M :=
  yields_db hst hskip fun s g hinv hP hpre => ⟨g, hinv, hskip s g hinv hP hpre, hM s g hinv hP⟩

/-- One access whose failure is handed on: what holds after it whether it was applied or not. -/
theorem yields_attempt_db {M : σ → γ → Prop} {l : ℓ} {f : σ → β × σ} (hst : R.Stable i P)
    (hskip : ∀ s g, R.inv s g → P s g → pre i l s g → R.guar i (some l) s g s g ∧ M s g)
    (hstep : ∀ s g, R.inv s g → P s g → pre i l s g → ∃ g', R.inv (f s).2 g' ∧
      R.guar i (some l) s g (f s).2 g' ∧ M (f s).2 g') :
    Yields R faults pre i P (db l f : Prog σ ℓ ε β).attempt fun _ => M := by
  intro s g hP
  refine Safe.access P hst hP fun s g hinv hP hpre r s' ho => ?_
  cases ho with
  | applied =>
    obtain ⟨g', hinv', hguar, hM⟩ := hstep s g hinv hP hpre
    exact ⟨g', hinv', hguar, fun _ _ => hM⟩
  | refused _ =>
    obtain ⟨hguar, hM⟩ := hskip s g hinv hP hpre
    exact ⟨g, hinv, hguar, fun _ _ => hM⟩
  | lost _ =>
    obtain ⟨g', hinv', hguar, hM⟩ := hstep s g hinv hP hpre
    exact ⟨g', hinv', hguar, fun _ _ => hM⟩

end Yields

end Interleave
