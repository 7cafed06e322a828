import HVault.Interleave.Steps

/-!
# Requests one after another

What a program brings about when no other request runs beside it. Its accesses may still fail.
`Ensures` is the postcondition of such a run (`Prog.Solo`), with a rule for each way a program is
put together; a law that all accesses of a program keep (`Prog.Each`) gives one too.
-/

namespace Interleave

namespace Prog

variable {σ ℓ ε α β : Type} {faults : ℓ → ε → Bool → Prop}

variable (faults) in
/-- However a run of `p` alone from `s` ends, `Q` holds of its result and of the store it leaves. -/
def Ensures (p : Prog σ ℓ ε α) (s : σ) (Q : Except ε α → σ → Prop) : Prop :=
  ∀ r s', Solo faults p s r s' → Q r s'

section Rules

variable {s : σ} {Q : Except ε α → σ → Prop}

theorem ensures_ret {a : α} (h : Q (.ok a) s) : (ret a).Ensures faults s Q := by
  intro r s' hrun
  cases hrun with
  | ret => exact h

theorem ensures_raise {e : ε} (h : Q (.error e) s) : (raise e).Ensures faults s Q := by
  intro r s' hrun
  cases hrun with
  | raise => exact h

theorem Ensures.mono {Q' : Except ε α → σ → Prop} {p : Prog σ ℓ ε α} (hp : p.Ensures faults s Q)
    (h : ∀ r s', Q r s' → Q' r s') : p.Ensures faults s Q' :=
  fun r s' hrun => h r s' (hp r s' hrun)

theorem ensures_access {site : ℓ} {f : σ → β × σ} {k : Except ε β → Prog σ ℓ ε α}
    (h : ∀ r s', Outcome faults site f s r s' → (k r).Ensures faults s' Q) :
    (access site f k).Ensures faults s Q := by
  intro r s' hrun
  cases hrun with
  | access ho hk => exact h _ _ ho _ _ hk

/-- A part, then the rest: the rest starts where the part answers. -/
theorem Ensures.bind {M : Except ε β → σ → Prop} {p : Prog σ ℓ ε β} {h : β → Prog σ ℓ ε α}
    (hp : p.Ensures faults s M) (hok : ∀ b s', M (.ok b) s' → (h b).Ensures faults s' Q)
    (herror : ∀ e s', M (.error e) s' → Q (.error e) s') : (p.bind h).Ensures faults s Q := by
  induction p generalizing s with
  | ret b => exact hok b s (hp _ _ (.ret b s))
  | raise e => exact ensures_raise (herror e s (hp _ _ (.raise e s)))
  | access site f k ih =>
    apply ensures_access
    intro r s' ho
    exact ih r fun r' s'' hrun => hp _ _ (.access ho hrun)

/-- A part whose error is handed to the rest. -/
theorem Ensures.attempt_bind {M : Except ε β → σ → Prop} {p : Prog σ ℓ ε β}
    {h : Except ε β → Prog σ ℓ ε α} (hp : p.Ensures faults s M)
    (hh : ∀ r s', M r s' → (h r).Ensures faults s' Q) : (p.attempt.bind h).Ensures faults s Q := by
  induction p generalizing s with
  | ret b => exact hh _ s (hp _ _ (.ret b s))
  | raise e => exact hh _ s (hp _ _ (.raise e s))
  | access site f k ih =>
    apply ensures_access
    intro r s' ho
    exact ih r fun r' s'' hrun => hp _ _ (.access ho hrun)

/-- One access: it answers, or it fails before or after it is applied. -/
theorem ensures_db {site : ℓ} {f : σ → α × σ} (hok : Q (.ok (f s).1) (f s).2)
    (hrefused : ∀ e b, faults site e b → Q (.error e) s)
    (hlost : ∀ e b, faults site e b → Q (.error e) (f s).2) :
    (db site f).Ensures faults s Q := by
  apply ensures_access
  intro r s' ho
  cases ho with
  | applied => exact ensures_ret hok
  | refused he => exact ensures_raise (hrefused _ _ he)
  | lost he => exact ensures_raise (hlost _ _ he)

theorem ensures_read {site : ℓ} {f : σ → α} (hok : Q (.ok (f s)) s)
    (herror : ∀ e b, faults site e b → Q (.error e) s) :
    (read site f).Ensures faults s Q :=
  ensures_db hok herror herror

/-- What every access of `p` keeps, and the ways `p` can end. -/
theorem Each.ensures {T : ℓ → σ → σ → Prop} {P : σ → Prop} {A : Except ε α → Prop}
    {p : Prog σ ℓ ε α} (hp : p.Each (fun _ => True) T) (hleaves : p.Leaves faults A) (hs : P s)
    (hstep : ∀ l s s', P s → T l s s' → P s') :
    p.Ensures faults s fun r s' => A r ∧ P s' := by
  induction p generalizing s with
  | ret a => exact ensures_ret ⟨hleaves, hs⟩
  | raise e => exact ensures_raise ⟨hleaves, hs⟩
  | access site f k ih =>
    apply ensures_access
    intro r s' ho
    refine ih r (hp.2 r) ?_ ?_
    · cases ho with
      | applied => exact hleaves.1 _
      | refused he | lost he => exact hleaves.2 _ _ he
    · rcases ho.store_eq with h | h
      · rwa [h]
      · rw [h]
        exact hstep site s _ hs (hp.1 s trivial)

end Rules

/-! ## The errors of a program -/

variable (faults) in
/-- Every error the program can end with is in `B`. -/
abbrev Raises (B : ε → Prop) (p : Prog σ ℓ ε α) : Prop :=
  p.Leaves faults fun r => ∀ e, r = .error e → B e

section Raises

variable {B : ε → Prop}

theorem raises_ret (a : α) : (ret a : Prog σ ℓ ε α).Raises faults B := nofun

theorem raises_raise {e : ε} (h : B e) : (raise e : Prog σ ℓ ε α).Raises faults B := by
  intro e' he
  cases he
  exact h

theorem Raises.bind {p : Prog σ ℓ ε β} {h : β → Prog σ ℓ ε α} (hp : p.Raises faults B)
    (hh : ∀ b, (h b).Raises faults B) : (p.bind h).Raises faults B := by
  refine Leaves.bind hp (fun b _ => hh b) ?_
  intro e he e' he'
  cases he'
  exact he e rfl

/-- A program whose errors are handed to the caller raises none. -/
theorem raises_attempt (p : Prog σ ℓ ε α) : p.attempt.Raises faults B := by
  refine (Leaves.attempt (leaves_true p)).mono ?_
  rintro r ⟨b, rfl, -⟩ e he
  cases he

/-- The rest after a program whose errors are handed to it, if it copes with them. -/
theorem Raises.attempt_bind {p : Prog σ ℓ ε β} {h : Except ε β → Prog σ ℓ ε α}
    (hp : p.Raises faults B) (hok : ∀ b, (h (.ok b)).Raises faults B)
    (herror : ∀ e, B e → (h (.error e)).Raises faults B) : (p.attempt.bind h).Raises faults B := by
  refine Leaves.bind (Leaves.attempt hp) ?_ ?_
  · rintro r ⟨b, hb, hr⟩
    cases hb
    cases r with
    | ok b => exact hok b
    | error e => exact herror e (hr e rfl)
  · rintro e ⟨b, hb, -⟩
    cases hb

theorem raises_db {l : ℓ} {f : σ → β × σ} (h : ∀ e b, faults l e b → B e) :
    (db l f : Prog σ ℓ ε β).Raises faults B := by
  refine leaves_db nofun ?_
  intro e b hf e' he
  cases he
  exact h e b hf

theorem raises_ofExcept {r : Except ε α} (h : ∀ e, r = .error e → B e) :
    (ofExcept r : Prog σ ℓ ε α).Raises faults B := by
  cases r with
  | ok a => exact raises_ret a
  | error e => exact raises_raise (h e rfl)

end Raises

end Prog

end Interleave
