import Mathlib.Logic.Relation

/-!
# Programs over a shared store

A request of a server is a sequence of accesses to a store that other requests use at the
same time. `Prog` is that view of it: a program either ends (with a value or an error) or
makes one access and goes on with what the access answered. An access is atomic; between
two of them anything may happen to the store.

An access may also fail. What a failure can look like is not fixed here: `faults` says, for
each site of the program, which errors it can raise and whether the access was applied all
the same (its answer was lost).
-/

namespace Interleave

/-- A program over the store `σ`, with accesses named by `ℓ`, errors `ε` and result `α`. -/
inductive Prog (σ ℓ ε α : Type) : Type 1 where
  | ret (a : α)
  | raise (e : ε)
  | access (site : ℓ) {β : Type} (f : σ → β × σ) (k : Except ε β → Prog σ ℓ ε α)

variable {σ ℓ ε α β γ : Type}

namespace Prog

/-- Runs `p`, then `h` on its value; an error of `p` ends the whole. -/
def bind : Prog σ ℓ ε α → (α → Prog σ ℓ ε β) → Prog σ ℓ ε β
  | ret a, h => h a
  | raise e, _ => raise e
  | access l f k, h => access l f fun r => (k r).bind h

/-- Runs `p` and hands both its value and its error to the caller. -/
def attempt : Prog σ ℓ ε α → Prog σ ℓ ε (Except ε α)
  | ret a => ret (.ok a)
  | raise e => ret (.error e)
  | access l f k => access l f fun r => (k r).attempt

/-- One access whose failure is the program's own. -/
def db (site : ℓ) (f : σ → β × σ) : Prog σ ℓ ε β :=
  access site f fun
    | .ok b => ret b
    | .error e => raise e

/-- A read: an access that leaves the store as it is. -/
def read (site : ℓ) (f : σ → β) : Prog σ ℓ ε β :=
  db site fun s => (f s, s)

/-- Ends with `r`. -/
def ofExcept : Except ε α → Prog σ ℓ ε α
  | .ok a => ret a
  | .error e => raise e

instance : Monad (Prog σ ℓ ε) where
  pure := ret
  bind := bind

/-- Runs `p`; `h` takes over from an error of it. -/
def orElse (p : Prog σ ℓ ε α) (h : ε → Prog σ ℓ ε α) : Prog σ ℓ ε α :=
  p.attempt.bind fun
    | .ok a => ret a
    | .error e => h e

/-- Runs `q` whatever became of `p`, and ends as `p` did. -/
def andFinally (p : Prog σ ℓ ε α) (q : Prog σ ℓ ε Unit) : Prog σ ℓ ε α :=
  p.attempt.bind fun r => q.bind fun _ => ofExcept r

/-- The program on a part of a larger store: `get` reads the part and `put` puts it back. -/
def zoom {τ ℓ' : Type} (get : τ → σ) (put : σ → τ → τ) (site : ℓ → ℓ') :
    Prog σ ℓ ε α → Prog τ ℓ' ε α
  | ret a => ret a
  | raise e => raise e
  | access l f k =>
    access (site l) (fun t => ((f (get t)).1, put (f (get t)).2 t)) fun r =>
      (k r).zoom get put site

@[simp] theorem pure_eq (a : α) : (pure a : Prog σ ℓ ε α) = ret a := rfl

@[simp] theorem bind_eq (p : Prog σ ℓ ε α) (h : α → Prog σ ℓ ε β) : p >>= h = p.bind h := rfl

@[simp] theorem ret_bind (a : α) (h : α → Prog σ ℓ ε β) : (ret a).bind h = h a := rfl

@[simp] theorem raise_bind (e : ε) (h : α → Prog σ ℓ ε β) : (raise e).bind h = raise e := rfl

@[simp] theorem attempt_ret (a : α) : (ret a : Prog σ ℓ ε α).attempt = ret (.ok a) := rfl

@[simp] theorem attempt_raise (e : ε) : (raise e : Prog σ ℓ ε α).attempt = ret (.error e) := rfl

/-- `p` has ended. -/
def Finished : Prog σ ℓ ε α → Prop
  | ret _ => True
  | raise _ => True
  | access _ _ _ => False

/-- Every access of `p` is a read at `site`. -/
def ReadsAt (site : ℓ) : Prog σ ℓ ε α → Prop
  | ret _ => True
  | raise _ => True
  | access l f k => l = site ∧ (∀ s, (f s).2 = s) ∧ ∀ r, (k r).ReadsAt site

theorem ReadsAt.bind {site : ℓ} {p : Prog σ ℓ ε β} {h : β → Prog σ ℓ ε α} (hp : p.ReadsAt site)
    (hh : ∀ b, (h b).ReadsAt site) : (p.bind h).ReadsAt site := by
  induction p with
  | ret b => exact hh b
  | raise e => exact trivial
  | access l f k ih => exact ⟨hp.1, hp.2.1, fun r => ih r (hp.2.2 r)⟩

theorem readsAt_read {site : ℓ} {f : σ → β} : (read site f : Prog σ ℓ ε β).ReadsAt site := by
  refine ⟨rfl, fun _ => rfl, fun r => ?_⟩
  cases r with
  | ok b | error e => exact trivial

theorem readsAt_ofExcept {site : ℓ} (r : Except ε α) :
    (ofExcept r : Prog σ ℓ ε α).ReadsAt site := by
  cases r with
  | ok a | error e => exact trivial

/-- How a finished program ended. -/
def result : Prog σ ℓ ε α → Option (Except ε α)
  | ret a => some (.ok a)
  | raise e => some (.error e)
  | access _ _ _ => none

@[simp] theorem result_ret (a : α) : (ret a : Prog σ ℓ ε α).result = some (.ok a) := rfl

@[simp] theorem result_raise (e : ε) : (raise e : Prog σ ℓ ε α).result = some (.error e) := rfl

theorem Finished.result_eq {p : Prog σ ℓ ε α} (h : p.Finished) : ∃ r, p.result = some r := by
  cases p with
  | ret a | raise e => exact ⟨_, rfl⟩
  | access l f k => exact h.elim

end Prog

/-- What may come of an access `f` made at `site` on the store `s`. -/
inductive Outcome (faults : ℓ → ε → Bool → Prop) (site : ℓ) (f : σ → β × σ) (s : σ) :
    Except ε β → σ → Prop
  | applied : Outcome faults site f s (.ok (f s).1) (f s).2
  | refused {e : ε} : faults site e false → Outcome faults site f s (.error e) s
  | lost {e : ε} : faults site e true → Outcome faults site f s (.error e) (f s).2

/-- The store after an access is the one it found or the one it makes. -/
theorem Outcome.store_eq {faults : ℓ → ε → Bool → Prop} {site : ℓ} {f : σ → β × σ} {s s' : σ}
    {r : Except ε β} (h : Outcome faults site f s r s') : s' = s ∨ s' = (f s).2 := by
  cases h with
  | applied => exact .inr rfl
  | refused _ => exact .inl rfl
  | lost _ => exact .inr rfl

namespace Prog

variable (faults : ℓ → ε → Bool → Prop)

/-- One access of a program. -/
inductive Step : Prog σ ℓ ε α → σ → ℓ → Prog σ ℓ ε α → σ → Prop
  | mk {site : ℓ} {β : Type} {f : σ → β × σ} {k : Except ε β → Prog σ ℓ ε α} {s s' : σ}
      {r : Except ε β} (h : Outcome faults site f s r s') :
      Step (access site f k) s site (k r) s'

/-- The program run alone to its end, no access failing: its result and the last store. -/
def alone : Prog σ ℓ ε α → σ → Except ε α × σ
  | ret a, s => (.ok a, s)
  | raise e, s => (.error e, s)
  | access _ f k, s => (k (.ok (f s).1)).alone (f s).2

theorem alone_bind (p : Prog σ ℓ ε α) (h : α → Prog σ ℓ ε β) (s : σ) :
    (p.bind h).alone s = match p.alone s with
      | (.ok a, s') => (h a).alone s'
      | (.error e, s') => (.error e, s') := by
  induction p generalizing s with
  | ret a => rfl
  | raise e => rfl
  | access l f k ih => exact ih _ _

variable (site : ℓ) (f : σ → β × σ)

@[simp] theorem alone_db (s : σ) :
    (db site f : Prog σ ℓ ε β).alone s = (.ok (f s).1, (f s).2) := rfl

@[simp] theorem alone_ret (a : α) (s : σ) : (ret a : Prog σ ℓ ε α).alone s = (.ok a, s) := rfl

@[simp] theorem alone_raise (e : ε) (s : σ) :
    (raise e : Prog σ ℓ ε α).alone s = (.error e, s) := rfl

theorem alone_attempt (p : Prog σ ℓ ε α) (s : σ) :
    p.attempt.alone s = (.ok (p.alone s).1, (p.alone s).2) := by
  induction p generalizing s with
  | ret a => rfl
  | raise e => rfl
  | access l f k ih => exact ih _ _

@[simp] theorem alone_db_bind (h : β → Prog σ ℓ ε α) (s : σ) :
    ((db site f).bind h).alone s = (h (f s).1).alone (f s).2 := rfl

@[simp] theorem alone_attempt_db_bind (h : Except ε β → Prog σ ℓ ε α) (s : σ) :
    ((db site f).attempt.bind h).alone s = (h (.ok (f s).1)).alone (f s).2 := rfl

@[simp] theorem alone_read_bind (f : σ → β) (h : β → Prog σ ℓ ε α) (s : σ) :
    ((read site f).bind h).alone s = (h (f s)).alone s := rfl

variable {h : β → Prog σ ℓ ε α} {s s' : σ}

/-- A part that answers alone, then the rest. -/
theorem alone_bind_ok {p : Prog σ ℓ ε β} {b : β} (hp : p.alone s = (.ok b, s')) :
    (p.bind h).alone s = (h b).alone s' := by
  rw [alone_bind, hp]

variable {p : Prog σ ℓ ε α}

theorem alone_andFinally_ok {q : Prog σ ℓ ε Unit} {s'' : σ} {a : α} (hp : p.alone s = (.ok a, s'))
    (hq : q.alone s' = (.ok (), s'')) :
    (p.andFinally q).alone s = (.ok a, s'') := by
  have hattempt : p.attempt.alone s = (.ok (.ok a), s') := by rw [alone_attempt, hp]
  unfold andFinally
  rw [alone_bind_ok hattempt, alone_bind_ok hq]
  rfl

/-- Alone and without a failure, `p` gets from `s` to `s'`, where `q` is left of it. -/
inductive Goes : Prog σ ℓ ε α → σ → Prog σ ℓ ε α → σ → Prop
  | refl (p : Prog σ ℓ ε α) (s : σ) : Goes p s p s
  | step {site : ℓ} {β : Type} {f : σ → β × σ} {k : Except ε β → Prog σ ℓ ε α} {s s' : σ}
      {q : Prog σ ℓ ε α} (h : Goes (k (.ok (f s).1)) (f s).2 q s') : Goes (access site f k) s q s'

theorem Goes.trans {p' p'' : Prog σ ℓ ε α} {s'' : σ} (h : Goes p s p' s')
    (h' : Goes p' s' p'' s'') : Goes p s p'' s'' := by
  induction h with
  | refl p s => exact h'
  | step _ ih => exact .step (ih h')

variable {site : ℓ} {f : σ → β × σ}

theorem goes_db_bind : Goes ((db site f).bind h) s (h (f s).1) (f s).2 := .step (.refl _ _)

theorem goes_read_bind {f : σ → β} : Goes ((read site f).bind h) s (h (f s)) s := .step (.refl _ _)

theorem Goes.bind {p q : Prog σ ℓ ε β} (h : Goes p s q s') (k : β → Prog σ ℓ ε α) :
    Goes (p.bind k) s (q.bind k) s' := by
  induction h with
  | refl p s => exact .refl _ s
  | step _ ih => exact .step ih

theorem Goes.attempt {q : Prog σ ℓ ε α} (h : Goes p s q s') : Goes p.attempt s q.attempt s' := by
  induction h with
  | refl p s => exact .refl _ s
  | step _ ih => exact .step ih

theorem Goes.andFinally {q : Prog σ ℓ ε α} (h : Goes p s q s') (k : Prog σ ℓ ε Unit) :
    Goes (p.andFinally k) s (q.andFinally k) s' :=
  h.attempt.bind _

/-- A part that answers alone, then the rest. -/
theorem goes_bind_ok {p : Prog σ ℓ ε β} {b : β} (hp : p.alone s = (.ok b, s')) :
    Goes (p.bind h) s (h b) s' := by
  induction p generalizing s with
  | ret b' =>
    cases hp
    exact .refl _ _
  | raise e => cases hp
  | access l f k ih => exact .step (ih _ hp)

/-- Run alone from `s`, no access failing, `p` answers, and `Q` holds of its answer and the last
store. -/
def Ends (p : Prog σ ℓ ε α) (s : σ) (Q : α → σ → Prop) : Prop :=
  ∃ a s', p.alone s = (.ok a, s') ∧ Q a s'

theorem ends_ret {a : α} {Q : α → σ → Prop} (h : Q a s) :
    (ret a : Prog σ ℓ ε α).Ends s Q := ⟨a, s, rfl, h⟩

variable {Q : β → σ → Prop}

theorem ends_db (h : Q (f s).1 (f s).2) : (db site f : Prog σ ℓ ε β).Ends s Q := ⟨_, _, rfl, h⟩

theorem Ends.bind {h : α → Prog σ ℓ ε β} {M : α → σ → Prop} (hp : p.Ends s M)
    (hh : ∀ a s', M a s' → (h a).Ends s' Q) :
    (p.bind h).Ends s Q := by
  obtain ⟨a, s', halone, hM⟩ := hp
  obtain ⟨b, s'', halone', hQ⟩ := hh a s' hM
  refine ⟨b, s'', ?_, hQ⟩
  rw [alone_bind, halone]
  exact halone'

theorem Ends.attempt_bind {h : Except ε α → Prog σ ℓ ε β} {M : α → σ → Prop} (hp : p.Ends s M)
    (hh : ∀ a s', M a s' → (h (.ok a)).Ends s' Q) : (p.attempt.bind h).Ends s Q := by
  obtain ⟨a, s', halone, hM⟩ := hp
  obtain ⟨b, s'', halone', hQ⟩ := hh a s' hM
  refine ⟨b, s'', ?_, hQ⟩
  rw [alone_bind, alone_attempt, halone]
  exact halone'

/-- `Own p ws r`: a run of `p` among others that ends with `r`. `ws` lists, for each access
of `p`, the store it found and the store it left; the others may do anything in between. -/
inductive Own : Prog σ ℓ ε α → List (ℓ × σ × σ) → Except ε α → Prop
  | ret (a : α) : Own (ret a) [] (.ok a)
  | raise (e : ε) : Own (raise e) [] (.error e)
  | access {site : ℓ} {β : Type} {f : σ → β × σ} {k : Except ε β → Prog σ ℓ ε α} {s s' : σ}
      {r : Except ε β} {ws : List (ℓ × σ × σ)} {out : Except ε α}
      (h : Outcome faults site f s r s') (hk : Own (k r) ws out) :
      Own (access site f k) ((site, s, s') :: ws) out

/-- `Solo p s r s'`: a run of `p` with no other request, from the store `s` to `s'`. -/
inductive Solo : Prog σ ℓ ε α → σ → Except ε α → σ → Prop
  | ret (a : α) (s : σ) : Solo (ret a) s (.ok a) s
  | raise (e : ε) (s : σ) : Solo (raise e) s (.error e) s
  | access {site : ℓ} {β : Type} {f : σ → β × σ} {k : Except ε β → Prog σ ℓ ε α} {s s' s'' : σ}
      {r : Except ε β} {out : Except ε α}
      (h : Outcome faults site f s r s') (hk : Solo (k r) s' out s'') :
      Solo (access site f k) s out s''

variable {faults}

/-- A run of `p.bind h` is a run of `p`, followed by one of `h` if `p` ended with a value. -/
theorem Own.of_bind {h : α → Prog σ ℓ ε β} {ws : List (ℓ × σ × σ)} {r : Except ε β}
    (hrun : Own faults (p.bind h) ws r) :
    (∃ ws₁ ws₂ a, ws = ws₁ ++ ws₂ ∧ Own faults p ws₁ (.ok a) ∧ Own faults (h a) ws₂ r) ∨
      ∃ e, r = .error e ∧ Own faults p ws (.error e) := by
  induction p generalizing ws with
  | ret a => exact .inl ⟨[], ws, a, rfl, .ret a, hrun⟩
  | raise e =>
    cases hrun with
    | raise => exact .inr ⟨e, rfl, .raise e⟩
  | access l f k ih =>
    cases hrun with
    | access ho hk =>
      rcases ih _ hk with ⟨ws₁, ws₂, a, rfl, hp, hh⟩ | ⟨e, rfl, hp⟩
      · exact .inl ⟨_ :: ws₁, ws₂, a, rfl, .access ho hp, hh⟩
      · exact .inr ⟨e, rfl, .access ho hp⟩

/-- A run of one access: it answered, or it failed with the error of the run. -/
theorem Own.of_db {ws : List (ℓ × σ × σ)} {r : Except ε β} (hrun : Own faults (db site f) ws r) :
    (∃ s, ws = [(site, s, (f s).2)] ∧ r = .ok (f s).1) ∨
      ∃ e b, faults site e b ∧ r = .error e := by
  cases hrun with
  | access ho hk =>
    cases ho with
    | applied =>
      cases hk with
      | ret => exact .inl ⟨_, rfl, rfl⟩
    | refused he | lost he =>
      cases hk with
      | raise => exact .inr ⟨_, _, he, rfl⟩

/-! ### Runs whose accesses all have a property -/

variable (faults) in
/-- Every run of `p` that ends in `A` makes only accesses in `W`, unless a failing access is
what ended it. -/
def Spares (W : ℓ × σ × σ → Prop) (A : Except ε α → Prop) (p : Prog σ ℓ ε α) : Prop :=
  ∀ ws r, Own faults p ws r → A r → (∀ w ∈ ws, W w) ∨ ∃ l e b, faults l e b ∧ r = .error e

section Spares

variable {W : ℓ × σ × σ → Prop} {A : Except ε β → Prop}

theorem spares_ret (a : β) : Spares faults W A (ret a) := by
  intro ws r hrun _
  cases hrun with
  | ret => exact .inl nofun

theorem spares_raise (e : ε) : Spares faults W A (raise e) := by
  intro ws r hrun _
  cases hrun with
  | raise => exact .inl nofun

variable {h : α → Prog σ ℓ ε β}

theorem Spares.bind (hp : Spares faults W (fun _ => True) p) (hh : ∀ a, Spares faults W A (h a)) :
    Spares faults W A (p.bind h) := by
  intro ws r hrun ha
  rcases hrun.of_bind with ⟨ws₁, ws₂, a, rfl, hfirst, hrest⟩ | ⟨e, rfl, hfirst⟩
  · rcases hp _ _ hfirst trivial with h₁ | ⟨l, e, b, _, he⟩
    · refine (hh a _ _ hrest ha).imp_left fun h₂ w hw => ?_
      exact (List.mem_append.1 hw).elim (h₁ w) (h₂ w)
    · cases he
  · refine (hp _ _ hfirst trivial).imp_right fun ⟨l, e', b, hfault, he⟩ => ?_
    cases he
    exact ⟨l, e, b, hfault, rfl⟩

/-- One access, then the rest: an access in `W`, or a rest that cannot end in `A`. -/
theorem Spares.db_bind {f : σ → α × σ}
    (hf : ∀ s, W (site, s, (f s).2) ∧ Spares faults W A (h (f s).1) ∨
      ∀ ws r, Own faults (h (f s).1) ws r → ¬ A r) :
    Spares faults W A ((db site f).bind h) := by
  intro ws r hrun ha
  rcases hrun.of_bind with ⟨ws₁, ws₂, a, rfl, hfirst, hrest⟩ | ⟨e, rfl, hfirst⟩
  · rcases hfirst.of_db with ⟨s, rfl, hr⟩ | ⟨e, b, _, he⟩
    · cases hr
      rcases hf s with ⟨hw, hrest'⟩ | hnot
      · refine (hrest' _ _ hrest ha).imp_left fun h₂ w hw' => ?_
        rcases List.mem_append.1 hw' with hw' | hw'
        · rwa [List.mem_singleton.1 hw']
        · exact h₂ w hw'
      · exact (hnot _ _ hrest ha).elim
    · cases he
  · rcases hfirst.of_db with ⟨s, _, hr⟩ | ⟨e', b, hfault, he⟩
    · cases hr
    · cases he
      exact .inr ⟨site, e, b, hfault, rfl⟩

/-- A read, then the rest. -/
theorem Spares.read_bind {f : σ → α} (hW : ∀ s, W (site, s, s))
    (hh : ∀ a, Spares faults W A (h a)) :
    Spares faults W A ((read site f).bind h) :=
  Spares.db_bind fun s => .inl ⟨hW s, hh _⟩

end Spares

/-- Running alone without a failure is one of the solo runs. -/
theorem solo_alone (p : Prog σ ℓ ε α) (s : σ) :
    Solo faults p s (p.alone s).1 (p.alone s).2 := by
  induction p generalizing s with
  | ret a => exact .ret a s
  | raise e => exact .raise e s
  | access site f k ih => exact .access .applied (ih _ _)

end Prog

end Interleave
