import Mathlib.Data.Nat.Notation
import Mathlib.Order.Defs.Unbundled

/-!
# Programs that may fail

A `Job` works on a state and may fail; what it has done to the state by then stays. `Triple` is the
judgement of such a program by what holds before and after it, with an assertion of its own for the
failures, and `Does` the judgement by what it may change, as a relation between the states.
-/

abbrev Job (σ ε α : Type) := ExceptT ε (StateM σ) α

namespace Job

open List

variable {σ ε α β : Type}

/-- How a program ends that is started in `s`, and the state it leaves. -/
def runFrom (a : Job σ ε α) (s : σ) : Except ε α × σ := (ExceptT.run a).run s

theorem runFrom_bind (a : Job σ ε α) (f : α → Job σ ε β) (s : σ) :
    (a >>= f).runFrom s = match a.runFrom s with
      | (.ok x, s') => (f x).runFrom s'
      | (.error e, s') => (.error e, s') := by
  show (match a.runFrom s with
    | (r, s') => (ExceptT.bindCont f r).run s') = _
  rcases a.runFrom s with ⟨_ | x, s'⟩
  · rfl
  · rfl

theorem runFrom_tryCatch (a : Job σ ε α) (h : ε → Job σ ε α) (s : σ) :
    (tryCatch a h).runFrom s = match a.runFrom s with
      | (.ok x, s') => (.ok x, s')
      | (.error e, s') => (h e).runFrom s' := by
  show (match a.runFrom s with
    | (r, s') => ((match r with
      | .ok x => pure (.ok x)
      | .error e => ExceptT.run (h e)) : StateM σ (Except ε α)).run s') = _
  rcases a.runFrom s with ⟨_ | x, s'⟩
  · rfl
  · rfl

/-- A step that is taken only if the condition holds. -/
def when (c : Bool) (a : Job σ ε Unit) : Job σ ε Unit := if c then a else pure ()

/-! ## Triples -/

/-- Started where `P` holds, the program ends with a value where `Q` holds, or fails where `E`
holds. -/
def Triple (P : σ → Prop) (a : Job σ ε α) (Q : α → σ → Prop) (E : ε → σ → Prop) : Prop :=
  ∀ s, P s → match a.runFrom s with
    | (.ok x, s') => Q x s'
    | (.error e, s') => E e s'

variable {P P' : σ → Prop} {Q Q' : α → σ → Prop} {E E' : ε → σ → Prop} {a : Job σ ε α}

theorem triple_pure (x : α) (h : ∀ s, P s → Q x s) : Triple P (pure x : Job σ ε α) Q E := h

theorem triple_throw (e : ε) (h : ∀ s, P s → E e s) : Triple P (throw e : Job σ ε α) Q E := h

theorem triple_get {Q : σ → σ → Prop} (h : ∀ s, P s → Q s s) :
    Triple P (get : Job σ ε σ) Q E := h

theorem triple_modify {f : σ → σ} {Q : PUnit → σ → Prop} (h : ∀ s, P s → Q ⟨⟩ (f s)) :
    Triple P (modify f : Job σ ε PUnit) Q E := h

theorem Triple.bind {f : α → Job σ ε β} {R : β → σ → Prop} (ha : Triple P a Q E)
    (hf : ∀ x, Triple (Q x) (f x) R E) : Triple P (a >>= f) R E := by
  intro s hs
  have ha := ha s hs
  rw [runFrom_bind]
  rcases hrun : a.runFrom s with ⟨_ | x, s'⟩
  · rw [hrun] at ha
    exact ha
  · rw [hrun] at ha
    exact hf x s' ha

theorem Triple.tryCatch {F : ε → σ → Prop} {h : ε → Job σ ε α} (ha : Triple P a Q F)
    (hh : ∀ e, Triple (F e) (h e) Q E) : Triple P (tryCatch a h) Q E := by
  intro s hs
  have ha := ha s hs
  rw [runFrom_tryCatch]
  rcases hrun : a.runFrom s with ⟨e | x, s'⟩
  · rw [hrun] at ha
    exact hh e s' ha
  · rw [hrun] at ha
    exact ha

theorem Triple.weaken {R : σ → Prop} (ha : Triple R a Q' E') (hP : ∀ s, P s → R s)
    (hQ : ∀ x s, Q' x s → Q x s) (hE : ∀ e s, E' e s → E e s) : Triple P a Q E := by
  intro s hs
  have ha := ha s (hP s hs)
  rcases hrun : a.runFrom s with ⟨e | x, s'⟩
  · rw [hrun] at ha
    exact hE e s' ha
  · rw [hrun] at ha
    exact hQ x s' ha

theorem Triple.and (ha : Triple P a Q E) (ha' : Triple P' a Q' E') :
    Triple (fun s => P s ∧ P' s) a (fun x s => Q x s ∧ Q' x s) (fun e s => E e s ∧ E' e s) := by
  intro s hs
  have ha := ha s hs.1
  have ha' := ha' s hs.2
  rcases hrun : a.runFrom s with ⟨e | x, s'⟩
  · rw [hrun] at ha ha'
    exact ⟨ha, ha'⟩
  · rw [hrun] at ha ha'
    exact ⟨ha, ha'⟩

theorem triple_true (a : Job σ ε α) : Triple P a (fun _ _ => True) (fun _ _ => True) := by
  intro s _
  rcases a.runFrom s with ⟨_ | _, _⟩
  · trivial
  · trivial

/-- What holds after a program however it ends. -/
theorem Triple.post {R : σ → Prop} (ha : Triple P a (fun _ => R) (fun _ => R)) {s : σ} (hs : P s) :
    R (a.runFrom s).2 := by
  have ha := ha s hs
  rcases hrun : a.runFrom s with ⟨e | x, s'⟩
  · rw [hrun] at ha
    exact ha
  · rw [hrun] at ha
    exact ha

/-- What does not depend on the state may be taken out of what holds before. -/
theorem Triple.of_pure {p : Prop} (h : p → Triple P a Q E) : Triple (fun s => p ∧ P s) a Q E :=
  fun s hs => h hs.1 s hs.2

theorem Triple.when {c : Bool} {a : Job σ ε Unit} {Q : Unit → σ → Prop}
    (ha : c = true → Triple P a Q E) (hskip : c = false → ∀ s, P s → Q () s) :
    Triple P (when c a) Q E := by
  cases c with
  | true => exact ha rfl
  | false => exact triple_pure () (hskip rfl)

variable {f : β → α → Job σ ε β}

/-- A loop over a list keeps what each round keeps. -/
theorem triple_foldlM {xs : List α} (hf : ∀ b, ∀ x ∈ xs, Triple P (f b x) (fun _ => P) E) (b : β) :
    Triple P (xs.foldlM f b) (fun _ => P) E := by
  induction xs generalizing b with
  | nil => exact triple_pure b fun _ => id
  | cons x xs ih =>
    rw [foldlM_cons]
    exact (hf b x mem_cons_self).bind fun b' =>
      ih (fun b x hx => hf b x (mem_cons_of_mem _ hx)) b'

/-- The same, where what is kept depends on how many rounds are left. -/
theorem triple_foldlM_left {P : ℕ → σ → Prop} {xs : List α}
    (hf : ∀ b, ∀ x ∈ xs, ∀ n, Triple (P (n + 1)) (f b x) (fun _ => P n) E) (b : β) :
    Triple (P xs.length) (xs.foldlM f b) (fun _ => P 0) E := by
  induction xs generalizing b with
  | nil => exact triple_pure b fun _ => id
  | cons x xs ih =>
    rw [foldlM_cons]
    exact (hf b x mem_cons_self xs.length).bind fun b' =>
      ih (fun b x hx => hf b x (mem_cons_of_mem _ hx)) b'

/-! ## What a program may change -/

/-- Whatever becomes of the program, it changes the state as `R` says, and what it fails with is
in `T`. -/
def Does (R : σ → σ → Prop) (T : ε → Prop) (a : Job σ ε α) : Prop :=
  ∀ s, Triple (· = s) a (fun _ s' => R s s') (fun e s' => R s s' ∧ T e)

variable {R : σ → σ → Prop} {T T' : ε → Prop}

/-- Whatever `R` leaves true is true after the program. -/
theorem Does.triple (ha : Does R T a) (hP : ∀ s s', R s s' → P s → P s') :
    Triple P a (fun _ => P) (fun e s => P s ∧ T e) := by
  intro s hs
  have ha := ha s s rfl
  rcases hrun : a.runFrom s with ⟨e | x, s'⟩
  · rw [hrun] at ha
    exact ⟨hP s s' ha.1 hs, ha.2⟩
  · rw [hrun] at ha
    exact hP s s' ha hs

theorem Does.mono {R' : σ → σ → Prop} (ha : Does R T a) (hR : ∀ s s', R s s' → R' s s')
    (hT : ∀ e, T e → T' e) : Does R' T' a := fun s =>
  (ha s).weaken (fun _ => id) (fun _ s' => hR s s') fun e s' h => ⟨hR s s' h.1, hT e h.2⟩

theorem does_modify {f : σ → σ} (h : ∀ s, R s (f s)) : Does R T (modify f : Job σ ε PUnit) := by
  intro s
  exact triple_modify fun s' hs => hs ▸ h s

variable [IsPreorder σ R]

theorem does_pure (x : α) : Does R T (pure x : Job σ ε α) :=
  fun _ => triple_pure x fun s' hs => hs ▸ refl_of R s'

theorem does_throw {e : ε} (h : T e) : Does R T (throw e : Job σ ε α) :=
  fun _ => triple_throw e fun s' hs => ⟨hs ▸ refl_of R s', h⟩

theorem does_get : Does R T (get : Job σ ε σ) :=
  fun _ => triple_get fun s' hs => hs ▸ refl_of R s'

theorem Does.bind {f : α → Job σ ε β} (ha : Does R T a) (hf : ∀ x, Does R T (f x)) :
    Does R T (a >>= f) := by
  intro s
  refine (ha s).bind fun x => ?_
  refine ((hf x).triple fun s' s'' h hs => ?_).weaken (fun _ => id) (fun _ _ => id) fun _ _ => id
  exact trans_of R hs h

theorem Does.when {c : Bool} {a : Job σ ε Unit} (ha : c = true → Does R T a) :
    Does R T (when c a) := by
  cases c with
  | true => exact ha rfl
  | false => exact does_pure ()

theorem does_foldlM {xs : List α} (hf : ∀ b, ∀ x ∈ xs, Does R T (f b x)) (b : β) :
    Does R T (xs.foldlM f b) := by
  induction xs generalizing b with
  | nil => exact does_pure b
  | cons x xs ih =>
    rw [foldlM_cons]
    exact (hf b x mem_cons_self).bind fun b' =>
      ih (fun b x hx => hf b x (mem_cons_of_mem _ hx)) b'

theorem Does.tryCatch {h : ε → Job σ ε α} (ha : Does R T a) (hh : ∀ e, T e → Does R T' (h e)) :
    Does R T' (tryCatch a h) := by
  intro s
  refine (ha s).tryCatch fun e s' hs => ?_
  exact (hh e hs.2).triple (fun s' s'' h hs => trans_of R hs h) s' hs.1

end Job
