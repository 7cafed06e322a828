import Mathlib.Data.Fintype.Basic
import HVault.Interleave.Pool

/-!
# Runs given by a schedule

A schedule names, step by step, the program that makes its next access. `Config.follow` computes
where it leads when no access fails, so that a particular run can be written down and evaluated.
-/

namespace Interleave

variable {ι σ ℓ ε α : Type} [DecidableEq ι] {S : System ι σ ℓ ε α}
  {ok : Config ι σ ℓ ε α → ι → ℓ → Prop} {c₀ c : Config ι σ ℓ ε α} {i : ι}

namespace Config

/-- `p` arrives as `i`. -/
def join (c : Config ι σ ℓ ε α) (i : ι) (p : Prog σ ℓ ε α) : Config ι σ ℓ ε α :=
  ⟨c.store, Function.update c.threads i (some p)⟩

/-- The site of the next access of `i`. -/
def nextSite (c : Config ι σ ℓ ε α) (i : ι) : Option ℓ :=
  match c.threads i with
  | some (.access l _ _) => some l
  | _ => none

/-- `i` makes its next access. -/
def advance (c : Config ι σ ℓ ε α) (i : ι) : Config ι σ ℓ ε α :=
  match c.threads i with
  | some (.access _ f k) =>
    ⟨(f c.store).2, Function.update c.threads i (some (k (.ok (f c.store).1)))⟩
  | _ => c

/-- The programs named by the schedule make their next accesses, one after the other. -/
def follow (c : Config ι σ ℓ ε α) (schedule : List ι) : Config ι σ ℓ ε α :=
  schedule.foldl advance c

/-- Every access along the schedule meets `ok`. -/
def Follows (ok : Config ι σ ℓ ε α → ι → ℓ → Prop) : Config ι σ ℓ ε α → List ι → Prop
  | _, [] => True
  | c, i :: schedule =>
    (∀ l, c.nextSite i = some l → ok c i l) ∧ (c.advance i).Follows ok schedule

instance decidableFollows (ok : Config ι σ ℓ ε α → ι → ℓ → Prop) [∀ c i l, Decidable (ok c i l)] :
    ∀ (c : Config ι σ ℓ ε α) (schedule : List ι), Decidable (c.Follows ok schedule)
  | _, [] => .isTrue trivial
  | c, i :: schedule =>
    have := decidableFollows ok (c.advance i) schedule
    inferInstanceAs (Decidable ((∀ l ∈ c.nextSite i, ok c i l) ∧ (c.advance i).Follows ok schedule))

/-- The sites of the accesses along the schedule. -/
def sites : Config ι σ ℓ ε α → List ι → List ℓ
  | _, [] => []
  | c, i :: schedule => (c.nextSite i).toList ++ (c.advance i).sites schedule

/-- How `i` ended, if it did. -/
def resultOf (c : Config ι σ ℓ ε α) (i : ι) : Option (Except ε α) :=
  (c.threads i).bind Prog.result

/-- The error `i` ended with, if it ended with one. -/
def errorOf (c : Config ι σ ℓ ε α) (i : ι) : Option ε :=
  match c.resultOf i with
  | some (.error e) => some e
  | _ => none

omit [DecidableEq ι] in
theorem resultOf_of_errorOf {e : ε} (h : c.errorOf i = some e) :
    c.resultOf i = some (.error e) := by
  unfold errorOf at h
  split at h
  · rename_i hresult
    rw [hresult, Option.some.inj h]
  · cases h

end Config

omit [DecidableEq ι] in
theorem Config.not_inFlight {a : Except ε α} (h : c.resultOf i = some a) : ¬ c.InFlight i := by
  rintro ⟨p, hp, hnot⟩
  obtain ⟨q, hq, hresult⟩ := Option.bind_eq_some_iff.1 h
  rw [hp] at hq
  cases hq
  cases p with
  | ret a | raise e => exact hnot trivial
  | access l f k => cases hresult

theorem Reaches.join {p : Prog σ ℓ ε α} (h : Reaches S ok c₀ c) (hi : c.threads i = none)
    (hp : S.admits i p) : Reaches S ok c₀ (c.join i p) :=
  .arrive h (.arrive hi hp)

/-- The first arrival. -/
theorem Reaches.opened (S : System ι σ ℓ ε α) (ok : Config ι σ ℓ ε α → ι → ℓ → Prop) (s₀ : σ)
    {p : Prog σ ℓ ε α} (hp : S.admits i p) :
    Reaches S ok (Config.start s₀) ((Config.start s₀).join i p) :=
  Reaches.refl.join rfl hp

/-- Finitely many programs may all arrive before any of them runs. -/
theorem Reaches.gathered [Fintype ι] {s₀ : σ} {p : ι → Prog σ ℓ ε α} (hp : ∀ i, S.admits i (p i)) :
    Reaches S ok (Config.start s₀) ⟨s₀, fun i => some (p i)⟩ := by
  have hpart : ∀ F : Finset ι, Reaches S ok (Config.start s₀)
      ⟨s₀, fun i => if i ∈ F then some (p i) else none⟩ := by
    intro F
    induction F using Finset.induction_on with
    | empty =>
      exact .refl
    | insert i F hi ih =>
      have hjoin := ih.join (if_neg hi) (hp i)
      have heq : Function.update (fun j => if j ∈ F then some (p j) else none) i (some (p i))
          = fun j => if j ∈ insert i F then some (p j) else none := by
        funext j
        by_cases hj : j = i
        · subst hj
          rw [Function.update_self, if_pos (Finset.mem_insert_self j F)]
        · rw [Function.update_of_ne hj]
          simp [Finset.mem_insert, hj]
      rw [Config.join, heq] at hjoin
      exact hjoin
  have hall := hpart Finset.univ
  simp only [Finset.mem_univ, if_true] at hall
  exact hall

theorem CStep.advance {l : ℓ} (h : c.nextSite i = some l) :
    CStep S c (some (i, l)) (c.advance i) := by
  unfold Config.nextSite at h
  unfold Config.advance
  split at h
  · rename_i l' f k hi
    cases h
    exact .run hi (.mk .applied)
  · cases h

theorem Reaches.advance {l : ℓ} (h : Reaches S ok c₀ c) (hsite : c.nextSite i = some l)
    (hok : ok c i l) : Reaches S ok c₀ (c.advance i) :=
  .run h hok (.advance hsite)

theorem Config.advance_of_nextSite (h : c.nextSite i = none) : c.advance i = c := by
  unfold Config.nextSite at h
  unfold Config.advance
  split at h
  · cases h
  · rfl

/-- A schedule whose accesses meet the side condition is a run. -/
theorem Reaches.follow (h : Reaches S ok c₀ c) (schedule : List ι) (hok : c.Follows ok schedule) :
    Reaches S ok c₀ (c.follow schedule) := by
  induction schedule generalizing c with
  | nil => exact h
  | cons i schedule ih =>
    refine ih ?_ hok.2
    cases hsite : c.nextSite i with
    | some l => exact h.advance hsite (hok.1 l hsite)
    | none =>
      rw [Config.advance_of_nextSite hsite]
      exact h

/-- A side condition that looks at the sites alone. -/
theorem Config.follows_of_sites {schedule : List ι}
    (h : ∀ l ∈ c.sites schedule, ∀ c i, ok c i l) : c.Follows ok schedule := by
  induction schedule generalizing c with
  | nil => exact trivial
  | cons i schedule ih =>
    refine ⟨fun l hl => h l ?_ c i, ih fun l hl => h l (List.mem_append_right _ hl)⟩
    apply List.mem_append_left
    rw [hl]
    exact List.mem_singleton_self l

theorem Config.follows_true (c : Config ι σ ℓ ε α) (schedule : List ι) :
    c.Follows (fun _ _ _ => True) schedule := by
  induction schedule generalizing c with
  | nil => exact trivial
  | cons i schedule ih => exact ⟨fun _ _ => trivial, ih _⟩

/-- A schedule is a run. -/
theorem Reach.follow (h : Reach S c₀ c) (schedule : List ι) : Reach S c₀ (c.follow schedule) :=
  Reaches.follow h schedule (c.follows_true schedule)

end Interleave
