import Mathlib.Data.Nat.Notation
import Mathlib.Logic.Relation

/-!
# Systems that take one event after another

For a system without programs of its own, driven by events from outside: a step function says what
an event does and whether it can happen at all, and a side condition says which events a run is
allowed to take. `Run.invariant` is the induction over such runs; `replay` runs a list of events, so
that a run on fixed events can be evaluated.
-/

namespace Interleave

section Events

variable {σ ε : Type} {step : σ → ε → Option σ} {ok : σ → ε → Prop}

/-- One event that happens and is allowed. -/
inductive Happens (step : σ → ε → Option σ) (ok : σ → ε → Prop) (s s' : σ) : Prop
  | mk (e : ε) (hok : ok s e) (hs : step s e = some s')

/-- The states a system comes to by events that are allowed. -/
abbrev Run (step : σ → ε → Option σ) (ok : σ → ε → Prop) : σ → σ → Prop :=
  Relation.ReflTransGen (Happens step ok)

/-- What holds at the start and is kept by every event that is allowed holds wherever a run gets. -/
theorem Run.invariant {I : σ → Prop} {s₀ s : σ} (h : Run step ok s₀ s) (h₀ : I s₀)
    (hI : ∀ s e s', I s → ok s e → step s e = some s' → I s') : I s := by
  induction h with
  | refl => exact h₀
  | tail _ hstep ih =>
    obtain ⟨e, hok, hs⟩ := hstep
    exact hI _ e _ ih hok hs

theorem Run.next {s₀ s s' : σ} {e : ε} (h : Run step ok s₀ s) (hok : ok s e)
    (hs : step s e = some s') : Run step ok s₀ s' :=
  h.tail ⟨e, hok, hs⟩

theorem Run.mono {ok' : σ → ε → Prop} {s₀ s : σ} (h : Run step ok s₀ s)
    (hok : ∀ s e, ok s e → ok' s e) : Run step ok' s₀ s := by
  induction h with
  | refl => exact .refl
  | tail _ hstep ih =>
    obtain ⟨e, he, hs⟩ := hstep
    exact ih.next (hok _ e he) hs

/-- The state after a list of events, if all of them happen and are allowed. -/
def replay (step : σ → ε → Option σ) (ok : σ → ε → Prop) [∀ s e, Decidable (ok s e)] :
    σ → List ε → Option σ
  | s, [] => some s
  | s, e :: es => if ok s e then (step s e).bind fun s' => replay step ok s' es else none

theorem Run.of_replay [∀ s e, Decidable (ok s e)] {s s' : σ} {es : List ε}
    (h : replay step ok s es = some s') : Run step ok s s' := by
  induction es generalizing s with
  | nil =>
    cases h
    exact .refl
  | cons e es ih =>
    unfold replay at h
    split at h
    · rename_i hok
      obtain ⟨s₁, hs₁, hrest⟩ := Option.bind_eq_some_iff.1 h
      exact Relation.ReflTransGen.head ⟨e, hok, hs₁⟩ (ih hrest)
    · cases h

/-- A list of events that leads to a state of a kind. -/
theorem Run.of_any (step : σ → ε → Option σ) (ok : σ → ε → Prop) [∀ s e, Decidable (ok s e)] (s : σ)
    (es : List ε) (kind : σ → Bool) (h : (replay step ok s es).any kind) :
    ∃ s', Run step ok s s' ∧ kind s' := by
  obtain ⟨s', hs', hkind⟩ := (Option.any_eq_true kind _).1 h
  exact ⟨s', Run.of_replay hs', hkind⟩

/-! ## Runs without end -/

/-- A number that no step raises is at some time lowered for the last time. -/
theorem eventually_still (μ : σ → ℕ) {run : ℕ → σ} (hle : ∀ n, μ (run (n + 1)) ≤ μ (run n)) :
    ∃ N, ∀ n ≥ N, μ (run (n + 1)) = μ (run n) := by
  -- the least number the run ever comes to
  obtain ⟨m, hm⟩ : ∃ m, ∃ N, μ (run N) = m := ⟨_, 0, rfl⟩
  induction m using Nat.strongRecOn with
  | _ m ih =>
    obtain ⟨N, hN⟩ := hm
    by_cases h : ∃ n ≥ N, μ (run n) < m
    · obtain ⟨n, -, hn⟩ := h
      exact ih _ hn ⟨n, rfl⟩
    · have hconst : ∀ n ≥ N, μ (run n) = m := by
        intro n hn
        have hge : ¬ μ (run n) < m := fun hlt => h ⟨n, hn, hlt⟩
        have hle' : μ (run n) ≤ m := by
          induction hn with
          | refl => exact Nat.le_of_eq hN
          | step hk ih' => exact Nat.le_trans (hle _) (ih' fun hlt => h ⟨_, hk, hlt⟩)
        omega
      exact ⟨N, fun n hn => by rw [hconst n hn, hconst (n + 1) (by omega)]⟩

end Events

end Interleave
