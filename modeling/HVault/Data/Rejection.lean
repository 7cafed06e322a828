import Mathlib.Data.Fintype.BigOperators
import Mathlib.Tactic.Ring

/-!
# Rejection

A loop draws until something is accepted (`run`). Where each of some values is accepted from equally
many draws, each is what equally many sequences of draws end with (`card_mul_runs`): of `N` draws and
`r` that are rejected, the sequences of `k` draws that end with one of them are `N ^ k - r ^ k`.
-/

namespace Rejection

open List Finset Fintype

variable {Draw α : Type}

/-- The first value that is accepted; `none` where the draws run out before. -/
def run (accept : Draw → Option α) : List Draw → Option α
  | [] => none
  | draw :: draws => (accept draw).or (run accept draws)

variable [Fintype Draw] [DecidableEq α] (accept : Draw → Option α)

/-- How many draws come out as `outcome`. -/
def hits (outcome : Option α) : ℕ := Fintype.card {draw // accept draw = outcome}

/-- How many sequences of `k` draws end with `a`. -/
def runs (a : α) (k : ℕ) : ℕ :=
  Fintype.card {draws : Fin k → Draw // run accept (List.ofFn draws) = some a}

theorem runs_zero (a : α) : runs accept a 0 = 0 := by
  unfold runs
  rw [card_eq_zero_iff]
  exact ⟨fun draws => by cases draws.2⟩

/-- The first draw ends the sequence, or is rejected. -/
theorem runs_succ (a : α) (k : ℕ) : runs accept a (k + 1) =
    hits accept (some a) * card Draw ^ k + hits accept none * runs accept a k := by
  have hcons : runs accept a (k + 1) = card
      {p : Draw × (Fin k → Draw) // (accept p.1).or (run accept (ofFn p.2)) = some a} := by
    apply card_congr
    refine (Equiv.subtypeEquiv (Fin.consEquiv fun _ => Draw) fun p => ?_).symm
    show _ ↔ run accept (ofFn (Fin.cons p.1 p.2)) = some a
    rw [ofFn_succ, Fin.cons_zero, run]
    simp only [Fin.cons_succ]
  have hrest : ∀ draw, card
      {draws : Fin k → Draw // (accept draw).or (run accept (ofFn draws)) = some a} =
        (if accept draw = some a then card Draw ^ k else 0) +
          if accept draw = none then runs accept a k else 0 := by
    intro draw
    cases haccept : accept draw with
    | none =>
      rw [if_neg nofun, if_pos rfl, Nat.zero_add]
      rfl
    | some b =>
      rw [if_neg (show ¬ (some b = none) from nofun), Nat.add_zero]
      by_cases hb : some b = some a
      · rw [if_pos hb, card_congr (Equiv.subtypeUnivEquiv fun draws => ?_),
          card_fun, Fintype.card_fin]
        rw [Option.some_or, hb]
      · rw [if_neg hb, card_eq_zero_iff]
        exact ⟨fun draws => hb draws.2⟩
  have hsum : ∀ (outcome : Option α) (n : ℕ),
      (∑ draw, if accept draw = outcome then n else 0) = hits accept outcome * n := by
    intro outcome n
    unfold hits
    rw [Fintype.card_subtype, ← sum_filter, sum_const, nsmul_eq_mul, Nat.cast_id]
  rw [hcons, card_congr (Equiv.subtypeProdEquivSigmaSubtype
      fun draw draws => (accept draw).or (run accept (ofFn draws)) = some a),
    Fintype.card_sigma, sum_congr rfl fun draw _ => hrest draw, sum_add_distrib,
    hsum, hsum]

/-- Values that equally many draws come out as are what equally many sequences end with. -/
theorem card_mul_runs {n share : ℕ} {a : α} (ha : hits accept (some a) = share)
    (htotal : n * share + hits accept none = card Draw) (k : ℕ) :
    n * runs accept a k + hits accept none ^ k = card Draw ^ k := by
  induction k with
  | zero => rw [runs_zero, Nat.mul_zero, pow_zero, pow_zero, Nat.zero_add]
  | succ k ih =>
    calc n * runs accept a (k + 1) + hits accept none ^ (k + 1)
        = n * share * card Draw ^ k +
            hits accept none * (n * runs accept a k + hits accept none ^ k) := by
          rw [runs_succ, ha]
          ring
      _ = (n * share + hits accept none) * card Draw ^ k := by
          rw [ih]
          ring
      _ = card Draw ^ (k + 1) := by
          rw [htotal, pow_succ']

end Rejection
