import Mathlib.Order.Bounds.Basic
import Mathlib.Data.List.Basic

/-!
# Longest common subsequences

`lcsLength` computes how long a list is at most that is a sublist of two lists
(`isGreatest_lcsLength`). What the two lists start or end with alike is in such a list
(`lcsLength_append_left`, `lcsLength_append_right`).
-/

namespace CommonSublist

open List

variable {α : Type} [DecidableEq α] {l xs ys : List α}

/-- How long a sublist of both lists is at most. -/
def lcsLength : List α → List α → ℕ
  | [], _ => 0
  | _ :: _, [] => 0
  | x :: xs, y :: ys =>
    if x = y then lcsLength xs ys + 1 else max (lcsLength xs (y :: ys)) (lcsLength (x :: xs) ys)

@[simp] theorem lcsLength_nil_left (ys : List α) : lcsLength [] ys = 0 := by rw [lcsLength]

@[simp] theorem lcsLength_nil_right (xs : List α) : lcsLength xs [] = 0 := by
  cases xs with
  | nil | cons => rw [lcsLength]

theorem lcsLength_cons_same (x : α) (xs ys : List α) :
    lcsLength (x :: xs) (x :: ys) = lcsLength xs ys + 1 := by
  rw [lcsLength, if_pos rfl]

theorem lcsLength_cons_ne {x y : α} (h : x ≠ y) (xs ys : List α) :
    lcsLength (x :: xs) (y :: ys) = max (lcsLength xs (y :: ys)) (lcsLength (x :: xs) ys) := by
  rw [lcsLength, if_neg h]

omit [DecidableEq α] in
/-- Behind its first element a sublist is one of the rest. -/
theorem sublist_of_cons {x z : α} (h : (z :: l).Sublist (x :: xs)) : l.Sublist xs := by
  cases h with
  | cons _ h => exact (sublist_cons_self z l).trans h
  | cons_cons _ h => exact h

omit [DecidableEq α] in
theorem sublist_of_cons_ne {x z : α} (hne : z ≠ x) (h : (z :: l).Sublist (x :: xs)) :
    (z :: l).Sublist xs := by
  cases h with
  | cons _ h => exact h
  | cons_cons _ h => exact (hne rfl).elim

theorem length_le_lcsLength (hxs : l.Sublist xs) (hys : l.Sublist ys) :
    l.length ≤ lcsLength xs ys := by
  fun_induction lcsLength xs ys generalizing l with
  | case1 ys => rw [sublist_nil.1 hxs, length_nil]
  | case2 x xs => rw [sublist_nil.1 hys, length_nil]
  | case3 x xs ys ih =>
    cases l with
    | nil => exact Nat.zero_le _
    | cons z l => exact Nat.succ_le_succ (ih (sublist_of_cons hxs) (sublist_of_cons hys))
  | case4 x xs y ys hne ihx ihy =>
    cases l with
    | nil => exact Nat.zero_le _
    | cons z l =>
      by_cases hz : z = x
      · subst hz
        exact (ihy hxs (sublist_of_cons_ne hne hys)).trans (Nat.le_max_right _ _)
      · exact (ihx (sublist_of_cons_ne hz hxs) hys).trans (Nat.le_max_left _ _)

theorem exists_sublist (xs ys : List α) :
    ∃ l : List α, l.Sublist xs ∧ l.Sublist ys ∧ l.length = lcsLength xs ys := by
  fun_induction lcsLength xs ys with
  | case1 ys | case2 x xs => exact ⟨[], nil_sublist _, nil_sublist _, rfl⟩
  | case3 xs y ys ih =>
    obtain ⟨l, hxs, hys, hlength⟩ := ih
    exact ⟨y :: l, hxs.cons_cons y, hys.cons_cons y, congrArg (· + 1) hlength⟩
  | case4 x xs y ys hne ihx ihy =>
    rcases Nat.le_total (lcsLength xs (y :: ys)) (lcsLength (x :: xs) ys) with hle | hle
    · obtain ⟨l, hxs, hys, hlength⟩ := ihy
      exact ⟨l, hxs, hys.cons y, by rw [hlength, Nat.max_eq_right hle]⟩
    · obtain ⟨l, hxs, hys, hlength⟩ := ihx
      exact ⟨l, hxs.cons x, hys, by rw [hlength, Nat.max_eq_left hle]⟩

/-- `lcsLength` is the greatest length of a common sublist. -/
theorem isGreatest_lcsLength (xs ys : List α) :
    IsGreatest {n | ∃ l : List α, l.Sublist xs ∧ l.Sublist ys ∧ l.length = n}
      (lcsLength xs ys) := by
  refine ⟨exists_sublist xs ys, ?_⟩
  rintro n ⟨l, hxs, hys, rfl⟩
  exact length_le_lcsLength hxs hys

theorem lcsLength_le_reverse (xs ys : List α) :
    lcsLength xs ys ≤ lcsLength xs.reverse ys.reverse := by
  obtain ⟨l, hxs, hys, hlength⟩ := exists_sublist xs ys
  rw [← hlength, ← length_reverse]
  exact length_le_lcsLength hxs.reverse hys.reverse

theorem lcsLength_reverse (xs ys : List α) :
    lcsLength xs.reverse ys.reverse = lcsLength xs ys := by
  refine Nat.le_antisymm ?_ (lcsLength_le_reverse xs ys)
  have hback := lcsLength_le_reverse xs.reverse ys.reverse
  rwa [reverse_reverse, reverse_reverse] at hback

theorem lcsLength_append_left (start xs ys : List α) :
    lcsLength (start ++ xs) (start ++ ys) = start.length + lcsLength xs ys := by
  induction start with
  | nil => simp
  | cons x start ih =>
    rw [cons_append, cons_append, lcsLength_cons_same, ih, length_cons]
    omega

theorem lcsLength_append_right (xs ys finish : List α) :
    lcsLength (xs ++ finish) (ys ++ finish) = lcsLength xs ys + finish.length := by
  rw [← lcsLength_reverse, reverse_append, reverse_append, lcsLength_append_left,
    lcsLength_reverse, length_reverse, Nat.add_comm]

end CommonSublist
