import Mathlib.Data.List.Basic
import Mathlib.Data.List.Induction

/-!
# Keeping what fits

`keep` goes through a list once and keeps an element where what has been kept still fits with it.
What is kept fits, and is a part of the list in its order. It is the start of the list exactly where
nothing behind the first element that does not fit would fit in its place (`keep_eq_take_iff`).
-/

namespace Greedy

open List

variable {α : Type} (fits : List α → Prop) [DecidablePred fits]

def keep (kept : List α) (l : List α) : List α :=
  l.foldl (fun kept x => if fits (kept ++ [x]) then kept ++ [x] else kept) kept

variable {fits}

@[simp] theorem keep_nil (kept : List α) : keep fits kept [] = kept := rfl

theorem keep_cons (kept : List α) (x : α) (l : List α) :
    keep fits kept (x :: l) = keep fits (if fits (kept ++ [x]) then kept ++ [x] else kept) l :=
  rfl

theorem fits_keep {kept : List α} (h : fits kept) (l : List α) : fits (keep fits kept l) := by
  induction l generalizing kept with
  | nil => exact h
  | cons x l ih =>
    rw [keep_cons]
    split_ifs with hx
    · exact ih hx
    · exact ih h

theorem prefix_keep (kept l : List α) : kept <+: keep fits kept l := by
  induction l generalizing kept with
  | nil => exact prefix_rfl
  | cons x l ih =>
    rw [keep_cons]
    split_ifs with hx
    · exact (prefix_append _ _).trans (ih _)
    · exact ih _

theorem keep_sublist (kept l : List α) : (keep fits kept l).Sublist (kept ++ l) := by
  induction l generalizing kept with
  | nil => rw [keep_nil, append_nil]
  | cons x l ih =>
    rw [keep_cons]
    split_ifs with hx
    · have hrest := ih (kept ++ [x])
      rwa [append_assoc, singleton_append] at hrest
    · exact (ih _).trans ((List.Sublist.refl kept).append (sublist_cons_self x l))

theorem keep_of_not_fits {kept l : List α} (h : ∀ y ∈ l, ¬ fits (kept ++ [y])) :
    keep fits kept l = kept := by
  induction l with
  | nil => rfl
  | cons x l ih =>
    rw [keep_cons, if_neg (h x mem_cons_self)]
    exact ih fun y hy => h y (mem_cons_of_mem _ hy)

/-- What is kept next fits. -/
theorem keep_eq_or (kept l : List α) :
    (∀ y ∈ l, ¬ fits (kept ++ [y])) ∨
      ∃ y, fits (kept ++ [y]) ∧ kept ++ [y] <+: keep fits kept l := by
  induction l with
  | nil => exact .inl nofun
  | cons x l ih =>
    rw [keep_cons]
    split_ifs with hx
    · exact .inr ⟨x, hx, prefix_keep _ _⟩
    · apply ih.imp_left
      intro hrest
      exact forall_mem_cons.mpr ⟨hx, hrest⟩

/-- Behind an element that does not fit, the start of the list is kept only if nothing else is. -/
theorem keep_eq_take_of_not_fits {kept l : List α} {x : α} (hx : ¬ fits (kept ++ [x])) :
    keep fits kept l = (kept ++ x :: l).take (keep fits kept l).length ↔
      ∀ y ∈ l, ¬ fits (kept ++ [y]) := by
  constructor
  · intro htake
    refine (keep_eq_or kept l).resolve_right ?_
    intro hkept
    obtain ⟨y, hy, hstart⟩ := hkept
    have hwhole : kept ++ [y] <+: kept ++ x :: l := by
      apply hstart.trans
      rw [htake]
      exact take_prefix _ _
    have hsame : y = x :=
      (cons_prefix_cons.mp ((prefix_append_right_inj kept).mp hwhole)).1
    rw [hsame] at hy
    exact hx hy
  · intro hnone
    rw [keep_of_not_fits hnone, take_left]

/-- **What is kept is the start of the list** exactly where nothing behind the first element that
does not fit would fit. -/
theorem keep_eq_take_iff (hclosed : ∀ l x, fits (l ++ [x]) → fits l) {kept : List α}
    (hkept : fits kept) (l : List α) :
    keep fits kept l = (kept ++ l).take (keep fits kept l).length ↔
      ∀ before x after, l = before ++ x :: after → fits (kept ++ before) →
        ¬ fits (kept ++ before ++ [x]) → ∀ y ∈ after, ¬ fits (kept ++ before ++ [y]) := by
  induction l generalizing kept with
  | nil =>
    rw [keep_nil, append_nil, take_length]
    refine ⟨fun _ before x after hl => ?_, fun _ => rfl⟩
    exact absurd hl.symm (append_ne_nil_of_right_ne_nil _ (cons_ne_nil _ _))
  | cons x l ih =>
    by_cases hx : fits (kept ++ [x])
    · have hrest := ih hx
      rw [append_assoc, singleton_append] at hrest
      rw [keep_cons, if_pos hx, hrest]
      constructor
      · intro h before z after hl hfits hz
        cases before with
        | nil =>
          cases hl
          rw [append_nil] at hz
          exact absurd hx hz
        | cons b before =>
          cases hl
          have hbefore : kept ++ [x] ++ before = kept ++ x :: before := append_assoc _ _ _
          rw [← hbefore] at hfits hz ⊢
          exact h before z after rfl hfits hz
      · intro h before z after hl hfits hz
        have hbefore : kept ++ [x] ++ before = kept ++ x :: before := append_assoc _ _ _
        rw [hbefore] at hfits hz ⊢
        exact h (x :: before) z after (by rw [hl, cons_append]) hfits hz
    · have hstart : ∀ before, ¬ fits (kept ++ x :: before) := by
        intro before
        induction before using reverseRecOn with
        | nil => exact hx
        | append_singleton before y ih =>
          intro hfits
          rw [← cons_append, ← append_assoc] at hfits
          exact ih (hclosed _ _ hfits)
      rw [keep_cons, if_neg hx, keep_eq_take_of_not_fits hx]
      constructor
      · intro h before z after hl hfits hz
        cases before with
        | nil =>
          cases hl
          rw [append_nil]
          exact h
        | cons b before =>
          cases hl
          exact absurd hfits (hstart before)
      · intro h
        have hfirst := h [] x l rfl
        rw [append_nil] at hfirst
        exact hfirst hkept hx

end Greedy
