import Mathlib.Data.Finmap
import Mathlib.Algebra.Order.BigOperators.Group.Finset
import Mathlib.Tactic.Abel

/-!
# Weighted totals of finite maps

`tally w t` adds up the weight `w a b` of every entry of a finite map. Inserting, replacing
and erasing an entry change the total by the weight of what came and what went.
-/

namespace Finmap

open Option Finset

variable {α β M : Type} [DecidableEq α] [AddCommGroup M]

@[simp] theorem keys_insert (a : α) (b : β) (t : Finmap fun _ : α => β) :
    (t.insert a b).keys = Insert.insert a t.keys := by
  ext x
  simp [mem_keys, mem_insert]

/-- The sum of the weights of the entries of `t`. -/
def tally (w : α → β → M) (t : Finmap fun _ : α => β) : M :=
  ∑ a ∈ t.keys, (t.lookup a).elim 0 (w a)

variable (w : α → β → M) {t : Finmap fun _ : α => β} {a : α} {b b' : β}

@[simp] theorem tally_empty : tally w (∅ : Finmap fun _ : α => β) = 0 := by
  simp [tally]

/-- Every entry other than `a` weighs the same before and after `a` is written. -/
theorem sum_lookup_insert_of_notMem (s : Finset α) (ha : a ∉ s) :
    ∑ x ∈ s, ((t.insert a b).lookup x).elim 0 (w x) = ∑ x ∈ s, (t.lookup x).elim 0 (w x) := by
  refine sum_congr rfl fun x hx => ?_
  have hne : x ≠ a := fun h => ha (h ▸ hx)
  rw [lookup_insert_of_ne t hne]

theorem tally_insert_of_notMem (h : a ∉ t) : tally w (t.insert a b) = tally w t + w a b := by
  have ha : a ∉ t.keys := fun hm => h (mem_keys.1 hm)
  rw [tally, keys_insert, sum_insert ha, sum_lookup_insert_of_notMem w _ ha,
    lookup_insert, elim_some, tally, add_comm]

theorem tally_erase (h : t.lookup a = some b) : tally w (t.erase a) = tally w t - w a b := by
  have ha : a ∈ t.keys := mem_keys.2 (mem_of_lookup_eq_some h)
  have hsum : ∑ x ∈ t.keys.erase a, ((t.erase a).lookup x).elim 0 (w x)
      = ∑ x ∈ t.keys.erase a, (t.lookup x).elim 0 (w x) := by
    refine sum_congr rfl fun x hx => ?_
    rw [lookup_erase_ne (ne_of_mem_erase hx)]
  rw [tally, keys_erase, hsum, tally, ← add_sum_erase _ _ ha, h, elim_some]
  abel

/-- Replacing the value at `a` exchanges its weight. -/
theorem tally_insert_of_lookup (h : t.lookup a = some b) :
    tally w (t.insert a b') = tally w t - w a b + w a b' := by
  have hins : t.insert a b' = (t.erase a).insert a b' := by
    refine ext_lookup fun x => ?_
    by_cases hx : x = a
    · subst hx
      rw [lookup_insert, lookup_insert]
    · rw [lookup_insert_of_ne _ hx, lookup_insert_of_ne _ hx, lookup_erase_ne hx]
  rw [hins, tally_insert_of_notMem w notMem_erase_self, tally_erase w h]

/-- Totals go through additive maps. -/
theorem map_tally {N : Type} [AddCommGroup N] (f : M →+ N) (t : Finmap fun _ : α => β) :
    f (tally w t) = tally (fun a b => f (w a b)) t := by
  rw [tally, map_sum]
  refine sum_congr rfl fun a _ => ?_
  cases t.lookup a with
  | none => exact map_zero f
  | some b => rfl

theorem tally_add (w' : α → β → M) (t : Finmap fun _ : α => β) :
    tally (fun a b => w a b + w' a b) t = tally w t + tally w' t := by
  rw [tally, tally, tally, ← sum_add_distrib]
  refine sum_congr rfl fun a _ => ?_
  cases t.lookup a with
  | none => exact (add_zero 0).symm
  | some b => rfl

/-- The weights of an entry bound one another only through the entry itself. -/
theorem tally_congr {w' : α → β → M} (h : ∀ a b, t.lookup a = some b → w a b = w' a b) :
    tally w t = tally w' t := by
  refine sum_congr rfl fun x hx => ?_
  obtain ⟨b, hb⟩ := mem_iff.1 (mem_keys.1 hx)
  rw [hb, elim_some, elim_some, h x b hb]

section Order

variable [PartialOrder M] [IsOrderedAddMonoid M]

variable {w}

theorem tally_nonneg (hw : ∀ a b, 0 ≤ w a b) (t : Finmap fun _ : α => β) : 0 ≤ tally w t := by
  refine sum_nonneg fun a _ => ?_
  cases t.lookup a with
  | none => exact le_rfl
  | some b => exact hw a b

theorem tally_le_tally {w' : α → β → M} (hw : ∀ a b, t.lookup a = some b → w a b ≤ w' a b) :
    tally w t ≤ tally w' t := by
  refine sum_le_sum fun a _ => ?_
  cases h : t.lookup a with
  | none => exact le_rfl
  | some b => exact hw a b h

theorem tally_mono {w' : α → β → M} (hw : ∀ a b, w a b ≤ w' a b) (t : Finmap fun _ : α => β) :
    tally w t ≤ tally w' t :=
  tally_le_tally fun a b _ => hw a b

theorem tally_erase_le (hw : ∀ a b, 0 ≤ w a b) (t : Finmap fun _ : α => β) (a : α) :
    tally w (t.erase a) ≤ tally w t := by
  cases h : t.lookup a with
  | none =>
    have herase : t.erase a = t := by
      refine ext_lookup fun x => ?_
      by_cases hx : x = a
      · subst hx
        rw [lookup_erase, h]
      · rw [lookup_erase_ne hx]
    rw [herase]
  | some b =>
    rw [tally_erase w h]
    exact sub_le_self _ (hw a b)

/-- An entry weighs no more than all of them. -/
theorem le_tally (hw : ∀ a b, 0 ≤ w a b) (h : t.lookup a = some b) : w a b ≤ tally w t := by
  have hle := tally_nonneg hw (t.erase a)
  rw [tally_erase w h] at hle
  exact sub_nonneg.1 hle

end Order

end Finmap
