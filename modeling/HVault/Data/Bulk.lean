import HVault.Data.Tally

/-!
# Rewriting every entry of a finite map

`mapVal f t` rewrites each value of a finite map in place. It is what a statement that updates
many rows does: the ids stay, and each row becomes what the statement makes of it.
-/

namespace Finmap

open List

variable {α β : Type} [DecidableEq α]

/-- The map with every value rewritten. -/
def mapVal (f : α → β → β) (t : Finmap fun _ : α => β) : Finmap fun _ : α => β where
  entries := t.entries.map fun e => ⟨e.1, f e.1 e.2⟩
  nodupKeys := by
    have h := t.nodupKeys
    rw [← Multiset.nodup_keys] at h ⊢
    rw [Multiset.keys, Multiset.map_map]
    exact h

variable (f : α → β → β)

/-- Looking up in a list of entries whose values were rewritten. -/
theorem dlookup_map_value (a : α) (l : List (Sigma fun _ : α => β)) :
    dlookup (β := fun _ => β) a (l.map fun e => ⟨e.1, f e.1 e.2⟩)
      = (dlookup (β := fun _ => β) a l).map (f a) := by
  induction l with
  | nil => rfl
  | cons e rest ih =>
    obtain ⟨x, b⟩ := e
    by_cases hx : x = a
    · subst hx
      simp
    · have hx' : a ≠ x := Ne.symm hx
      have hnew := dlookup_cons_ne (rest.map fun e => (⟨e.1, f e.1 e.2⟩ : Sigma fun _ : α => β))
        ⟨x, f x b⟩ hx'
      have hold := dlookup_cons_ne rest (⟨x, b⟩ : Sigma fun _ : α => β) hx'
      rw [hold, ← ih]
      exact hnew

variable (t : Finmap fun _ : α => β)

@[simp] theorem lookup_mapVal (a : α) : (mapVal f t).lookup a = (t.lookup a).map (f a) := by
  refine Finmap.induction_on t fun l => ?_
  exact dlookup_map_value f a l.entries

@[simp] theorem mem_mapVal (a : α) : a ∈ mapVal f t ↔ a ∈ t := by
  rw [← lookup_isSome, ← lookup_isSome, lookup_mapVal, Option.isSome_map]

@[simp] theorem keys_mapVal : (mapVal f t).keys = t.keys := by
  ext a
  rw [mem_keys, mem_keys, mem_mapVal]

theorem tally_mapVal {M : Type} [AddCommGroup M] (w : α → β → M) (f : α → β → β)
    (t : Finmap fun _ : α => β) : tally w (mapVal f t) = tally (fun a b => w a (f a b)) t := by
  rw [tally, tally, keys_mapVal]
  refine Finset.sum_congr rfl fun a _ => ?_
  rw [lookup_mapVal]
  cases t.lookup a with
  | none => rfl
  | some b => rfl

end Finmap
