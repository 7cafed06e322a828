import HVault.Data.ParentGraph

/-!
# The folder-graph helpers

`getAncestorChain` and `hasCycle`, one bounded `$graphLookup` each. They see of the folders only
which of them are stored and the parent each one names.
-/

namespace HVault

open ParentGraph

variable {α : Type} [DecidableEq α] {g : Parents α}

def maxFoldersPerUser : ℕ := 500

/-- The ancestors of a folder, from its parent up, and its depth. -/
def getAncestorChain (g : Parents α) (folderId : α) (maxDepth : ℕ) : List α × ℕ :=
  match g folderId with
  | none => ([], 0)
  | some parent =>
    let ancestorIds := graphLookup g (maxDepth + 1) parent []
    (ancestorIds, ancestorIds.length + 1)

/-- Whether a folder is in its own ancestor chain. -/
def hasCycle (g : Parents α) (folderId : α) : Bool :=
  decide (folderId ∈ (getAncestorChain g folderId maxFoldersPerUser).1)

/-- **The cycle check is exact** where there are no more folders than an account may have. -/
theorem hasCycle_iff {ids : Finset α} (hids : ∀ x, (g x).isSome → x ∈ ids)
    (hcap : ids.card ≤ maxFoldersPerUser) (id : α) : hasCycle g id = true ↔ Looped g id := by
  rw [hasCycle, decide_eq_true_iff, getAncestorChain]
  cases hid : g id with
  | none =>
    -- a folder that is not stored is on no loop
    refine ⟨fun h => (List.not_mem_nil h).elim, fun h => ?_⟩
    obtain ⟨b, hb, -⟩ := h.names
    have hb : g id = some (some b) := hb
    rw [hid] at hb
    cases hb
  | some parent => exact mem_graphLookup_iff hids (hcap.trans (Nat.le_succ _)) hid

end HVault
