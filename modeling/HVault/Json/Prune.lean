import HVault.Json.RoundTrip

/-!
# Members left out at every depth

`Value.prune` leaves the members under some keys out of every object of a value, `Value.levels` says
how deep objects and arrays are nested in it.
-/

namespace Json

open List Value

mutual

def Value.prune (drops : Utf16 → Bool) : Value → Value
  | .array items => .array (pruneItems drops items)
  | .object fields => .object (pruneFields drops fields)
  | v => v

def pruneItems (drops : Utf16 → Bool) : List Value → List Value
  | [] => []
  | v :: items => v.prune drops :: pruneItems drops items

def pruneFields (drops : Utf16 → Bool) : List (Utf16 × Value) → List (Utf16 × Value)
  | [] => []
  | (key, v) :: fields =>
    if drops key then pruneFields drops fields
    else (key, v.prune drops) :: pruneFields drops fields

end

mutual

def Value.levels : Value → ℕ
  | .array items => itemsLevels items + 1
  | .object fields => fieldsLevels fields + 1
  | _ => 0

def itemsLevels : List Value → ℕ
  | [] => 0
  | v :: items => max v.levels (itemsLevels items)

def fieldsLevels : List (Utf16 × Value) → ℕ
  | [] => 0
  | (_, v) :: fields => max v.levels (fieldsLevels fields)

end

variable (drops : Utf16 → Bool)

/-- The members that stay, each with its own value pruned. -/
theorem pruneFields_eq (fields : List (Utf16 × Value)) : pruneFields drops fields =
    (fields.filter fun field => ! drops field.1).map fun field => (field.1, field.2.prune drops) := by
  induction fields with
  | nil => rfl
  | cons field fields ih =>
    rw [pruneFields, filter_cons, ih]
    cases drops field.1 with
    | true => rfl
    | false => rfl

theorem pairwise_pruneFields {fields : List (Utf16 × Value)}
    (h : fields.Pairwise fun a b => Follows a.1 b.1) :
    (pruneFields drops fields).Pairwise fun a b => Follows a.1 b.1 := by
  rw [pruneFields_eq, pairwise_map]
  exact h.filter _

mutual

theorem prune_prune : ∀ v : Value, (v.prune drops).prune drops = v.prune drops
  | .null => rfl
  | .bool _ => rfl
  | .number _ => rfl
  | .string _ => rfl
  | .array items => by
    rw [prune, prune, pruneItems_pruneItems items]
  | .object fields => by
    rw [prune, prune, pruneFields_pruneFields fields]

theorem pruneItems_pruneItems : ∀ items : List Value,
    pruneItems drops (pruneItems drops items) = pruneItems drops items
  | [] => rfl
  | v :: items => by
    rw [pruneItems, pruneItems, prune_prune v, pruneItems_pruneItems items]

theorem pruneFields_pruneFields : ∀ fields : List (Utf16 × Value),
    pruneFields drops (pruneFields drops fields) = pruneFields drops fields
  | [] => rfl
  | (key, v) :: fields => by
    rw [pruneFields]
    by_cases h : drops key = true
    · rw [if_pos h, pruneFields_pruneFields fields]
    · rw [if_neg h, pruneFields, if_neg h, prune_prune v, pruneFields_pruneFields fields]

end

mutual

theorem ordered_prune : ∀ {v : Value}, Ordered v → Ordered (v.prune drops)
  | .null, _ => .null
  | .bool b, _ => .bool b
  | .number n, _ => .number n
  | .string s, _ => .string s
  | .array items, .array h => by
    rw [prune]
    exact .array (ordered_pruneItems h)
  | .object fields, .object hfollows h => by
    rw [prune]
    exact .object (pairwise_pruneFields drops hfollows) (ordered_pruneFields h)

theorem ordered_pruneItems : ∀ {items : List Value}, (∀ v ∈ items, Ordered v) →
    ∀ v ∈ pruneItems drops items, Ordered v
  | [], _, _, hv => absurd hv not_mem_nil
  | v :: items, h, w, hw => by
    rw [pruneItems, mem_cons] at hw
    rcases hw with rfl | hw
    · exact ordered_prune (h v mem_cons_self)
    · exact ordered_pruneItems (fun v hv => h v (mem_cons_of_mem _ hv)) w hw

theorem ordered_pruneFields : ∀ {fields : List (Utf16 × Value)},
    (∀ field ∈ fields, Ordered field.2) → ∀ field ∈ pruneFields drops fields, Ordered field.2
  | [], _, _, hfield => absurd hfield not_mem_nil
  | (key, v) :: fields, h, field, hfield => by
    have hrest := ordered_pruneFields fun f hf => h f (mem_cons_of_mem _ hf)
    rw [pruneFields] at hfield
    by_cases hdrop : drops key = true
    · rw [if_pos hdrop] at hfield
      exact hrest field hfield
    · rw [if_neg hdrop, mem_cons] at hfield
      rcases hfield with rfl | hfield
      · exact ordered_prune (h (key, v) mem_cons_self)
      · exact hrest field hfield

end

end Json
