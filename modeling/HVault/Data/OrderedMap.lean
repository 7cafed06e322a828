import Mathlib.Data.List.Basic

/-!
# Insertion-ordered maps

A map that remembers the order in which its keys were first set, as the `Map` of JavaScript
does: setting a key that is there replaces its value in place, setting a new one appends.
-/

/-- A map from `κ` to `ν` with its keys in insertion order. -/
structure OrderedMap (κ ν : Type) where
  entries : List (κ × ν)

namespace OrderedMap

open List

variable {κ ν α : Type} [DecidableEq κ]

/-- The map without entries. -/
def empty : OrderedMap κ ν := ⟨[]⟩

/-- The value of a key in a list of entries. -/
def getIn (k : κ) : List (κ × ν) → Option ν
  | [] => none
  | (k', v) :: rest => if k' = k then some v else getIn k rest

/-- The entries after `k` has been set to `v`. -/
def setIn (k : κ) (v : ν) : List (κ × ν) → List (κ × ν)
  | [] => [(k, v)]
  | (k', v') :: rest => if k' = k then (k, v) :: rest else (k', v') :: setIn k v rest

/-- The value of `k`, when it is there. -/
def get (m : OrderedMap κ ν) (k : κ) : Option ν := getIn k m.entries

/-- Whether `k` is there. -/
def has (m : OrderedMap κ ν) (k : κ) : Bool := (m.get k).isSome

/-- The map with `k` set to `v`. -/
def set (m : OrderedMap κ ν) (k : κ) (v : ν) : OrderedMap κ ν := ⟨setIn k v m.entries⟩

/-- The values in the order of their keys. -/
def values (m : OrderedMap κ ν) : List ν := m.entries.map (·.2)

/-- The map has each key once. -/
def Unique (m : OrderedMap κ ν) : Prop := (m.entries.map (·.1)).Nodup

omit [DecidableEq κ] in
theorem unique_empty : (empty : OrderedMap κ ν).Unique := nodup_nil

variable (k : κ)

@[simp] theorem get_empty : (empty : OrderedMap κ ν).get k = none := rfl

theorem getIn_setIn (k' : κ) (v : ν) (es : List (κ × ν)) :
    getIn k' (setIn k v es) = if k' = k then some v else getIn k' es := by
  induction es with
  | nil =>
    by_cases h : k' = k
    · simp [setIn, getIn, h]
    · simp [setIn, getIn, h, Ne.symm h]
  | cons e rest ih =>
    obtain ⟨k'', v''⟩ := e
    by_cases h : k'' = k
    · subst h
      by_cases h' : k' = k''
      · simp [setIn, getIn, h']
      · simp [setIn, getIn, h', Ne.symm h']
    · by_cases h' : k'' = k'
      · subst h'
        simp [setIn, getIn, h]
      · simp [setIn, getIn, h, h', ih]

/-- Setting a key changes its value and no other. -/
theorem get_set (m : OrderedMap κ ν) (k k' : κ) (v : ν) :
    (m.set k v).get k' = if k' = k then some v else m.get k' := getIn_setIn k k' v m.entries

theorem keys_setIn (v : ν) (es : List (κ × ν)) :
    (setIn k v es).map (·.1) = if k ∈ es.map (·.1) then es.map (·.1) else es.map (·.1) ++ [k] := by
  induction es with
  | nil => rfl
  | cons e rest ih =>
    obtain ⟨k', v'⟩ := e
    by_cases h : k' = k
    · simp [setIn, h]
    · by_cases h' : k ∈ rest.map (·.1)
      · rw [if_pos h'] at ih
        simp [setIn, h, ih, h']
      · rw [if_neg h'] at ih
        simp [setIn, h, Ne.symm h, ih, h']

variable {m : OrderedMap κ ν}

theorem Unique.set (h : m.Unique) (k : κ) (v : ν) : (m.set k v).Unique := by
  unfold Unique
  rw [OrderedMap.set, keys_setIn]
  split
  · exact h
  · rename_i hk
    exact nodup_append.2 ⟨h, by simp, fun a ha b hb => by
      rw [mem_singleton.1 hb]
      exact fun hab => hk (hab ▸ ha)⟩

theorem getIn_eq_some_iff {es : List (κ × ν)} (h : (es.map (·.1)).Nodup) (k : κ) (v : ν) :
    getIn k es = some v ↔ (k, v) ∈ es := by
  induction es with
  | nil => simp [getIn]
  | cons e rest ih =>
    obtain ⟨k', v'⟩ := e
    rw [map_cons, nodup_cons] at h
    by_cases hk : k' = k
    · subst hk
      have hrest : (k', v) ∉ rest := fun hm => h.1 (mem_map.2 ⟨_, hm, rfl⟩)
      simp [getIn, hrest, eq_comm]
    · simp [getIn, hk, Ne.symm hk, ih h.2]

/-- In a map with unique keys, the values are what the keys give. -/
theorem Unique.mem_values (h : m.Unique) (v : ν) : v ∈ m.values ↔ ∃ k, m.get k = some v := by
  constructor
  · intro hv
    obtain ⟨⟨k, v'⟩, hmem, rfl⟩ := mem_map.1 hv
    exact ⟨k, (getIn_eq_some_iff h k v').2 hmem⟩
  · rintro ⟨k, hk⟩
    exact mem_map.2 ⟨(k, v), (getIn_eq_some_iff h k v).1 hk, rfl⟩

/-! ### Spreading one map over another -/

/-- A map with the given entries, set one after another. -/
def ofList (es : List (κ × ν)) : OrderedMap κ ν := es.foldl (fun m e => m.set e.1 e.2) empty

/-- `{ ...m, ...m' }`: the entries of `m'` set over those of `m`. -/
def spread (m m' : OrderedMap κ ν) : OrderedMap κ ν :=
  m'.entries.foldl (fun m e => m.set e.1 e.2) m

/-- The entries whose keys satisfy `q`. -/
def filterKeys (q : κ → Bool) (m : OrderedMap κ ν) : OrderedMap κ ν :=
  ⟨m.entries.filter fun e => q e.1⟩

theorem Unique.foldl_set (h : m.Unique) (es : List (κ × ν)) :
    (es.foldl (fun m e => m.set e.1 e.2) m).Unique := by
  induction es generalizing m with
  | nil => exact h
  | cons e rest ih => exact ih (h.set e.1 e.2)

variable (es : List (κ × ν))

theorem unique_ofList : (ofList es).Unique := unique_empty.foldl_set es

theorem Unique.spread (h : m.Unique) (m' : OrderedMap κ ν) :
    (m.spread m').Unique := h.foldl_set m'.entries

theorem get_foldl_set (h : (es.map (·.1)).Nodup) (m : OrderedMap κ ν) (k : κ) :
    (es.foldl (fun m e => m.set e.1 e.2) m).get k = (getIn k es).or (m.get k) := by
  induction es generalizing m with
  | nil => rfl
  | cons e rest ih =>
    obtain ⟨k', v⟩ := e
    rw [map_cons, nodup_cons] at h
    rw [foldl_cons, ih h.2, get_set]
    by_cases hk : k' = k
    · subst hk
      have hnone : getIn k' rest = none := by
        cases hget : getIn k' rest with
        | none => rfl
        | some w => exact (h.1 (mem_map.2 ⟨_, (getIn_eq_some_iff h.2 k' w).1 hget, rfl⟩)).elim
      simp [hnone, getIn]
    · simp [getIn, hk, Ne.symm hk]

/-- Spreading gives the later map's value where it has one. -/
theorem get_spread (m : OrderedMap κ ν) {m' : OrderedMap κ ν} (h : m'.Unique) (k : κ) :
    (m.spread m').get k = (m'.get k).or (m.get k) := get_foldl_set m'.entries h m k

/-! ### Deleting -/

/-- The entries without the one of `k`. -/
def deleteIn (k : κ) : List (κ × ν) → List (κ × ν)
  | [] => []
  | (k', v) :: rest => if k' = k then rest else (k', v) :: deleteIn k rest

/-- The map without `k`. -/
def delete (m : OrderedMap κ ν) (k : κ) : OrderedMap κ ν := ⟨deleteIn k m.entries⟩

theorem deleteIn_sublist : (deleteIn k es).Sublist es := by
  induction es with
  | nil => exact List.Sublist.slnil
  | cons e rest ih =>
    obtain ⟨k', v⟩ := e
    unfold deleteIn
    split
    · exact sublist_cons_self _ _
    · exact ih.cons_cons _

theorem Unique.delete (h : m.Unique) (k : κ) : (m.delete k).Unique :=
  List.Nodup.sublist ((deleteIn_sublist k m.entries).map _) h

theorem length_deleteIn {k : κ} {es : List (κ × ν)} (h : k ∈ es.map (·.1)) :
    (deleteIn k es).length + 1 = es.length := by
  induction es with
  | nil => simp at h
  | cons e rest ih =>
    obtain ⟨k', v⟩ := e
    unfold deleteIn
    split
    · rfl
    · rename_i hne
      have hrest : k ∈ rest.map (·.1) := by simpa [Ne.symm hne] using h
      rw [length_cons, length_cons, ih hrest]

/-- Deleting the key of an entry in the middle takes that entry out. -/
theorem deleteIn_append {k : κ} {v : ν} {pre post : List (κ × ν)} (h : k ∉ pre.map (·.1)) :
    deleteIn k (pre ++ (k, v) :: post) = pre ++ post := by
  induction pre with
  | nil => simp [deleteIn]
  | cons e pre ih =>
    obtain ⟨k', v'⟩ := e
    have hne : k' ≠ k := by
      intro hk
      simp [hk] at h
    have hpre : k ∉ pre.map (·.1) := fun hmem => h (mem_cons_of_mem _ hmem)
    simp [deleteIn, hne, ih hpre]

end OrderedMap
