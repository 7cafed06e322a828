import Mathlib.Data.List.Sort
import HVault.Json.Schema

/-!
# Values up to the order of properties

Two values are the `Same` when they differ in the order of their properties and in the form of their
strings alone; `norm` is the form in which strings are compared.

An object whose properties are set in the order of their names holds them in an order that depends on
their names only (`inNameOrder_eq_iff`). It is not the order of the names: a script puts array
elements first.
-/

namespace Json

open List

section Properties

variable {V : Type} {key : Utf16} {v : V} {fields fields' : List (Utf16 × V)}

/-! ## Setting properties -/

theorem mem_assign {field : Utf16 × V} (h : field ∈ assign key v fields) :
    field.1 = key ∨ field ∈ fields := by
  induction fields with
  | nil => exact .inl (by rw [mem_singleton.1 h])
  | cons head fields ih =>
    obtain ⟨k, w⟩ := head
    rw [assign] at h
    split_ifs at h with hkey hfirst
    · rcases mem_cons.1 h with rfl | h
      · exact .inl rfl
      · exact .inr (mem_cons_of_mem _ h)
    · rcases mem_cons.1 h with rfl | h
      · exact .inl rfl
      · exact .inr h
    · rcases mem_cons.1 h with rfl | h
      · exact .inr mem_cons_self
      · exact (ih h).imp_right (mem_cons_of_mem _)

@[simp] theorem lookup_assign : lookup key (assign key v fields) = some v := by
  induction fields with
  | nil => simp [assign, lookup]
  | cons field fields ih =>
    rw [assign]
    split_ifs with hkey hfirst
    · simp [lookup]
    · simp [lookup]
    · unfold lookup at ih ⊢
      rw [find?_cons_of_neg (by simpa using hkey), ih]

theorem lookup_assign_of_ne {key' : Utf16} (h : key' ≠ key) :
    lookup key' (assign key v fields) = lookup key' fields := by
  have hskip {w : V} {rest : List (Utf16 × V)} :
      lookup key' ((key, w) :: rest) = lookup key' rest := by
    simp [lookup, h.symm]
  induction fields with
  | nil => exact hskip
  | cons field fields ih =>
    obtain ⟨k, w⟩ := field
    rw [assign]
    split_ifs with hkey hfirst
    · rw [hkey, hskip, hskip]
    · exact hskip
    · unfold lookup at ih ⊢
      by_cases hk : k = key'
      · simp [hk]
      · simp [hk, ih]

/-- Of what a property is set to twice, the last counts. -/
theorem assign_assign {w : V} : assign key v (assign key w fields) = assign key v fields := by
  induction fields with
  | nil => simp [assign]
  | cons field fields ih =>
    obtain ⟨k, x⟩ := field
    by_cases hkey : k = key
    · simp [assign, hkey]
    · by_cases hfirst : comesFirst key k
      · simp [assign, hkey, hfirst]
      · simp [assign, hkey, hfirst, ih]

/-- What comes before a property comes before all that follow it. -/
theorem follows_of_comesFirst {k k' : Utf16} (hfirst : comesFirst key k = true)
    (h : Follows k k') : Follows key k' := by
  obtain ⟨hne, hlast⟩ := h
  unfold comesFirst at hfirst hlast
  unfold Follows comesFirst
  cases hkey : arrayIndex key with
  | none => simp [hkey] at hfirst
  | some i =>
    simp only [hkey] at hfirst
    cases hk' : arrayIndex k' with
    | none =>
      refine ⟨fun heq => ?_, rfl⟩
      rw [heq, hk'] at hkey
      cases hkey
    | some m =>
      simp only [hk'] at hlast
      cases hk : arrayIndex k with
      | none => simp [hk] at hlast
      | some j =>
        simp only [hk, decide_eq_true_eq, decide_eq_false_iff_not] at hfirst hlast
        refine ⟨fun heq => ?_, by simp only [decide_eq_false_iff_not]; omega⟩
        rw [heq, hk'] at hkey
        have := Option.some.inj hkey
        omega

/-- An object stays in its order when a property is set. -/
theorem pairwise_follows_assign (h : fields.Pairwise fun a b => Follows a.1 b.1) :
    (assign key v fields).Pairwise fun a b => Follows a.1 b.1 := by
  induction fields with
  | nil => simp [assign]
  | cons head fields ih =>
    obtain ⟨k, w⟩ := head
    obtain ⟨hhead, hrest⟩ := pairwise_cons.1 h
    rw [assign]
    split_ifs with hkey hfirst
    · subst hkey
      exact pairwise_cons.2 ⟨hhead, hrest⟩
    · have hne : key ≠ k := fun heq => hkey heq.symm
      refine pairwise_cons.2 ⟨fun field hfield => ?_, h⟩
      rcases mem_cons.1 hfield with rfl | hfield
      · refine ⟨hne, ?_⟩
        -- the head does not come before what comes before it
        unfold comesFirst at hfirst ⊢
        cases hi : arrayIndex key with
        | none => simp [hi] at hfirst
        | some i =>
          cases hj : arrayIndex k with
          | none => rfl
          | some j =>
            simp only [hi, hj, decide_eq_true_eq, decide_eq_false_iff_not] at hfirst ⊢
            omega
      · exact follows_of_comesFirst hfirst (hhead field hfield)
    · refine pairwise_cons.2 ⟨fun field hfield => ?_, ih hrest⟩
      rcases mem_assign hfield with heq | hfield
      · rw [heq]
        exact ⟨hkey, Bool.eq_false_iff.2 hfirst⟩
      · exact hhead field hfield

theorem pairwise_follows_assignAll (fields : List (Utf16 × V)) :
    (assignAll fields).Pairwise fun a b => Follows a.1 b.1 := by
  have hfold : ∀ object : List (Utf16 × V), object.Pairwise (fun a b => Follows a.1 b.1) →
      (fields.foldl (fun object field => assign field.1 field.2 object) object).Pairwise
        fun a b => Follows a.1 b.1 := by
    induction fields with
    | nil => exact fun object h => h
    | cons field fields ih => exact fun object h => ih _ (pairwise_follows_assign h)
  exact hfold [] List.Pairwise.nil

/-- A property with a new name is added. -/
theorem perm_assign (h : key ∉ fields.map (·.1)) : (assign key v fields).Perm ((key, v) :: fields) := by
  induction fields with
  | nil => exact .refl _
  | cons head fields ih =>
    obtain ⟨k, w⟩ := head
    rw [map_cons, mem_cons, not_or] at h
    rw [assign, if_neg (Ne.symm h.1)]
    split_ifs
    · exact .refl _
    · exact ((ih h.2).cons _).trans (.swap _ _ _)

theorem perm_assignAll (h : (fields.map (·.1)).Nodup) : (assignAll fields).Perm fields := by
  have hfold : ∀ object : List (Utf16 × V), ((object ++ fields).map (·.1)).Nodup →
      (fields.foldl (fun object field => assign field.1 field.2 object) object).Perm
        (object ++ fields) := by
    clear h
    induction fields with
    | nil =>
      intro object _
      rw [append_nil]
      exact .refl _
    | cons field fields ih =>
      intro object hnodup
      have hperm : (object ++ field :: fields).Perm (field :: object ++ fields) := perm_middle
      have hnodup := (hperm.map (·.1)).nodup_iff.1 hnodup
      rw [cons_append, map_cons, nodup_cons] at hnodup
      have hnew : field.1 ∉ object.map (·.1) := fun hmem => hnodup.1 (by
        rw [map_append]
        exact mem_append_left _ hmem)
      have hadded := perm_assign (v := field.2) hnew
      rw [foldl_cons]
      refine (ih _ ?_).trans ((hadded.append_right fields).trans hperm.symm)
      have hkeys := ((hadded.append_right fields).map (·.1)).nodup_iff
      rw [hkeys, cons_append, map_cons, nodup_cons]
      exact hnodup
  have hempty := hfold []
  rw [nil_append] at hempty
  exact hempty h

/-! ## The order of names -/

/-- By their names, code unit by code unit; properties with one name keep their places. -/
def sortByName (fields : List (Utf16 × V)) : List (Utf16 × V) :=
  fields.insertionSort fun a b => a.1 ≤ b.1

/-- The object whose properties were set in the order of their names. -/
def inNameOrder (fields : List (Utf16 × V)) : List (Utf16 × V) := assignAll (sortByName fields)

theorem perm_sortByName (fields : List (Utf16 × V)) : (sortByName fields).Perm fields :=
  perm_insertionSort _ _

theorem pairwise_sortByName (fields : List (Utf16 × V)) :
    (sortByName fields).Pairwise fun a b => a.1 ≤ b.1 := by
  have : Std.Total fun a b : Utf16 × V => a.1 ≤ b.1 := ⟨fun a b => List.le_total a.1 b.1⟩
  have : IsTrans (Utf16 × V) fun a b => a.1 ≤ b.1 := ⟨fun _ _ _ => List.le_trans⟩
  exact pairwise_insertionSort _ fields

/-- Names that differ leave one order. -/
theorem sortByName_eq_of_perm (hperm : fields.Perm fields') (hnodup : (fields.map (·.1)).Nodup) :
    sortByName fields = sortByName fields' := by
  have hsorted : (sortByName fields).Perm (sortByName fields') :=
    (perm_sortByName fields).trans (hperm.trans (perm_sortByName fields').symm)
  refine hsorted.eq_of_pairwise (fun a b ha hb hab hba => ?_) (pairwise_sortByName _)
    (pairwise_sortByName _)
  have ha := (perm_sortByName fields).mem_iff.1 ha
  have hb := hperm.mem_iff.2 ((perm_sortByName fields').mem_iff.1 hb)
  exact inj_on_of_nodup_map hnodup ha hb (List.le_antisymm hab hba)

theorem perm_inNameOrder (hnodup : (fields.map (·.1)).Nodup) : (inNameOrder fields).Perm fields := by
  have hsorted := perm_sortByName fields
  have hkeys := (hsorted.map (·.1)).nodup_iff.2 hnodup
  exact (perm_assignAll hkeys).trans hsorted

/-- **Two objects set in the order of their names are one exactly when their properties are.** -/
theorem inNameOrder_eq_iff (hnodup : (fields.map (·.1)).Nodup)
    (hnodup' : (fields'.map (·.1)).Nodup) :
    inNameOrder fields = inNameOrder fields' ↔ fields.Perm fields' := by
  constructor
  · intro heq
    have hperm := perm_inNameOrder hnodup
    rw [heq] at hperm
    exact hperm.symm.trans (perm_inNameOrder hnodup')
  · intro hperm
    rw [inNameOrder, sortByName_eq_of_perm hperm hnodup, inNameOrder]

end Properties

/-! ## Sameness -/

section Same

variable (norm : Utf16 → Utf16)

mutual

/-- The values differ in the order of properties and in the form of strings at most. -/
def Same : Value → Value → Prop
  | .null, .null => True
  | .bool b, .bool b' => b = b'
  | .number n, .number n' => n = n'
  | .string s, .string s' => norm s = norm s'
  | .array items, .array items' => SameItems items items'
  | .object fields, .object fields' => SameFields fields fields'
  | _, _ => False

/-- One by one. -/
def SameItems : List Value → List Value → Prop
  | [], [] => True
  | v :: items, v' :: items' => Same v v' ∧ SameItems items items'
  | _, _ => False

/-- Each property has one of its own among the others. -/
def SameFields : List (Utf16 × Value) → List (Utf16 × Value) → Prop
  | [], fields' => fields' = []
  | (key, v) :: fields, fields' => ∃ before key' v' after,
      fields' = before ++ (key', v') :: after ∧ norm key = norm key' ∧ Same v v' ∧
        SameFields fields (before ++ after)

end

/-- A value that JSON text denotes (its numbers are finite), with property names that stay apart in
their normal form. -/
inductive Apart : Value → Prop
  | null : Apart .null
  | bool (b : Bool) : Apart (.bool b)
  | number (x : ℚ) (h : Binary64.round53 x = x ∧ |x| < 2 ^ 1024) : Apart (.number (.finite x h))
  | string (s : Utf16) : Apart (.string s)
  | array {items : List Value} (h : ∀ v ∈ items, Apart v) : Apart (.array items)
  | object {fields : List (Utf16 × Value)} (hnames : (fields.map fun field => norm field.1).Nodup)
      (h : ∀ field ∈ fields, Apart field.2) : Apart (.object fields)

variable {norm}

theorem Apart.items {items : List Value} (h : Apart norm (.array items)) :
    ∀ v ∈ items, Apart norm v := by
  cases h with
  | array h => exact h

theorem Apart.fields {fields : List (Utf16 × Value)} (h : Apart norm (.object fields)) :
    (fields.map fun field => norm field.1).Nodup ∧ ∀ field ∈ fields, Apart norm field.2 := by
  cases h with
  | object hnames h => exact ⟨hnames, h⟩

end Same

/-- Text tells values apart. -/
theorem stringify_inj {v w : Value} (hv : Schema.Plain v) (hw : Schema.Plain w) :
    stringify v = stringify w ↔ v = w := by
  constructor
  · intro htext
    have hparse := hv.parse
    rw [htext, hw.parse] at hparse
    exact (Option.some.inj hparse).symm
  · intro heq
    rw [heq]

end Json
