import Mathlib.Data.Int.Notation
import HVault.Data.OrderedMap

/-!
# Documents, filters and updates

A document store's document as a map from paths to values, the filters that select it and the
updates that change it, over any type of paths. A filter is what its object literal says: one
condition a path, and at most one `$or` and one `$and` clause.
-/

namespace DocStore

/-- A stored value. A date is its number of milliseconds. -/
inductive Value where
  | bool (b : Bool)
  | number (n : ℤ)
  | text (s : String)
  | texts (l : List String)
  deriving DecidableEq

/-- A document: the value at each path, if any. -/
abbrev Document (π : Type) := π → Option Value

/-- A condition on the value at one path. -/
inductive Cond where
  /-- Equal, or an array that has it. -/
  | eq (v : Value)
  | ne (v : Value)
  /-- Missing or `null`. -/
  | null
  /-- `{ $exists: false }` -/
  | absent
  | lt (n : ℤ)
  | le (n : ℤ)

namespace Cond

/-- Whether a value is `v`, or an array that has `v`. -/
def isValue (v : Value) : Option Value → Bool
  | none => false
  | some (.texts l) =>
    match v with
    | .text s => l.contains s
    | v => v = .texts l
  | some w => v = w

/-- Whether a condition holds of the value at its path. -/
def holds : Cond → Option Value → Bool
  | eq v, x => isValue v x
  | ne v, x => !isValue v x
  | null, x => x.isNone
  | absent, x => x.isNone
  | lt n, some (.number m) => m < n
  | le n, some (.number m) => m ≤ n
  | lt _, _ => false
  | le _, _ => false

end Cond

variable {π : Type} [DecidableEq π]

/-- A filter: conditions by path, the alternatives of its `$or`, and the `$or` clauses of its
`$and`. -/
structure Filter (π : Type) where
  paths : OrderedMap π Cond
  or : Option (List (π × Cond))
  and : Option (List (List (π × Cond)))

namespace Filter

/-- A filter without clauses. -/
def ofList (conds : List (π × Cond)) : Filter π := ⟨.ofList conds, none, none⟩

/-- Whether one of the alternatives holds. -/
def anyHolds (alternatives : List (π × Cond)) (d : Document π) : Bool :=
  alternatives.any fun a => a.2.holds (d a.1)

/-- Whether a document is selected. -/
def selects (f : Filter π) (d : Document π) : Bool :=
  f.paths.entries.all (fun e => e.2.holds (d e.1)) &&
    (match f.or with
      | none => true
      | some alternatives => anyHolds alternatives d) &&
    (match f.and with
      | none => true
      | some clauses => clauses.all fun c => anyHolds c d)

theorem holds_of_selects {f : Filter π} {d : Document π} (h : f.selects d = true)
    (hu : f.paths.Unique) {p : π} {c : Cond} (hc : f.paths.get p = some c) :
    c.holds (d p) = true := by
  simp only [selects, Bool.and_eq_true, List.all_eq_true] at h
  exact h.1.1 (p, c) ((OrderedMap.getIn_eq_some_iff hu p c).1 hc)

omit [DecidableEq π] in
theorem anyHolds_of_selects {f : Filter π} {d : Document π} (h : f.selects d = true)
    {alternatives : List (π × Cond)} (hor : f.or = some alternatives) :
    anyHolds alternatives d = true := by
  simp only [selects, Bool.and_eq_true, hor] at h
  exact h.1.2

omit [DecidableEq π] in
theorem anyHolds_of_selects_and {f : Filter π} {d : Document π} (h : f.selects d = true)
    {clauses : List (List (π × Cond))} (hand : f.and = some clauses)
    {alternatives : List (π × Cond)} (hmem : alternatives ∈ clauses) :
    anyHolds alternatives d = true := by
  simp only [selects, Bool.and_eq_true, hand, List.all_eq_true] at h
  exact h.2 alternatives hmem

end Filter

/-- An update: what its operators say of each path. -/
structure Update (π : Type) where
  set : OrderedMap π Value
  unset : OrderedMap π Unit
  pull : OrderedMap π Value
  inc : OrderedMap π ℤ

namespace Update

/-- The update that changes nothing. -/
def none : Update π := ⟨.empty, .empty, .empty, .empty⟩

/-- A value with `v` pulled out of it. -/
def pulled (v : Value) : Option Value → Option Value
  | some (.texts l) =>
    match v with
    | .text s => some (.texts (l.filter (· ≠ s)))
    | _ => some (.texts l)
  | x => x

/-- A value incremented; a missing one counts as zero. -/
def incremented (n : ℤ) : Option Value → Option Value
  | some (.number m) => some (.number (m + n))
  | Option.none => some (.number n)
  | x => x

/-- A document after an update. -/
def apply (u : Update π) (d : Document π) : Document π := fun p =>
  if u.unset.has p then Option.none
  else
    let value := match u.set.get p with
      | some v => some v
      | Option.none => d p
    let value := match u.inc.get p with
      | some n => incremented n value
      | Option.none => value
    match u.pull.get p with
    | some v => pulled v value
    | Option.none => value

end Update

end DocStore
