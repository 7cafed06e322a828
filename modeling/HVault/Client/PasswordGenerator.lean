import Mathlib.Data.List.GetD
import Mathlib.Data.Set.Card
import HVault.Data.ClassWords
import HVault.Data.MixedRadix
import HVault.Data.OrderedMap
import HVault.Json.Text

/-!
# The password generator

A policy is a length, and classes of characters with how many of each there have to be. The generator
counts the passwords that a policy allows with a table, and finds the password of a number with the same
table. A state of the table is what is still due of each class, as one number in mixed radix. Every
password has its number (`unrank_bijection`).

The functions take what reads a list, so that what they say does not rest on what is read behind the
end of one. A cell is a natural number: there are at most 1,296 states, so that none is cut off.
-/

namespace HVault.PasswordGenerator

open ClassWords MixedRadix Json List Nat

structure PasswordClass where
  alphabet : Utf16
  minimum : ℕ
  deriving DecidableEq, Repr

structure GeneratorSpec where
  length : ℕ
  classes : List PasswordClass
  deriving DecidableEq, Repr

inductive Fault where
  /-- `unrankPassword` is given a number that no password has. -/
  | indexOutsideRange
  /-- `charAt` is given an index behind the end of an alphabet. -/
  | characterOutsideRange
  /-- A table is read behind its end. -/
  | readOutsideRange
  deriving DecidableEq, Repr

/-- What a read of a list is. -/
abbrev Reader := List ℕ → ℕ → Except Fault ℕ

/-- As the source reads: `0` behind the end. -/
def cellAt : Reader := fun cells index => .ok (cells.getD index 0)

/-- As it would have to read for no read to be behind the end. -/
def cellWithin : Reader := fun cells index =>
  if h : index < cells.length then .ok (cells.get ⟨index, h⟩) else .error .readOutsideRange

/-- A reader that reads what is there. -/
def Reads (read : Reader) : Prop :=
  ∀ (cells : List ℕ) (index : ℕ) (value : ℕ), cells[index]? = some value →
    read cells index = .ok value

theorem reads_cellAt : Reads cellAt := fun cells index value h => by
  unfold cellAt
  rw [getD_eq_getElem?_getD, h]
  rfl

theorem reads_cellWithin : Reads cellWithin := fun cells index value h => by
  obtain ⟨hlt, rfl⟩ := List.getElem?_eq_some_iff.1 h
  exact dif_pos hlt

def charAt (alphabet : Utf16) (index : ℕ) : Except Fault UInt16 :=
  match alphabet[index]? with
  | some char => .ok char
  | none => .error .characterOutsideRange

/-! ## The table -/

structure CountTable where
  /-- The counts, row by row: with `r` characters to go from `state`, at `r * states + state`. -/
  cells : List ℕ
  states : ℕ
  /-- What a character of class `c` makes of `state`, at `state * classCount + c`. -/
  decrements : List ℕ
  initialState : ℕ
  length : ℕ
  deriving DecidableEq, Repr

/-- One more than the minimum of each class. -/
def radices (classes : List PasswordClass) : List ℕ := classes.map fun cls => cls.minimum + 1

def sizes (classes : List PasswordClass) : List ℕ := classes.map fun cls => cls.alphabet.length

def decrement (state stride minimum : ℕ) : ℕ :=
  let digit := state / stride % (minimum + 1)
  if digit > 0 then state - stride else state

def buildDecrements (classes : List PasswordClass) (states : ℕ) : List ℕ :=
  (List.range states).flatMap fun state => classes.zipIdx.map fun (cls, c) =>
    decrement state (place (radices classes) c) cls.minimum

def buildInitialState (classes : List PasswordClass) : ℕ :=
  (classes.zipIdx.map fun (cls, c) => cls.minimum * place (radices classes) c).sum

section

variable (read : Reader)

/-- A cell, from the row before its own. -/
def sumCell (cells decrements : List ℕ) (classCount prevBase state : ℕ) :
    List (ℕ × ℕ) → ℕ → Except Fault ℕ
  | [], total => .ok total
  | (size, c) :: more, total => do
    let next ← read decrements (state * classCount + c)
    let sub ← read cells (prevBase + next)
    sumCell cells decrements classCount prevBase state more
      (if sub ≠ 0 then total + size * sub else total)

/-- The rows up to one. In the first, only the state in which nothing is due has a password. -/
def buildCells (classes : List PasswordClass) (states : ℕ) (decrements : List ℕ) :
    ℕ → Except Fault (List ℕ)
  | 0 => .ok (1 :: List.replicate (states - 1) 0)
  | remaining + 1 => do
    let cells ← buildCells classes states decrements remaining
    let row ← (List.range states).mapM fun state =>
      sumCell read cells decrements classes.length (remaining * states) state (sizes classes).zipIdx 0
    .ok (cells ++ row)

def buildTable (spec : GeneratorSpec) : Except Fault CountTable := do
  let states := (radices spec.classes).prod
  let decrements := buildDecrements spec.classes states
  let cells ← buildCells read spec.classes states decrements spec.length
  .ok ⟨cells, states, decrements, buildInitialState spec.classes, spec.length⟩

/-- What the text of a key says: the size and the minimum of each class. -/
def cacheKey (spec : GeneratorSpec) : List (ℕ × ℕ) :=
  spec.classes.map fun cls => (cls.alphabet.length, cls.minimum)

abbrev TableCache := OrderedMap (List (ℕ × ℕ)) CountTable

/-- A table that was built for a longer password does for a shorter one. -/
def tableFor (cache : TableCache) (spec : GeneratorSpec) : Except Fault (CountTable × TableCache) :=
  match (cache.get (cacheKey spec)).filter fun cached => cached.length ≥ spec.length with
  | some cached => .ok (cached, cache)
  | none => do
    let table ← buildTable read spec
    .ok (table, cache.set (cacheKey spec) table)

/-! ## Counting and unranking -/

def countValidPasswords (cache : TableCache) (spec : GeneratorSpec) : Except Fault ℕ := do
  let (table, _) ← tableFor read cache spec
  read table.cells (spec.length * table.states + table.initialState)

/-- What the loop over the classes comes out with at one position. -/
structure Picked where
  char : Option UInt16
  rest : ℕ
  state : ℕ

def pickClass (table : CountTable) (classCount prevBase state : ℕ) :
    List (PasswordClass × ℕ) → ℕ → Except Fault Picked
  | [], rest => .ok ⟨none, rest, state⟩
  | (cls, c) :: more, rest => do
    let next ← read table.decrements (state * classCount + c)
    let sub ← read table.cells (prevBase + next)
    if sub = 0 then pickClass table classCount prevBase state more rest
    else
      let block := cls.alphabet.length * sub
      if rest < block then
        let char ← charAt cls.alphabet (rest / sub)
        .ok ⟨some char, rest % sub, next⟩
      else pickClass table classCount prevBase state more (rest - block)

/-- The characters that remain. -/
def unrankFrom (table : CountTable) (classes : List PasswordClass) :
    ℕ → ℕ → ℕ → Except Fault Utf16
  | 0, _, _ => .ok []
  | remaining + 1, rest, state => do
    let picked ← pickClass read table classes.length (remaining * table.states) state classes.zipIdx rest
    let out ← unrankFrom table classes remaining picked.rest picked.state
    .ok (picked.char.toList ++ out)

def unrankPassword (cache : TableCache) (index : ℤ) (spec : GeneratorSpec) : Except Fault Utf16 := do
  let (table, _) ← tableFor read cache spec
  let total ← read table.cells (spec.length * table.states + table.initialState)
  if index < 0 ∨ (total : ℤ) ≤ index then .error .indexOutsideRange
  else unrankFrom read table spec.classes spec.length index.toNat table.initialState

/-- A cache after any calls. -/
inductive Reached : TableCache → Prop
  | empty : Reached .empty
  | asked {cache cache' : TableCache} {table : CountTable} (spec : GeneratorSpec)
      (h : Reached cache) (hasked : tableFor read cache spec = .ok (table, cache')) : Reached cache'

end

/-! ## What the table holds -/

/-- A cell of a grid that is laid out row by row. -/
theorem getElem?_grid {β : Type} {width : ℕ} (row : ℕ → List β) (hwidth : ∀ i, (row i).length = width)
    {rows i j : ℕ} (hi : i < rows) (hj : j < width) :
    ((range rows).flatMap row)[i * width + j]? = (row i)[j]? := by
  have hlength : ∀ n, ((range n).flatMap row).length = n * width := by
    intro n
    rw [length_flatMap, map_congr_left fun i _ => hwidth i]
    simp
  induction rows with
  | zero => exact (not_lt_zero _ hi).elim
  | succ n ih =>
    rw [range_succ, flatMap_append, flatMap_singleton]
    rcases Nat.lt_succ_iff_lt_or_eq.1 hi with hlt | rfl
    · have hinside : i * width + j < n * width := by
        have hrow := mul_le_mul_right width hlt
        rw [succ_mul] at hrow
        omega
      rw [getElem?_append_left (by rwa [hlength])]
      exact ih hlt
    · rw [getElem?_append_right (by rw [hlength]; omega), hlength, Nat.add_sub_cancel_left]

theorem ok_bind {β γ : Type} (x : β) (f : β → Except Fault γ) : (Except.ok x >>= f) = f x := rfl

theorem mapM_eq_ok {β γ : Type} {f : β → Except Fault γ} {g : β → γ} {l : List β}
    (h : ∀ x ∈ l, f x = .ok (g x)) : l.mapM f = .ok (l.map g) := by
  induction l with
  | nil => rfl
  | cons x l ih =>
    rw [mapM_cons, h x mem_cons_self, ih fun y hy => h y (mem_cons_of_mem _ hy)]
    rfl

variable (classes : List PasswordClass)

theorem length_radices : (radices classes).length = classes.length := length_map _

theorem radices_pos : ∀ b ∈ radices classes, 0 < b := by
  intro b hb
  obtain ⟨cls, -, rfl⟩ := mem_map.1 hb
  exact succ_pos _

theorem getElem?_buildDecrements {classes : List PasswordClass} {states state c : ℕ}
    {cls : PasswordClass} (hstate : state < states) (hc : classes[c]? = some cls) :
    (buildDecrements classes states)[state * classes.length + c]? =
      some (decrement state (place (radices classes) c) cls.minimum) := by
  unfold buildDecrements
  have hlt := (List.getElem?_eq_some_iff.1 hc).1
  rw [getElem?_grid _ (fun state => by rw [length_map, length_zipIdx]) hstate hlt,
    List.getElem?_map, List.getElem?_zipIdx, hc]
  simp

/-- A character lowers what is due of its class. -/
theorem digits_decrement {classes : List PasswordClass} {state c : ℕ} {cls : PasswordClass}
    (hstate : state < (radices classes).prod) (hc : classes[c]? = some cls) :
    decrement state (place (radices classes) c) cls.minimum < (radices classes).prod ∧
      digits (radices classes) (decrement state (place (radices classes) c) cls.minimum) =
        (digits (radices classes) state).modify c pred := by
  have hdigit : (digits (radices classes) state)[c]? =
      some (state / place (radices classes) c % (cls.minimum + 1)) := by
    rw [getElem?_digits]
    unfold radices
    rw [getElem?_map, hc]
    rfl
  unfold decrement
  cases hvalue : state / place (radices classes) c % (cls.minimum + 1) with
  | zero =>
    rw [if_neg (lt_irrefl 0)]
    refine ⟨hstate, ext_getElem? fun i => ?_⟩
    by_cases hi : i = c
    · subst hi
      rw [getElem?_modify_eq, hdigit, hvalue]
      rfl
    · rw [getElem?_modify_ne _ _ (Ne.symm hi)]
  | succ d =>
    rw [if_pos (succ_pos d)]
    rw [hvalue] at hdigit
    have hlower := digits_sub_place (radices_pos classes) ⟨d, hdigit⟩
    exact ⟨(sub_le _ _).trans_lt hstate, hlower.1⟩

/-- A row of the counts. -/
def countRow (classes : List PasswordClass) (states remaining : ℕ) : List ℕ :=
  (List.range states).map fun state =>
    ways (sizes classes) remaining (digits (radices classes) state)

theorem length_countRow (states remaining : ℕ) :
    (countRow classes states remaining).length = states := by
  unfold countRow
  rw [length_map, length_range]

theorem getElem?_countRow {states state : ℕ} (remaining : ℕ) (h : state < states) :
    (countRow classes states remaining)[state]? =
      some (ways (sizes classes) remaining (digits (radices classes) state)) := by
  unfold countRow
  rw [getElem?_map, getElem?_range h]
  rfl

theorem countRow_zero :
    countRow classes (radices classes).prod 0 =
      1 :: replicate ((radices classes).prod - 1) 0 := by
  have hpos : 0 < (radices classes).prod := MixedRadix.prod_pos (radices_pos classes)
  have hlength : (1 :: replicate ((radices classes).prod - 1) 0).length =
      (radices classes).prod := by
    rw [length_cons, length_replicate]
    omega
  refine ext_getElem? fun state => ?_
  by_cases hstate : state < (radices classes).prod
  · rw [getElem?_countRow classes 0 hstate, ways]
    cases state with
    | zero =>
      rw [if_pos]
      · rfl
      · rw [MixedRadix.digits_zero]
        simp
    | succ state =>
      rw [if_neg]
      · rw [getElem?_cons_succ, getElem?_replicate_of_lt (by omega)]
      · intro hall
        have hzero : digits (radices classes) (state + 1) = digits (radices classes) 0 := by
          rw [MixedRadix.digits_zero, eq_replicate_iff, MixedRadix.length_digits]
          exact ⟨rfl, fun d hd => of_decide_eq_true (all_eq_true.1 hall d hd)⟩
        exact succ_ne_zero state (digits_injOn hstate hpos hzero)
  · rw [getElem?_eq_none (by rw [length_countRow]; omega), getElem?_eq_none (by omega)]

section

variable {read : Reader} (hread : Reads read)
include hread

theorem sumCell_eq {classes : List PasswordClass} {cells : List ℕ} {remaining state : ℕ}
    (hstate : state < (radices classes).prod)
    (hcells : ∀ next < (radices classes).prod,
      cells[remaining * (radices classes).prod + next]? =
        some (ways (sizes classes) remaining (digits (radices classes) next)))
    {more : List (ℕ × ℕ)} (hmore : ∀ entry ∈ more, (sizes classes)[entry.2]? = some entry.1)
    (total : ℕ) :
    sumCell read cells (buildDecrements classes (radices classes).prod) classes.length
        (remaining * (radices classes).prod) state more total =
      .ok (total + (more.map fun (size, c) => size *
        ways (sizes classes) remaining ((digits (radices classes) state).modify c pred)).sum) := by
  induction more generalizing total with
  | nil => rfl
  | cons entry more ih =>
    obtain ⟨size, c⟩ := entry
    have hsize := hmore (size, c) mem_cons_self
    obtain ⟨cls, hc, -⟩ := Option.map_eq_some_iff.1 (getElem?_map ▸ hsize)
    obtain ⟨hnext, hdigits⟩ := digits_decrement hstate hc
    have hrest := ih fun entry hentry => hmore entry (mem_cons_of_mem _ hentry)
    rw [sumCell, hread _ _ _ (getElem?_buildDecrements hstate hc)]
    rw [ok_bind, hread _ _ _ (hcells _ hnext), ok_bind, hdigits, hrest, map_cons, sum_cons]
    split
    · rw [add_assoc]
    · rename_i hzero
      have hterm : size * ways (sizes classes) remaining
          ((digits (radices classes) state).modify c pred) = 0 := by
        rw [not_not.1 hzero, mul_zero]
      show _ = Except.ok (total + (size * ways (sizes classes) remaining
        ((digits (radices classes) state).modify c pred) + _))
      rw [hterm, zero_add]

theorem buildCells_eq (classes : List PasswordClass) (remaining : ℕ) :
    buildCells read classes (radices classes).prod
        (buildDecrements classes (radices classes).prod) remaining =
      .ok ((range (remaining + 1)).flatMap (countRow classes (radices classes).prod)) := by
  induction remaining with
  | zero =>
    rw [buildCells, ← countRow_zero]
    simp
  | succ remaining ih =>
    have hrow : (range (radices classes).prod).mapM (fun state =>
        sumCell read ((range (remaining + 1)).flatMap (countRow classes (radices classes).prod))
          (buildDecrements classes (radices classes).prod) classes.length
          (remaining * (radices classes).prod) state (sizes classes).zipIdx 0) =
        .ok (countRow classes (radices classes).prod (remaining + 1)) := by
      refine mapM_eq_ok fun state hstate => ?_
      rw [sumCell_eq hread (mem_range.1 hstate), zero_add, ways]
      · intro next hnext
        rw [getElem?_grid _ (length_countRow classes _) (lt_succ_self _) hnext,
          getElem?_countRow classes remaining hnext]
      · intro entry hentry
        exact mem_zipIdx_iff_getElem?.1 hentry
    rw [buildCells, ih, ok_bind, hrow, ok_bind, @range_succ (remaining + 1), flatMap_append, flatMap_singleton]

theorem buildTable_eq (spec : GeneratorSpec) : buildTable read spec =
    .ok ⟨(range (spec.length + 1)).flatMap
        (countRow spec.classes (radices spec.classes).prod),
      (radices spec.classes).prod, buildDecrements spec.classes (radices spec.classes).prod,
      buildInitialState spec.classes, spec.length⟩ := by
  unfold buildTable
  dsimp only
  rw [buildCells_eq hread]
  rfl

end

/-! ## The table of a policy -/

def minimums (classes : List PasswordClass) : List ℕ := classes.map PasswordClass.minimum

/-- What a table is to hold. -/
structure Tabulates (table : CountTable) (spec : GeneratorSpec) : Prop where
  states : table.states = (radices spec.classes).prod
  decrements : table.decrements = buildDecrements spec.classes (radices spec.classes).prod
  initial : table.initialState = value (radices spec.classes) (minimums spec.classes)
  cell : ∀ r ≤ spec.length, ∀ state < table.states, table.cells[r * table.states + state]? =
    some (ways (sizes spec.classes) r (digits (radices spec.classes) state))

theorem forall₂_minimums : List.Forall₂ (· < ·) (minimums classes) (radices classes) := by
  induction classes with
  | nil => exact .nil
  | cons cls classes ih => exact .cons (lt_succ_self _) ih

variable {spec : GeneratorSpec}

theorem tabulates_buildTable {read : Reader} (hread : Reads read) {table : CountTable}
    (h : buildTable read spec = .ok table) : Tabulates table spec := by
  rw [buildTable_eq hread] at h
  cases h
  refine ⟨rfl, rfl, ?_, fun r hr state hstate => ?_⟩
  · have hlength : (minimums spec.classes).length = (radices spec.classes).length := by
      rw [length_radices]
      exact length_map _
    show buildInitialState spec.classes = _
    rw [← sum_place hlength]
    unfold buildInitialState minimums
    rw [zipIdx_map, map_map]
    rfl
  · rw [getElem?_grid _ (length_countRow _ _) (lt_succ_of_le hr) hstate,
      getElem?_countRow _ r hstate]

/-- Policies with one key have one table, but for its length. -/
theorem Tabulates.of_cacheKey {table : CountTable} {spec' : GeneratorSpec}
    (h : Tabulates table spec') (hkey : cacheKey spec' = cacheKey spec)
    (hlength : spec.length ≤ spec'.length) : Tabulates table spec := by
  have hmins : minimums spec'.classes = minimums spec.classes := by
    have hmap := congrArg (map Prod.snd) hkey
    unfold cacheKey at hmap
    rwa [map_map, map_map] at hmap
  have hsizes : sizes spec'.classes = sizes spec.classes := by
    have hmap := congrArg (map Prod.fst) hkey
    unfold cacheKey at hmap
    rwa [map_map, map_map] at hmap
  have hradices : radices spec'.classes = radices spec.classes := by
    have hmap := congrArg (map (· + 1)) hmins
    unfold minimums at hmap
    rwa [map_map, map_map] at hmap
  have hdecrements : ∀ states, buildDecrements spec'.classes states =
      buildDecrements spec.classes states := by
    intro states
    have hrow : ∀ (classes : List PasswordClass) (state : ℕ),
        (classes.zipIdx.map fun (cls, c) =>
          decrement state (place (radices classes) c) cls.minimum) =
        (minimums classes).zipIdx.map fun (minimum, c) =>
          decrement state (place (radices classes) c) minimum := by
      intro classes state
      unfold minimums
      rw [zipIdx_map, map_map]
      rfl
    unfold buildDecrements
    congr 1
    funext state
    rw [hrow, hrow, hmins, hradices]
  refine ⟨?_, ?_, ?_, fun r hr state hstate => ?_⟩
  · rw [h.states, hradices]
  · rw [h.decrements, hradices, hdecrements]
  · rw [h.initial, hradices, hmins]
  · rw [h.cell r (hr.trans hlength) state hstate, hsizes, hradices]

section

variable {read : Reader} (hread : Reads read)
include hread

variable {table : CountTable}

/-- Every table in a cache is that of a policy with its key. -/
theorem Reached.sound {cache : TableCache} (h : Reached read cache) {key : List (ℕ × ℕ)}
    (hget : cache.get key = some table) :
    ∃ spec, cacheKey spec = key ∧ buildTable read spec = .ok table ∧ table.length = spec.length := by
  induction h with
  | empty => cases hget
  | @asked cache cache' table' spec _ hasked ih =>
    unfold tableFor at hasked
    split at hasked
    · cases hasked
      exact ih hget
    · rw [buildTable_eq hread, ok_bind] at hasked
      cases hasked
      rw [OrderedMap.get_set] at hget
      split at hget
      · rename_i hkey
        cases hget
        exact ⟨spec, hkey.symm, buildTable_eq hread spec, rfl⟩
      · exact ih hget

/-- Whatever is in the cache, the table of a policy is right. -/
theorem tableFor_tabulates {cache : TableCache} (h : Reached read cache) (spec : GeneratorSpec) :
    ∃ table cache', tableFor read cache spec = .ok (table, cache') ∧ Tabulates table spec := by
  unfold tableFor
  split
  · rename_i cached hcached
    obtain ⟨hget, hlonger⟩ := Option.filter_eq_some_iff.1 hcached
    obtain ⟨spec', hkey, hbuilt, hlength⟩ := h.sound hread hget
    have hle : spec.length ≤ spec'.length := by
      rw [← hlength]
      exact of_decide_eq_true hlonger
    exact ⟨cached, cache, rfl, (tabulates_buildTable hread hbuilt).of_cacheKey hkey hle⟩
  · rw [buildTable_eq hread, ok_bind]
    exact ⟨_, _, rfl, tabulates_buildTable hread (buildTable_eq hread spec)⟩

/-! ## Unranking -/

/-- The alphabets of a policy. -/
def alphabets (classes : List PasswordClass) : List Utf16 := classes.map PasswordClass.alphabet

omit hread in
theorem sizes_eq (classes : List PasswordClass) :
    sizes classes = (alphabets classes).map length := by
  unfold sizes alphabets
  rw [map_map]
  rfl

/-- The loop over the classes finds the block that the number is in, and the character there. -/
theorem pickClass_eq (h : Tabulates table spec) {r state : ℕ} (hr : r ≤ spec.length)
    (hstate : state < table.states) {more : List (PasswordClass × ℕ)}
    (hmore : ∀ entry ∈ more, spec.classes[entry.2]? = some entry.1) {rest : ℕ}
    {blocks : List Utf16}
    (hblocks : blocks = more.flatMap fun (cls, c) => block cls.alphabet (words (alphabets spec.classes) r
      ((digits (radices spec.classes) state).modify c pred))) (hrest : rest < blocks.length) :
    ∃ a word rest' state', pickClass read table spec.classes.length (r * table.states) state more rest =
        .ok ⟨some a, rest', state'⟩ ∧ state' < table.states ∧ blocks[rest]? = some (a :: word) ∧
      (words (alphabets spec.classes) r (digits (radices spec.classes) state'))[rest']? =
        some word := by
  induction more generalizing rest blocks with
  | nil =>
    subst hblocks
    exact (not_lt_zero _ hrest).elim
  | cons entry more ih =>
    obtain ⟨cls, c⟩ := entry
    have hc : spec.classes[c]? = some cls := hmore (cls, c) mem_cons_self
    rw [flatMap_cons] at hblocks
    generalize hlater : (more.flatMap fun (cls, c) => block cls.alphabet
      (words (alphabets spec.classes) r ((digits (radices spec.classes) state).modify c pred))) =
        later at hblocks
    have hblocks : blocks = block cls.alphabet (words (alphabets spec.classes) r
      ((digits (radices spec.classes) state).modify c pred)) ++ later := hblocks
    have hstate' : state < (radices spec.classes).prod := h.states ▸ hstate
    obtain ⟨hnext, hdigits⟩ := digits_decrement hstate' hc
    have hdecrement := hread _ _ _ (getElem?_buildDecrements hstate' hc)
    have hcell := hread _ _ _ (h.cell r hr _ (h.states ▸ hnext))
    rw [hdigits, sizes_eq, ← length_words] at hcell
    rw [pickClass, h.decrements, hdecrement, ok_bind, hcell, ok_bind]
    have hlength := length_block cls.alphabet (words (alphabets spec.classes) r
      ((digits (radices spec.classes) state).modify c pred))
    have hskip := @ih (fun entry hentry => hmore entry (mem_cons_of_mem _ hentry))
      (rest - (cls.alphabet.length * (words (alphabets spec.classes) r
        ((digits (radices spec.classes) state).modify c pred)).length)) later hlater.symm
    split
    · rename_i hzero
      rw [hzero, mul_zero] at hlength hskip
      rw [length_eq_zero_iff.1 hlength, nil_append] at hblocks
      subst hblocks
      exact hskip hrest
    · dsimp only
      split
      · rename_i hinside
        obtain ⟨a, word, hletter, hword, hfound⟩ := getElem?_block hinside
        refine ⟨a, word, rest % (words (alphabets spec.classes) r
          ((digits (radices spec.classes) state).modify c pred)).length, _, ?_,
          h.states ▸ hnext, ?_, by rw [hdigits]; exact hword⟩
        · unfold charAt
          rw [hletter]
          rfl
        · rw [hblocks, getElem?_append_left (by rwa [hlength])]
          exact hfound
      · rename_i houtside
        have hsum : blocks.length = cls.alphabet.length * (words (alphabets spec.classes) r
            ((digits (radices spec.classes) state).modify c pred)).length + later.length := by
          rw [hblocks, length_append, hlength]
        obtain ⟨a, word, rest', state', hpick, hlt, hfound, hword⟩ := hskip (by omega)
        refine ⟨a, word, rest', state', hpick, hlt, ?_, hword⟩
        rw [hblocks, getElem?_append_right (by rw [hlength]; omega), hlength]
        exact hfound

/-- The characters that remain are those of the word with the number. -/
theorem unrankFrom_eq (h : Tabulates table spec) {r : ℕ} (hr : r ≤ spec.length) {state rest : ℕ}
    (hstate : state < table.states)
    (hrest : rest < (words (alphabets spec.classes) r (digits (radices spec.classes) state)).length) :
    ∃ word, unrankFrom read table spec.classes r rest state = .ok word ∧
      (words (alphabets spec.classes) r (digits (radices spec.classes) state))[rest]? =
        some word := by
  induction r generalizing state rest with
  | zero =>
    refine ⟨[], rfl, ?_⟩
    rw [words] at hrest ⊢
    split at hrest
    · rename_i hall
      rw [if_pos hall]
      rw [length_singleton] at hrest
      rw [lt_one_iff.1 hrest]
      rfl
    · exact (not_lt_zero _ hrest).elim
  | succ r ih =>
    have hblocks : words (alphabets spec.classes) (r + 1) (digits (radices spec.classes) state) =
        spec.classes.zipIdx.flatMap fun (cls, c) => block cls.alphabet
          (words (alphabets spec.classes) r
            ((digits (radices spec.classes) state).modify c pred)) := by
      rw [words]
      unfold alphabets
      rw [zipIdx_map, flatMap_map]
      rfl
    obtain ⟨a, word, rest', state', hpick, hstate', hfound, hword⟩ := pickClass_eq hread h
      (le_of_succ_le hr) hstate (fun entry hentry => mem_zipIdx_iff_getElem?.1 hentry)
      hblocks hrest
    obtain ⟨word', hout, hword'⟩ := ih (le_of_succ_le hr) hstate'
      (List.getElem?_eq_some_iff.1 hword).1
    rw [hword] at hword'
    cases hword'
    refine ⟨a :: word, ?_, hfound⟩
    rw [unrankFrom, hpick, ok_bind, hout, ok_bind]
    rfl

end

/-! ## A cached table and a new one -/

section

variable {read : Reader} (hread : Reads read)
include hread

/-- Both tables that a policy is given count its passwords. -/
theorem read_total {table : CountTable} (h : Tabulates table spec) :
    table.initialState < table.states ∧
      digits (radices spec.classes) table.initialState = minimums spec.classes ∧
      read table.cells (spec.length * table.states + table.initialState) =
        .ok (words (alphabets spec.classes) spec.length (minimums spec.classes)).length := by
  have hmins := forall₂_minimums spec.classes
  have hinitial : table.initialState < table.states := by
    rw [h.initial, h.states]
    exact value_lt hmins
  have hdue : digits (radices spec.classes) table.initialState = minimums spec.classes := by
    rw [h.initial]
    exact digits_value hmins
  have hcell := hread _ _ _ (h.cell spec.length le_rfl _ hinitial)
  rw [hdue, sizes_eq, ← length_words] at hcell
  exact ⟨hinitial, hdue, hcell⟩

theorem countValidPasswords_eq {cache : TableCache} (h : Reached read cache) (spec : GeneratorSpec) :
    countValidPasswords read cache spec =
      .ok (words (alphabets spec.classes) spec.length (minimums spec.classes)).length := by
  obtain ⟨table, cache', htable, htabulates⟩ := tableFor_tabulates hread h spec
  unfold countValidPasswords
  rw [htable, ok_bind]
  exact (read_total hread htabulates).2.2

/-- A number is unranked to the word with the number, whatever table it is done with. -/
theorem unrankPassword_eq {cache : TableCache} (h : Reached read cache) (index : ℤ)
    (spec : GeneratorSpec) : unrankPassword read cache index spec =
      if index < 0 then .error .indexOutsideRange
      else match (words (alphabets spec.classes) spec.length (minimums spec.classes))[index.toNat]? with
        | some word => .ok word
        | none => .error .indexOutsideRange := by
  obtain ⟨table, cache', htable, htabulates⟩ := tableFor_tabulates hread h spec
  obtain ⟨hinitial, hdue, htotal⟩ := read_total hread htabulates
  unfold unrankPassword
  rw [htable, ok_bind]
  dsimp only
  rw [htotal, ok_bind]
  by_cases hneg : index < 0
  · rw [if_pos (Or.inl hneg), if_pos hneg]
  · rw [if_neg hneg]
    by_cases hlt : index.toNat <
        (words (alphabets spec.classes) spec.length (minimums spec.classes)).length
    · have hrest := hlt
      rw [← hdue] at hrest
      obtain ⟨word, hout, hword⟩ := unrankFrom_eq hread htabulates le_rfl hinitial hrest
      rw [hdue] at hword
      rw [if_neg (by omega), hout, hword]
    · rw [if_pos (by omega), getElem?_eq_none (Nat.le_of_not_lt hlt)]

end

/-- **A cached table does as well as a new one.** After any calls, counting and unranking come out as
they would if nothing had been asked before. -/
theorem cached_table_fresh {cache : TableCache} (h : Reached cellAt cache) (spec : GeneratorSpec) :
    countValidPasswords cellAt cache spec = countValidPasswords cellAt .empty spec ∧
      ∀ index, unrankPassword cellAt cache index spec = unrankPassword cellAt .empty index spec := by
  refine ⟨?_, fun index => ?_⟩
  · rw [countValidPasswords_eq reads_cellAt h, countValidPasswords_eq reads_cellAt .empty]
  · rw [unrankPassword_eq reads_cellAt h, unrankPassword_eq reads_cellAt .empty]

/-- Three characters, of which one at least is a digit. -/
def shortSpec : GeneratorSpec := ⟨3, [⟨[0x61, 0x62], 0⟩, ⟨[0x30, 0x31, 0x32], 1⟩]⟩

/-- A longer password of other characters, which has the same key. -/
def longSpec : GeneratorSpec := ⟨5, [⟨[0x63, 0x64], 0⟩, ⟨[0x33, 0x34, 0x35], 1⟩]⟩

theorem cached_table_fresh_sample : ∃ cache, (cache.get (cacheKey shortSpec)).isSome ∧
    countValidPasswords cellAt cache shortSpec = countValidPasswords cellAt .empty shortSpec ∧
    ∀ index, unrankPassword cellAt cache index shortSpec =
      unrankPassword cellAt .empty index shortSpec := by
  obtain ⟨table, hbuilt⟩ : ∃ table, buildTable cellAt longSpec = .ok table :=
    ⟨_, buildTable_eq reads_cellAt longSpec⟩
  have hasked : tableFor cellAt .empty longSpec =
      .ok (table, OrderedMap.set .empty (cacheKey longSpec) table) := by
    show (buildTable cellAt longSpec >>= _) = _
    rw [hbuilt]
    rfl
  refine ⟨_, ?_, cached_table_fresh (.asked longSpec .empty hasked) shortSpec⟩
  rw [OrderedMap.get_set, if_pos (by decide)]
  rfl

/-! ## What a policy allows -/

/-- What the generator makes sure of when it reads a policy. -/
structure GeneratorSpec.Valid (spec : GeneratorSpec) : Prop where
  some : spec.classes ≠ []
  nonempty : ∀ cls ∈ spec.classes, cls.alphabet ≠ []
  disjoint : (spec.classes.flatMap PasswordClass.alphabet).Nodup
  fits : (spec.classes.map PasswordClass.minimum).sum ≤ spec.length

/-- The passwords of a policy. -/
def GeneratorSpec.Allows (spec : GeneratorSpec) (password : Utf16) : Prop :=
  password.length = spec.length ∧
    (∀ char ∈ password, ∃ cls ∈ spec.classes, char ∈ cls.alphabet) ∧
    ∀ cls ∈ spec.classes, cls.minimum ≤ password.countP (· ∈ cls.alphabet)

theorem GeneratorSpec.Valid.unique (h : spec.Valid) : (alphabets spec.classes).flatten.Nodup := by
  have hdisjoint := h.disjoint
  rwa [flatMap_def] at hdisjoint

/-- The words of the table are the passwords. -/
theorem mem_words_iff_allows (h : spec.Valid) {password : Utf16} :
    password ∈ words (alphabets spec.classes) spec.length (minimums spec.classes) ↔
      spec.Allows password := by
  have hlength : (minimums spec.classes).length = (alphabets spec.classes).length := by
    unfold minimums alphabets
    rw [length_map, length_map]
  rw [mem_words h.unique hlength]
  unfold Fills GeneratorSpec.Allows minimums alphabets
  refine and_congr_right fun _ => and_congr ?_ ?_
  · simp
  · constructor
    · intro hcounts cls hcls
      obtain ⟨c, hc⟩ := mem_iff_getElem?.1 hcls
      exact hcounts c cls.minimum cls.alphabet (by rw [getElem?_map, hc]; rfl)
        (by rw [getElem?_map, hc]; rfl)
    · intro hcounts c n alphabet hn halphabet
      rw [getElem?_map] at hn halphabet
      obtain ⟨cls, hc, rfl⟩ := Option.map_eq_some_iff.1 hn
      rw [hc] at halphabet
      cases halphabet
      exact hcounts cls (mem_of_getElem? hc)

/-- A policy that can be met is met by the minimum of each class, filled up with any character. -/
theorem GeneratorSpec.Valid.exists_allowed (h : spec.Valid) : ∃ password, spec.Allows password := by
  have hfill : ∀ classes : List PasswordClass, (∀ cls ∈ classes, cls ∈ spec.classes) →
      ∃ start : Utf16, start.length = (classes.map PasswordClass.minimum).sum ∧
        (∀ char ∈ start, ∃ cls ∈ spec.classes, char ∈ cls.alphabet) ∧
        ∀ cls ∈ classes, cls.minimum ≤ start.countP (· ∈ cls.alphabet) := by
    intro classes hclasses
    induction classes with
    | nil => exact ⟨[], rfl, nofun, nofun⟩
    | cons cls classes ih =>
      have hcls := hclasses cls mem_cons_self
      obtain ⟨start, hlength, hletters, hcounts⟩ :=
        ih fun cls hcls => hclasses cls (mem_cons_of_mem _ hcls)
      obtain ⟨char, alphabet, halphabet⟩ := exists_cons_of_ne_nil (h.nonempty cls hcls)
      have hchar : char ∈ cls.alphabet := by
        rw [halphabet]
        exact mem_cons_self
      refine ⟨replicate cls.minimum char ++ start, ?_, ?_, ?_⟩
      · rw [length_append, length_replicate, hlength]
        rfl
      · intro u hu
        rcases mem_append.1 hu with hu | hu
        · rw [eq_of_mem_replicate hu]
          exact ⟨cls, hcls, hchar⟩
        · exact hletters u hu
      · intro cls' hcls'
        rw [countP_append]
        rcases mem_cons.1 hcls' with rfl | hcls'
        · have hall : (replicate cls'.minimum char).countP (· ∈ cls'.alphabet) =
              cls'.minimum := by
            rw [countP_replicate, if_pos (decide_eq_true hchar)]
          omega
        · have hcount := hcounts cls' hcls'
          omega
  obtain ⟨start, hlength, hletters, hcounts⟩ := hfill spec.classes fun _ => id
  obtain ⟨cls, classes, hclasses⟩ := exists_cons_of_ne_nil h.some
  have hcls : cls ∈ spec.classes := by
    rw [hclasses]
    exact mem_cons_self
  obtain ⟨char, alphabet, halphabet⟩ := exists_cons_of_ne_nil (h.nonempty cls hcls)
  have hchar : char ∈ cls.alphabet := by
    rw [halphabet]
    exact mem_cons_self
  have hfits := h.fits
  refine ⟨start ++ replicate (spec.length - start.length) char, ?_, ?_, ?_⟩
  · rw [length_append, length_replicate, hlength]
    omega
  · intro u hu
    rcases mem_append.1 hu with hu | hu
    · exact hletters u hu
    · rw [eq_of_mem_replicate hu]
      exact ⟨cls, hcls, hchar⟩
  · intro cls' hcls'
    rw [countP_append]
    have hcount := hcounts cls' hcls'
    omega

/-- **Unranking is a bijection.** Whatever is in the cache and however a list is read behind its end,
the count is that of the passwords, there is one, and each number below the count is that of one
password. -/
theorem unrank_bijection {read : Reader} (hread : Reads read) {cache : TableCache}
    (hcache : Reached read cache) {spec : GeneratorSpec} (hspec : spec.Valid) :
    ∃ password : ℕ → Utf16,
      countValidPasswords read cache spec = .ok {word | spec.Allows word}.ncard ∧
      0 < {word | spec.Allows word}.ncard ∧
      (∀ index < {word | spec.Allows word}.ncard,
        unrankPassword read cache index spec = .ok (password index)) ∧
      Set.BijOn password (Set.Iio {word | spec.Allows word}.ncard) {word | spec.Allows word} := by
  obtain ⟨table, cache', htable, h⟩ := tableFor_tabulates hread hcache spec
  obtain ⟨hinitial, hdue, hcell⟩ := read_total hread h
  have hnodup := nodup_words hspec.unique spec.length (minimums spec.classes)
  generalize hwords : words (alphabets spec.classes) spec.length (minimums spec.classes) = list at *
  have hmem : ∀ word, word ∈ list ↔ spec.Allows word := fun word => by
    rw [← hwords]
    exact mem_words_iff_allows hspec
  have hset : {word | spec.Allows word} = (list.toFinset : Set Utf16) := by
    ext word
    rw [coe_toFinset]
    exact (hmem word).symm
  have hncard : {word | spec.Allows word}.ncard = list.length := by
    rw [hset, Set.ncard_coe_finset, toFinset_card_of_nodup hnodup]
  rw [hncard]
  refine ⟨fun index => list.getD index [], ?_, ?_, fun index hindex => ?_, ?_, ?_, ?_⟩
  · unfold countValidPasswords
    rw [htable, ok_bind]
    exact hcell
  · obtain ⟨word, hword⟩ := hspec.exists_allowed
    exact length_pos_of_mem ((hmem word).2 hword)
  · have hrest : index < (words (alphabets spec.classes) spec.length
        (digits (radices spec.classes) table.initialState)).length := by
      rw [hdue, hwords]
      exact hindex
    obtain ⟨word, hout, hword⟩ := unrankFrom_eq hread h le_rfl hinitial hrest
    rw [hdue, hwords] at hword
    unfold unrankPassword
    rw [htable, ok_bind]
    dsimp only
    rw [hcell, ok_bind, if_neg (by omega), Int.toNat_natCast, hout, getD_eq_getElem?_getD, hword]
    rfl
  · intro index hindex
    have hindex : index < list.length := hindex
    refine (hmem _).1 ?_
    show list.getD index [] ∈ list
    rw [getD_eq_getElem _ _ hindex]
    exact getElem_mem hindex
  · intro i hi j hj heq
    have hi : i < list.length := hi
    have hj : j < list.length := hj
    dsimp only at heq
    rw [getD_eq_getElem _ _ hi, getD_eq_getElem _ _ hj] at heq
    exact (List.Nodup.getElem_inj_iff hnodup).1 heq
  · intro word hword
    obtain ⟨i, hi, hfound⟩ := getElem_of_mem ((hmem word).2 hword)
    exact ⟨i, hi, (getD_eq_getElem _ _ hi).trans hfound⟩

theorem unrank_bijection_sample :
    ∃ password : ℕ → Utf16,
      countValidPasswords cellWithin .empty shortSpec =
        .ok {word | shortSpec.Allows word}.ncard ∧
      0 < {word | shortSpec.Allows word}.ncard ∧
      (∀ index < {word | shortSpec.Allows word}.ncard,
        unrankPassword cellWithin .empty index shortSpec = .ok (password index)) ∧
      Set.BijOn password (Set.Iio {word | shortSpec.Allows word}.ncard)
        {word | shortSpec.Allows word} :=
  unrank_bijection reads_cellWithin .empty ⟨by decide, by decide, by decide, by decide⟩

example : unrankPassword cellAt .empty 5 shortSpec = .ok [0x61, 0x62, 0x32] := by decide

end HVault.PasswordGenerator
