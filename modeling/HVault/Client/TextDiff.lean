import Mathlib.Data.List.GetD
import HVault.Data.CommonSublist
import HVault.Json.Text

/-!
# Line diffs

`operations` compares two texts line by line: what they start and end with alike is set aside, and
the table of the rest says for each pair of positions how many lines can still be kept. The operations
lead from the first text to the second, and keep as many lines as any could (`operations_minimal`).
-/

namespace HVault.TextDiff

open CommonSublist Json List Nat

inductive Kind where
  | context
  | added
  | removed
  deriving DecidableEq, Repr

/-- One line of a diff. -/
structure DiffLine (α : Type) where
  kind : Kind
  text : α
  deriving DecidableEq, Repr

def maxDiffCells : ℕ := 2000000

/-- The lines of a text. -/
def splitLines (text : Utf16) : List Utf16 := text.splitOn 0x0A

section

variable {α : Type} [DecidableEq α]

/-- How many lines two lists start with alike. -/
def commonHead : List α → List α → ℕ
  | x :: xs, y :: ys => if x = y then commonHead xs ys + 1 else 0
  | _, _ => 0

/-- A row of the table, for one line of the first text, from the row below it. -/
def fillRow (x : α) : List α → List ℕ → List ℕ
  | [], _ => [0]
  | y :: ys, below =>
    let row := fillRow x ys below.tail
    (if x = y then below.tail.headD 0 + 1 else max (below.headD 0) (row.headD 0)) :: row

/-- The table, filled from its end. The row of the position behind the last line is zero, as is the
last column. -/
def fillTable : List α → List α → List (List ℕ)
  | [], ys => [List.replicate (ys.length + 1) 0]
  | x :: xs, ys =>
    let below := fillTable xs ys
    fillRow x ys (below.headD []) :: below

def cellAt (lengths : List (List ℕ)) (i j : ℕ) : ℕ := (lengths.getD i []).getD j 0

/-- The walk through the table, from the positions `i` and `j` on, where `xs` and `ys` follow. On a tie
a line is removed before one is added. -/
def walk (lengths : List (List ℕ)) : ℕ → ℕ → List α → List α → List (DiffLine α)
  | i, j, x :: xs, y :: ys =>
    if x = y then ⟨.context, x⟩ :: walk lengths (i + 1) (j + 1) xs ys
    else if cellAt lengths (i + 1) j ≥ cellAt lengths i (j + 1) then
      ⟨.removed, x⟩ :: walk lengths (i + 1) j xs (y :: ys)
    else ⟨.added, y⟩ :: walk lengths i (j + 1) (x :: xs) ys
  | _, _, [], ys => ys.map fun y => ⟨.added, y⟩
  | _, _, xs, [] => xs.map fun x => ⟨.removed, x⟩
  termination_by _ _ xs ys => xs.length + ys.length

/-- The operations, or `none` where the table would be too large. -/
def operations (before after : List α) : Option (List (DiffLine α)) :=
  let head := commonHead before after
  let tail := commonHead (before.drop head).reverse (after.drop head).reverse
  let midBefore := (before.take (before.length - tail)).drop head
  let midAfter := (after.take (after.length - tail)).drop head
  if (midBefore.length + 1) * (midAfter.length + 1) > maxDiffCells then none
  else some ((before.take head).map (fun line => ⟨.context, line⟩) ++
    walk (fillTable midBefore midAfter) 0 0 midBefore midAfter ++
    (after.drop (after.length - tail)).map (fun line => ⟨.context, line⟩))

/-! ## The table -/

/-- What a row has to hold: how many lines can be kept from each position of the second text on. -/
def IsRow (xs ys : List α) (row : List ℕ) : Prop :=
  row.length = ys.length + 1 ∧ ∀ j, row.getD j 0 = lcsLength xs (ys.drop j)

variable {xs ys : List α}

theorem isRow_fillRow {x : α} {below : List ℕ} (h : IsRow xs ys below) :
    IsRow (x :: xs) ys (fillRow x ys below) := by
  induction ys generalizing below with
  | nil =>
    refine ⟨rfl, fun j => ?_⟩
    rw [drop_nil, lcsLength_nil_right]
    cases j with
    | zero => rfl
    | succ j => rfl
  | cons y ys ih =>
    have htail : IsRow xs ys below.tail := by
      refine ⟨?_, fun j => ?_⟩
      · rw [length_tail, h.1]
        rfl
      · have hnext := h.2 (j + 1)
        rw [drop_succ_cons] at hnext
        rw [← hnext]
        cases below with
        | nil => rfl
        | cons => rfl
    have hrow := ih htail
    refine ⟨?_, fun j => ?_⟩
    · rw [fillRow, length_cons, hrow.1]
      rfl
    · cases j with
      | succ j =>
        rw [fillRow, getD_cons_succ, drop_succ_cons]
        exact hrow.2 j
      | zero =>
        have hhead : ∀ row : List ℕ, row.headD 0 = row.getD 0 0 := by
          intro row
          cases row with
          | nil => rfl
          | cons => rfl
        have hbelow := h.2 0
        have hdiagonal := htail.2 0
        have hright := hrow.2 0
        rw [drop_zero] at hbelow hdiagonal hright
        rw [fillRow, getD_cons_zero, drop_zero, hhead, hhead, hhead, hbelow, hdiagonal,
          hright]
        split
        · rename_i hsame
          rw [hsame, lcsLength_cons_same]
        · rename_i hne
          rw [lcsLength_cons_ne hne]

/-- A cell says how many lines of the rest can be kept. -/
theorem cellAt_fillTable {i : ℕ} (hi : i ≤ xs.length) (j : ℕ) :
    cellAt (fillTable xs ys) i j = lcsLength (xs.drop i) (ys.drop j) := by
  have hrows : ∀ xs : List α, IsRow xs ys ((fillTable xs ys).headD []) := by
    intro xs
    induction xs with
    | nil =>
      refine ⟨length_replicate, fun j => ?_⟩
      rw [lcsLength_nil_left]
      show (replicate (ys.length + 1) 0).getD j 0 = 0
      rw [getD_eq_getElem?_getD, getElem?_getD_replicate_default_eq]
    | cons x xs ih => exact isRow_fillRow ih
  induction xs generalizing i with
  | nil =>
    have hzero : i = 0 := le_zero.1 hi
    subst hzero
    exact (hrows []).2 j
  | cons x xs ih =>
    cases i with
    | zero => exact (hrows (x :: xs)).2 j
    | succ i => exact ih (le_of_succ_le_succ hi)

/-! ## The operations -/

/-- The lines that stay, with those that are removed. -/
def linesBefore (ops : List (DiffLine α)) : List α :=
  (ops.filter fun op => op.kind ≠ .added).map DiffLine.text

/-- The lines that stay, with those that are added. -/
def linesAfter (ops : List (DiffLine α)) : List α :=
  (ops.filter fun op => op.kind ≠ .removed).map DiffLine.text

def contextCount (ops : List (DiffLine α)) : ℕ := (ops.filter fun op => op.kind = .context).length

variable (ops ops' : List (DiffLine α))

omit [DecidableEq α] in
theorem linesBefore_append : linesBefore (ops ++ ops') = linesBefore ops ++ linesBefore ops' := by
  unfold linesBefore
  rw [filter_append, map_append]

omit [DecidableEq α] in
theorem linesAfter_append : linesAfter (ops ++ ops') = linesAfter ops ++ linesAfter ops' := by
  unfold linesAfter
  rw [filter_append, map_append]

omit [DecidableEq α] in
theorem contextCount_append :
    contextCount (ops ++ ops') = contextCount ops + contextCount ops' := by
  unfold contextCount
  rw [filter_append, length_append]

/-- What a run of operations of one kind does. -/
structure Edits (xs ys : List α) (ops : List (DiffLine α)) : Prop where
  before : linesBefore ops = xs
  after : linesAfter ops = ys
  kept : contextCount ops = lcsLength xs ys

variable (lines : List α)

theorem edits_context : Edits lines lines (lines.map fun line => ⟨.context, line⟩) := by
  induction lines with
  | nil => exact ⟨rfl, rfl, (lcsLength_nil_left []).symm⟩
  | cons line lines ih =>
    refine ⟨congrArg (line :: ·) ih.before, congrArg (line :: ·) ih.after, ?_⟩
    rw [lcsLength_cons_same, ← ih.kept]
    rfl

theorem edits_added : Edits [] lines (lines.map fun line => ⟨.added, line⟩) := by
  induction lines with
  | nil => exact ⟨rfl, rfl, (lcsLength_nil_left []).symm⟩
  | cons line lines ih =>
    refine ⟨ih.before, congrArg (line :: ·) ih.after, ?_⟩
    rw [lcsLength_nil_left, ← lcsLength_nil_left lines, ← ih.kept]
    rfl

theorem edits_removed : Edits lines [] (lines.map fun line => ⟨.removed, line⟩) := by
  induction lines with
  | nil => exact ⟨rfl, rfl, (lcsLength_nil_left []).symm⟩
  | cons line lines ih =>
    refine ⟨congrArg (line :: ·) ih.before, ih.after, ?_⟩
    rw [lcsLength_nil_right, ← lcsLength_nil_right lines, ← ih.kept]
    rfl

/-- The walk keeps as many lines as the table says. -/
theorem edits_walk {lengths : List (List ℕ)} {i j : ℕ} (h : ∀ i' ≤ xs.length, ∀ j',
      cellAt lengths (i + i') (j + j') = lcsLength (xs.drop i') (ys.drop j')) :
    Edits xs ys (walk lengths i j xs ys) := by
  fun_induction walk lengths i j xs ys with
  | case1 i j xs x ys ih =>
    have hrest := ih fun i' hi' j' => by
      have hcell := h (i' + 1) (succ_le_succ hi') (j' + 1)
      rw [drop_succ_cons, drop_succ_cons] at hcell
      rw [← hcell, add_assoc, add_assoc, add_comm 1, add_comm 1]
    refine ⟨congrArg (x :: ·) hrest.before, congrArg (x :: ·) hrest.after, ?_⟩
    rw [lcsLength_cons_same, ← hrest.kept]
    rfl
  | case2 i j x xs y ys hne hremove ih =>
    have hrest := ih fun i' hi' j' => by
      have hcell := h (i' + 1) (succ_le_succ hi') j'
      rw [drop_succ_cons] at hcell
      rw [← hcell, add_assoc, add_comm 1]
    have hbelow := h 1 (succ_le_succ (zero_le _)) 0
    have hright := h 0 (zero_le _) 1
    rw [drop_succ_cons, drop_zero, drop_zero] at hbelow hright
    refine ⟨congrArg (x :: ·) hrest.before, hrest.after, ?_⟩
    have hbelow : cellAt lengths (i + 1) j = lcsLength xs (y :: ys) := hbelow
    have hright : cellAt lengths i (j + 1) = lcsLength (x :: xs) ys := hright
    rw [hbelow, hright] at hremove
    rw [lcsLength_cons_ne hne, max_eq_left hremove, ← hrest.kept]
    rfl
  | case3 i j x xs y ys hne hadd ih =>
    have hrest := ih fun i' hi' j' => by
      have hcell := h i' hi' (j' + 1)
      rw [drop_succ_cons] at hcell
      rw [← hcell, add_assoc, add_comm 1]
    have hbelow := h 1 (succ_le_succ (zero_le _)) 0
    have hright := h 0 (zero_le _) 1
    rw [drop_succ_cons, drop_zero, drop_zero] at hbelow hright
    refine ⟨hrest.before, congrArg (y :: ·) hrest.after, ?_⟩
    have hbelow : cellAt lengths (i + 1) j = lcsLength xs (y :: ys) := hbelow
    have hright : cellAt lengths i (j + 1) = lcsLength (x :: xs) ys := hright
    rw [hbelow, hright] at hadd
    rw [lcsLength_cons_ne hne, max_eq_right (le_of_not_ge hadd), ← hrest.kept]
    rfl
  | case4 i j ys => exact edits_added ys
  | case5 i j xs hne => exact edits_removed xs

theorem edits_walk_fillTable (xs ys : List α) :
    Edits xs ys (walk (fillTable xs ys) 0 0 xs ys) := by
  refine edits_walk fun i hi j => ?_
  rw [zero_add, zero_add]
  exact cellAt_fillTable hi j

/-! ## What two lists start and end with alike -/

theorem take_commonHead (xs ys : List α) :
    ys.take (commonHead xs ys) = xs.take (commonHead xs ys) := by
  fun_induction commonHead xs ys with
  | case1 xs y ys ih => rw [take_succ_cons, take_succ_cons, ih]
  | case2 => rfl
  | case3 => rfl

theorem commonHead_le (xs ys : List α) :
    commonHead xs ys ≤ xs.length ∧ commonHead xs ys ≤ ys.length := by
  fun_induction commonHead xs ys with
  | case1 xs y ys ih =>
    exact ⟨succ_le_succ ih.1, succ_le_succ ih.2⟩
  | case2 | case3 => exact ⟨zero_le _, zero_le _⟩

/-- What is set aside, and what is left between. -/
theorem split_common (before after : List α) :
    let head := commonHead before after
    let tail := commonHead (before.drop head).reverse (after.drop head).reverse
    before = before.take head ++ (before.take (before.length - tail)).drop head ++
        after.drop (after.length - tail) ∧
      after = before.take head ++ (after.take (after.length - tail)).drop head ++
        after.drop (after.length - tail) := by
  intro head tail
  have hhead := commonHead_le before after
  have htail := commonHead_le (before.drop head).reverse (after.drop head).reverse
  rw [length_reverse, length_reverse, length_drop, length_drop] at htail
  have hends : before.drop (before.length - tail) = after.drop (after.length - tail) := by
    have hsame := congrArg reverse
      (take_commonHead (before.drop head).reverse (after.drop head).reverse)
    rw [reverse_take, reverse_take, reverse_reverse, reverse_reverse,
      length_reverse, length_reverse, length_drop, length_drop, drop_drop,
      drop_drop] at hsame
    have hbefore : head + (before.length - head - tail) = before.length - tail := by omega
    have hafter : head + (after.length - head - tail) = after.length - tail := by omega
    rw [← hbefore, ← hafter]
    exact hsame.symm
  have hsplit : ∀ lines : List α, head ≤ lines.length - tail →
      lines = lines.take head ++ (lines.take (lines.length - tail)).drop head ++
        lines.drop (lines.length - tail) := by
    intro lines hle
    have hstart : lines.take head = (lines.take (lines.length - tail)).take head := by
      rw [take_take, min_eq_left hle]
    rw [hstart, take_append_drop, take_append_drop]
  refine ⟨?_, ?_⟩
  · rw [← hends]
    exact hsplit before (by omega)
  · rw [← take_commonHead before after]
    exact hsplit after (by omega)

theorem Edits.append {ops : List (DiffLine α)} (h : Edits xs ys ops) (start finish : List α) :
    Edits (start ++ xs ++ finish) (start ++ ys ++ finish)
      (start.map (fun line => ⟨.context, line⟩) ++ ops ++
        finish.map fun line => ⟨.context, line⟩) := by
  have hstart := edits_context start
  have hfinish := edits_context finish
  refine ⟨?_, ?_, ?_⟩
  · rw [linesBefore_append, linesBefore_append, hstart.before, h.before, hfinish.before]
  · rw [linesAfter_append, linesAfter_append, hstart.after, h.after, hfinish.after]
  · have hself : ∀ lines : List α, lcsLength lines lines = lines.length := by
      intro lines
      have hlines := lcsLength_append_left lines [] []
      rwa [append_nil, lcsLength_nil_left] at hlines
    rw [contextCount_append, contextCount_append, hstart.kept, h.kept, hfinish.kept,
      lcsLength_append_right, lcsLength_append_left, hself, hself]

theorem edits_operations {before after : List α} {ops : List (DiffLine α)}
    (h : operations before after = some ops) : Edits before after ops := by
  unfold operations at h
  dsimp only at h
  split at h
  · cases h
  · cases h
    obtain ⟨hbefore, hafter⟩ := split_common before after
    generalize commonHead before after = head at hbefore hafter ⊢
    generalize commonHead (before.drop head).reverse (after.drop head).reverse = tail at hbefore hafter ⊢
    have hwhole := (edits_walk_fillTable ((before.take (before.length - tail)).drop head)
      ((after.take (after.length - tail)).drop head)).append (before.take head)
        (after.drop (after.length - tail))
    rw [← hbefore, ← hafter] at hwhole
    exact hwhole

end

/-- **The diff of two texts is right and as short as it can be.** -/
theorem operations_minimal (before after : Utf16) (ops : List (DiffLine Utf16))
    (h : operations (splitLines before) (splitLines after) = some ops) :
    linesBefore ops = splitLines before ∧ linesAfter ops = splitLines after ∧
      IsGreatest {n | ∃ l : List Utf16, l.Sublist (splitLines before) ∧
        l.Sublist (splitLines after) ∧ l.length = n} (contextCount ops) := by
  have hedits := edits_operations h
  refine ⟨hedits.before, hedits.after, ?_⟩
  rw [hedits.kept]
  exact isGreatest_lcsLength _ _

theorem operations_minimal_sample :
    linesBefore [⟨.context, [0x61]⟩, ⟨.removed, [0x62]⟩, ⟨.added, [0x63]⟩] =
        splitLines [0x61, 0x0A, 0x62] ∧
      linesAfter [⟨.context, [0x61]⟩, ⟨.removed, [0x62]⟩, ⟨.added, [0x63]⟩] =
        splitLines [0x61, 0x0A, 0x63] ∧
      IsGreatest {n | ∃ l : List Utf16, l.Sublist (splitLines [0x61, 0x0A, 0x62]) ∧
        l.Sublist (splitLines [0x61, 0x0A, 0x63]) ∧ l.length = n}
        (contextCount [⟨.context, [0x61]⟩, ⟨.removed, [0x62]⟩, ⟨.added, [0x63]⟩]) :=
  operations_minimal _ _ _ (by
    have hbefore : splitLines [0x61, 0x0A, 0x62] = [[0x61], [0x62]] := by decide
    have hafter : splitLines [0x61, 0x0A, 0x63] = [[0x61], [0x63]] := by decide
    rw [hbefore, hafter]
    simp [operations, commonHead, walk, fillTable, fillRow, cellAt, maxDiffCells])

end HVault.TextDiff
