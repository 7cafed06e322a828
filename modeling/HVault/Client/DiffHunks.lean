import HVault.Client.TextDiff
import Mathlib.Data.List.Forall2
import Mathlib.Data.List.Pairwise

/-!
# Hunks

The operations between two texts are shown in runs, each with the unchanged lines around its
changes. What `addRange` has grouped stays apart and covers every change so far (`Grouped`), and the
header of a hunk says where its lines are in the two texts (`HunkAt`). So the hunks are a patch: they
lead from the first text to the second (`applyHunks_hunkAt`).
-/

namespace HVault.TextDiff

open CommonSublist Json List Nat

/-- One run of changes, with the lines around it. -/
structure DiffHunk (α : Type) where
  beforeStart : ℕ
  beforeCount : ℕ
  afterStart : ℕ
  afterCount : ℕ
  lines : List (DiffLine α)
  deriving DecidableEq, Repr

set_option linter.dupNamespace false in
/-- What is told of two texts. There are no hunks where they are too large to be compared. -/
structure TextDiff where
  identical : Bool
  linesBefore : ℕ
  linesAfter : ℕ
  linesAdded : ℕ
  linesRemoved : ℕ
  hunks : Option (List (DiffHunk Utf16))
  deriving DecidableEq, Repr

/-- The operations from `start` to `finish`. -/
structure Range where
  start : ℕ
  finish : ℕ

def contextLines : ℕ := 3

section

variable {α : Type}

/-- The places of the lines that are added or removed. -/
def changedIndices (lines : List (DiffLine α)) : List ℕ :=
  lines.zipIdx.filterMap fun (line, index) => if line.kind = .context then none else some index

/-- One more change is shown: with the last range where the lines around them meet, or in a range of
its own. -/
def addRange (length : ℕ) (ranges : List Range) (index : ℕ) : List Range :=
  let start := index - contextLines
  let finish := min (length - 1) (index + contextLines)
  match ranges.getLast? with
  | none => ranges ++ [⟨start, finish⟩]
  | some last =>
    if start ≤ last.finish + 1 then ranges.dropLast ++ [⟨last.start, max last.finish finish⟩]
    else ranges ++ [⟨start, finish⟩]

/-- The number each line has, or would have, in the text that lacks the lines of one kind. -/
def numbersFrom (missing : Kind) (line : ℕ) : List (DiffLine α) → List ℕ
  | [] => []
  | op :: ops => line :: numbersFrom missing (if op.kind ≠ missing then line + 1 else line) ops

def toHunk (lines : List (DiffLine α)) (beforeNumbers afterNumbers : List ℕ) (range : Range) :
    DiffHunk α :=
  let slice := (lines.drop range.start).take (range.finish + 1 - range.start)
  let beforeCount := (slice.filter fun line => line.kind ≠ .added).length
  let afterCount := (slice.filter fun line => line.kind ≠ .removed).length
  let beforeAt := beforeNumbers.getD range.start 1
  let afterAt := afterNumbers.getD range.start 1
  -- A hunk without lines in a text starts at the line before it.
  { beforeStart := if beforeCount = 0 then beforeAt - 1 else beforeAt
    beforeCount := beforeCount
    afterStart := if afterCount = 0 then afterAt - 1 else afterAt
    afterCount := afterCount
    lines := slice }

def toHunks (lines : List (DiffLine α)) : List (DiffHunk α) :=
  let changed := changedIndices lines
  if changed = [] then []
  else
    let ranges := changed.foldl (addRange lines.length) []
    ranges.map (toHunk lines (numbersFrom .added 1 lines) (numbersFrom .removed 1 lines))

def addedCount (ops : List (DiffLine α)) : ℕ := (ops.filter fun op => op.kind = .added).length

def removedCount (ops : List (DiffLine α)) : ℕ := (ops.filter fun op => op.kind = .removed).length

end

def diffText (before after : Utf16) : TextDiff :=
  let beforeLines := splitLines before
  let afterLines := splitLines after
  if before = after then
    { identical := true
      linesBefore := beforeLines.length
      linesAfter := afterLines.length
      linesAdded := 0
      linesRemoved := 0
      hunks := some [] }
  else
    match operations beforeLines afterLines with
    | none =>
      -- What the texts do not start or end with alike.
      let head := commonHead beforeLines afterLines
      let tail := commonHead (beforeLines.drop head).reverse (afterLines.drop head).reverse
      { identical := false
        linesBefore := beforeLines.length
        linesAfter := afterLines.length
        linesRemoved := beforeLines.length - head - tail
        linesAdded := afterLines.length - head - tail
        hunks := none }
    | some ops =>
      { identical := false
        linesBefore := beforeLines.length
        linesAfter := afterLines.length
        linesAdded := addedCount ops
        linesRemoved := removedCount ops
        hunks := some (toHunks ops) }

section

variable {α : Type}

example : toHunks [⟨.context, 1⟩, ⟨.added, 2⟩] = [⟨1, 1, 1, 2, [⟨.context, 1⟩, ⟨.added, 2⟩]⟩] := by
  decide

/-! ## The changes -/

variable {ops : List (DiffLine α)}

theorem mem_changedIndices {i : ℕ} :
    i ∈ changedIndices ops ↔ ∃ op, ops[i]? = some op ∧ op.kind ≠ .context := by
  unfold changedIndices
  rw [mem_filterMap]
  constructor
  · intro h
    obtain ⟨⟨op, index⟩, hop, hindex⟩ := h
    have hop := mem_zipIdx_iff_getElem?.mp hop
    dsimp only at hindex
    split_ifs at hindex with hkind
    cases hindex
    exact ⟨op, hop, hkind⟩
  · intro h
    obtain ⟨op, hop, hkind⟩ := h
    exact ⟨(op, i), mem_zipIdx_iff_getElem?.mpr hop, if_neg hkind⟩

theorem pairwise_changedIndices (ops : List (DiffLine α)) :
    (changedIndices ops).Pairwise (· < ·) := by
  have hindices : (ops.zipIdx.map Prod.snd).Pairwise (· < ·) := by
    rw [zipIdx_map_snd]
    exact pairwise_lt_range'
  unfold changedIndices
  rw [pairwise_filterMap]
  apply (pairwise_map.mp hindices).imp
  intro x y hlt i hi j hj
  dsimp only at hi hj
  split_ifs at hi hj
  cases hi
  cases hj
  exact hlt

/-! ## Ranges -/

def Range.Holds (range : Range) (i : ℕ) : Prop := range.start ≤ i ∧ i ≤ range.finish

/-- The ranges in which the changes in `seen` are shown: there is a line between any two of them that
is not. -/
structure Grouped (n : ℕ) (seen : List ℕ) (ranges : List Range) : Prop where
  apart : ranges.Pairwise fun r r' => r.finish + 1 < r'.start
  bounds : ∀ r ∈ ranges, r.start ≤ r.finish ∧ r.finish < n
  covers : ∀ i ∈ seen, ∃ r ∈ ranges, r.Holds i
  needed : ∀ r ∈ ranges, ∃ i ∈ seen, r.Holds i

theorem Grouped.nil (n : ℕ) : Grouped n [] [] :=
  ⟨List.Pairwise.nil, fun _ h => absurd h not_mem_nil, fun _ h => absurd h not_mem_nil,
    fun _ h => absurd h not_mem_nil⟩

section
variable {n index : ℕ} {seen : List ℕ} {ranges : List Range}

/-- A range behind the others. -/
theorem Grouped.push (h : Grouped n seen ranges) (hindex : index < n)
    (hbehind : ∀ r ∈ ranges, r.finish + 1 < index - contextLines) :
    Grouped n (seen ++ [index])
      (ranges ++ [⟨index - contextLines, min (n - 1) (index + contextLines)⟩]) := by
  have hholds : (Range.mk (index - contextLines) (min (n - 1) (index + contextLines))).Holds index :=
    ⟨sub_le _ _, le_min (by omega) (le_add_right _ _)⟩
  refine ⟨?_, ?_, ?_, ?_⟩
  · apply pairwise_append.mpr
    refine ⟨h.apart, pairwise_singleton _ _, ?_⟩
    intro r hr r' hr'
    rw [mem_singleton.mp hr']
    exact hbehind r hr
  · intro r hr
    rcases mem_append.mp hr with hr | hr
    · exact h.bounds r hr
    · rw [mem_singleton.mp hr]
      exact ⟨hholds.1.trans hholds.2, by dsimp only; omega⟩
  · intro i hi
    rcases mem_append.mp hi with hi | hi
    · obtain ⟨r, hr, hri⟩ := h.covers i hi
      exact ⟨r, mem_append_left _ hr, hri⟩
    · rw [mem_singleton.mp hi]
      exact ⟨_, mem_append_right _ mem_cons_self, hholds⟩
  · intro r hr
    rcases mem_append.mp hr with hr | hr
    · obtain ⟨i, hi, hri⟩ := h.needed r hr
      exact ⟨i, mem_append_left _ hi, hri⟩
    · rw [mem_singleton.mp hr]
      exact ⟨index, mem_append_right _ mem_cons_self, hholds⟩

/-- The last range grows. -/
theorem Grouped.extend {last : Range} (h : Grouped n seen (ranges ++ [last])) (hindex : index < n)
    (hlater : ∀ i ∈ seen, i < index) :
    Grouped n (seen ++ [index])
      (ranges ++ [⟨last.start, max last.finish (min (n - 1) (index + contextLines))⟩]) := by
  obtain ⟨hapart, -, hlast⟩ := pairwise_append.mp h.apart
  have hmem : last ∈ ranges ++ [last] := mem_append_right _ mem_cons_self
  obtain ⟨i₀, hi₀, hholds₀⟩ := h.needed last hmem
  have hbounds := h.bounds last hmem
  have hgrown : ∀ i, last.Holds i →
      (Range.mk last.start (max last.finish (min (n - 1) (index + contextLines)))).Holds i :=
    fun i hi => ⟨hi.1, hi.2.trans (le_max_left _ _)⟩
  have hholds : (Range.mk last.start
      (max last.finish (min (n - 1) (index + contextLines)))).Holds index :=
    ⟨hholds₀.1.trans (hlater i₀ hi₀).le,
      (le_min (by omega) (le_add_right _ _)).trans (le_max_right _ _)⟩
  refine ⟨?_, ?_, ?_, ?_⟩
  · apply pairwise_append.mpr
    refine ⟨hapart, pairwise_singleton _ _, ?_⟩
    intro r hr r' hr'
    rw [mem_singleton.mp hr']
    exact hlast r hr last mem_cons_self
  · intro r hr
    rcases mem_append.mp hr with hr | hr
    · exact h.bounds r (mem_append_left _ hr)
    · rw [mem_singleton.mp hr]
      exact ⟨hholds.1.trans hholds.2, max_lt hbounds.2 (lt_of_le_of_lt (min_le_left _ _) (by omega))⟩
  · intro i hi
    rcases mem_append.mp hi with hi | hi
    · obtain ⟨r, hr, hri⟩ := h.covers i hi
      rcases mem_append.mp hr with hr | hr
      · exact ⟨r, mem_append_left _ hr, hri⟩
      · rw [mem_singleton.mp hr] at hri
        exact ⟨_, mem_append_right _ mem_cons_self, hgrown i hri⟩
    · rw [mem_singleton.mp hi]
      exact ⟨_, mem_append_right _ mem_cons_self, hholds⟩
  · intro r hr
    rcases mem_append.mp hr with hr | hr
    · obtain ⟨i, hi, hri⟩ := h.needed r (mem_append_left _ hr)
      exact ⟨i, mem_append_left _ hi, hri⟩
    · rw [mem_singleton.mp hr]
      exact ⟨index, mem_append_right _ mem_cons_self, hholds⟩

theorem Grouped.addRange (h : Grouped n seen ranges) (hindex : index < n)
    (hlater : ∀ i ∈ seen, i < index) :
    Grouped n (seen ++ [index]) (addRange n ranges index) := by
  rcases eq_nil_or_concat ranges with rfl | ⟨init, last, rfl⟩
  · exact h.push hindex fun _ hr => absurd hr not_mem_nil
  · rw [concat_eq_append] at h ⊢
    unfold TextDiff.addRange
    rw [getLast?_concat, dropLast_concat]
    dsimp only
    split_ifs with hmeet
    · exact h.extend hindex hlater
    · apply h.push hindex
      obtain ⟨-, -, hlast⟩ := pairwise_append.mp h.apart
      have hbounds := (h.bounds last (mem_append_right _ mem_cons_self)).1
      intro r hr
      rcases mem_append.mp hr with hr | hr
      · have hbefore := hlast r hr last mem_cons_self
        omega
      · rw [mem_singleton.mp hr]
        omega

theorem Grouped.foldl {todo : List ℕ} (h : Grouped n seen ranges)
    (hsorted : (seen ++ todo).Pairwise (· < ·)) (hbound : ∀ i ∈ todo, i < n) :
    Grouped n (seen ++ todo) (todo.foldl (TextDiff.addRange n) ranges) := by
  induction todo generalizing seen ranges with
  | nil => rwa [append_nil]
  | cons index todo ih =>
    obtain ⟨-, -, hlater⟩ := pairwise_append.mp hsorted
    rw [append_cons] at hsorted ⊢
    apply ih (h.addRange (hbound index mem_cons_self) _) hsorted
      fun i hi => hbound i (mem_cons_of_mem _ hi)
    exact fun i hi => hlater i hi index mem_cons_self

/-- Ranges that are apart have no place in common. -/
theorem Grouped.unique (h : Grouped n seen ranges) {i : ℕ} (hi : i ∈ seen) :
    ∃! r, r ∈ ranges ∧ r.Holds i := by
  obtain ⟨r, hr, hri⟩ := h.covers i hi
  refine ⟨r, ⟨hr, hri⟩, ?_⟩
  intro r' hr'
  have hsymm : Std.Symm fun r r' : Range => r = r' ∨ ¬ (r.Holds i ∧ r'.Holds i) :=
    ⟨fun _ _ h => h.imp Eq.symm fun hno hboth => hno hboth.symm⟩
  have hpairs : ranges.Pairwise fun r r' => r = r' ∨ ¬ (r.Holds i ∧ r'.Holds i) := by
    apply h.apart.imp
    intro r r' hlt
    refine .inr fun hboth => ?_
    have hleft := hboth.1.2
    have hright := hboth.2.1
    omega
  have hsame := List.Pairwise.forall_of_forall (fun _ _ => .inl rfl) hpairs hr'.1 hr
  exact hsame.resolve_right fun hno => hno ⟨hr'.2, hri⟩

end

/-! ## Headers -/

/-- How many lines of the first text are above the hunk. -/
def DiffHunk.beforeAt (hunk : DiffHunk α) : ℕ :=
  if hunk.beforeCount = 0 then hunk.beforeStart else hunk.beforeStart - 1

/-- How many lines of the second text are above the hunk. -/
def DiffHunk.afterAt (hunk : DiffHunk α) : ℕ :=
  if hunk.afterCount = 0 then hunk.afterStart else hunk.afterStart - 1

/-- The hunk shows the operations of the range: its header counts their lines in the two texts, and
numbers the first of them, or the line before them where there are none. -/
structure HunkAt (ops : List (DiffLine α)) (range : Range) (hunk : DiffHunk α) : Prop where
  bounds : range.start ≤ range.finish ∧ range.finish < ops.length
  lines : hunk.lines = (ops.drop range.start).take (range.finish + 1 - range.start)
  beforeCount : hunk.beforeCount = (linesBefore hunk.lines).length
  afterCount : hunk.afterCount = (linesAfter hunk.lines).length
  beforeStart : hunk.beforeStart = (linesBefore (ops.take range.start)).length +
    if hunk.beforeCount = 0 then 0 else 1
  afterStart : hunk.afterStart = (linesAfter (ops.take range.start)).length +
    if hunk.afterCount = 0 then 0 else 1

theorem numbersFrom_getD (missing : Kind) (line : ℕ) (ops : List (DiffLine α)) {i : ℕ}
    (hi : i < ops.length) :
    (numbersFrom missing line ops).getD i 1 =
      line + ((ops.take i).filter fun op => op.kind ≠ missing).length := by
  induction ops generalizing line i with
  | nil => exact absurd hi (not_lt_zero i)
  | cons op ops ih =>
    cases i with
    | zero => rfl
    | succ i =>
      rw [numbersFrom, getD_cons_succ, ih _ (lt_of_succ_lt_succ hi), take_succ_cons]
      by_cases hkind : op.kind = missing
      · simp [hkind]
      · simp [hkind]
        omega

/-- The start of a header, from the number of its first line. -/
theorem header_start (n count : ℕ) :
    (if count = 0 then 1 + n - 1 else 1 + n) = n + if count = 0 then 0 else 1 := by
  split_ifs
  · omega
  · omega

variable {range : Range}

theorem hunkAt_toHunk (h : range.start ≤ range.finish ∧ range.finish < ops.length) :
    HunkAt ops range (toHunk ops (numbersFrom .added 1 ops) (numbersFrom .removed 1 ops) range) := by
  have hstart : range.start < ops.length := h.1.trans_lt h.2
  have hcount : ∀ missing (ops : List (DiffLine α)),
      (ops.filter fun op => op.kind ≠ missing).length =
        ((ops.filter fun op => op.kind ≠ missing).map DiffLine.text).length :=
    fun missing ops => (length_map _).symm
  refine ⟨h, rfl, hcount _ _, hcount _ _, ?_, ?_⟩
  · unfold toHunk
    dsimp only
    rw [numbersFrom_getD _ _ _ hstart, header_start, hcount .added (ops.take range.start)]
    rfl
  · unfold toHunk
    dsimp only
    rw [numbersFrom_getD _ _ _ hstart, header_start, hcount .removed (ops.take range.start)]
    rfl

variable {hunk : DiffHunk α}

theorem HunkAt.beforeAt (h : HunkAt ops range hunk) :
    hunk.beforeAt = (linesBefore (ops.take range.start)).length := by
  unfold DiffHunk.beforeAt
  rw [h.beforeStart]
  split_ifs
  · rfl
  · rfl

theorem HunkAt.afterAt (h : HunkAt ops range hunk) :
    hunk.afterAt = (linesAfter (ops.take range.start)).length := by
  unfold DiffHunk.afterAt
  rw [h.afterStart]
  split_ifs
  · rfl
  · rfl

/-- What is above the hunk, the hunk, and what is below it. -/
theorem HunkAt.split (h : HunkAt ops range hunk) :
    ops.take (range.finish + 1) = ops.take range.start ++ hunk.lines ∧
      ops.drop range.start = hunk.lines ++ ops.drop (range.finish + 1) := by
  have hlength : range.start + (range.finish + 1 - range.start) = range.finish + 1 :=
    Nat.add_sub_cancel' (h.bounds.1.trans (le_succ _))
  constructor
  · rw [h.lines, ← take_add, hlength]
  · rw [h.lines]
    conv_lhs => rw [← take_append_drop (range.finish + 1 - range.start) (ops.drop range.start)]
    rw [drop_drop, hlength]

/-! ## A patch -/

/-- Hunks are applied: the lines above a hunk stay, and where the next lines are those it expects it
puts in its own. `out` is the new text so far, and `passed` counts the lines that have been read. -/
def applyHunks [DecidableEq α] (out : List α) (passed : ℕ) (rest : List α) :
    List (DiffHunk α) → Option (List α)
  | [] => some (out ++ rest)
  | hunk :: hunks =>
    let kept := out ++ rest.take (hunk.beforeAt - passed)
    let behind := rest.drop (hunk.beforeAt - passed)
    if passed ≤ hunk.beforeAt ∧ kept.length = hunk.afterAt ∧
        behind.take hunk.beforeCount = linesBefore hunk.lines ∧
        hunk.afterCount = (linesAfter hunk.lines).length then
      applyHunks (kept ++ linesAfter hunk.lines) (hunk.beforeAt + hunk.beforeCount)
        (behind.drop hunk.beforeCount) hunks
    else none

theorem lines_context (h : ∀ op ∈ ops, op.kind = .context) : linesAfter ops = linesBefore ops := by
  have hall : ∀ missing, missing ≠ Kind.context →
      (ops.filter fun op => op.kind ≠ missing) = ops := by
    intro missing hne
    apply filter_eq_self.mpr
    intro op hop
    rw [h op hop]
    exact decide_eq_true hne.symm
  unfold linesAfter linesBefore
  rw [hall .removed nofun, hall .added nofun]

/-- Hunks in order, outside of which nothing changes, lead from the one text to the other. -/
theorem applyHunks_hunkAt [DecidableEq α] {ranges : List Range} {hunks : List (DiffHunk α)}
    (hat : List.Forall₂ (HunkAt ops) ranges hunks)
    (hordered : ranges.Pairwise fun r r' => r.finish < r'.start) {p : ℕ}
    (hp : ∀ r ∈ ranges, p ≤ r.start)
    (hcovers : ∀ i op, p ≤ i → ops[i]? = some op → op.kind ≠ .context →
      ∃ r ∈ ranges, r.Holds i) :
    applyHunks (linesAfter (ops.take p)) (linesBefore (ops.take p)).length
      (linesBefore (ops.drop p)) hunks = some (linesAfter ops) := by
  induction hat generalizing p with
  | nil =>
    have hcontext : ∀ op ∈ ops.drop p, op.kind = .context := by
      intro op hop
      by_contra hkind
      obtain ⟨i, hi⟩ := mem_iff_getElem?.mp hop
      rw [getElem?_drop] at hi
      obtain ⟨r, hr, -⟩ := hcovers (p + i) op (le_add_right _ _) hi hkind
      exact not_mem_nil hr
    rw [applyHunks, ← lines_context hcontext, ← linesAfter_append, take_append_drop]
  | @cons range hunk ranges hunks hunkAt hat ih =>
    obtain ⟨hbehind, hordered⟩ := pairwise_cons.mp hordered
    obtain ⟨htake, hdrop⟩ := hunkAt.split
    have hstart : p ≤ range.start := hp range mem_cons_self
    generalize hgap : (ops.drop p).take (range.start - p) = gap
    have hlength : p + (range.start - p) = range.start := Nat.add_sub_cancel' hstart
    have hcontext : ∀ op ∈ gap, op.kind = .context := by
      intro op hop
      by_contra hkind
      obtain ⟨i, hi⟩ := mem_iff_getElem?.mp hop
      rw [← hgap, getElem?_take] at hi
      split_ifs at hi with hlt
      rw [getElem?_drop] at hi
      obtain ⟨r, hr, hri⟩ := hcovers (p + i) op (le_add_right _ _) hi hkind
      have hfirst : range.start ≤ r.start := by
        rcases mem_cons.mp hr with rfl | hr
        · exact le_rfl
        · exact hunkAt.bounds.1.trans (hbehind r hr).le
      have hholds := hri.1
      omega
    have habove : ops.take range.start = ops.take p ++ gap := by
      rw [← hgap, ← take_add, hlength]
    have hrest : ops.drop p = gap ++ (hunk.lines ++ ops.drop (range.finish + 1)) := by
      rw [← hdrop, ← hgap, ← hlength, ← drop_drop, hlength, take_append_drop]
    have hpassed : hunk.beforeAt - (linesBefore (ops.take p)).length = (linesBefore gap).length := by
      rw [hunkAt.beforeAt, habove, linesBefore_append, length_append, Nat.add_sub_cancel_left]
    have hguard : (linesBefore (ops.take p)).length ≤ hunk.beforeAt := by
      rw [hunkAt.beforeAt, habove, linesBefore_append, length_append]
      exact le_add_right _ _
    have hkept : linesAfter (ops.take p) ++ linesBefore gap = linesAfter (ops.take range.start) := by
      rw [habove, linesAfter_append, lines_context hcontext]
    rw [applyHunks, hrest, linesBefore_append, linesBefore_append, hpassed, take_left,
      drop_left, hkept, hunkAt.beforeCount, take_left, drop_left]
    rw [if_pos ⟨hguard, hunkAt.afterAt.symm, rfl, hunkAt.afterCount⟩, hunkAt.beforeAt]
    have hbelow : ∀ i op, range.finish + 1 ≤ i → ops[i]? = some op → op.kind ≠ .context →
        ∃ r ∈ ranges, r.Holds i := by
      intro i op hi hop hkind
      have hbounds := hunkAt.bounds.1
      obtain ⟨r, hr, hri⟩ := hcovers i op (by omega) hop hkind
      rcases mem_cons.mp hr with rfl | hr
      · exact absurd hri.2 (by omega)
      · exact ⟨r, hr, hri⟩
    have hnext := ih hordered hbehind hbelow
    rw [htake, linesAfter_append, linesBefore_append, length_append] at hnext
    exact hnext

theorem HunkAt.describes (h : HunkAt ops range hunk) :
    ((linesBefore ops).drop hunk.beforeAt).take hunk.beforeCount = linesBefore hunk.lines ∧
      ((linesAfter ops).drop hunk.afterAt).take hunk.afterCount = linesAfter hunk.lines := by
  have hops : ops = ops.take range.start ++ (hunk.lines ++ ops.drop (range.finish + 1)) := by
    rw [← h.split.2, take_append_drop]
  constructor
  · have hlines := congrArg linesBefore hops
    rw [linesBefore_append, linesBefore_append] at hlines
    rw [h.beforeAt, h.beforeCount, hlines, drop_left, take_left]
  · have hlines := congrArg linesAfter hops
    rw [linesAfter_append, linesAfter_append] at hlines
    rw [h.afterAt, h.afterCount, hlines, drop_left, take_left]

/-- The lines of an earlier hunk are above those of a later one, in both texts. -/
theorem HunkAt.above {range' : Range} {hunk' : DiffHunk α} (h : HunkAt ops range hunk)
    (h' : HunkAt ops range' hunk') (hlt : range.finish < range'.start) :
    hunk.beforeAt + hunk.beforeCount ≤ hunk'.beforeAt ∧
      hunk.afterAt + hunk.afterCount ≤ hunk'.afterAt := by
  have hlength : range.finish + 1 + (range'.start - (range.finish + 1)) = range'.start :=
    Nat.add_sub_cancel' hlt
  constructor
  · rw [h.beforeAt, h.beforeCount, h'.beforeAt, ← hlength, take_add, h.split.1,
      linesBefore_append, linesBefore_append, length_append, length_append]
    exact le_add_right _ _
  · rw [h.afterAt, h.afterCount, h'.afterAt, ← hlength, take_add, h.split.1,
      linesAfter_append, linesAfter_append, length_append, length_append]
    exact le_add_right _ _

/-! ## Counts -/

theorem length_linesBefore (ops : List (DiffLine α)) :
    (linesBefore ops).length = contextCount ops + removedCount ops := by
  induction ops with
  | nil => rfl
  | cons op ops ih =>
    unfold linesBefore contextCount removedCount at ih ⊢
    obtain ⟨kind, text⟩ := op
    cases kind <;> simp at ih ⊢ <;> omega

theorem length_linesAfter (ops : List (DiffLine α)) :
    (linesAfter ops).length = contextCount ops + addedCount ops := by
  induction ops with
  | nil => rfl
  | cons op ops ih =>
    unfold linesAfter contextCount addedCount at ih ⊢
    obtain ⟨kind, text⟩ := op
    cases kind <;> simp at ih ⊢ <;> omega

/-! ## The hunks of a script -/

/-- The hunks show a script that leads from the one text to the other, every change of it once. -/
structure Shows (before after : List α) (ops : List (DiffLine α)) (ranges : List Range)
    (hunks : List (DiffHunk α)) : Prop where
  before : linesBefore ops = before
  after : linesAfter ops = after
  hunkAt : List.Forall₂ (HunkAt ops) ranges hunks
  ordered : ranges.Pairwise fun r r' => r.finish < r'.start
  once : ∀ i op, ops[i]? = some op → op.kind ≠ .context → ∃! r, r ∈ ranges ∧ r.Holds i

theorem shows_toHunks (ops : List (DiffLine α)) :
    ∃ ranges, Shows (linesBefore ops) (linesAfter ops) ops ranges (toHunks ops) := by
  have hbound : ∀ i ∈ changedIndices ops, i < ops.length := by
    intro i hi
    obtain ⟨op, hop, -⟩ := mem_changedIndices.mp hi
    exact (List.getElem?_eq_some_iff.mp hop).1
  have hsorted : ([] ++ changedIndices ops).Pairwise (· < ·) := pairwise_changedIndices ops
  have hgrouped := (Grouped.nil ops.length).foldl hsorted hbound
  rw [nil_append] at hgrouped
  generalize hranges : (changedIndices ops).foldl (addRange ops.length) [] = ranges at hgrouped
  have hhunks : toHunks ops =
      ranges.map (toHunk ops (numbersFrom .added 1 ops) (numbersFrom .removed 1 ops)) := by
    unfold toHunks
    dsimp only
    split_ifs with hnone
    · rw [hnone] at hranges
      rw [← hranges]
      rfl
    · rw [hranges]
  refine ⟨ranges, rfl, rfl, ?_, hgrouped.apart.imp lt_of_succ_lt, ?_⟩
  · rw [hhunks, forall₂_map_right_iff, forall₂_same]
    exact fun r hr => hunkAt_toHunk (hgrouped.bounds r hr)
  · exact fun i op hop hkind => hgrouped.unique (mem_changedIndices.mpr ⟨op, hop, hkind⟩)

section
variable {before after : List α} {ops : List (DiffLine α)} {ranges : List Range}
  {hunks : List (DiffHunk α)}

theorem Shows.applyHunks [DecidableEq α] (h : Shows before after ops ranges hunks) :
    applyHunks [] 0 before hunks = some after := by
  have hpatch := applyHunks_hunkAt h.hunkAt h.ordered (fun _ _ => zero_le _)
    fun i op _ hop hkind => (h.once i op hop hkind).exists
  rw [drop_zero, h.before, h.after] at hpatch
  exact hpatch

/-- The lines of the two texts a header tells are those of its hunk. -/
theorem Shows.describes (h : Shows before after ops ranges hunks) :
    ∀ hunk ∈ hunks, (before.drop hunk.beforeAt).take hunk.beforeCount = linesBefore hunk.lines ∧
      (after.drop hunk.afterAt).take hunk.afterCount = linesAfter hunk.lines := by
  intro hunk hhunk
  obtain ⟨k, hk, rfl⟩ := getElem_of_mem hhunk
  have hat := (forall₂_iff_get.mp h.hunkAt).2 k (h.hunkAt.length_eq ▸ hk) hk
  rw [← h.before, ← h.after]
  exact hat.describes

theorem Shows.apart (h : Shows before after ops ranges hunks) :
    hunks.Pairwise fun hunk hunk' => hunk.beforeAt + hunk.beforeCount ≤ hunk'.beforeAt ∧
      hunk.afterAt + hunk.afterCount ≤ hunk'.afterAt := by
  rw [pairwise_iff_get]
  intro j k hlt
  obtain ⟨hlength, hat⟩ := forall₂_iff_get.mp h.hunkAt
  have hj : j.val < ranges.length := by omega
  have hk : k.val < ranges.length := by omega
  exact (hat j hj j.isLt).above (hat k hk k.isLt)
    (pairwise_iff_get.mp h.ordered ⟨j, hj⟩ ⟨k, hk⟩ hlt)

end

end

/-! ## Texts that are too large -/

section
variable {α : Type} [DecidableEq α]

/-- What two texts start and end with alike is kept by a shortest script too. -/
theorem commonHead_le_lcsLength (before after : List α) :
    commonHead before after + commonHead (before.drop (commonHead before after)).reverse
      (after.drop (commonHead before after)).reverse ≤ lcsLength before after := by
  obtain ⟨hbefore, hafter⟩ := split_common before after
  have hhead := (commonHead_le before after).1
  have htail := (commonHead_le (before.drop (commonHead before after)).reverse
    (after.drop (commonHead before after)).reverse).2
  rw [length_reverse, length_drop] at htail
  generalize commonHead before after = head at *
  generalize commonHead (before.drop head).reverse (after.drop head).reverse = tail at *
  have hstart : (before.take head).length = head := length_take_of_le hhead
  have hfinish : (after.drop (after.length - tail)).length = tail := by
    rw [length_drop]
    omega
  have hcommon := lcsLength_append_right
    (before.take head ++ (before.take (before.length - tail)).drop head)
    (before.take head ++ (after.take (after.length - tail)).drop head)
    (after.drop (after.length - tail))
  rw [← hbefore, ← hafter, lcsLength_append_left, hstart, hfinish] at hcommon
  omega

/-- A script that removes and adds as few lines as any. -/
structure Shortest (before after : List α) (ops : List (DiffLine α)) : Prop where
  kept : IsGreatest {n | ∃ l : List α, l.Sublist before ∧ l.Sublist after ∧ l.length = n}
    (contextCount ops)
  before : linesBefore ops = before
  after : linesAfter ops = after

theorem shortest_walk (before after : List α) :
    Shortest before after (walk (fillTable before after) 0 0 before after) := by
  have hedits := edits_walk_fillTable before after
  refine ⟨?_, hedits.before, hedits.after⟩
  rw [hedits.kept]
  exact isGreatest_lcsLength before after

end

/-! ## Two texts -/

theorem counts_balanced {α : Type} (ops : List (DiffLine α)) :
    ((linesBefore ops).length : ℤ) - removedCount ops =
      (linesAfter ops).length - addedCount ops := by
  rw [length_linesBefore, length_linesAfter]
  omega

/-- The counts of a diff agree. Its hunks are in order and show every change once, their headers tell
the lines they show, and they are a patch from the first text to the second. Without hunks the counts
are no less than those of a shortest script. -/
theorem diffText_hunks (before after : Utf16) :
    ((diffText before after).linesBefore : ℤ) - (diffText before after).linesRemoved =
        (diffText before after).linesAfter - (diffText before after).linesAdded ∧
      (diffText before after).linesBefore = (splitLines before).length ∧
      (diffText before after).linesAfter = (splitLines after).length ∧
      match (diffText before after).hunks with
      | some hunks =>
        ∃ ops ranges, Shows (splitLines before) (splitLines after) ops ranges hunks ∧
          addedCount ops = (diffText before after).linesAdded ∧
          removedCount ops = (diffText before after).linesRemoved ∧
          (∀ hunk ∈ hunks,
            ((splitLines before).drop hunk.beforeAt).take hunk.beforeCount =
                linesBefore hunk.lines ∧
              ((splitLines after).drop hunk.afterAt).take hunk.afterCount =
                linesAfter hunk.lines) ∧
          (hunks.Pairwise fun hunk hunk' =>
            hunk.beforeAt + hunk.beforeCount ≤ hunk'.beforeAt ∧
              hunk.afterAt + hunk.afterCount ≤ hunk'.afterAt) ∧
          applyHunks [] 0 (splitLines before) hunks = some (splitLines after)
      | none =>
        ∃ ops, Shortest (splitLines before) (splitLines after) ops ∧
          removedCount ops ≤ (diffText before after).linesRemoved ∧
          addedCount ops ≤ (diffText before after).linesAdded := by
  unfold diffText
  generalize hbefore : splitLines before = beforeLines
  generalize hafter : splitLines after = afterLines
  by_cases hsame : before = after
  · have hlines : beforeLines = afterLines := by rw [← hbefore, ← hafter, hsame]
    rw [if_pos hsame]
    subst hlines
    have hedits := edits_context beforeLines
    generalize hops : (beforeLines.map fun line => (⟨.context, line⟩ : DiffLine Utf16)) = ops
    rw [hops] at hedits
    have hcontext : ∀ op ∈ ops, op.kind = .context := by
      rw [← hops]
      intro op hop
      obtain ⟨line, -, rfl⟩ := mem_map.mp hop
      rfl
    have hshows : Shows beforeLines beforeLines ops [] [] :=
      ⟨hedits.before, hedits.after, .nil, .nil,
        fun i op hop hkind => absurd (hcontext op (mem_of_getElem? hop)) hkind⟩
    have hnone : ∀ kind, kind ≠ Kind.context → (ops.filter fun op => op.kind = kind).length = 0 := by
      intro kind hkind
      rw [filter_eq_nil_iff.mpr, length_nil]
      intro op hop
      rw [hcontext op hop]
      exact fun h => hkind (of_decide_eq_true h).symm
    exact ⟨rfl, rfl, rfl, ops, [], hshows, hnone .added nofun, hnone .removed nofun,
      hshows.describes, hshows.apart, hshows.applyHunks⟩
  · rw [if_neg hsame]
    cases hops : operations beforeLines afterLines with
    | none =>
      have hwalk := shortest_walk beforeLines afterLines
      have hkept := (edits_walk_fillTable beforeLines afterLines).kept
      have hcommon := commonHead_le_lcsLength beforeLines afterLines
      rw [← hkept] at hcommon
      have hremoved := length_linesBefore
        (walk (fillTable beforeLines afterLines) 0 0 beforeLines afterLines)
      have hadded := length_linesAfter
        (walk (fillTable beforeLines afterLines) 0 0 beforeLines afterLines)
      rw [hwalk.before] at hremoved
      rw [hwalk.after] at hadded
      dsimp only
      refine ⟨by omega, rfl, rfl, _, hwalk, by omega, by omega⟩
    | some ops =>
      have hedits := edits_operations hops
      obtain ⟨ranges, hshows⟩ := shows_toHunks ops
      have hbalance := counts_balanced ops
      rw [hedits.before, hedits.after] at hshows hbalance
      exact ⟨hbalance, rfl, rfl, ops, ranges, hshows, rfl, rfl, hshows.describes, hshows.apart,
        hshows.applyHunks⟩

end HVault.TextDiff
