import HVault.Data.Greedy
import HVault.Import.Csv

/-!
# The preview of a table

`parseDelimited` reads delimited text and keeps what a preview can show of it, counting the rest.
The loop reads the rows of the file one after another (`outcome_fileRows`); a row is kept while rows
times columns stay in the budget. The preview is always in its budgets and its totals are those of
the file (`parseDelimited_budgets`). It is the start of the file only where no row behind the first
that was left out fits (`parseDelimited_prefix_iff`).
-/

namespace HVault.TablePreview

open Json List Nat Greedy
open Csv (quote cr lf)

/-- The fields of a row. -/
abbrev Row := List Utf16

def maxPreviewTextLines : ℕ := 50000
def maxPreviewTableColumns : ℕ := 1000
def maxPreviewTableCells : ℕ := 250000

structure DelimitedTable where
  rows : List Row
  truncated : Bool
  totalRows : ℕ
  columns : ℕ
  columnsTruncated : Bool
  totalColumns : ℕ
  deriving DecidableEq

/-! ## The loop -/

/-- What has been kept and counted of the rows that have been read. -/
structure Kept where
  rows : List Row
  columns : ℕ
  totalRows : ℕ
  totalColumns : ℕ

/-- A row that has been read is kept if the budget still fits it, at the width it forces the table
to. -/
def Kept.keepRow (kept : Kept) (candidate : Row) : Kept :=
  if kept.rows.length ≥ maxPreviewTextLines then kept
  else
    let width := max kept.columns candidate.length
    if kept.rows.length ≥ maxPreviewTableCells / width then kept
    else { kept with columns := width, rows := kept.rows ++ [candidate] }

/-- Inside of a row: `row` holds the fields that are kept of it, `rowFields` counts them all. -/
structure Reading where
  kept : Kept
  row : Row
  rowFields : ℕ
  field : Utf16
  quoted : Bool
  sawContent : Bool

namespace Reading

def endField (s : Reading) : Reading :=
  { s with
    rowFields := s.rowFields + 1
    row := if s.row.length < maxPreviewTableColumns then s.row ++ [s.field] else s.row
    field := [] }

def endRow (s : Reading) : Reading :=
  let s := s.endField
  let counted : Kept :=
    { s.kept with
      totalRows := s.kept.totalRows + 1
      totalColumns := max s.kept.totalColumns s.rowFields }
  { s with kept := counted.keepRow s.row, row := [], rowFields := 0, sawContent := false }

def push (u : UInt16) (s : Reading) : Reading := { s with field := s.field ++ [u] }

/-- The loop, from one character on. -/
def scan (delimiter : Utf16) (s : Reading) : Utf16 → Reading
  | [] => s
  | character :: rest =>
    let s := { s with sawContent := true }
    if s.quoted then
      if character ≠ quote then scan delimiter (s.push character) rest
      else if rest.head? = some quote then scan delimiter (s.push quote) rest.tail
      else scan delimiter { s with quoted := false } rest
    else if character = quote ∧ s.field = [] then scan delimiter { s with quoted := true } rest
    else if [character] = delimiter then scan delimiter s.endField rest
    else if character = cr then
      scan delimiter s.endRow (if rest.head? = some lf then rest.tail else rest)
    else if character = lf then scan delimiter s.endRow rest
    else scan delimiter (s.push character) rest
termination_by text => text.length
decreasing_by
  all_goals rw [List.length_cons]
  all_goals try split
  all_goals try rw [List.length_tail]
  all_goals omega

/-- A file that does not end in a line break has one more row. -/
def finish (s : Reading) : Reading :=
  if s.sawContent ∨ s.field ≠ [] ∨ 0 < s.row.length then s.endRow else s

/-- Before a row. -/
def atRow (kept : Kept) : Reading := ⟨kept, [], 0, [], false, false⟩

end Reading

/-- What is kept and counted of the rest of a file. -/
def outcome (delimiter : Utf16) (s : Reading) (text : Utf16) : Kept :=
  (s.scan delimiter text).finish.kept

def parseDelimited (text delimiter : Utf16) : DelimitedTable :=
  let kept := outcome delimiter (.atRow ⟨[], 0, 0, 0⟩) text
  { rows := kept.rows
    truncated := kept.totalRows > kept.rows.length
    totalRows := kept.totalRows
    columns := kept.columns
    columnsTruncated := kept.totalColumns > kept.columns
    totalColumns := kept.totalColumns }

/-- What a preview cut, or `none` when it cut nothing. -/
def describeTableTruncation (table : DelimitedTable) : Option String :=
  let cut :=
    (if table.truncated then [s!"the first {table.rows.length} of {table.totalRows} rows"] else []) ++
    if table.columnsTruncated then [s!"the first {table.columns} of {table.totalColumns} columns"]
    else []
  if cut = [] then none else some ("Showing " ++ " and ".intercalate cut)

/-! ## The grammar

A file is rows, a row fields with the delimiter between them, and a field is text or stands in
quotes. -/

/-- What stands between quotes, where a doubled quote is one, and what is behind the closing one. The
end of the file closes the quotes too. -/
def readQuoted : Utf16 → Utf16 × Utf16
  | [] => ([], [])
  | u :: rest =>
    if u ≠ quote then (u :: (readQuoted rest).1, (readQuoted rest).2)
    else if rest.head? = some quote then
      (quote :: (readQuoted rest.tail).1, (readQuoted rest.tail).2)
    else ([], rest)
termination_by text => text.length
decreasing_by
  all_goals simp only [List.length_cons, List.length_tail]
  all_goals omega

/-- No delimiter and no line break. -/
def isPlain (delimiter : Utf16) (u : UInt16) : Bool := [u] ≠ delimiter ∧ u ≠ cr ∧ u ≠ lf

/-- A field and what is behind it. Text behind a closing quote belongs to the field. -/
def readField (delimiter text : Utf16) : Utf16 × Utf16 :=
  if text.head? = some quote then
    let quoted := readQuoted text.tail
    (quoted.1 ++ quoted.2.takeWhile (isPlain delimiter), quoted.2.dropWhile (isPlain delimiter))
  else (text.takeWhile (isPlain delimiter), text.dropWhile (isPlain delimiter))

theorem length_readQuoted (text : Utf16) : (readQuoted text).2.length ≤ text.length := by
  fun_induction readQuoted text with
  | case1 => exact le_rfl
  | case2 u rest hu ih => exact ih.trans (le_succ _)
  | case3 u rest hu hdouble ih =>
    rw [length_tail] at ih
    show (readQuoted rest.tail).2.length ≤ rest.length + 1
    omega
  | case4 u rest hu hdouble => exact le_succ _

theorem length_readField (delimiter text : Utf16) :
    (readField delimiter text).2.length ≤ text.length := by
  have hdrop : ∀ rest : Utf16, (rest.dropWhile (isPlain delimiter)).length ≤ rest.length :=
    fun rest => (dropWhile_sublist _).length_le
  unfold readField
  split_ifs
  · have hquoted := length_readQuoted text.tail
    rw [length_tail] at hquoted
    exact (hdrop _).trans (hquoted.trans (sub_le _ _))
  · exact hdrop text

/-- A row and what is behind its line break. -/
def readRow (delimiter text : Utf16) : Row × Utf16 :=
  match _ : (readField delimiter text).2 with
  | [] => ([(readField delimiter text).1], [])
  | u :: rest =>
    if [u] = delimiter then
      ((readField delimiter text).1 :: (readRow delimiter rest).1, (readRow delimiter rest).2)
    else
      ([(readField delimiter text).1],
        if u = cr ∧ rest.head? = some lf then rest.tail else rest)
termination_by text.length
decreasing_by
  all_goals
    have hlength := length_readField delimiter text
    rw [‹(readField delimiter text).2 = _ :: _›, List.length_cons] at hlength
    exact hlength

theorem length_readRow_le (delimiter text : Utf16) :
    (readRow delimiter text).2.length ≤ text.length := by
  fun_induction readRow delimiter text with
  | case1 text hrest => exact zero_le _
  | case2 text u rest hrest hdelimiter ih =>
    have hlength := length_readField delimiter text
    rw [hrest, length_cons] at hlength
    exact ih.trans (le_of_succ_le hlength)
  | case3 text u rest hrest hdelimiter =>
    have hlength := length_readField delimiter text
    rw [hrest, length_cons] at hlength
    show (if u = cr ∧ rest.head? = some lf then rest.tail else rest).length ≤ text.length
    split_ifs
    · rw [length_tail]
      omega
    · exact le_of_succ_le hlength

theorem length_readRow {delimiter text : Utf16} (h : text ≠ []) :
    (readRow delimiter text).2.length < text.length := by
  have hlength := length_readField delimiter text
  rw [readRow]
  split
  · exact length_pos_of_ne_nil h
  · rename_i u rest hrest
    rw [hrest, length_cons] at hlength
    split_ifs with hdelimiter hbreak
    · exact (length_readRow_le delimiter rest).trans_lt hlength
    · show rest.tail.length < text.length
      rw [length_tail]
      omega
    · exact hlength

/-- The rows of a file. A line break at its end does not start another row. -/
def fileRows (delimiter text : Utf16) : List Row :=
  if _ : text = [] then []
  else (readRow delimiter text).1 :: fileRows delimiter (readRow delimiter text).2
termination_by text.length
decreasing_by exact length_readRow ‹_›

/-! ## The loop reads the grammar -/

/-- In a row of which `fields` have been read, and `field` of the next. -/
def inRow (kept : Kept) (fields : Row) (field : Utf16) (quoted : Bool) : Reading :=
  ⟨kept, fields.take maxPreviewTableColumns, fields.length, field, quoted, true⟩

/-- As much of a row as is kept. -/
def cutRow (row : Row) : Row := row.take maxPreviewTableColumns

/-- A whole row is counted, and kept if it fits. -/
def Kept.addRow (kept : Kept) (row : Row) : Kept :=
  Kept.keepRow
    { kept with
      totalRows := kept.totalRows + 1
      totalColumns := max kept.totalColumns row.length } (cutRow row)

section
variable {delimiter : Utf16} {kept : Kept} {fields : Row} {field text : Utf16} {quoted : Bool}

theorem endField_inRow : (inRow kept fields field quoted).endField =
    inRow kept (fields ++ [field]) [] quoted := by
  have hrow : (if (fields.take maxPreviewTableColumns).length < maxPreviewTableColumns then
      fields.take maxPreviewTableColumns ++ [field] else fields.take maxPreviewTableColumns) =
      (fields ++ [field]).take maxPreviewTableColumns := by
    rw [length_take]
    split_ifs with hroom
    · have hlength : fields.length < maxPreviewTableColumns := by omega
      rw [take_of_length_le hlength.le, take_of_length_le]
      rw [length_append, length_singleton]
      exact hlength
    · rw [take_append_of_le_length (by omega)]
  unfold Reading.endField inRow
  rw [hrow, length_append, length_singleton]

theorem endRow_inRow : (inRow kept fields field false).endRow =
    .atRow (kept.addRow (fields ++ [field])) := by
  unfold Reading.endRow
  rw [endField_inRow]
  rfl

theorem finish_inRow : (inRow kept fields field quoted).finish.kept =
    kept.addRow (fields ++ [field]) := by
  unfold Reading.finish Reading.endRow
  rw [if_pos (.inl rfl), endField_inRow]
  rfl

theorem outcome_nil_inRow : outcome delimiter (inRow kept fields field quoted) [] =
    kept.addRow (fields ++ [field]) := by
  unfold outcome
  rw [Reading.scan]
  exact finish_inRow

theorem outcome_nil_atRow : outcome delimiter (.atRow kept) [] = kept := by
  unfold outcome
  rw [Reading.scan]
  rfl

/-- The first character of a row is its first content. -/
theorem outcome_atRow (h : text ≠ []) :
    outcome delimiter (.atRow kept) text = outcome delimiter (inRow kept [] [] false) text := by
  cases text with
  | nil => exact absurd rfl h
  | cons u rest =>
    unfold outcome
    rw [Reading.scan, Reading.scan]
    rfl

/-- What one character does outside of quotes. -/
theorem scan_inRow_cons (u : UInt16) (rest : Utf16) :
    (inRow kept fields field false).scan delimiter (u :: rest) =
      if u = quote ∧ field = [] then (inRow kept fields field true).scan delimiter rest
      else if [u] = delimiter then (inRow kept fields field false).endField.scan delimiter rest
      else if u = cr then
        (inRow kept fields field false).endRow.scan delimiter
          (if rest.head? = some lf then rest.tail else rest)
      else if u = lf then (inRow kept fields field false).endRow.scan delimiter rest
      else (inRow kept fields (field ++ [u]) false).scan delimiter rest := by
  rw [Reading.scan]
  rfl

/-- What one character does inside of quotes. -/
theorem scan_inRow_quoted_cons (u : UInt16) (rest : Utf16) :
    (inRow kept fields field true).scan delimiter (u :: rest) =
      if u ≠ quote then (inRow kept fields (field ++ [u]) true).scan delimiter rest
      else if rest.head? = some quote then
        (inRow kept fields (field ++ [quote]) true).scan delimiter rest.tail
      else (inRow kept fields field false).scan delimiter rest := by
  rw [Reading.scan]
  rfl

/-- Plain text is read as it stands: a quote means something at the start of a field only. -/
theorem scan_plain (h : field = [] → text.head? ≠ some quote) :
    (inRow kept fields field false).scan delimiter text =
      (inRow kept fields (field ++ text.takeWhile (isPlain delimiter)) false).scan delimiter
        (text.dropWhile (isPlain delimiter)) := by
  induction text generalizing field with
  | nil => simp
  | cons u rest ih =>
    by_cases hplain : isPlain delimiter u
    · obtain ⟨hdelimiter, hcr, hlf⟩ := of_decide_eq_true hplain
      have hquote : ¬ (u = quote ∧ field = []) := by
        intro hopen
        exact h hopen.2 (congrArg some hopen.1)
      have hnext : field ++ [u] = [] → rest.head? ≠ some quote := by
        intro hnil
        exact absurd hnil (append_ne_nil_of_right_ne_nil _ (cons_ne_nil _ _))
      rw [scan_inRow_cons, if_neg hquote, if_neg hdelimiter, if_neg hcr, if_neg hlf, ih hnext,
        takeWhile_cons_of_pos hplain, dropWhile_cons_of_pos hplain, append_assoc,
        singleton_append]
    · rw [takeWhile_cons_of_neg hplain, dropWhile_cons_of_neg hplain, append_nil]

/-- What stands between quotes is read to the closing one. -/
theorem outcome_quoted : outcome delimiter (inRow kept fields field true) text =
    outcome delimiter (inRow kept fields (field ++ (readQuoted text).1) false)
      (readQuoted text).2 := by
  fun_induction readQuoted text generalizing field with
  | case1 => rw [append_nil, outcome_nil_inRow, outcome_nil_inRow]
  | case2 u rest hu ih =>
    have hstep : outcome delimiter (inRow kept fields field true) (u :: rest) =
        outcome delimiter (inRow kept fields (field ++ [u]) true) rest := by
      unfold outcome
      rw [scan_inRow_quoted_cons, if_pos hu]
    rw [hstep, ih, append_assoc, singleton_append]
  | case3 u rest hu hdouble ih =>
    have hstep : outcome delimiter (inRow kept fields field true) (u :: rest) =
        outcome delimiter (inRow kept fields (field ++ [quote]) true) rest.tail := by
      unfold outcome
      rw [scan_inRow_quoted_cons, if_neg hu, if_pos hdouble]
    rw [hstep, ih, append_assoc, singleton_append]
  | case4 u rest hu hdouble =>
    unfold outcome
    rw [scan_inRow_quoted_cons, if_neg hu, if_neg hdouble, append_nil]

theorem head?_readQuoted (text : Utf16) : (readQuoted text).2.head? ≠ some quote := by
  fun_induction readQuoted text with
  | case1 => exact nofun
  | case2 u rest hu ih => exact ih
  | case3 u rest hu hdouble ih => exact ih
  | case4 u rest hu hdouble => exact hdouble

theorem outcome_field : outcome delimiter (inRow kept fields [] false) text =
    outcome delimiter (inRow kept fields (readField delimiter text).1 false)
      (readField delimiter text).2 := by
  unfold readField
  split_ifs with hopen
  · obtain ⟨rest, rfl⟩ : ∃ rest, text = quote :: rest := head?_eq_some_iff.mp hopen
    have hstep : outcome delimiter (inRow kept fields [] false) (quote :: rest) =
        outcome delimiter (inRow kept fields [] true) rest := by
      unfold outcome
      rw [scan_inRow_cons, if_pos ⟨rfl, rfl⟩]
    rw [hstep, outcome_quoted, nil_append, tail_cons]
    unfold outcome
    rw [scan_plain fun _ => head?_readQuoted rest]
  · unfold outcome
    rw [scan_plain fun _ => hopen, nil_append]

/-- Behind a field without text there is no quote. -/
theorem head?_readField (h : (readField delimiter text).1 = []) :
    (readField delimiter text).2.head? ≠ some quote := by
  have hnone : ∀ rest : Utf16, rest.takeWhile (isPlain delimiter) = [] →
      rest.dropWhile (isPlain delimiter) = rest := by
    intro rest hnil
    have hwhole := takeWhile_append_dropWhile (p := isPlain delimiter) (l := rest)
    rwa [hnil, nil_append] at hwhole
  unfold readField at h ⊢
  split_ifs at h ⊢ with hopen
  · have hrest := hnone (readQuoted text.tail).2 (append_eq_nil_iff.mp h).2
    show ((readQuoted text.tail).2.dropWhile (isPlain delimiter)).head? ≠ some quote
    rw [hrest]
    exact head?_readQuoted text.tail
  · rw [hnone _ h]
    exact hopen

/-- A field ends at a delimiter or a line break. -/
theorem not_isPlain_readField {u : UInt16} {rest : Utf16}
    (h : (readField delimiter text).2 = u :: rest) : ¬ isPlain delimiter u := by
  have hdrop : ∃ t : Utf16, t.dropWhile (isPlain delimiter) = u :: rest := by
    unfold readField at h
    split_ifs at h
    · exact ⟨_, h⟩
    · exact ⟨_, h⟩
  obtain ⟨t, ht⟩ := hdrop
  have hhead := head?_dropWhile_not (isPlain delimiter) t
  rw [ht] at hhead
  simpa using hhead

theorem readRow_ne (delimiter text : Utf16) : (readRow delimiter text).1 ≠ [] := by
  rw [readRow]
  split
  · exact cons_ne_nil _ _
  · split_ifs <;> exact cons_ne_nil _ _

theorem outcome_row : outcome delimiter (inRow kept fields [] false) text =
    outcome delimiter (.atRow (kept.addRow (fields ++ (readRow delimiter text).1)))
      (readRow delimiter text).2 := by
  fun_induction readRow delimiter text generalizing fields with
  | case1 text hrest =>
    rw [outcome_field, hrest, outcome_nil_inRow, outcome_nil_atRow]
  | case2 text u rest hrest hdelimiter ih =>
    have hquote : ¬ (u = quote ∧ (readField delimiter text).1 = []) := by
      intro hopen
      apply head?_readField hopen.2
      rw [hrest, hopen.1]
      rfl
    have hstep : outcome delimiter (inRow kept fields (readField delimiter text).1 false) (u :: rest) =
        outcome delimiter (inRow kept (fields ++ [(readField delimiter text).1]) [] false) rest := by
      unfold outcome
      rw [scan_inRow_cons, if_neg hquote, if_pos hdelimiter, endField_inRow]
    rw [outcome_field, hrest, hstep, ih, append_assoc, singleton_append]
  | case3 text u rest hrest hdelimiter =>
    have hquote : ¬ (u = quote ∧ (readField delimiter text).1 = []) := by
      intro hopen
      apply head?_readField hopen.2
      rw [hrest, hopen.1]
      rfl
    have hend : u = cr ∨ u = lf := by
      have hplain := not_isPlain_readField hrest
      by_contra hno
      rw [not_or] at hno
      exact hplain (decide_eq_true ⟨hdelimiter, hno⟩)
    rw [outcome_field, hrest]
    unfold outcome
    rw [scan_inRow_cons, if_neg hquote, if_neg hdelimiter, endRow_inRow]
    by_cases hcr : u = cr
    · rw [if_pos hcr]
      simp only [hcr, true_and]
    · rw [if_neg hcr, if_pos (hend.resolve_left hcr), if_neg fun hboth => hcr hboth.1]

/-- **The loop reads the rows of the file**, one after another. -/
theorem outcome_fileRows : outcome delimiter (.atRow kept) text =
    (fileRows delimiter text).foldl Kept.addRow kept := by
  fun_induction fileRows delimiter text generalizing kept with
  | case1 => exact outcome_nil_atRow
  | case2 text hne ih =>
    rw [outcome_atRow hne, outcome_row, ih, nil_append]
    rfl

end

/-! ## The budgets -/

/-- The width of a table. -/
def widest (rows : List Row) : ℕ := rows.foldl (fun width row => max width row.length) 0

/-- The rows and the cells of a table of these rows are in the budget. -/
def Fits (rows : List Row) : Prop :=
  rows.length ≤ maxPreviewTextLines ∧ rows.length * widest rows ≤ maxPreviewTableCells

instance : DecidablePred Fits := fun rows =>
  inferInstanceAs (Decidable (rows.length ≤ maxPreviewTextLines ∧ _))

theorem widest_append (rows : List Row) (row : Row) :
    widest (rows ++ [row]) = max (widest rows) row.length := by
  unfold widest
  rw [foldl_append]
  rfl

variable {rows : List Row}

theorem widest_le {width : ℕ} : widest rows ≤ width ↔ ∀ row ∈ rows, row.length ≤ width := by
  induction rows using reverseRecOn with
  | nil => exact ⟨fun _ => nofun, fun _ => zero_le _⟩
  | append_singleton rows row ih =>
    rw [widest_append, Nat.max_le, ih, forall_mem_append, forall_mem_singleton]

theorem fits_of_append (rows : List Row) (row : Row) (h : Fits (rows ++ [row])) : Fits rows := by
  obtain ⟨hlines, hcells⟩ := h
  rw [length_append, length_singleton] at hlines hcells
  rw [widest_append] at hcells
  refine ⟨le_of_succ_le hlines, le_trans ?_ hcells⟩
  exact Nat.mul_le_mul (le_succ _) (le_max_left _ _)

theorem fits_nil : Fits [] := ⟨zero_le _, zero_le _⟩

/-- What has been kept of the rows that have been read. -/
structure Previews (rows : List Row) (kept : Kept) : Prop where
  totalRows : kept.totalRows = rows.length
  totalColumns : kept.totalColumns = widest rows
  columns : kept.columns = widest kept.rows
  rows : kept.rows = Greedy.keep Fits [] (rows.map cutRow)

/-- The check of a row is that it fits with those that are kept. -/
theorem keepRow_eq (kept : Kept) {row : Row} (hcolumns : kept.columns = widest kept.rows)
    (hrow : row ≠ []) : kept.keepRow row =
      if Fits (kept.rows ++ [row]) then
        { kept with columns := widest (kept.rows ++ [row]), rows := kept.rows ++ [row] }
      else kept := by
  have hwidth : 0 < max (widest kept.rows) row.length :=
    (length_pos_of_ne_nil hrow).trans_le (le_max_right _ _)
  have hfits : Fits (kept.rows ++ [row]) ↔ ¬ kept.rows.length ≥ maxPreviewTextLines ∧
      ¬ kept.rows.length ≥ maxPreviewTableCells / max (widest kept.rows) row.length := by
    unfold Fits
    rw [length_append, length_singleton, widest_append, not_le, not_le,
      ← le_div_iff_mul_le hwidth]
    rfl
  unfold Kept.keepRow
  rw [hcolumns, widest_append]
  by_cases hlines : kept.rows.length ≥ maxPreviewTextLines
  · rw [if_pos hlines, if_neg fun h => (hfits.mp h).1 hlines]
  · rw [if_neg hlines]
    by_cases hcells : kept.rows.length ≥ maxPreviewTableCells / max (widest kept.rows) row.length
    · rw [if_pos hcells, if_neg fun h => (hfits.mp h).2 hcells]
    · rw [if_neg hcells, if_pos (hfits.mpr ⟨hlines, hcells⟩)]

variable {kept : Kept}

theorem Previews.addRow (h : Previews rows kept) {row : Row} (hrow : row ≠ []) :
    Previews (rows ++ [row]) (kept.addRow row) := by
  have hcut : cutRow row ≠ [] := by
    intro hnil
    exact (take_eq_nil_iff.mp hnil).elim nofun hrow
  have hrows : keep Fits [] ((rows ++ [row]).map cutRow) =
      if Fits (kept.rows ++ [cutRow row]) then kept.rows ++ [cutRow row] else kept.rows := by
    rw [map_append, h.rows]
    unfold keep
    rw [foldl_append]
    rfl
  unfold Kept.addRow
  rw [keepRow_eq ⟨kept.rows, kept.columns, kept.totalRows + 1, max kept.totalColumns row.length⟩
    h.columns hcut]
  split_ifs at hrows ⊢
  · refine ⟨?_, ?_, rfl, hrows.symm⟩
    · rw [length_append, ← h.totalRows]
      rfl
    · rw [widest_append rows, ← h.totalColumns]
  · refine ⟨?_, ?_, h.columns, hrows.symm⟩
    · rw [length_append, ← h.totalRows]
      rfl
    · rw [widest_append rows, ← h.totalColumns]

theorem Previews.foldl {more : List Row} (h : Previews rows kept) (hne : ∀ row ∈ more, row ≠ []) :
    Previews (rows ++ more) (more.foldl Kept.addRow kept) := by
  induction more generalizing rows kept with
  | nil => rwa [append_nil]
  | cons row more ih =>
    have hrest := ih (h.addRow (hne row mem_cons_self))
      fun row hmem => hne row (mem_cons_of_mem _ hmem)
    rwa [append_assoc, singleton_append] at hrest

theorem fileRows_ne (delimiter text : Utf16) : ∀ row ∈ fileRows delimiter text, row ≠ [] := by
  fun_induction fileRows delimiter text with
  | case1 => exact nofun
  | case2 text hne ih => exact forall_mem_cons.mpr ⟨readRow_ne delimiter text, ih⟩

/-- What the preview of a file keeps and counts of its rows. -/
theorem previews_fileRows (delimiter text : Utf16) :
    Previews (fileRows delimiter text) (outcome delimiter (.atRow ⟨[], 0, 0, 0⟩) text) := by
  have hstart : Previews [] ⟨[], 0, 0, 0⟩ := ⟨rfl, rfl, rfl, rfl⟩
  rw [outcome_fileRows]
  exact hstart.foldl (fileRows_ne delimiter text)

theorem Previews.fits (h : Previews rows kept) : Fits kept.rows := by
  rw [h.rows]
  exact fits_keep fits_nil _

theorem Previews.length_le (h : Previews rows kept) :
    ∀ row ∈ kept.rows, row.length ≤ maxPreviewTableColumns := by
  intro row hrow
  rw [h.rows] at hrow
  obtain ⟨whole, -, rfl⟩ := mem_map.mp ((keep_sublist _ _).mem hrow)
  exact length_take_le _ _

theorem map_cutRow (h : ∀ row ∈ rows, row.length ≤ maxPreviewTableColumns) :
    rows.map cutRow = rows := by
  have hsame : rows.map cutRow = rows.map id :=
    map_congr_left fun row hrow => take_of_length_le (h row hrow)
  rw [hsame, map_id]

/-- **A preview stays in its budgets**, and its totals are those of the file. -/
theorem parseDelimited_budgets (text delimiter : Utf16) :
    (parseDelimited text delimiter).rows.length ≤ maxPreviewTextLines ∧
      (∀ row ∈ (parseDelimited text delimiter).rows,
        row.length ≤ (parseDelimited text delimiter).columns) ∧
      (parseDelimited text delimiter).columns ≤ maxPreviewTableColumns ∧
      (parseDelimited text delimiter).rows.length * (parseDelimited text delimiter).columns ≤
        maxPreviewTableCells ∧
      (parseDelimited text delimiter).totalRows = (fileRows delimiter text).length ∧
      (parseDelimited text delimiter).totalColumns = widest (fileRows delimiter text) := by
  have h := previews_fileRows delimiter text
  unfold parseDelimited
  dsimp only
  generalize outcome delimiter (.atRow ⟨[], 0, 0, 0⟩) text = kept at h
  rw [h.columns]
  exact ⟨h.fits.1, widest_le.mp le_rfl, widest_le.mpr h.length_le, h.fits.2, h.totalRows,
    h.totalColumns⟩

/-! ## The start of the file -/

/-- The preview shows the first rows of the file, each cut at the column limit. -/
def ShowsStart (table : DelimitedTable) (rows : List Row) : Prop :=
  table.rows = (rows.take table.rows.length).map cutRow

theorem showsStart_iff_keep (text delimiter : Utf16) :
    ShowsStart (parseDelimited text delimiter) (fileRows delimiter text) ↔
      keep Fits [] ((fileRows delimiter text).map cutRow) =
        ([] ++ (fileRows delimiter text).map cutRow).take
          (keep Fits [] ((fileRows delimiter text).map cutRow)).length := by
  rw [← (previews_fileRows delimiter text).rows, nil_append, ← map_take]
  rfl

/-- **A preview is the start of the file** exactly where no row behind the first that was left out
fits with the rows before that one. -/
theorem parseDelimited_prefix_iff (text delimiter : Utf16) :
    ShowsStart (parseDelimited text delimiter) (fileRows delimiter text) ↔
      ∀ before row after, (fileRows delimiter text).map cutRow = before ++ row :: after →
        Fits before → ¬ Fits (before ++ [row]) → ∀ later ∈ after, ¬ Fits (before ++ [later]) := by
  rw [showsStart_iff_keep]
  exact keep_eq_take_iff fits_of_append fits_nil _

/-! A wide row is left out behind narrow ones, and a narrow row behind it is kept. -/

theorem readRow_lf {delimiter text field rest : Utf16}
    (h : readField delimiter text = (field, lf :: rest)) (hdelimiter : [lf] ≠ delimiter) :
    readRow delimiter text = ([field], rest) := by
  rw [readRow]
  split
  · rename_i hrest
    rw [h] at hrest
    cases hrest
  · rename_i u behind hrest
    rw [h] at hrest ⊢
    cases hrest
    rw [if_neg hdelimiter, if_neg fun hcr => absurd hcr.1 (by decide)]

theorem readRow_delimiter {text field rest : Utf16} {u : UInt16}
    (h : readField [u] text = (field, u :: rest)) :
    readRow [u] text = (field :: (readRow [u] rest).1, (readRow [u] rest).2) := by
  rw [readRow]
  split
  · rename_i hrest
    rw [h] at hrest
    cases hrest
  · rename_i v behind hrest
    rw [h] at hrest ⊢
    cases hrest
    rw [if_pos rfl]

theorem fileRows_letters (n : ℕ) (rest : Utf16) :
    fileRows [Csv.comma] ((replicate n [0x61, lf]).flatten ++ rest) =
      replicate n [[0x61]] ++ fileRows [Csv.comma] rest := by
  induction n with
  | zero => rfl
  | succ n ih =>
    have hfield : ∀ rest, readField [Csv.comma] (0x61 :: lf :: rest) = ([0x61], lf :: rest) :=
      fun _ => rfl
    rw [replicate_succ, flatten_cons, append_assoc, cons_append,
      cons_append, nil_append, fileRows, dif_neg (cons_ne_nil _ _),
      readRow_lf (hfield _) (by decide), ih, replicate_succ, cons_append]

theorem readRow_commas (n : ℕ) (rest : Utf16) :
    readRow [Csv.comma] (replicate n Csv.comma ++ lf :: rest) =
      (replicate (n + 1) [], rest) := by
  induction n with
  | zero => exact readRow_lf rfl (by decide)
  | succ n ih =>
    have hfield : ∀ rest, readField [Csv.comma] (Csv.comma :: rest) = ([], Csv.comma :: rest) :=
      fun _ => rfl
    rw [replicate_succ, cons_append, readRow_delimiter (hfield _), ih]
    rfl

/-- Lines of one letter, a line of empty fields, and one more line. -/
def wideText (letters commas : ℕ) : Utf16 :=
  (List.replicate letters [0x61, lf]).flatten ++ (List.replicate commas Csv.comma ++ [lf, 0x62])

theorem fileRows_wideText (letters commas : ℕ) : fileRows [Csv.comma] (wideText letters commas) =
    replicate letters [[0x61]] ++ [replicate (commas + 1) [], [[0x62]]] := by
  have hlast : fileRows [Csv.comma] [0x62] = [[[0x62]]] := by
    have hrow : readRow [Csv.comma] [0x62] = ([[0x62]], []) := by
      rw [readRow]
      rfl
    rw [fileRows, dif_neg (cons_ne_nil _ _), hrow, fileRows, dif_pos rfl]
  have hne : replicate commas Csv.comma ++ [lf, 0x62] ≠ [] :=
    append_ne_nil_of_right_ne_nil _ (cons_ne_nil _ _)
  unfold wideText
  rw [fileRows_letters, fileRows, dif_neg hne, readRow_commas, hlast]

/-- A line of one letter fits 251 times, a line of a thousand fields behind 250 of them does not. -/
theorem parseDelimited_not_prefix :
    ¬ ShowsStart (parseDelimited (wideText 250 999) [Csv.comma])
      (fileRows [Csv.comma] (wideText 250 999)) := by
  have hnarrow : ∀ rows : List Row, rows.length ≤ 251 → (∀ row ∈ rows, row.length ≤ 1) →
      Fits rows := by
    intro rows hlength hwidth
    have hcells := Nat.mul_le_mul hlength (widest_le.mpr hwidth)
    exact ⟨hlength.trans (by decide), hcells.trans (by decide)⟩
  generalize hletters : (replicate 250 [[0x61]] : List Row) = letters
  have hlength : letters.length = 250 := by rw [← hletters, length_replicate]
  have hone : ∀ row ∈ letters, row = [[0x61]] := by
    rw [← hletters]
    exact fun row hrow => eq_of_mem_replicate hrow
  have hcut : (letters ++ [replicate 1000 [], [[0x62]]]).map cutRow =
      letters ++ [replicate 1000 [], [[0x62]]] := by
    apply map_cutRow
    intro row hrow
    rcases mem_append.mp hrow with hrow | hrow
    · rw [hone row hrow]
      decide
    · rcases mem_pair.mp hrow with rfl | rfl
      · exact length_replicate.le
      · decide
  rw [showsStart_iff_keep, keep_eq_take_iff fits_of_append fits_nil, fileRows_wideText,
    hletters, hcut]
  intro h
  refine h letters (replicate 1000 []) [[[0x62]]] rfl ?_ ?_ [[0x62]] mem_cons_self ?_
  · apply hnarrow
    · rw [nil_append, hlength]
      decide
    · intro row hrow
      rw [hone row hrow]
      exact le_rfl
  · intro hwide
    have hcells := hwide.2
    have hwidth := le_max_right (widest ([] ++ letters)) 1000
    rw [widest_append, length_append, nil_append, hlength, length_replicate] at hcells
    rw [nil_append] at hwidth
    have hlimit : maxPreviewTableCells = 250000 := rfl
    rw [hlimit, length_singleton] at hcells
    omega
  · apply hnarrow
    · rw [nil_append, length_append, hlength]
      decide
    · intro row hrow
      rcases mem_append.mp hrow with hrow | hrow
      · rw [hone row hrow]
        exact le_rfl
      · rw [mem_singleton.mp hrow]
        exact le_rfl

end HVault.TablePreview
