import Mathlib.Data.List.Basic
import HVault.Json.Text

/-!
# Tables as text

`toCsv` writes the header and the rows of an export, `parseCsv` reads the file of an import. What is
written is read back cell by cell (`parseCsv_toCsv`): a cell is quoted where the reader would take a
part of it for a delimiter, and where it starts or ends in white space, which the mark that `parseCsv`
takes off the start of a file is as well.
-/

namespace HVault.Csv

open Json List

/-- A double quote. -/
def quote : UInt16 := 0x22

def comma : UInt16 := 0x2C

def cr : UInt16 := 0x0D

def lf : UInt16 := 0x0A

def byteOrderMark : UInt16 := 0xFEFF

/-! ## The reader -/

/-- What the reader has read: whole rows, the cells before the one that it is in, and that one. -/
structure Reading where
  rows : List (List Utf16)
  row : List Utf16
  field : Utf16
  inQuotes : Bool
  sawAnyChar : Bool

namespace Reading

def start : Reading := ⟨[], [], [], false, false⟩

def push (u : UInt16) (s : Reading) : Reading := { s with field := s.field ++ [u] }

def endField (s : Reading) : Reading := { s with row := s.row ++ [s.field], field := [] }

/-- A row of one empty cell is a blank line, and dropped. -/
def endRow (s : Reading) : Reading :=
  let row := s.row ++ [s.field]
  { s with rows := if row = [[]] then s.rows else s.rows ++ [row], row := [], field := [] }

/-- The loop, from one character on. -/
def scan : Reading → Utf16 → Reading
  | s, [] => s
  | s, ch :: rest =>
    let s := { s with sawAnyChar := true }
    if s.inQuotes then
      if ch = quote then
        match rest with
        | [] => { s with inQuotes := false }
        | next :: rest' =>
          if next = quote then scan (s.push quote) rest'
          else scan { s with inQuotes := false } (next :: rest')
      else scan (s.push ch) rest
    else if ch = quote then scan { s with inQuotes := true } rest
    else if ch = comma then scan s.endField rest
    else if ch = cr then
      match rest with
      | [] => s.endRow
      | next :: rest' =>
        if next = lf then scan s.endRow rest' else scan s.endRow (next :: rest')
    else if ch = lf then scan s.endRow rest
    else scan (s.push ch) rest

@[simp] theorem scan_nil (s : Reading) : s.scan [] = s := rfl

/-- What one character does. -/
theorem scan_cons (s : Reading) (ch : UInt16) (rest : Utf16) : s.scan (ch :: rest) =
    let s := { s with sawAnyChar := true }
    if s.inQuotes then
      if ch = quote then
        match rest with
        | [] => { s with inQuotes := false }
        | next :: rest' =>
          if next = quote then scan (s.push quote) rest'
          else scan { s with inQuotes := false } (next :: rest')
      else scan (s.push ch) rest
    else if ch = quote then scan { s with inQuotes := true } rest
    else if ch = comma then scan s.endField rest
    else if ch = cr then
      match rest with
      | [] => s.endRow
      | next :: rest' =>
        if next = lf then scan s.endRow rest' else scan s.endRow (next :: rest')
    else if ch = lf then scan s.endRow rest
    else scan (s.push ch) rest := by
  rw [scan.eq_def]
  rfl

/-- The rows, with the one that the text ends in. -/
def finish (s : Reading) : List (List Utf16) :=
  if s.sawAnyChar ∧ (s.field ≠ [] ∨ s.row ≠ []) then s.endRow.rows else s.rows

end Reading

def stripMark : Utf16 → Utf16
  | [] => []
  | u :: rest => if u = byteOrderMark then rest else u :: rest

def parseCsv (text : Utf16) : List (List Utf16) := (Reading.start.scan (stripMark text)).finish

/-! ## The writer -/

def doubleQuotes (value : Utf16) : Utf16 :=
  value.flatMap fun u => if u = quote then [quote, quote] else [u]

def encodeField (value : Utf16) : Utf16 :=
  if quote ∈ value ∨ comma ∈ value ∨ cr ∈ value ∨ lf ∈ value ∨ value ≠ trim value then
    quote :: doubleQuotes value ++ [quote]
  else value

def encodeRow (row : List Utf16) : Utf16 := List.intercalate [comma] (row.map encodeField)

def toCsv (headers : List Utf16) (rows : List (List Utf16)) : Utf16 :=
  List.intercalate [cr, lf] ((headers :: rows).map encodeRow)

/-! ## Reading what was written -/

theorem sawAnyChar_scan {s : Reading} (h : s.sawAnyChar = true) (text : Utf16) :
    (s.scan text).sawAnyChar = true := by
  fun_induction Reading.scan s text with
  | case1 => exact h
  | case2 => rfl
  | case8 => rfl
  | _ =>
    rename_i ih
    exact ih rfl

theorem sawAnyChar_scan_cons (s : Reading) (u : UInt16) (text : Utf16) :
    (s.scan (u :: text)).sawAnyChar = true := by
  have hfirst : s.scan (u :: text) = Reading.scan { s with sawAnyChar := true } (u :: text) := by
    rw [Reading.scan_cons, Reading.scan_cons { s with sawAnyChar := true }]
  rw [hfirst]
  exact sawAnyChar_scan rfl _

/-- The character after a cell: none, or one that ends it. -/
def EndsField (rest : Utf16) : Prop := ∀ u ∈ rest.head?, u = comma ∨ u = cr

variable {s : Reading} {value rest : Utf16}

/-- Text without delimiters is read as it stands. -/
theorem scan_plain (hout : s.inQuotes = false)
    (hplain : quote ∉ value ∧ comma ∉ value ∧ cr ∉ value ∧ lf ∉ value) :
    ∃ seen, s.scan (value ++ rest) =
      Reading.scan { s with field := s.field ++ value, sawAnyChar := seen } rest := by
  induction value generalizing s with
  | nil => exact ⟨s.sawAnyChar, by rw [nil_append, append_nil]⟩
  | cons u value ih =>
    simp only [mem_cons, not_or] at hplain
    obtain ⟨⟨hq, hqs⟩, ⟨hc, hcs⟩, ⟨hr, hrs⟩, hl, hls⟩ := hplain
    have hstep : s.scan (u :: (value ++ rest)) =
        (({ s with sawAnyChar := true } : Reading).push u).scan (value ++ rest) := by
      rw [Reading.scan_cons]
      simp [hout, Ne.symm hq, Ne.symm hc, Ne.symm hr, Ne.symm hl]
    obtain ⟨seen, hrest⟩ := @ih (({ s with sawAnyChar := true } : Reading).push u) hout
      ⟨hqs, hcs, hrs, hls⟩
    refine ⟨seen, ?_⟩
    rw [cons_append, hstep, hrest]
    simp [Reading.push]

/-- Doubled quotes are read as quotes, and everything else as it stands, up to the closing quote. -/
theorem scan_quoted (hin : s.inQuotes = true) (hends : EndsField rest) :
    ∃ seen, s.scan (doubleQuotes value ++ quote :: rest) =
      Reading.scan { s with field := s.field ++ value, inQuotes := false, sawAnyChar := seen }
        rest := by
  induction value generalizing s with
  | nil =>
    refine ⟨true, ?_⟩
    show s.scan (quote :: rest) = _
    cases rest with
    | nil =>
      rw [Reading.scan_cons]
      simp [hin]
    | cons next rest =>
      have hnext : next ≠ quote := by
        rcases hends next rfl with rfl | rfl
        · decide
        · decide
      rw [Reading.scan_cons]
      simp [hin, hnext]
  | cons u value ih =>
    have hstep : s.scan (doubleQuotes (u :: value) ++ quote :: rest) =
        (({ s with sawAnyChar := true } : Reading).push u).scan
          (doubleQuotes value ++ quote :: rest) := by
      unfold doubleQuotes
      rw [flatMap_cons]
      by_cases hu : u = quote
      · subst hu
        simp [Reading.scan_cons, hin]
      · rw [if_neg hu, append_assoc, singleton_append, Reading.scan_cons]
        simp [hin, hu]
    obtain ⟨seen, hrest⟩ := @ih (({ s with sawAnyChar := true } : Reading).push u) hin
    refine ⟨seen, ?_⟩
    rw [hstep, hrest]
    simp [Reading.push]

/-- A cell is read back. -/
theorem scan_encodeField (hout : s.inQuotes = false) (hfield : s.field = [])
    (hends : EndsField rest) :
    ∃ seen, s.scan (encodeField value ++ rest) =
      Reading.scan { s with field := value, sawAnyChar := seen } rest := by
  unfold encodeField
  split
  · have hopen : s.scan (quote :: (doubleQuotes value ++ quote :: rest)) =
        Reading.scan { s with inQuotes := true, sawAnyChar := true }
          (doubleQuotes value ++ quote :: rest) := by
      rw [Reading.scan_cons]
      simp [hout]
    obtain ⟨seen, hread⟩ := @scan_quoted { s with inQuotes := true, sawAnyChar := true } value rest
      rfl hends
    refine ⟨seen, ?_⟩
    have htext : quote :: doubleQuotes value ++ [quote] ++ rest =
        quote :: (doubleQuotes value ++ quote :: rest) := by simp
    rw [htext, hopen, hread]
    simp [hout, hfield]
  · rename_i hplain
    simp only [not_or] at hplain
    obtain ⟨hq, hc, hr, hl, -⟩ := hplain
    obtain ⟨seen, hread⟩ := @scan_plain s value rest hout ⟨hq, hc, hr, hl⟩
    refine ⟨seen, ?_⟩
    rw [hread]
    simp [hfield]

/-- A row is read back, up to its last cell. -/
theorem scan_encodeRow {row : List Utf16} (hrow : row ≠ []) (hout : s.inQuotes = false)
    (hfield : s.field = []) (hrest : ∀ u ∈ rest.head?, u = cr) :
    ∃ seen, s.scan (encodeRow row ++ rest) =
      Reading.scan { s with row := s.row ++ row.dropLast, field := row.getLast hrow,
                            sawAnyChar := seen } rest := by
  have hends : EndsField rest := fun u hu => .inr (hrest u hu)
  induction row generalizing s with
  | nil => exact (hrow rfl).elim
  | cons value row ih =>
    cases row with
    | nil =>
      obtain ⟨seen, hread⟩ := @scan_encodeField s value rest hout hfield hends
      refine ⟨seen, ?_⟩
      have htext : encodeRow [value] = encodeField value := by simp [encodeRow, intercalate]
      rw [htext, hread]
      simp
    | cons value' row =>
      have htext : encodeRow (value :: value' :: row) ++ rest =
          encodeField value ++ comma :: (encodeRow (value' :: row) ++ rest) := by
        simp [encodeRow, intercalate]
      obtain ⟨seen, hread⟩ := @scan_encodeField s value
        (comma :: (encodeRow (value' :: row) ++ rest)) hout hfield (by simp [EndsField])
      have hcomma : Reading.scan { s with field := value, sawAnyChar := seen }
          (comma :: (encodeRow (value' :: row) ++ rest)) =
          Reading.scan { s with row := s.row ++ [value], field := [], sawAnyChar := true }
            (encodeRow (value' :: row) ++ rest) := by
        rw [Reading.scan_cons]
        simp [hout, Reading.endField, comma, quote]
      obtain ⟨seen', hread'⟩ := @ih
        { s with row := s.row ++ [value], field := [], sawAnyChar := true } (by simp) hout rfl
      refine ⟨seen', ?_⟩
      rw [htext, hread, hcomma, hread']
      simp

/-- The text of rows that are each read as one, after the first. -/
theorem scan_rows {rows : List (List Utf16)} {row : List Utf16}
    (hrows : ∀ row ∈ rows, row ≠ [] ∧ row ≠ [[]]) (hrow : row ≠ [] ∧ row ≠ [[]])
    (hout : s.inQuotes = false) (hfield : s.field = []) (hbefore : s.row = []) :
    ∃ seen last, ∃ hlast : last ≠ [], last ≠ [[]] ∧
      s.scan (List.intercalate [cr, lf] ((row :: rows).map encodeRow)) =
        { s with rows := s.rows ++ (row :: rows).dropLast, row := last.dropLast,
                 field := last.getLast hlast, sawAnyChar := seen } ∧
      (row :: rows).getLast? = some last := by
  induction rows generalizing s row with
  | nil =>
    obtain ⟨seen, hread⟩ := @scan_encodeRow s [] row hrow.1 hout hfield (by simp)
    refine ⟨seen, row, hrow.1, hrow.2, ?_, rfl⟩
    have htext : intercalate [cr, lf] ([row].map encodeRow) = encodeRow row ++ [] := by
      simp [intercalate]
    rw [htext, hread]
    simp [hbefore]
  | cons next rows ih =>
    obtain ⟨seen, hread⟩ := @scan_encodeRow s
      (cr :: lf :: intercalate [cr, lf] ((next :: rows).map encodeRow)) row hrow.1 hout hfield
      (by simp)
    have htext : intercalate [cr, lf] ((row :: next :: rows).map encodeRow) =
        encodeRow row ++ cr :: lf :: intercalate [cr, lf] ((next :: rows).map encodeRow) := by
      simp [intercalate]
    have hwhole : row.dropLast ++ [row.getLast hrow.1] = row := dropLast_append_getLast hrow.1
    have hend : ∀ text, Reading.scan
        { s with row := s.row ++ row.dropLast, field := row.getLast hrow.1, sawAnyChar := seen }
          (cr :: lf :: text) =
        Reading.scan { s with rows := s.rows ++ [row], sawAnyChar := true } text := by
      intro text
      rw [Reading.scan_cons]
      simp [hout, Reading.endRow, hbefore, hwhole, hrow.2, cr, comma, quote, hfield]
    obtain ⟨seen', last, hlast, hblank, hread', hlast'⟩ :=
      @ih { s with rows := s.rows ++ [row], sawAnyChar := true } next
        (fun row hrow => hrows row (mem_cons_of_mem _ hrow)) (hrows next mem_cons_self)
        hout hfield hbefore
    refine ⟨seen', last, hlast, hblank, ?_, hlast'⟩
    rw [htext, hread, hend, hread']
    simp

theorem intercalate_cons {α : Type} (sep x : List α) (xs : List (List α)) :
    List.intercalate sep (x :: xs) = x ++ xs.flatMap (sep ++ ·) := by
  induction xs generalizing x with
  | nil => simp [intercalate]
  | cons y xs ih =>
    have hstep : intercalate sep (x :: y :: xs) =
        x ++ sep ++ intercalate sep (y :: xs) := by
      simp [intercalate]
    rw [hstep, ih, flatMap_cons]
    simp

theorem encodeField_ne_nil (h : value ≠ []) : encodeField value ≠ [] := by
  unfold encodeField
  split
  · exact cons_ne_nil _ _
  · exact h

theorem encodeRow_ne_nil {row : List Utf16} (h : row ≠ []) (hblank : row ≠ [[]]) :
    encodeRow row ≠ [] := by
  obtain ⟨value, row, rfl⟩ := exists_cons_of_ne_nil h
  unfold encodeRow
  rw [map_cons, intercalate_cons]
  cases row with
  | nil =>
    have hvalue : value ≠ [] := fun hnil => hblank (congrArg (fun v => [v]) hnil)
    exact append_ne_nil_of_left_ne_nil (encodeField_ne_nil hvalue) _
  | cons => exact append_ne_nil_of_right_ne_nil _ (cons_ne_nil _ _)

/-- A text that `toCsv` writes does not start with a byte order mark. -/
theorem stripMark_encodeField (value rest : Utf16) (hends : EndsField rest) :
    stripMark (encodeField value ++ rest) = encodeField value ++ rest := by
  have hhead : ∀ u ∈ (encodeField value ++ rest).head?, u ≠ byteOrderMark := by
    unfold encodeField
    split
    · rintro u hu rfl
      cases hu
    · rename_i hplain
      simp only [not_or, not_not] at hplain
      cases value with
      | nil =>
        rintro u hu rfl
        rcases hends _ hu with h | h
        · cases h
        · cases h
      | cons first value =>
        rintro u hu rfl
        cases hu
        -- `trim` takes the mark off, so that the cell would be quoted.
        have htrim := hplain.2.2.2.2
        have hlength := congrArg length htrim
        unfold trim at hlength
        have hspace : isTrimmed byteOrderMark = true := by decide
        rw [dropWhile_cons_of_pos hspace] at hlength
        have hshort := (dropWhile_suffix (l := (value.dropWhile isTrimmed).reverse) isTrimmed).length_le
        have hshort' := (dropWhile_suffix (l := value) isTrimmed).length_le
        simp only [length_cons, length_reverse] at hlength hshort
        omega
  cases htext : encodeField value ++ rest with
  | nil => rfl
  | cons u text =>
    rw [htext] at hhead
    exact if_neg (hhead u rfl)

/-- **What `toCsv` writes `parseCsv` reads back**, but for rows that are empty or one empty cell. -/
theorem parseCsv_toCsv (headers : List Utf16) (rows : List (List Utf16))
    (h : ∀ row ∈ headers :: rows, row ≠ [] ∧ row ≠ [[]]) :
    parseCsv (toCsv headers rows) = headers :: rows := by
  have hheaders := h headers mem_cons_self
  have hmark : stripMark (toCsv headers rows) = toCsv headers rows := by
    obtain ⟨value, row, rfl⟩ := exists_cons_of_ne_nil hheaders.1
    have htext : toCsv (value :: row) rows = encodeField value ++
        ((row.map encodeField).flatMap ([comma] ++ ·) ++
          (rows.map encodeRow).flatMap ([cr, lf] ++ ·)) := by
      unfold toCsv
      rw [map_cons, intercalate_cons, encodeRow, map_cons, intercalate_cons,
        append_assoc]
    rw [htext]
    refine stripMark_encodeField value _ ?_
    cases row with
    | nil => cases rows with
      | nil => exact nofun
      | cons => exact fun u hu => .inr (Option.some.inj hu).symm
    | cons => exact fun u hu => .inl (Option.some.inj hu).symm
  obtain ⟨seen, last, hlast, hblank, hread, hgetLast⟩ := @scan_rows Reading.start rows headers
    (fun row hrow => h row (mem_cons_of_mem _ hrow)) hheaders rfl rfl rfl
  have hlastCell : last.getLast hlast ≠ [] ∨ last.dropLast ≠ [] := by
    by_contra hnone
    simp only [not_or, not_not] at hnone
    have hwhole := dropLast_append_getLast hlast
    rw [hnone.1, hnone.2] at hwhole
    exact hblank hwhole.symm
  have hseen : seen = true := by
    have htext : toCsv headers rows ≠ [] := by
      unfold toCsv
      rw [map_cons, intercalate_cons]
      exact append_ne_nil_of_left_ne_nil (encodeRow_ne_nil hheaders.1 hheaders.2) _
    obtain ⟨u, text, htext⟩ := exists_cons_of_ne_nil htext
    have hsaw := sawAnyChar_scan_cons Reading.start u text
    rw [← htext, toCsv, hread] at hsaw
    exact hsaw
  have hwhole : last.dropLast ++ [last.getLast hlast] = last := dropLast_append_getLast hlast
  unfold parseCsv Reading.finish
  rw [hmark, toCsv, hread, if_pos ⟨hseen, hlastCell⟩]
  have hrows := dropLast_append_getLast? last hgetLast
  simp only [Reading.endRow, Reading.start, hwhole, if_neg hblank, nil_append]
  exact hrows

theorem parseCsv_toCsv_sample :
    parseCsv (toCsv [[byteOrderMark, 0x61], []] [[[0x20, quote, cr, lf], [comma]]]) =
      [[byteOrderMark, 0x61], []] :: [[[0x20, quote, cr, lf], [comma]]] :=
  parseCsv_toCsv _ _ (by decide)

end HVault.Csv
