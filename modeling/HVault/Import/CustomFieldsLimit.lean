import HVault.Json.SameValue
import HVault.Vault.ItemData

/-!
# The custom-field limit of an import

A row keeps as many custom fields as the operator allows. Each text or boolean field past them
becomes a line in the row's free text, if it fits, and of a hidden one only the name is written.

* `Cut.Accounts`: each field past the limit is in exactly one list of the report;
* `limitImportItem_limits`: what becomes of a row;
* `limitImportItem_congr`: what a hidden field past the limit holds has no part in the result.
-/

namespace HVault.CustomFieldsLimit

open Json ItemData
open Archive (decimal)

/-! ## Rows -/

structure ImportFieldNotice where
  hiddenDropped : List Utf16
  movedToNotes : List Utf16

structure NativeContent where
  dataJson : Utf16

structure PreviousPassword where
  password : Utf16
  changedAt : Utf16

structure ResolvableImportItem where
  itemType : ItemType
  name : Utf16
  data : List (Utf16 × Value)
  tags : List Utf16
  favorite : Bool
  importNotices : Option ImportFieldNotice
  native : Option NativeContent
  folderId : Option Utf16
  previousPasswords : Option (List PreviousPassword)

structure NotesField where
  key : Utf16
  max : ℕ

def notesField : ItemType → NotesField
  | .login | .card | .identity => ⟨units "notes", maxNoteContentLength⟩
  | .note => ⟨units "content", maxNoteContentLength⟩
  | .secret => ⟨units "description", maxSecretDescriptionLength⟩

def sectionGap : Utf16 := [0x0A, 0x0A]

def customFields : Utf16 := units "customFields"

/-- A row's custom-field list, if its data carries one. -/
def fieldList (data : List (Utf16 × Value)) : Option (List Value) :=
  match lookup customFields data with
  | some (.array fields) => some fields
  | _ => none

structure ReadField where
  name : Utf16
  value : Utf16
  plain : Bool

/-- What a property holds, if it is a string. -/
def stringAt (key : Utf16) (fields : List (Utf16 × Value)) : Utf16 :=
  match lookup key fields with
  | some (.string s) => s
  | _ => []

def isPlainType (fields : List (Utf16 × Value)) : Bool :=
  match lookup (units "type") fields with
  | some (.string type) => type = units "text" ∨ type = units "boolean"
  | _ => false

/-- An array has none of the properties that are read. -/
def propertiesOf : Value → List (Utf16 × Value)
  | .object fields => fields
  | _ => []

def readField (entry : Value) : ReadField where
  name := stringAt (units "name") (propertiesOf entry)
  value := stringAt (units "value") (propertiesOf entry)
  plain := isPlainType (propertiesOf entry)

/-! ## The free text -/

/-- The names of the fields, by what became of them. -/
structure Cut where
  movedToNotes : List Utf16
  hiddenDropped : List Utf16
  notWritten : List Utf16

def nothingCut : Cut := ⟨[], [], []⟩

structure Fold extends Cut where
  /-- The new free text, if anything was appended. -/
  text : Option Utf16

/-- The section while it is written. -/
structure Folding extends Cut where
  lines : List Utf16
  /-- The length the text would have with the heading and every line so far. -/
  length : ℕ

def ReadField.line (field : ReadField) : Utf16 := field.name ++ units ": " ++ field.value

def foldField (max : ℕ) (s : Folding) (field : ReadField) : Folding :=
  if ¬ field.plain then { s with hiddenDropped := s.hiddenDropped ++ [field.name] }
  else if max < s.length + 1 + field.line.length then
    { s with notWritten := s.notWritten ++ [field.name] }
  else
    { s with
      lines := s.lines ++ [field.line]
      length := s.length + (1 + field.line.length)
      movedToNotes := s.movedToNotes ++ [field.name] }

def foldEntry (max : ℕ) (s : Folding) (entry : Value) : Folding :=
  foldField max s (readField entry)

def heading (cap : ℕ) : Utf16 :=
  units "Custom fields beyond the import limit of " ++ decimal cap ++ units ":"

def hiddenFieldsNotImportedLine (names : List Utf16) : Utf16 :=
  decimal names.length ++ units " hidden custom field(s) were not imported: "
    ++ (units ", ").intercalate names

def compose (trimmed : Utf16) (sections : List Utf16) : Utf16 :=
  sectionGap.intercalate ((trimmed :: sections).filter (· ≠ []))

def startFolding (trimmed : Utf16) (cap : ℕ) : Folding :=
  { nothingCut with
    lines := []
    length := (if trimmed = [] then 0 else trimmed.length + sectionGap.length)
      + (heading cap).length }

def fieldSections (cap : ℕ) (lines : List Utf16) : List Utf16 :=
  if lines = [] then [] else [[0x0A].intercalate (heading cap :: lines)]

/-- The marker is put after the sections, where it fits. -/
def markHidden (trimmed : Utf16) (max : ℕ) (hiddenDropped sections : List Utf16) : List Utf16 :=
  let marked := sections ++ [hiddenFieldsNotImportedLine hiddenDropped]
  if hiddenDropped ≠ [] ∧ (compose trimmed marked).length ≤ max then marked else sections

/-- The lines, and which fields they are of. -/
def foldFields (trimmed : Utf16) (overflow : List Value) (cap max : ℕ) : Folding :=
  overflow.foldl (foldEntry max) (startFolding trimmed cap)

def foldOverflow (base : Utf16) (overflow : List Value) (cap max : ℕ) : Fold :=
  let trimmed := trim base
  let folded := foldFields trimmed overflow cap max
  let sections := markHidden trimmed max folded.hiddenDropped (fieldSections cap folded.lines)
  { folded.toCut with
    text := if sections = [] then none else some (compose trimmed sections) }

/-! ## What hidden fields have no part in -/

/-- The fields are the same, or both are hidden under one name. -/
def Alike (f g : Value) : Prop :=
  f = g ∨ (readField f).plain = false ∧ (readField g).plain = false
    ∧ (readField f).name = (readField g).name

/-- A field is as good as the one with another value in it, if it is hidden. -/
theorem alike_assign_value {fields : List (Utf16 × Value)} (value : Value)
    (h : (readField (.object fields)).plain = false) :
    Alike (.object fields) (.object (assign (units "value") value fields)) := by
  have hname : units "name" ≠ units "value" := by decide
  have htype : units "type" ≠ units "value" := by decide
  refine .inr ⟨h, ?_, ?_⟩
  · simp only [readField, propertiesOf, isPlainType] at h ⊢
    rw [lookup_assign_of_ne htype]
    exact h
  · simp only [readField, propertiesOf, stringAt]
    rw [lookup_assign_of_ne hname]

theorem foldEntry_congr {max : ℕ} {s : Folding} {f g : Value} (h : Alike f g) :
    foldEntry max s f = foldEntry max s g := by
  rcases h with rfl | ⟨hf, hg, hname⟩
  · rfl
  · simp [foldEntry, foldField, hf, hg, hname]

theorem foldl_foldEntry_congr {max : ℕ} {overflow overflow' : List Value}
    (h : List.Forall₂ Alike overflow overflow') (s : Folding) :
    overflow.foldl (foldEntry max) s = overflow'.foldl (foldEntry max) s := by
  induction h generalizing s with
  | nil => rfl
  | cons hhead _ ih => rw [List.foldl_cons, List.foldl_cons, foldEntry_congr hhead, ih]

theorem foldOverflow_congr {base : Utf16} {overflow overflow' : List Value} {cap max : ℕ}
    (h : List.Forall₂ Alike overflow overflow') :
    foldOverflow base overflow cap max = foldOverflow base overflow' cap max := by
  have hfields (trimmed : Utf16) :
      foldFields trimmed overflow cap max = foldFields trimmed overflow' cap max :=
    foldl_foldEntry_congr h _
  simp only [foldOverflow, hfields]

/-! ## What becomes of a field -/

inductive Fate
  | movedToNotes
  | hiddenDropped
  | notWritten
deriving DecidableEq

def Cut.names (cut : Cut) : Fate → List Utf16
  | .movedToNotes => cut.movedToNotes
  | .hiddenDropped => cut.hiddenDropped
  | .notWritten => cut.notWritten

def fateOf (max : ℕ) (s : Folding) (entry : Value) : Fate :=
  if ¬ (readField entry).plain then .hiddenDropped
  else if max < s.length + 1 + (readField entry).line.length then .notWritten
  else .movedToNotes

def fates (max : ℕ) : Folding → List Value → List Fate
  | _, [] => []
  | s, entry :: rest => fateOf max s entry :: fates max (foldEntry max s entry) rest

/-- The fields that something became of. -/
def withFate (fate : Fate) (overflow : List Value) (fates : List Fate) : List ReadField :=
  ((overflow.zip fates).filter fun p => p.2 = fate).map fun p => readField p.1

/-- Each field has one fate, and is named in the list of those with it. -/
structure Cut.Accounts (cut : Cut) (overflow : List Value) (fates : List Fate) : Prop where
  length : fates.length = overflow.length
  names : ∀ fate, cut.names fate = (withFate fate overflow fates).map (·.name)
  hidden : ∀ p ∈ overflow.zip fates, p.2 = .hiddenDropped ↔ (readField p.1).plain = false

section Fates

variable {max : ℕ} {s : Folding}

theorem length_fates (overflow : List Value) :
    (fates max s overflow).length = overflow.length := by
  induction overflow generalizing s with
  | nil => rfl
  | cons entry rest ih => rw [fates, List.length_cons, ih, List.length_cons]

theorem hidden_fateOf (entry : Value) :
    fateOf max s entry = .hiddenDropped ↔ (readField entry).plain = false := by
  unfold fateOf
  cases hplain : (readField entry).plain with
  | false => simp
  | true =>
    simp only [not_true_eq_false, if_false, Bool.true_eq_false, iff_false]
    split_ifs <;> simp

theorem hidden_fates {overflow : List Value} {p : Value × Fate}
    (h : p ∈ overflow.zip (fates max s overflow)) :
    p.2 = .hiddenDropped ↔ (readField p.1).plain = false := by
  induction overflow generalizing s with
  | nil => simp at h
  | cons entry rest ih =>
    rw [fates, List.zip_cons_cons, List.mem_cons] at h
    rcases h with rfl | h
    · exact hidden_fateOf entry
    · exact ih h

theorem withFate_cons (fate head : Fate) (entry : Value) (rest : List Value) (tail : List Fate) :
    withFate fate (entry :: rest) (head :: tail)
      = (if head = fate then [readField entry] else []) ++ withFate fate rest tail := by
  by_cases h : head = fate
  · simp [withFate, h]
  · simp [withFate, h]

/-- The name of a field is put at the end of one list. -/
theorem names_foldEntry (fate : Fate) (entry : Value) :
    (foldEntry max s entry).names fate = s.names fate
      ++ (if fateOf max s entry = fate then [readField entry] else []).map (·.name) := by
  by_cases hplain : (readField entry).plain
  · by_cases hlong : max < s.length + 1 + (readField entry).line.length
    all_goals cases fate <;> simp [Cut.names, foldEntry, foldField, fateOf, hplain, hlong]
  · cases fate <;> simp [Cut.names, foldEntry, foldField, fateOf, hplain]

theorem names_foldl (fate : Fate) (overflow : List Value) :
    (overflow.foldl (foldEntry max) s).names fate
      = s.names fate ++ (withFate fate overflow (fates max s overflow)).map (·.name) := by
  induction overflow generalizing s with
  | nil => simp [withFate]
  | cons entry rest ih =>
    rw [List.foldl_cons, ih, fates, withFate_cons, names_foldEntry, List.map_append,
      List.append_assoc]

/-- The lines are those of the fields that were moved. -/
theorem lines_foldEntry (entry : Value) : (foldEntry max s entry).lines = s.lines
    ++ (if fateOf max s entry = .movedToNotes then [readField entry] else []).map (·.line) := by
  by_cases hplain : (readField entry).plain
  · by_cases hlong : max < s.length + 1 + (readField entry).line.length
    all_goals simp [foldEntry, foldField, fateOf, hplain, hlong]
  · simp [foldEntry, foldField, fateOf, hplain]

theorem lines_foldl (overflow : List Value) : (overflow.foldl (foldEntry max) s).lines
    = s.lines ++ (withFate .movedToNotes overflow (fates max s overflow)).map (·.line) := by
  induction overflow generalizing s with
  | nil => simp [withFate]
  | cons entry rest ih =>
    rw [List.foldl_cons, ih, fates, withFate_cons, lines_foldEntry, List.map_append,
      List.append_assoc]

/-! ## The text and its length -/

/-- The text with the heading and the lines. -/
def folded (trimmed : Utf16) (cap : ℕ) (lines : List Utf16) : Utf16 :=
  compose trimmed [[0x0A].intercalate (heading cap :: lines)]

/-- The length that is kept is that of the text, and the text fits. -/
structure Folding.Fits (s : Folding) (trimmed : Utf16) (cap max : ℕ) : Prop where
  length : s.length = (folded trimmed cap s.lines).length
  fits : s.lines ≠ [] → s.length ≤ max

theorem heading_ne_nil (cap : ℕ) : heading cap ≠ [] := by
  have hword : units "Custom fields beyond the import limit of " ≠ [] := by decide
  simp [heading, hword]

theorem intercalate_ne_nil {sep p : Utf16} {ps : List Utf16} (h : p ≠ []) :
    sep.intercalate (p :: ps) ≠ [] := by
  cases ps with
  | nil => simpa using h
  | cons q ps => simp [List.intercalate_cons_cons, h]

theorem length_intercalate_concat (sep p q : Utf16) (ps : List Utf16) :
    (sep.intercalate (p :: (ps ++ [q]))).length
      = (sep.intercalate (p :: ps)).length + (sep.length + q.length) := by
  induction ps generalizing p with
  | nil => simp [List.intercalate_cons_cons]
  | cons r ps ih =>
    simp only [List.cons_append, List.intercalate_cons_cons, List.length_append, ih]
    omega

variable {trimmed : Utf16}

theorem compose_of_ne_nil {sections : List Utf16} (h : ∀ part ∈ sections, part ≠ []) :
    compose trimmed sections
      = sectionGap.intercalate (if trimmed = [] then sections else trimmed :: sections) := by
  have hkept : sections.filter (fun part => decide (part ≠ [])) = sections :=
    List.filter_eq_self.2 fun part hpart => by simpa using h part hpart
  unfold compose
  rw [List.filter_cons, hkept]
  by_cases htrimmed : trimmed = []
  · simp [htrimmed]
  · simp [htrimmed]

theorem length_folded (trimmed : Utf16) (cap : ℕ) (lines : List Utf16) :
    (folded trimmed cap lines).length = (if trimmed = [] then 0 else trimmed.length + 2)
      + ([0x0A].intercalate (heading cap :: lines)).length := by
  have hne : [0x0A].intercalate (heading cap :: lines) ≠ [] :=
    intercalate_ne_nil (heading_ne_nil cap)
  unfold folded
  rw [compose_of_ne_nil (by simpa using hne)]
  by_cases htrimmed : trimmed = []
  · simp [htrimmed]
  · simp only [htrimmed, if_false, List.intercalate_cons_cons, List.intercalate_singleton,
      List.length_append, sectionGap, List.length_cons, List.length_nil]

theorem fits_startFolding (trimmed : Utf16) (cap : ℕ) :
    (startFolding trimmed cap).Fits trimmed cap max where
  length := by
    rw [length_folded]
    simp [startFolding, sectionGap]
  fits := fun h => absurd rfl h

theorem Folding.Fits.foldEntry {cap : ℕ} (h : s.Fits trimmed cap max) (entry : Value) :
    (foldEntry max s entry).Fits trimmed cap max := by
  unfold CustomFieldsLimit.foldEntry foldField
  split_ifs with hplain hlong
  · exact ⟨h.length, h.fits⟩
  · constructor
    · have hlength := h.length
      rw [length_folded] at hlength ⊢
      simp only [length_intercalate_concat, List.length_cons, List.length_nil]
      omega
    · intro _
      show s.length + (1 + (readField entry).line.length) ≤ max
      omega
  · exact ⟨h.length, h.fits⟩

theorem Folding.Fits.foldl {cap : ℕ} (h : s.Fits trimmed cap max) (overflow : List Value) :
    (overflow.foldl (CustomFieldsLimit.foldEntry max) s).Fits trimmed cap max := by
  induction overflow generalizing s with
  | nil => exact h
  | cons entry rest ih => exact ih (h.foldEntry entry)

end Fates

/-- A fold of fields into a text. -/
structure Fold.Sound (fold : Fold) (base : Utf16) (overflow : List Value) (max : ℕ)
    (fates : List Fate) : Prop where
  accounts : fold.toCut.Accounts overflow fates
  /-- What is new is appended to the trimmed text, and the whole fits. -/
  appended : ∀ text, fold.text = some text → trim base <+: text ∧ text.length ≤ max
  /-- What was moved is in the text. -/
  written : ∀ field ∈ withFate .movedToNotes overflow fates,
    ∃ text, fold.text = some text ∧ field.line <:+: text

variable (trimmed : Utf16)

theorem prefix_compose (sections : List Utf16) : trimmed <+: compose trimmed sections := by
  by_cases htrimmed : trimmed = []
  · rw [htrimmed]
    exact List.nil_prefix
  · unfold compose
    rw [List.filter_cons_of_pos (by simpa using htrimmed)]
    cases sections.filter (fun part => decide (part ≠ [])) with
    | nil => rw [List.intercalate_singleton]
    | cons part parts =>
      rw [List.intercalate_cons_cons, List.append_assoc]
      exact List.prefix_append _ _

theorem infix_intercalate {sep p : Utf16} {ps : List Utf16} (h : p ∈ ps) :
    p <:+: sep.intercalate ps := by
  induction ps with
  | nil => simp at h
  | cons q ps ih =>
    cases ps with
    | nil =>
      rw [List.mem_singleton.1 h, List.intercalate_singleton]
    | cons r ps =>
      rw [List.intercalate_cons_cons]
      rcases List.mem_cons.1 h with rfl | h
      · exact ((List.prefix_append _ _).trans (List.prefix_append _ _)).isInfix
      · exact (ih h).trans (List.suffix_append _ _).isInfix

theorem infix_compose {trimmed part : Utf16} {sections : List Utf16} (h : part ∈ sections) :
    part <:+: compose trimmed sections := by
  by_cases hpart : part = []
  · rw [hpart]
    exact List.nil_infix
  · exact infix_intercalate (List.mem_filter.2 ⟨List.mem_cons_of_mem _ h, by simpa using hpart⟩)

theorem mem_fieldSections (cap : ℕ) {line : Utf16} {lines : List Utf16} (h : line ∈ lines) :
    [0x0A].intercalate (heading cap :: lines) ∈ fieldSections cap lines := by
  unfold fieldSections
  rw [if_neg (List.ne_nil_of_mem h)]
  exact List.mem_singleton_self _

theorem subset_markHidden (max : ℕ) (hiddenDropped sections : List Utf16) :
    sections ⊆ markHidden trimmed max hiddenDropped sections := by
  simp only [markHidden]
  split_ifs
  · exact List.subset_append_left _ _
  · exact List.Subset.refl _

theorem length_compose_markHidden {trimmed : Utf16} {max : ℕ} {hiddenDropped sections : List Utf16}
    (h : sections ≠ [] → (compose trimmed sections).length ≤ max)
    (hne : markHidden trimmed max hiddenDropped sections ≠ []) :
    (compose trimmed (markHidden trimmed max hiddenDropped sections)).length ≤ max := by
  simp only [markHidden] at hne ⊢
  split_ifs at hne ⊢ with hmarked
  · exact hmarked.2
  · exact h hne

theorem accounts_foldFields (overflow : List Value) (cap max : ℕ) :
    (foldFields trimmed overflow cap max).Accounts overflow
      (fates max (startFolding trimmed cap) overflow) where
  length := length_fates overflow
  names := fun fate => by
    have hstart : (startFolding trimmed cap).names fate = [] := by cases fate <;> rfl
    unfold foldFields
    rw [names_foldl, hstart, List.nil_append]
  hidden := fun _ hp => hidden_fates hp

theorem lines_foldFields (overflow : List Value) (cap max : ℕ) :
    (foldFields trimmed overflow cap max).lines = (withFate .movedToNotes overflow
      (fates max (startFolding trimmed cap) overflow)).map (·.line) := by
  have hstart : (startFolding trimmed cap).lines = [] := rfl
  unfold foldFields
  rw [lines_foldl, hstart, List.nil_append]

theorem foldOverflow_sound (base : Utf16) (overflow : List Value) (cap max : ℕ) :
    (foldOverflow base overflow cap max).Sound base overflow max
      (fates max (startFolding (trim base) cap) overflow) := by
  have hfits : (foldFields (trim base) overflow cap max).Fits (trim base) cap max :=
    (fits_startFolding (trim base) cap).foldl overflow
  have hlines := lines_foldFields (trim base) overflow cap max
  constructor
  · exact accounts_foldFields _ overflow cap max
  · intro text htext
    simp only [foldOverflow] at htext
    split_ifs at htext with hempty
    rw [← Option.some.inj htext]
    refine ⟨prefix_compose _ _, length_compose_markHidden (fun hne => ?_) hempty⟩
    -- the section of the lines is there only if a line is, and then it was measured
    unfold fieldSections at hne ⊢
    split_ifs at hne ⊢ with hnone
    · exact absurd rfl hne
    · exact hfits.length ▸ hfits.fits hnone
  · intro field hfield
    have hline : field.line ∈ (foldFields (trim base) overflow cap max).lines := by
      rw [hlines]
      exact List.mem_map_of_mem hfield
    have hsection := mem_fieldSections cap hline
    have hmarked := subset_markHidden (trim base) max
      (foldFields (trim base) overflow cap max).hiddenDropped _ hsection
    refine ⟨_, if_neg (List.ne_nil_of_mem hmarked), ?_⟩
    exact (infix_intercalate (List.mem_cons_of_mem _ hline)).trans (infix_compose hmarked)

/-! ## One row -/

structure LimitReport extends Cut where
  itemName : Utf16
  itemType : ItemType

/-- The parser's notice first, then what the limit cut. -/
def reportFor (item : ResolvableImportItem) (cut : Cut) : LimitReport where
  itemName := item.name
  itemType := item.itemType
  movedToNotes := (item.importNotices.elim [] (·.movedToNotes)) ++ cut.movedToNotes
  hiddenDropped := (item.importNotices.elim [] (·.hiddenDropped)) ++ cut.hiddenDropped
  notWritten := cut.notWritten

structure LimitedImportItem where
  item : ResolvableImportItem
  untrimmed : Option ResolvableImportItem
  report : Option LimitReport

/-- A row the limit leaves alone. -/
def untouched (item : ResolvableImportItem) : LimitedImportItem where
  item := item
  untrimmed := none
  report := item.importNotices.map fun _ => reportFor item nothingCut

def foldOf (item : ResolvableImportItem) (cap : ℕ) (fields : List Value) : Fold :=
  foldOverflow (stringAt (notesField item.itemType).key item.data) (fields.drop cap) cap
    (notesField item.itemType).max

def cutData (item : ResolvableImportItem) (cap : ℕ) (fields : List Value) : List (Utf16 × Value) :=
  let data := assign customFields (.array (fields.take cap)) item.data
  match (foldOf item cap fields).text with
  | some text => assign (notesField item.itemType).key (.string text) data
  | none => data

def limitImportItem (item : ResolvableImportItem) (cap : ℕ) : LimitedImportItem :=
  match fieldList item.data with
  | none => untouched item
  | some fields =>
    if fields.length ≤ cap then untouched item
    else
      { item := { item with
          data := cutData item cap fields, importNotices := none, native := none }
        untrimmed := some item
        report := some (reportFor item (foldOf item cap fields).toCut) }

/-- What the row of a cut is cut to. -/
structure CutTo (item : ResolvableImportItem) (cap : ℕ) (fields : List Value)
    (limited : LimitedImportItem) : Prop where
  kept : fieldList limited.item.data = some (fields.take cap)
  /-- The free text is as it was, or something was appended to it, trimmed, and the whole fits. -/
  notes : lookup (notesField item.itemType).key limited.item.data
      = lookup (notesField item.itemType).key item.data ∨
    ∃ text, lookup (notesField item.itemType).key limited.item.data = some (.string text)
      ∧ trim (stringAt (notesField item.itemType).key item.data) <+: text
      ∧ text.length ≤ (notesField item.itemType).max
  others : ∀ key, key ≠ customFields → key ≠ (notesField item.itemType).key →
    lookup key limited.item.data = lookup key item.data
  same : limited.item =
    { item with data := limited.item.data, importNotices := none, native := none }
  untrimmed : limited.untrimmed = some item
  /-- Each field past the limit is in one list, behind what the parser put there. -/
  accounts : ∃ (cut : Cut) (fates : List Fate), limited.report = some (reportFor item cut)
    ∧ cut.Accounts (fields.drop cap) fates
    ∧ ∀ field ∈ withFate .movedToNotes (fields.drop cap) fates,
      field.line <:+: stringAt (notesField item.itemType).key limited.item.data

/-- What becomes of a row. -/
structure Limits (item : ResolvableImportItem) (cap : ℕ) (limited : LimitedImportItem) : Prop where
  within : (∀ fields, fieldList item.data = some fields → fields.length ≤ cap) →
    limited = untouched item
  past : ∀ fields, fieldList item.data = some fields → cap < fields.length →
    CutTo item cap fields limited

/-- The rows differ in what hidden fields past the limit hold, and in the text of the whole. -/
structure AlikePast (cap : ℕ) (item item' : ResolvableImportItem) : Prop where
  same : item' = { item with data := item'.data, native := item'.native }
  data : item.data = item'.data ∨ ∃ data fields fields',
    item.data = assign customFields (.array fields) data
      ∧ item'.data = assign customFields (.array fields') data
      ∧ fields.take cap = fields'.take cap
      ∧ List.Forall₂ Alike (fields.drop cap) (fields'.drop cap)

section Row

variable {item item' : ResolvableImportItem} {cap : ℕ}

theorem notesField_ne_customFields (itemType : ItemType) :
    (notesField itemType).key ≠ customFields := by
  cases itemType <;> decide

theorem fieldList_assign {key : Utf16} {v : Value} {data : List (Utf16 × Value)}
    (h : key ≠ customFields) : fieldList (assign key v data) = fieldList data := by
  unfold fieldList
  rw [lookup_assign_of_ne h.symm]

theorem fieldList_assign_self (fields : List Value) (data : List (Utf16 × Value)) :
    fieldList (assign customFields (.array fields) data) = some fields := by
  simp [fieldList]

variable {fields : List Value}

theorem limitImportItem_of_le (h : fieldList item.data = some fields) (hle : fields.length ≤ cap) :
    limitImportItem item cap = untouched item := by
  simp only [limitImportItem, h, if_pos hle]

theorem limitImportItem_of_lt (h : fieldList item.data = some fields) (hlt : cap < fields.length) :
    limitImportItem item cap =
      { item := { item with data := cutData item cap fields, importNotices := none, native := none }
        untrimmed := some item
        report := some (reportFor item (foldOf item cap fields).toCut) } := by
  simp only [limitImportItem, h, if_neg (Nat.not_le.2 hlt)]

/-- What `cutData` sets: the kept fields, and the free text where there is a new one. -/
theorem cutData_cases (item : ResolvableImportItem) (cap : ℕ) (fields : List Value) :
    (foldOf item cap fields).text = none
        ∧ cutData item cap fields = assign customFields (.array (fields.take cap)) item.data ∨
      ∃ text, (foldOf item cap fields).text = some text
        ∧ cutData item cap fields = assign (notesField item.itemType).key (.string text)
          (assign customFields (.array (fields.take cap)) item.data) := by
  unfold cutData
  cases htext : (foldOf item cap fields).text with
  | none => exact .inl ⟨rfl, rfl⟩
  | some text => exact .inr ⟨text, rfl, rfl⟩

theorem limitImportItem_cutTo (h : fieldList item.data = some fields) (hlt : cap < fields.length) :
    CutTo item cap fields (limitImportItem item cap) := by
  have hne := notesField_ne_customFields item.itemType
  obtain ⟨haccounts, happended, hwritten⟩ :=
    foldOverflow_sound (stringAt (notesField item.itemType).key item.data) (fields.drop cap) cap
      (notesField item.itemType).max
  rw [limitImportItem_of_lt h hlt]
  obtain ⟨htext, hdata⟩ | ⟨text, htext, hdata⟩ := cutData_cases item cap fields
  · have hnone (field : ReadField) : ¬ ∃ text, (foldOf item cap fields).text = some text
        ∧ field.line <:+: text := by simp [htext]
    exact {
      kept := by rw [hdata, fieldList_assign_self]
      notes := .inl (by rw [hdata, lookup_assign_of_ne hne])
      others := fun key hkey _ => by rw [hdata, lookup_assign_of_ne hkey]
      same := rfl
      untrimmed := rfl
      accounts := ⟨_, _, rfl, haccounts, fun field hfield =>
        absurd (hwritten field hfield) (hnone field)⟩ }
  · have hstring : stringAt (notesField item.itemType).key (cutData item cap fields) = text := by
      simp [stringAt, hdata]
    exact {
      kept := by rw [hdata, fieldList_assign hne, fieldList_assign_self]
      notes := .inr ⟨text, by rw [hdata, lookup_assign], happended text htext⟩
      others := fun key hkey hnotes => by
        rw [hdata, lookup_assign_of_ne hnotes, lookup_assign_of_ne hkey]
      same := rfl
      untrimmed := rfl
      accounts := ⟨_, _, rfl, haccounts, fun field hfield => by
        obtain ⟨text', htext', hline⟩ := hwritten field hfield
        rw [show text' = text from Option.some.inj (htext'.symm.trans htext)] at hline
        rw [hstring]
        exact hline⟩ }

theorem limitImportItem_limits (item : ResolvableImportItem) (cap : ℕ) :
    Limits item cap (limitImportItem item cap) where
  within := fun h => by
    cases hfields : fieldList item.data with
    | none => simp only [limitImportItem, hfields]
    | some fields => exact limitImportItem_of_le hfields (h fields hfields)
  past := fun _ hfields hlt => limitImportItem_cutTo hfields hlt

theorem reportFor_congr (h : item' = { item with data := item'.data, native := item'.native })
    (cut : Cut) : reportFor item cut = reportFor item' cut := by
  rw [h]
  rfl

/-- What the limit returns is told apart by neither its data nor its report. -/
def SameResult (limited limited' : LimitedImportItem) : Prop :=
  limited.item.data = limited'.item.data ∧ limited.report = limited'.report

theorem untouched_congr (h : item' = { item with data := item'.data, native := item'.native })
    (hdata : item.data = item'.data) : SameResult (untouched item) (untouched item') := by
  have hnotices : item'.importNotices = item.importNotices := by rw [h]
  refine ⟨hdata, ?_⟩
  simp only [untouched, reportFor_congr h, hnotices]

theorem cut_congr {fields' : List Value}
    (h : item' = { item with data := item'.data, native := item'.native })
    (hfields : fieldList item.data = some fields) (hfields' : fieldList item'.data = some fields')
    (hstring : ∀ key, key ≠ customFields → stringAt key item.data = stringAt key item'.data)
    (hkept : assign customFields (.array (fields.take cap)) item.data
      = assign customFields (.array (fields'.take cap)) item'.data)
    (halike : List.Forall₂ Alike (fields.drop cap) (fields'.drop cap)) (hlt : cap < fields.length) :
    SameResult (limitImportItem item cap) (limitImportItem item' cap) := by
  have hlt' : cap < fields'.length := by
    have hlength := halike.length_eq
    rw [List.length_drop, List.length_drop] at hlength
    omega
  have htype : item'.itemType = item.itemType := by rw [h]
  have hfold : foldOf item cap fields = foldOf item' cap fields' := by
    unfold foldOf
    rw [htype, hstring _ (notesField_ne_customFields _), foldOverflow_congr halike]
  rw [limitImportItem_of_lt hfields hlt, limitImportItem_of_lt hfields' hlt']
  constructor
  · simp only [cutData, hfold, htype, hkept]
  · rw [hfold, reportFor_congr h]

theorem alike_refl (fields : List Value) : List.Forall₂ Alike fields fields := by
  induction fields with
  | nil => exact .nil
  | cons field fields ih => exact .cons (.inl rfl) ih

/-- The data of a cut row and its report depend on nothing that a hidden field past the limit
holds. -/
theorem limitImportItem_congr (h : AlikePast cap item item') :
    SameResult (limitImportItem item cap) (limitImportItem item' cap) := by
  obtain hdata | ⟨data, fields, fields', hitem, hitem', htake, halike⟩ := h.data
  · cases hfields : fieldList item.data with
    | none =>
      have hfields' : fieldList item'.data = none := by rw [← hdata, hfields]
      simp only [limitImportItem, hfields, hfields']
      exact untouched_congr h.same hdata
    | some fields =>
      have hfields' : fieldList item'.data = some fields := by rw [← hdata, hfields]
      by_cases hle : fields.length ≤ cap
      · rw [limitImportItem_of_le hfields hle, limitImportItem_of_le hfields' hle]
        exact untouched_congr h.same hdata
      · exact cut_congr h.same hfields hfields' (fun key _ => by rw [hdata]) (by rw [hdata])
          (alike_refl _) (Nat.not_le.1 hle)
  · have hfields : fieldList item.data = some fields := by rw [hitem, fieldList_assign_self]
    have hfields' : fieldList item'.data = some fields' := by rw [hitem', fieldList_assign_self]
    by_cases hle : fields.length ≤ cap
    · -- nothing is past the limit, and then the lists are the same
      have hrest : fields'.drop cap = [] := by
        rw [List.drop_eq_nil_of_le hle] at halike
        exact List.forall₂_nil_left_iff.1 halike
      have hle' := List.drop_eq_nil_iff.1 hrest
      rw [List.take_of_length_le hle, List.take_of_length_le hle'] at htake
      rw [limitImportItem_of_le hfields hle, limitImportItem_of_le hfields' hle']
      exact untouched_congr h.same (by rw [hitem, hitem', htake])
    · refine cut_congr h.same hfields hfields' (fun key hkey => ?_) ?_ halike (Nat.not_le.1 hle)
      · unfold stringAt
        rw [hitem, hitem', lookup_assign_of_ne hkey, lookup_assign_of_ne hkey]
      · rw [hitem, hitem', assign_assign, assign_assign, htake]

end Row

/-! ## The updates of an import -/

structure ResolvedUpdate (I E : Type) where
  incoming : I
  existing : E

section Updates

-- rows are told apart as objects, whatever they hold
variable {Row E : Type} (content : Row → ResolvableImportItem) (stored : E → List (Utf16 × Value))
  (limit : ℕ) (untrimmedOf : Row → Option ResolvableImportItem)

/-- The limit, or the number of fields the stored entry already has. -/
def floorOf (existing : E) : ℕ := max limit ((fieldList (stored existing)).elim 0 (·.length))

/-- The row that an update was cut from. -/
def uncut (incoming : Row) : ResolvableImportItem :=
  (untrimmedOf incoming).getD (content incoming)

def limitUpdate (update : ResolvedUpdate Row E) : LimitedImportItem :=
  limitImportItem (uncut content untrimmedOf update.incoming)
    (floorOf stored limit update.existing)

def prepareLimitedUpdates (updates : List (ResolvedUpdate Row E)) :
    List (ResolvedUpdate ResolvableImportItem E) × List LimitReport :=
  (updates.map fun update =>
      ⟨(limitUpdate content stored limit untrimmedOf update).item, update.existing⟩,
    updates.filterMap fun update => (limitUpdate content stored limit untrimmedOf update).report)

/-- Updates of the same entries, with rows that differ in what is hidden past the limit. -/
def AlikeUpdates (update update' : ResolvedUpdate Row E) : Prop :=
  update.existing = update'.existing ∧ AlikePast (floorOf stored limit update.existing)
    (uncut content untrimmedOf update.incoming) (uncut content untrimmedOf update'.incoming)

theorem prepareLimitedUpdates_congr {updates updates' : List (ResolvedUpdate Row E)}
    (h : List.Forall₂ (AlikeUpdates content stored limit untrimmedOf) updates updates') :
    let prepared := prepareLimitedUpdates content stored limit untrimmedOf updates
    let prepared' := prepareLimitedUpdates content stored limit untrimmedOf updates'
    prepared.1.map (fun update => (update.incoming.data, update.existing))
        = prepared'.1.map (fun update => (update.incoming.data, update.existing))
      ∧ prepared.2 = prepared'.2 := by
  induction h with
  | nil => exact ⟨rfl, rfl⟩
  | @cons update update' _ _ hhead _ ih =>
    obtain ⟨hexisting, halike⟩ := hhead
    have hsame : SameResult (limitUpdate content stored limit untrimmedOf update)
        (limitUpdate content stored limit untrimmedOf update') := by
      unfold limitUpdate
      rw [← hexisting]
      exact limitImportItem_congr halike
    simp only [prepareLimitedUpdates, List.map_cons, List.filterMap_cons, List.map_map] at ih ⊢
    rw [hsame.1, hsame.2, hexisting]
    exact ⟨by rw [ih.1], by rw [ih.2]⟩

end Updates

/-! ## The limit -/

/-- The limit accounts for every field, and what a hidden one holds is in nothing it writes or
reports. -/
theorem customFieldsLimit_spares_secrets :
    (∀ item cap, Limits item cap (limitImportItem item cap))
    ∧ (∀ item item' cap, AlikePast cap item item' →
      SameResult (limitImportItem item cap) (limitImportItem item' cap))
    ∧ ∀ (Row E : Type) (content : Row → ResolvableImportItem) (stored : E → List (Utf16 × Value))
        (limit : ℕ) (untrimmedOf : Row → Option ResolvableImportItem)
        (updates updates' : List (ResolvedUpdate Row E)),
      List.Forall₂ (AlikeUpdates content stored limit untrimmedOf) updates updates' →
      let prepared := prepareLimitedUpdates content stored limit untrimmedOf updates
      let prepared' := prepareLimitedUpdates content stored limit untrimmedOf updates'
      prepared.1.map (fun update => (update.incoming.data, update.existing))
          = prepared'.1.map (fun update => (update.incoming.data, update.existing))
        ∧ prepared.2 = prepared'.2 :=
  ⟨limitImportItem_limits, fun _ _ _ h => limitImportItem_congr h,
    fun _ _ _ _ _ _ _ _ h => prepareLimitedUpdates_congr _ _ _ _ h⟩

def field (name value type : String) : Value := .object
  [(units "name", .string (units name)), (units "value", .string (units value)),
    (units "type", .string (units type))]

/-- A note with two fields. -/
def noteWith (content : String) (second : Value) : ResolvableImportItem where
  itemType := .note
  name := units "Router"
  data := assign customFields (.array [field "model" "AX3" "text", second])
    [(units "content", .string (units content))]
  tags := []
  favorite := false
  importNotices := none
  native := none
  folderId := none
  previousPasswords := none

theorem customFieldsLimit_spares_secrets_sample :
    SameResult (limitImportItem (noteWith "" (field "pin" "1234" "hidden")) 1)
      (limitImportItem (noteWith "" (field "pin" "9999" "hidden")) 1) := by
  refine customFieldsLimit_spares_secrets.2.1 _ _ 1 ⟨rfl, .inr ⟨_, _, _, rfl, rfl, rfl, ?_⟩⟩
  exact .cons (alike_assign_value (.string (units "9999")) (by decide)) .nil

/-- White space before the text of a note is lost when a line is appended. -/
theorem limitImportItem_not_only_appends :
    ¬ ∀ (item : ResolvableImportItem) (cap : ℕ) (notes : Utf16),
      lookup (notesField item.itemType).key item.data = some (.string notes) →
      notes <+: stringAt (notesField item.itemType).key (limitImportItem item cap).item.data := by
  intro h
  have happended := h (noteWith " rack 2" (field "room" "4" "text")) 1 (units " rack 2") rfl
  exact absurd happended (by decide)

end HVault.CustomFieldsLimit
