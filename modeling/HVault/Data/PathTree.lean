import Mathlib.Data.List.Nodup
import Mathlib.Data.List.Infix

/-!
# Paths made of names

A path is a name in a directory, and a directory is a path of its own or the root, which has no name
(`Entry.path`). Paths are compared by a key that takes them apart at the separators (`Splits`), such
as their letters without case.

Names whose keys are apart in every directory make paths apart (`Tree.pathsApart`): all files, all
directories above them, and a file from every directory.
-/

namespace PathTree

open List

variable {α : Type}

/-- A name in a directory. -/
structure Entry (α : Type) where
  directory : List α
  name : List α
  deriving DecidableEq

section Paths

variable (sep : α)

/-- `directory`, the separator and the name; at the root the name alone. -/
def join : List α → List α → List α
  | [], name => name
  | directory, name => directory ++ sep :: name

def Entry.path (entry : Entry α) : List α := join sep entry.directory entry.name

/-- A key of paths that is made at each separator anew. -/
structure Splits (key : List α → List α) : Prop where
  append : ∀ a b, key (a ++ sep :: b) = key a ++ sep :: key b
  mem : ∀ a, sep ∈ key a → sep ∈ a

/-- Is there a file below this path? -/
def IsDirectory (files : List (List α)) (path : List α) : Prop :=
  ∃ file ∈ files, path ++ [sep] <+: file

/-- The paths of files that can lie in one place where paths are told apart by their keys. -/
structure PathsApart (key : List α → List α) (files : List (List α)) : Prop where
  directories : ∀ path path', IsDirectory sep files path → IsDirectory sep files path' →
    key path = key path' → path = path'
  apart : ∀ file ∈ files, ∀ path, IsDirectory sep files path → key file ≠ key path
  under : ∀ file ∈ files, ∀ file' ∈ files, ¬ file ++ [sep] <+: file'
  distinct : files.Pairwise fun file file' => key file ≠ key file'

/-- Folders and files, named apart in every directory, each of which is a folder or the root. -/
structure Tree (key : List α → List α) (folders files : List (Entry α)) : Prop where
  names : ∀ entry ∈ folders ++ files, entry.name ≠ [] ∧ sep ∉ entry.name
  parents : ∀ entry ∈ folders ++ files,
    entry.directory = [] ∨ ∃ folder ∈ folders, entry.directory = folder.path sep
  apart : ((folders ++ files).map fun entry => (entry.directory, key entry.name)).Nodup

end Paths

variable {sep : α} {key : List α → List α}

theorem join_root (name : List α) : join sep [] name = name := rfl

theorem join_of_ne_nil {directory : List α} (h : directory ≠ []) (name : List α) :
    join sep directory name = directory ++ sep :: name := by
  cases directory with
  | nil => exact absurd rfl h
  | cons x directory => rfl

/-- What comes after the last separator, and what comes before it. -/
theorem append_sep_inj {a a' b b' : List α} (hb : sep ∉ b) (hb' : sep ∉ b')
    (h : a ++ sep :: b = a' ++ sep :: b') : a = a' ∧ b = b' := by
  induction a generalizing a' with
  | nil =>
    cases a' with
    | nil => exact ⟨rfl, (cons.inj h).2⟩
    | cons x a' =>
      have hin : sep ∈ b := by
        rw [(cons.inj h).2]
        exact mem_append_right _ mem_cons_self
      exact absurd hin hb
  | cons x a ih =>
    cases a' with
    | nil =>
      have hin : sep ∈ b' := by
        rw [← (cons.inj h).2]
        exact mem_append_right _ mem_cons_self
      exact absurd hin hb'
    | cons x' a' =>
      obtain ⟨hx, hrest⟩ := cons.inj h
      obtain ⟨ha, hbs⟩ := ih hrest
      exact ⟨by rw [hx, ha], hbs⟩

/-- What ends in a separator at the start of a path ends before its name. -/
theorem prefix_append_sep {a b path : List α} (hb : sep ∉ b)
    (h : path ++ [sep] <+: a ++ sep :: b) : path = a ∨ path ++ [sep] <+: a := by
  obtain ⟨rest, hrest⟩ := h
  rw [append_assoc, singleton_append] at hrest
  rcases append_eq_append_iff.1 hrest with ⟨middle, ha, htail⟩ | ⟨middle, hpath, htail⟩
  · cases middle with
    | nil => exact Or.inl (by rw [ha, append_nil])
    | cons x middle =>
      refine Or.inr ⟨middle, ?_⟩
      rw [ha, (cons.inj htail).1, append_assoc, singleton_append]
  · cases middle with
    | nil => exact Or.inl (by rw [hpath, append_nil])
    | cons x middle =>
      have hin : sep ∈ b := by
        rw [(cons.inj htail).2]
        exact mem_append_right _ mem_cons_self
      exact absurd hin hb

theorem Splits.key_not_mem (h : Splits sep key) {name : List α} (hname : sep ∉ name) :
    sep ∉ key name := fun hmem => hname (h.mem _ hmem)

/-- Names of one key in directories of one key. -/
theorem Splits.join_inj (h : Splits sep key) {directory directory' name name' : List α}
    (hname : sep ∉ name) (hname' : sep ∉ name')
    (heq : key (join sep directory name) = key (join sep directory' name')) :
    (directory = [] ↔ directory' = []) ∧ key name = key name' ∧
      (directory ≠ [] → key directory = key directory') := by
  have hkey := h.key_not_mem hname
  have hkey' := h.key_not_mem hname'
  by_cases hroot : directory = []
  · by_cases hroot' : directory' = []
    · rw [hroot, hroot', join_root, join_root] at heq
      exact ⟨iff_of_true hroot hroot', heq, fun hne => absurd hroot hne⟩
    · rw [hroot, join_root, join_of_ne_nil hroot', h.append] at heq
      exact absurd (heq ▸ mem_append_right _ mem_cons_self) hkey
  · by_cases hroot' : directory' = []
    · rw [hroot', join_root, join_of_ne_nil hroot, h.append] at heq
      exact absurd (heq ▸ mem_append_right _ mem_cons_self) hkey'
    · rw [join_of_ne_nil hroot, join_of_ne_nil hroot', h.append, h.append] at heq
      obtain ⟨hdirectory, hnames⟩ := append_sep_inj hkey hkey' heq
      exact ⟨iff_of_false hroot hroot', hnames, fun _ => hdirectory⟩

theorem Entry.path_ne_nil {entry : Entry α} (h : entry.name ≠ []) : entry.path sep ≠ [] := by
  by_cases hroot : entry.directory = []
  · rw [Entry.path, hroot, join_root]
    exact h
  · rw [Entry.path, join_of_ne_nil hroot]
    exact append_ne_nil_of_right_ne_nil _ (cons_ne_nil _ _)

theorem Entry.directory_length (entry : Entry α) (h : entry.directory ≠ []) :
    entry.directory.length < (entry.path sep).length := by
  rw [Entry.path, join_of_ne_nil h, length_append, length_cons]
  omega

namespace Tree

variable {folders files : List (Entry α)}

theorem folder_mem {folder : Entry α} (h : folder ∈ folders) : folder ∈ folders ++ files :=
  mem_append_left _ h

theorem file_mem {file : Entry α} (h : file ∈ files) : file ∈ folders ++ files :=
  mem_append_right _ h

variable {entry : Entry α}

/-- Entries of one directory with names of one key are one entry. -/
theorem eq_of_key (h : Tree sep key folders files) {entry' : Entry α}
    (hentry : entry ∈ folders ++ files) (hentry' : entry' ∈ folders ++ files)
    (hdirectory : entry.directory = entry'.directory) (hname : key entry.name = key entry'.name) :
    entry = entry' := by
  exact inj_on_of_nodup_map h.apart hentry hentry' (by rw [hdirectory, hname])

/-- Entries whose paths have one key are one entry. The induction is on the directories above. -/
theorem eq_of_path (h : Tree sep key folders files) (hkey : Splits sep key) {entry' : Entry α}
    (hentry : entry ∈ folders ++ files) (hentry' : entry' ∈ folders ++ files)
    (heq : key (entry.path sep) = key (entry'.path sep)) :
    entry = entry' := by
  induction hn : (entry.path sep).length using Nat.strong_induction_on generalizing entry entry' with
  | _ n ih =>
    obtain ⟨hroot, hname, hdirectory⟩ :=
      hkey.join_inj (h.names entry hentry).2 (h.names entry' hentry').2 heq
    refine h.eq_of_key hentry hentry' ?_ hname
    rcases h.parents entry hentry with hnil | ⟨folder, hfolder, hparent⟩
    · rw [hnil, hroot.1 hnil]
    · have hne : entry.directory ≠ [] := by
        rw [hparent]
        exact Entry.path_ne_nil (h.names folder (folder_mem hfolder)).1
      rcases h.parents entry' hentry' with hnil' | ⟨folder', hfolder', hparent'⟩
      · exact absurd (hroot.2 hnil') hne
      · have hlt : entry.directory.length < (entry.path sep).length := entry.directory_length hne
        have hkeys := hdirectory hne
        rw [hparent] at hlt hkeys
        rw [hparent'] at hkeys
        rw [hparent, hparent',
          ih _ (hn ▸ hlt) (folder_mem hfolder) (folder_mem hfolder') hkeys rfl]

/-- What lies above an entry is a folder. -/
theorem folder_of_start (h : Tree sep key folders files) (hentry : entry ∈ folders ++ files)
    {path : List α} (hpath : path ++ [sep] <+: entry.path sep) :
    ∃ folder ∈ folders, path = folder.path sep := by
  induction hn : (entry.path sep).length using Nat.strong_induction_on generalizing entry with
  | _ n ih =>
    have hname := (h.names entry hentry).2
    rcases h.parents entry hentry with hnil | ⟨folder, hfolder, hparent⟩
    · rw [Entry.path, hnil, join_root] at hpath
      exact absurd (hpath.subset (mem_append_right _ mem_cons_self)) hname
    · have hne : entry.directory ≠ [] := by
        rw [hparent]
        exact Entry.path_ne_nil (h.names folder (folder_mem hfolder)).1
      have hlt : entry.directory.length < (entry.path sep).length := entry.directory_length hne
      rw [Entry.path, join_of_ne_nil hne] at hpath
      rcases prefix_append_sep hname hpath with heq | hstart
      · exact ⟨folder, hfolder, heq.trans hparent⟩
      · rw [hparent] at hlt hstart
        exact ih _ (hn ▸ hlt) (folder_mem hfolder) hstart rfl

/-! ### Growing -/

/-- What an entry is told apart by in a tree. -/
def slot (key : List α → List α) (entry : Entry α) : List α × List α :=
  (entry.directory, key entry.name)

theorem addFolder (h : Tree sep key folders files) (hname : entry.name ≠ [] ∧ sep ∉ entry.name)
    (hparent : entry.directory = [] ∨ ∃ folder ∈ folders, entry.directory = folder.path sep)
    (hnew : slot key entry ∉ (folders ++ files).map (slot key)) :
    Tree sep key (entry :: folders) files where
  names := forall_mem_cons.2 ⟨hname, h.names⟩
  parents := by
    have hgrown : ∀ directory : List α,
        (directory = [] ∨ ∃ folder ∈ folders, directory = folder.path sep) →
          directory = [] ∨ ∃ folder ∈ entry :: folders, directory = folder.path sep :=
      fun directory => Or.imp_right fun ⟨folder, hfolder, heq⟩ =>
        ⟨folder, mem_cons_of_mem _ hfolder, heq⟩
    exact forall_mem_cons.2 ⟨hgrown _ hparent, fun entry' hentry => hgrown _ (h.parents entry' hentry)⟩
  apart := nodup_cons.2 ⟨hnew, h.apart⟩

theorem addFile (h : Tree sep key folders files) (hname : entry.name ≠ [] ∧ sep ∉ entry.name)
    (hparent : entry.directory = [] ∨ ∃ folder ∈ folders, entry.directory = folder.path sep)
    (hnew : slot key entry ∉ (folders ++ files).map (slot key)) :
    Tree sep key folders (entry :: files) := by
  have hperm : (folders ++ entry :: files).Perm (entry :: (folders ++ files)) := perm_middle
  refine ⟨fun entry' hentry => ?_, fun entry' hentry => ?_, ?_⟩
  · rcases mem_cons.1 (hperm.subset hentry) with rfl | hold
    · exact hname
    · exact h.names entry' hold
  · rcases mem_cons.1 (hperm.subset hentry) with rfl | hold
    · exact hparent
    · exact h.parents entry' hold
  · exact ((hperm.map (slot key)).nodup_iff).2 (nodup_cons.2 ⟨hnew, h.apart⟩)

theorem dropFiles (h : Tree sep key folders files) {kept : List (Entry α)}
    (hkept : kept.Sublist files) : Tree sep key folders kept where
  names entry hentry := h.names entry (((List.Sublist.refl folders).append hkept).subset hentry)
  parents entry hentry := h.parents entry (((List.Sublist.refl folders).append hkept).subset hentry)
  apart := h.apart.sublist (((List.Sublist.refl folders).append hkept).map _)

/-- A tree under one key is one under another that keeps its names apart. -/
theorem changeKey (h : Tree sep key folders files) {key' : List α → List α}
    (hkeys : ∀ entry ∈ folders ++ files, ∀ entry' ∈ folders ++ files,
      entry.directory = entry'.directory → key' entry.name = key' entry'.name →
        key entry.name = key entry'.name) : Tree sep key' folders files where
  names := h.names
  parents := h.parents
  apart := by
    refine (List.Nodup.of_map _ h.apart).map_on fun entry hentry entry' hentry' heq => ?_
    obtain ⟨hdirectory, hname⟩ := Prod.mk.inj heq
    exact h.eq_of_key hentry hentry' hdirectory (hkeys entry hentry entry' hentry' hdirectory hname)

/-- **Names that are apart make paths apart.** -/
theorem pathsApart (h : Tree sep key folders files) (hkey : Splits sep key) :
    PathsApart sep key (files.map (Entry.path sep)) := by
  have hfolder : ∀ path, IsDirectory sep (files.map (Entry.path sep)) path →
      ∃ folder ∈ folders, path = folder.path sep := by
    rintro path ⟨_, hfile, hstart⟩
    obtain ⟨file, hmem, rfl⟩ := mem_map.1 hfile
    exact h.folder_of_start (file_mem hmem) hstart
  have hnodup : (folders ++ files).Nodup := List.Nodup.of_map _ h.apart
  have hapart : ∀ file ∈ files.map (Entry.path sep), ∀ path,
      IsDirectory sep (files.map (Entry.path sep)) path → key file ≠ key path := by
    intro _ hfile path hpath heq
    obtain ⟨file, hmem, rfl⟩ := mem_map.1 hfile
    obtain ⟨folder, hmem', rfl⟩ := hfolder path hpath
    obtain rfl := h.eq_of_path hkey (file_mem hmem) (folder_mem hmem') heq
    exact (nodup_append.1 hnodup).2.2 _ hmem' _ hmem rfl
  refine ⟨?_, hapart, fun file hfile file' hfile' hstart => ?_, ?_⟩
  · intro path path' hpath hpath' heq
    obtain ⟨folder, hmem, rfl⟩ := hfolder path hpath
    obtain ⟨folder', hmem', rfl⟩ := hfolder path' hpath'
    rw [h.eq_of_path hkey (folder_mem hmem) (folder_mem hmem') heq]
  · exact hapart file hfile file ⟨file', hfile', hstart⟩ rfl
  · rw [pairwise_map]
    refine (nodup_append.1 hnodup).2.1.imp_of_mem fun hfile hfile' hne heq => hne ?_
    exact h.eq_of_path hkey (file_mem hfile) (file_mem hfile') heq

end Tree

end PathTree
