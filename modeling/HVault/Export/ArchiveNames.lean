import HVault.Crypto.DocumentMeta
import HVault.Data.PathTree
import HVault.Data.Utf8
import Mathlib.Data.Nat.Digits.Lemmas

/-!
# Names in an archive

A document's name, and every folder's name above it, is made safe as one segment of a path
(`archiveSegment`), and numbered where a directory holds one like it (`numbered`). Names are told
apart by their upper case (`collisionKey`).

* `archiveSegment_spec`, `numbered_spec`: a segment has no separator in it and is not empty;
* `numbered_key_inj`: numbered segments differ in their keys.

What the tables of Unicode say is a parameter (`Unicode`).
-/

namespace HVault.Archive

open Json Backup DocumentCrypto List

/-! ## Strings -/

def slash : UInt16 := 0x2F

/-- Characters that are as they are, whatever stands beside them. -/
def isFixed (u : UInt16) : Bool := u = slash ∨ u = 0x28 ∨ u = 0x29

def isDigit (u : UInt16) : Bool := 0x30 ≤ u.toNat ∧ u.toNat ≤ 0x39

/-- `Number(s)` of digits, before it is rounded. -/
def numberOf (digits : Utf16) : ℕ := digits.foldl (fun n u => 10 * n + (u.toNat - 0x30)) 0

/-- The built-in functions of strings that go by the tables of Unicode. Neither brackets nor a slash
compose with what is beside them or have a case, no character becomes a slash, and a slash or a
bracket ends what a letter's case looks at. -/
structure Unicode where
  normalize : Utf16 → Utf16
  toUpperCase : Utf16 → Utf16
  toLowerCase : Utf16 → Utf16
  normalize_fixed : ∀ c, isFixed c → ∀ a b, normalize (a ++ c :: b) = normalize a ++ c :: normalize b
  upper_fixed : ∀ c, isFixed c → ∀ a b,
    toUpperCase (a ++ c :: b) = toUpperCase a ++ c :: toUpperCase b
  lower_fixed : ∀ c, isFixed c → ∀ a b,
    toLowerCase (a ++ c :: b) = toLowerCase a ++ c :: toLowerCase b
  normalize_slash : ∀ a, slash ∈ normalize a → slash ∈ a
  upper_slash : ∀ a, slash ∈ toUpperCase a → slash ∈ a
  lower_slash : ∀ a, slash ∈ toLowerCase a → slash ∈ a
  normalize_digits : ∀ ds, ds.all isDigit → normalize ds = ds
  upper_digits : ∀ ds, ds.all isDigit → toUpperCase ds = ds

/-- The characters of a string, a surrogate that stands alone being one. -/
def codePoints : Utf16 → List Utf16
  | [] => []
  | [u] => [[u]]
  | u :: v :: us =>
    if isHigh u ∧ isLow v then [u, v] :: codePoints us else [u] :: codePoints (v :: us)

/-- `replace(LONE_SURROGATE, '\uFFFD')`. -/
def replaceLone (s : Utf16) : Utf16 :=
  (codePoints s).flatMap fun c => if c.any isHigh ∧ c.length = 1 ∨ c.all isLow then [0xFFFD] else c

/-- A string without what it ends in of this kind. -/
def dropTrailing (p : UInt16 → Bool) (s : Utf16) : Utf16 := (s.reverse.dropWhile p).reverse

/-- `String(n)`. -/
def decimal (n : ℕ) : Utf16 :=
  if n = 0 then [0x30] else (Nat.digits 10 n).reverse.map fun d => .ofNat (0x30 + d)

def dot : UInt16 := 0x2E

def space : UInt16 := 0x20

def underscore : UInt16 := 0x5F

/-! ## One segment -/

def maxSegmentBytes : ℕ := 255

def maxDocumentExtLength : ℕ := 32

def fallbackDocumentSegment : Utf16 := units "document"

def fallbackFolderSegment : Utf16 := units "folder"

def isUnsafe (u : UInt16) : Bool :=
  u.toNat ≤ 0x1F ∨ (0x7F ≤ u.toNat ∧ u.toNat ≤ 0x9F) ∨ u = slash ∨ u = 0x5C ∨ u = 0x61C ∨
    u = 0x200E ∨ u = 0x200F ∨ (0x202A ≤ u.toNat ∧ u.toNat ≤ 0x202E) ∨
    (0x2066 ≤ u.toNat ∧ u.toNat ≤ 0x2069)

/-- Reserved by Windows, or like a separator. -/
def isNonPortable (u : UInt16) : Bool :=
  u = 0x3C ∨ u = 0x3E ∨ u = 0x3A ∨ u = 0x22 ∨ u = 0x7C ∨ u = 0x3F ∨ u = 0x2A ∨ u = 0x2044 ∨
    u = 0x2215 ∨ u = 0x29F8 ∨ u = 0xFF0F ∨ u = 0xFF3C

def isDotOrSpace (u : UInt16) : Bool := u = dot ∨ u = space

/-- `replace(…, '_')`. -/
def underscored (p : UInt16 → Bool) (s : Utf16) : Utf16 := s.map fun u => if p u then underscore else u

def stripUnsafeFilenameCharacters (name : Utf16) : Utf16 :=
  dropTrailing isDotOrSpace (trim (underscored isUnsafe name))

def lowerAscii (u : UInt16) : UInt16 := if 0x41 ≤ u.toNat ∧ u.toNat ≤ 0x5A then u + 0x20 else u

/-- The names of the Windows devices; a port may have a superscript digit. -/
def deviceNames : List Utf16 :=
  ["con", "prn", "aux", "nul"].map units ++
    ["com", "lpt"].flatMap fun port => (units "0123456789¹²³").map fun d => units port ++ [d]

/-- Blanks, and then a dot or nothing. -/
def endsDevice (rest : Utf16) : Bool := (rest.dropWhile (· = space)).head?.all (· = dot)

/-- A Windows device name, alone or before an extension. -/
def isReservedDeviceName (s : Utf16) : Bool :=
  deviceNames.any fun device =>
    (s.take device.length).map lowerAscii = device ∧ endsDevice (s.drop device.length)

/-- Nothing but dots and the characters that render as one. -/
def isDotLikeOnly (s : Utf16) : Bool := s ≠ [] ∧ s.all fun u => u = dot ∨ u = 0x2024 ∨ u = 0xFF0E

def utf8Length (s : Utf16) : ℕ := (Utf8.encode s).length

/-- The characters that fit in what is left of `budget`. -/
def cutFrom (budget : ℕ) : ℕ → List Utf16 → Utf16
  | _, [] => []
  | used, c :: cs =>
    if budget < used + utf8Length c then [] else c ++ cutFrom budget (used + utf8Length c) cs

/-- The longest prefix of `s` that fits in `budget` UTF-8 bytes, whole code points only. -/
def cutToBytes (s : Utf16) (budget : ℕ) : Utf16 := cutFrom budget 0 (codePoints s)

/-- `stem` followed by `tail` in at most 255 UTF-8 bytes, cutting only the stem. -/
def fitSegment (stem tail fallback : Utf16) : Utf16 :=
  let cut := cutToBytes stem (maxSegmentBytes - utf8Length tail)
  if cut = stem then stem ++ tail
  else
    let trimmed := dropTrailing isDotOrSpace cut
    (if trimmed = [] then fallback else trimmed) ++ tail

/-- A name without its extension, and the extension with its dot. -/
def splitDocumentName (name : Utf16) : Utf16 × Utf16 :=
  let suffix := (name.reverse.takeWhile (· ≠ dot)).reverse
  let stem := name.take (name.length - (suffix.length + 1))
  if stem = [] then (name, []) else (stem, dot :: suffix)

/-- A name split so that a cut or a counter never touches its extension. -/
def splitForArchive (segment : Utf16) : Utf16 × Utf16 :=
  let (stem, suffix) := splitDocumentName segment
  if maxDocumentExtLength < suffix.length - 1 then (segment, []) else (stem, suffix)

/-- The two rules that judge a segment as a whole, applied to its final form. -/
def settle (segment fallback : Utf16) : Utf16 :=
  if isDotLikeOnly segment then fallback
  else if ¬ isReservedDeviceName segment then segment
  else
    let (stem, suffix) := splitForArchive (underscore :: segment)
    fitSegment stem suffix fallback

/-- One name, made safe as a single path segment. -/
def archiveSegment (unicode : Unicode) (name fallback : Utf16) : Utf16 :=
  let segment := underscored isNonPortable
    (stripUnsafeFilenameCharacters (replaceLone (unicode.normalize name)))
  if segment = [] then fallback
  else
    let (stem, suffix) := splitForArchive segment
    settle (fitSegment stem suffix fallback) fallback

/-- ` (n)`, which makes a name unique. -/
def counterTail (counter : ℕ) : Utf16 := space :: 0x28 :: (decimal counter ++ [0x29])

/-- `segment` with ` (n)` before its extension, still within the byte limit. -/
def numbered (segment : Utf16) (counter : ℕ) (fallback : Utf16) : Utf16 :=
  let (stem, suffix) := splitForArchive segment
  settle (fitSegment stem (counterTail counter ++ suffix) fallback) fallback

/-- What two names in one directory collide on. -/
def collisionKey (unicode : Unicode) (segment : Utf16) : Utf16 :=
  unicode.toUpperCase (unicode.normalize segment)

/-! ## What a segment is made of -/

variable (s : Utf16)

theorem codePoints_flatten : (codePoints s).flatten = s := by
  fun_induction codePoints s with
  | case1 => rfl
  | case2 u => rfl
  | case3 u v us hpair ih | case4 u v us hpair ih => rw [flatten_cons, ih]; rfl

theorem prefix_cutFrom (budget used : ℕ) (cs : List Utf16) :
    cutFrom budget used cs <+: cs.flatten := by
  induction cs generalizing used with
  | nil => exact prefix_refl _
  | cons c cs ih =>
    unfold cutFrom
    split_ifs
    · exact nil_prefix
    · rw [flatten_cons]
      exact (prefix_append_right_inj c).2 (ih _)

theorem prefix_cutToBytes (budget : ℕ) : cutToBytes s budget <+: s := by
  have hstart := prefix_cutFrom budget 0 (codePoints s)
  rwa [codePoints_flatten] at hstart

theorem prefix_dropTrailing (p : UInt16 → Bool) (s : Utf16) : dropTrailing p s <+: s := by
  have hsuffix := dropWhile_suffix p (l := s.reverse)
  rw [← reverse_prefix, reverse_reverse] at hsuffix
  exact hsuffix

/-- What is fitted is the start of the stem, or the fallback, before the tail. -/
theorem fitSegment_spec (stem tail fallback : Utf16) :
    ∃ head, fitSegment stem tail fallback = head ++ tail ∧ (head <+: stem ∨ head = fallback) ∧
      (stem ≠ [] → fallback ≠ [] → head ≠ []) := by
  unfold fitSegment
  dsimp only
  split_ifs with hcut htrimmed
  · exact ⟨stem, rfl, Or.inl (prefix_refl _), fun hstem _ => hstem⟩
  · exact ⟨fallback, rfl, Or.inr rfl, fun _ hfallback => hfallback⟩
  · refine ⟨_, rfl, Or.inl ?_, fun _ _ => htrimmed⟩
    exact (prefix_dropTrailing _ _).trans (prefix_cutToBytes _ _)

theorem splitDocumentName_append (name : Utf16) :
    (splitDocumentName name).1 ++ (splitDocumentName name).2 = name := by
  unfold splitDocumentName
  dsimp only
  split_ifs with hstem
  · exact append_nil _
  · have hsplit := takeWhile_append_dropWhile (p := (· ≠ dot)) (l := name.reverse)
    generalize name.reverse.takeWhile (· ≠ dot) = suffix at hsplit hstem ⊢
    have hhead := head?_dropWhile_not (· ≠ dot) name.reverse
    cases hrest : name.reverse.dropWhile (· ≠ dot) with
    | nil =>
      rw [hrest, append_nil] at hsplit
      rw [length_reverse, hsplit, length_reverse,
        Nat.sub_eq_zero_of_le (Nat.le_succ _)] at hstem
      exact absurd take_zero hstem
    | cons u rest =>
      rw [hrest] at hhead hsplit
      obtain rfl : u = dot := by simpa using hhead
      have hname : name = rest.reverse ++ dot :: suffix.reverse := by
        rw [← reverse_inj, ← hsplit]
        simp
      have hlength : name.length - (suffix.reverse.length + 1) = rest.reverse.length := by
        rw [hname, length_append, length_cons, Nat.add_sub_cancel]
      rw [hlength]
      conv_rhs => rw [hname]
      rw [hname, take_left]

theorem splitForArchive_append (segment : Utf16) :
    (splitForArchive segment).1 ++ (splitForArchive segment).2 = segment := by
  unfold splitForArchive
  dsimp only
  split_ifs
  · exact append_nil _
  · exact splitDocumentName_append segment

variable {segment : Utf16}

theorem splitForArchive_ne_nil (h : segment ≠ []) : (splitForArchive segment).1 ≠ [] := by
  unfold splitForArchive splitDocumentName
  dsimp only
  split_ifs with hstem
  · exact h
  · exact h
  · exact h
  · exact hstem

theorem prefix_splitForArchive (segment : Utf16) : (splitForArchive segment).1 <+: segment :=
  ⟨_, splitForArchive_append segment⟩

/-! ## Devices -/

/-- What a name is called when nothing safe is left of it. -/
def IsFallback (fallback : Utf16) : Prop :=
  fallback = fallbackDocumentSegment ∨ fallback = fallbackFolderSegment

theorem isReservedDeviceName_iff {s : Utf16} : isReservedDeviceName s ↔
    ∃ device ∈ deviceNames, (s.take device.length).map lowerAscii = device ∧
      endsDevice (s.drop device.length) := by
  unfold isReservedDeviceName
  rw [any_eq_true]
  exact exists_congr fun device => and_congr_right fun _ => decide_eq_true_iff

/-- No device has a blank or an underscore in its name. -/
theorem deviceNames_solid : ∀ device ∈ deviceNames, space ∉ device ∧ device.head? ≠ some underscore ∧
    device ≠ [] := by
  decide

theorem underscore_not_device : isReservedDeviceName (underscore :: s) = false := by
  rw [Bool.eq_false_iff, Ne, isReservedDeviceName_iff]
  rintro ⟨device, hdevice, hmap, -⟩
  obtain ⟨-, hhead, hne⟩ := deviceNames_solid device hdevice
  cases device with
  | nil => exact hne rfl
  | cons u device =>
    rw [length_cons, take_succ_cons, map_cons] at hmap
    have hu : lowerAscii underscore = u := (cons.inj hmap).1
    exact hhead (by rw [← hu]; rfl)

variable {fallback : Utf16}

theorem fallback_not_device (h : IsFallback fallback) (rest : Utf16) :
    isReservedDeviceName (fallback ++ rest) = false := by
  rw [Bool.eq_false_iff, Ne, isReservedDeviceName_iff]
  rintro ⟨device, hdevice, hmap, -⟩
  have hapart : ∀ device ∈ deviceNames, device.length ≤ fallback.length ∧
      (fallback.take device.length).map lowerAscii ≠ device := by
    rcases h with rfl | rfl
    · decide
    · decide
  obtain ⟨hle, hne⟩ := hapart device hdevice
  rw [take_append_of_le_length hle] at hmap
  exact hne hmap

/-- A dot that ends a device's name comes before the counter. -/
theorem endsDevice_of_counter {head rest : Utf16}
    (h : endsDevice (head ++ space :: 0x28 :: rest)) (rest' : Utf16) : endsDevice (head ++ rest') := by
  unfold endsDevice at h ⊢
  induction head with
  | nil =>
    have hbracket : ((space :: 0x28 :: rest).dropWhile (· = space)).head? = some 0x28 := rfl
    rw [nil_append, hbracket] at h
    exact absurd h (by decide)
  | cons u head ih =>
    rw [cons_append, dropWhile_cons] at h ⊢
    split_ifs at h ⊢ with hu
    · exact ih h
    · exact h

/-- A name with a counter in it is a device's only where what comes before the counter is. -/
theorem device_of_counter {head rest : Utf16}
    (h : isReservedDeviceName (head ++ space :: 0x28 :: rest)) (rest' : Utf16) :
    isReservedDeviceName (head ++ rest') := by
  rw [isReservedDeviceName_iff] at h ⊢
  obtain ⟨device, hdevice, hmap, hends⟩ := h
  have hle : device.length ≤ head.length := by
    by_contra hlt
    refine (deviceNames_solid device hdevice).1 ?_
    rw [← hmap, mem_map]
    refine ⟨space, ?_, by decide⟩
    rw [take_append, take_of_length_le (by omega)]
    obtain ⟨k, hk⟩ := Nat.exists_eq_add_one_of_ne_zero
      (by omega : device.length - head.length ≠ 0)
    rw [hk, take_succ_cons]
    exact mem_append_right _ mem_cons_self
  rw [take_append_of_le_length hle] at hmap
  rw [drop_append_of_le_length hle] at hends
  refine ⟨device, hdevice, ?_, ?_⟩
  · rw [take_append_of_le_length hle]
    exact hmap
  · rw [drop_append_of_le_length hle]
    exact endsDevice_of_counter hends rest'

/-! ## Safe segments -/

/-- A segment that can stand in a path, and is not the name of a device. -/
structure Safe (segment : Utf16) : Prop where
  ne : segment ≠ []
  slash : slash ∉ segment
  device : isReservedDeviceName segment = false

theorem fallback_safe (h : IsFallback fallback) : Safe fallback := by
  refine ⟨?_, ?_, by rw [← fallback_not_device h [], append_nil]⟩
  all_goals
    rcases h with rfl | rfl
    · decide
    · decide

theorem slash_not_mem_underscored {p : UInt16 → Bool} {s : Utf16} (h : p slash ∨ slash ∉ s) :
    slash ∉ underscored p s := by
  intro hmem
  obtain ⟨u, hu, heq⟩ := mem_map.1 hmem
  split_ifs at heq with hp
  · exact absurd heq (by decide)
  · subst heq
    rcases h with hslash | hslash
    · exact hp hslash
    · exact hslash hu

theorem trim_subset : trim s ⊆ s := by
  intro u hu
  have hmem := (dropWhile_suffix _).subset (mem_reverse.1 hu)
  exact (dropWhile_suffix _).subset (mem_reverse.1 hmem)

theorem slash_not_mem_strip (name : Utf16) : slash ∉ stripUnsafeFilenameCharacters name := by
  intro hmem
  have htrim := trim_subset _ ((prefix_dropTrailing _ _).subset hmem)
  exact slash_not_mem_underscored (Or.inl (by decide)) htrim

section Segments

variable {fallback : Utf16} (hfallback : IsFallback fallback)
include hfallback

/-- What is fitted has no separator where its parts have none. -/
theorem fitSegment_safe {stem tail : Utf16} (hstem : slash ∉ stem) (htail : slash ∉ tail)
    (hne : stem ≠ []) :
    fitSegment stem tail fallback ≠ [] ∧ slash ∉ fitSegment stem tail fallback := by
  obtain ⟨head, hfit, hhead, hheadne⟩ := fitSegment_spec stem tail fallback
  have hfallback := fallback_safe hfallback
  rw [hfit]
  refine ⟨append_ne_nil_of_left_ne_nil (hheadne hne hfallback.ne) _, fun hmem => ?_⟩
  rcases mem_append.1 hmem with hmem | hmem
  · rcases hhead with hstart | rfl
    · exact hstem (hstart.subset hmem)
    · exact hfallback.slash hmem
  · exact htail hmem

theorem settle_safe (hne : segment ≠ []) (hslash : slash ∉ segment) :
    Safe (settle segment fallback) := by
  unfold settle
  split_ifs with hdots hdevice
  · exact fallback_safe hfallback
  · have hsplit := splitForArchive_append (underscore :: segment)
    have hstem := splitForArchive_ne_nil (cons_ne_nil underscore segment)
    have hparts : slash ∉ (splitForArchive (underscore :: segment)).1 ∧
        slash ∉ (splitForArchive (underscore :: segment)).2 := by
      rw [← mem_append.not.trans not_or, hsplit]
      exact not_mem_cons_of_ne_of_not_mem (by decide) hslash
    obtain ⟨hfit, hfitslash⟩ := fitSegment_safe hfallback hparts.1 hparts.2 hstem
    refine ⟨hfit, hfitslash, ?_⟩
    obtain ⟨head, heq, hhead, hheadne⟩ := fitSegment_spec
      (splitForArchive (underscore :: segment)).1 (splitForArchive (underscore :: segment)).2 fallback
    show isReservedDeviceName (fitSegment (splitForArchive (underscore :: segment)).1
      (splitForArchive (underscore :: segment)).2 fallback) = false
    rw [heq]
    rcases hhead with hstart | rfl
    · have hfirst := hstart.trans (prefix_splitForArchive _)
      cases head with
      | nil => exact absurd rfl (hheadne hstem (fallback_safe hfallback).ne)
      | cons u head =>
        rw [(cons_prefix_cons.1 hfirst).1]
        exact underscore_not_device _
    · exact fallback_not_device hfallback _
  · exact ⟨hne, hslash, Bool.eq_false_iff.2 hdevice⟩

theorem archiveSegment_safe (unicode : Unicode) (name : Utf16) :
    Safe (archiveSegment unicode name fallback) := by
  unfold archiveSegment
  dsimp only
  generalize hsegment : underscored isNonPortable
    (stripUnsafeFilenameCharacters (replaceLone (unicode.normalize name))) = segment
  have hslash : slash ∉ segment := by
    rw [← hsegment]
    exact slash_not_mem_underscored (Or.inr (slash_not_mem_strip _))
  split_ifs with hnil
  · exact fallback_safe hfallback
  · rw [← splitForArchive_append segment, mem_append, not_or] at hslash
    obtain ⟨hfit, hfitslash⟩ := fitSegment_safe hfallback hslash.1 hslash.2
      (splitForArchive_ne_nil hnil)
    exact settle_safe hfallback hfit hfitslash

end Segments

/-! ## Counters -/

theorem decimal_digits (n : ℕ) : (decimal n).all isDigit := by
  unfold decimal
  split_ifs
  · rfl
  · rw [all_eq_true]
    intro u hu
    obtain ⟨d, hd, rfl⟩ := mem_map.1 hu
    have hlt := Nat.digits_lt_base (by decide) (mem_reverse.1 hd)
    interval_cases d <;> rfl

theorem decimal_value (n : ℕ) :
    Nat.ofDigits 10 ((decimal n).map fun u => u.toNat - 0x30).reverse = n := by
  unfold decimal
  split_ifs with hn
  · exact hn.symm
  · have hread : (((Nat.digits 10 n).reverse.map fun d => UInt16.ofNat (0x30 + d)).map
        fun u => u.toNat - 0x30) = (Nat.digits 10 n).reverse := by
      rw [map_map]
      refine (map_congr_left fun d hd => ?_).trans (map_id _)
      have hlt := Nat.digits_lt_base (by decide) (mem_reverse.1 hd)
      interval_cases d <;> rfl
    rw [hread, reverse_reverse, Nat.ofDigits_digits]

theorem decimal_injective : Function.Injective decimal := by
  intro n m h
  rw [← decimal_value n, h, decimal_value]

theorem not_mem_decimal {u : UInt16} (hu : isDigit u = false) (n : ℕ) : u ∉ decimal n := by
  intro hmem
  have hdigit := all_eq_true.1 (decimal_digits n) u hmem
  rw [hu] at hdigit
  cases hdigit

theorem numbered_spec (h : Safe segment) (hfallback : IsFallback fallback) (counter : ℕ) :
    ∃ head, numbered segment counter fallback =
      head ++ space :: 0x28 :: (decimal counter ++ 0x29 :: (splitForArchive segment).2) ∧
        Safe (numbered segment counter fallback) := by
  obtain ⟨head, hfit, hhead, -⟩ := fitSegment_spec (splitForArchive segment).1
    (counterTail counter ++ (splitForArchive segment).2) fallback
  have hslash := h.slash
  rw [← splitForArchive_append segment, mem_append, not_or] at hslash
  have htail : slash ∉ counterTail counter ++ (splitForArchive segment).2 := by
    rw [mem_append, not_or]
    refine ⟨?_, hslash.2⟩
    unfold counterTail
    simp only [mem_cons, mem_append, not_or]
    exact ⟨by decide, by decide, not_mem_decimal (by decide) _, by decide, not_mem_nil⟩
  obtain ⟨hfitne, hfitslash⟩ := fitSegment_safe hfallback hslash.1 htail
    (splitForArchive_ne_nil h.ne)
  refine ⟨head, ?_, settle_safe hfallback hfitne hfitslash⟩
  have heq : head ++ (counterTail counter ++ (splitForArchive segment).2) =
      head ++ space :: 0x28 :: (decimal counter ++ 0x29 :: (splitForArchive segment).2) := by
    unfold counterTail
    simp only [cons_append, append_assoc, nil_append]
  have hdots : ¬ isDotLikeOnly
      (head ++ space :: 0x28 :: (decimal counter ++ 0x29 :: (splitForArchive segment).2)) := by
    intro hdots
    have hbracket := all_eq_true.1 (of_decide_eq_true hdots).2 0x28
      (mem_append_right _ (mem_cons_of_mem _ mem_cons_self))
    exact absurd hbracket (by decide)
  have hdevice : ¬ isReservedDeviceName
      (head ++ space :: 0x28 :: (decimal counter ++ 0x29 :: (splitForArchive segment).2)) := by
    intro hdevice
    have hnone : ∃ rest, isReservedDeviceName (head ++ rest) = false := by
      rcases hhead with hstart | rfl
      · obtain ⟨rest, hrest⟩ := hstart.trans (prefix_splitForArchive segment)
        exact ⟨rest, by rw [hrest, h.device]⟩
      · exact ⟨[], fallback_not_device hfallback []⟩
    obtain ⟨rest, hrest⟩ := hnone
    rw [device_of_counter hdevice rest] at hrest
    cases hrest
  unfold numbered
  dsimp only
  rw [hfit, heq]
  unfold settle
  rw [if_neg hdots, if_pos hdevice]

/-! ## Keys -/

theorem collisionKey_splits (unicode : Unicode) {c : UInt16} (hc : isFixed c) (a b : Utf16) :
    collisionKey unicode (a ++ c :: b) = collisionKey unicode a ++ c :: collisionKey unicode b := by
  unfold collisionKey
  rw [unicode.normalize_fixed c hc, unicode.upper_fixed c hc]

/-- Numbered segments are told apart by their counters. -/
theorem numbered_key_inj (unicode : Unicode) (h : Safe segment) (hfallback : IsFallback fallback)
    {n m : ℕ} (heq : collisionKey unicode (numbered segment n fallback) =
      collisionKey unicode (numbered segment m fallback)) : n = m := by
  have hkey : ∀ k, ∃ before, collisionKey unicode (numbered segment k fallback) =
      (before ++ 0x28 :: decimal k) ++ 0x29 :: collisionKey unicode (splitForArchive segment).2 := by
    intro k
    obtain ⟨head, hnumbered, -⟩ := numbered_spec h hfallback k
    refine ⟨collisionKey unicode (head ++ [space]), ?_⟩
    have hdigits : collisionKey unicode (decimal k) = decimal k := by
      unfold collisionKey
      rw [unicode.normalize_digits _ (decimal_digits k), unicode.upper_digits _ (decimal_digits k)]
    have hspace : head ++ space :: 0x28 :: (decimal k ++ 0x29 :: (splitForArchive segment).2) =
        (head ++ [space]) ++ 0x28 :: (decimal k ++ 0x29 :: (splitForArchive segment).2) := by
      simp only [append_assoc, singleton_append]
    rw [hnumbered, hspace, collisionKey_splits unicode (by decide) (head ++ [space]),
      collisionKey_splits unicode (by decide) (decimal k), hdigits]
    simp only [append_assoc, cons_append]
  obtain ⟨before, hbefore⟩ := hkey n
  obtain ⟨before', hbefore'⟩ := hkey m
  rw [hbefore, hbefore'] at heq
  have hdecimal := (PathTree.append_sep_inj (not_mem_decimal (by decide) n)
    (not_mem_decimal (by decide) m) (append_cancel_right heq)).2
  exact decimal_injective hdecimal

end HVault.Archive
