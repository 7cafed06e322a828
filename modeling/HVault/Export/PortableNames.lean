import HVault.Export.ArchivePaths
import Mathlib.Data.List.TakeWhile

/-!
# Names that any system can hold

No name that `archiveSegment` gives is one that some system refuses, renames or reads as something
else (`Portable`), and neither is such a name with a counter in it. What one step sees to, a later cut
may undo; `settle` comes last, and a cut of what it adds leaves a name as it should be.
-/

namespace HVault.Archive

open Json Backup List

/-- The name of a device, whatever the case of its letters and whatever comes after its first dot. -/
def NamesDevice (segment : Utf16) : Prop :=
  (dropTrailing (· = space) (segment.takeWhile (· ≠ dot))).map lowerAscii ∈ deviceNames

/-- What a name is to be in each of its characters, at its end and in its length. -/
structure Presentable (segment : Utf16) : Prop where
  ne : segment ≠ []
  bytes : utf8Length segment ≤ maxSegmentBytes
  clean : ∀ u ∈ segment, isUnsafe u = false ∧ isNonPortable u = false
  ending : ∀ u ∈ segment.getLast?, isDotOrSpace u = false

/-- A name that any system can hold. -/
structure Portable (segment : Utf16) : Prop extends Presentable segment where
  dots : isDotLikeOnly segment = false
  device : ¬ NamesDevice segment

/-! ## Ends of strings -/

section Trailing

variable {p : UInt16 → Bool}

theorem getLast?_dropTrailing (s : Utf16) : ∀ u ∈ (dropTrailing p s).getLast?, p u = false := by
  intro u hu
  unfold dropTrailing at hu
  rw [getLast?_reverse] at hu
  have hhead := head?_dropWhile_not p s.reverse
  rw [Option.mem_def.1 hu] at hhead
  exact hhead

theorem dropTrailing_append {a b : Utf16} (h : ∀ u ∈ b, p u = true) :
    dropTrailing p (a ++ b) = dropTrailing p a := by
  unfold dropTrailing
  rw [reverse_append,
    dropWhile_append_of_pos fun u hu => h u (mem_reverse.1 hu)]

theorem dropTrailing_eq_self {a : Utf16} (h : ∀ u ∈ a.getLast?, p u = false) :
    dropTrailing p a = a := by
  unfold dropTrailing
  cases hrev : a.reverse with
  | nil => exact (reverse_eq_nil_iff.1 hrev).symm
  | cons u us =>
    have hu : p u = false := by
      apply h u
      rw [← head?_reverse, hrev]
      rfl
    rw [dropWhile_cons_of_neg (by rw [hu]; decide), ← hrev, reverse_reverse]

theorem dropTrailing_split (s : Utf16) :
    ∃ b, s = dropTrailing p s ++ b ∧ ∀ u ∈ b, p u = true := by
  refine ⟨(s.reverse.takeWhile p).reverse, ?_, fun u hu => ?_⟩
  · have hsplit := congrArg reverse (takeWhile_append_dropWhile (p := p) (l := s.reverse))
    rw [reverse_append, reverse_reverse] at hsplit
    exact hsplit.symm
  · exact mem_takeWhile_imp (mem_reverse.1 hu)

end Trailing

/-! ## Devices -/

theorem lowerAscii_eq_iff {u v : UInt16} (hv : v.toNat < 0x41) : lowerAscii u = v ↔ u = v := by
  unfold lowerAscii
  split_ifs with hupper
  · have hne : u ≠ v := by
      rintro rfl
      omega
    have hadd : (u + 0x20).toNat = u.toNat + 0x20 := by
      rw [UInt16.toNat_add]
      show (u.toNat + 0x20) % 2 ^ 16 = _
      omega
    have hne' : u + 0x20 ≠ v := by
      intro heq
      have hnat := congrArg UInt16.toNat heq
      omega
    exact iff_of_false hne' hne
  · rfl

variable {s : Utf16}

/-- A character below the letters is in a name as often as in the name in lower case. -/
theorem mem_map_lowerAscii {v : UInt16} (hv : v.toNat < 0x41) : v ∈ s.map lowerAscii ↔ v ∈ s := by
  rw [mem_map]
  constructor
  · rintro ⟨u, hu, heq⟩
    rwa [← (lowerAscii_eq_iff hv).1 heq]
  · intro hmem
    exact ⟨v, hmem, (lowerAscii_eq_iff hv).2 rfl⟩

theorem deviceNames_dotless : ∀ device ∈ deviceNames, dot ∉ device := by
  decide

/-- The expression finds the names of devices. -/
theorem isReservedDeviceName_iff_names : isReservedDeviceName s ↔ NamesDevice s := by
  rw [isReservedDeviceName_iff]
  have hsplit := takeWhile_append_dropWhile (p := (· ≠ dot)) (l := s)
  constructor
  · rintro ⟨device, hdevice, hmap, hends⟩
    obtain ⟨hspace, -, hne⟩ := deviceNames_solid device hdevice
    have hdot := deviceNames_dotless device hdevice
    have hrest := takeWhile_append_dropWhile (p := (· = space)) (l := s.drop device.length)
    -- before the dot stands the device, and then blanks
    have hbefore : s.takeWhile (· ≠ dot) =
        s.take device.length ++ (s.drop device.length).takeWhile (· = space) := by
      conv_lhs => rw [← take_append_drop device.length s, ← hrest, ← append_assoc]
      rw [takeWhile_append_of_pos]
      · unfold endsDevice at hends
        cases hafter : (s.drop device.length).dropWhile (· = space) with
        | nil => rw [takeWhile_nil, append_nil]
        | cons u us =>
          rw [hafter] at hends
          have hu : u = dot := of_decide_eq_true hends
          rw [hu, takeWhile_cons_of_neg (by decide), append_nil]
      · intro u hu
        apply decide_eq_true
        rintro rfl
        rcases mem_append.1 hu with hu | hu
        · exact hdot (hmap ▸ (mem_map_lowerAscii (by decide)).2 hu)
        · exact absurd (mem_takeWhile_imp hu) (by decide)
    have hlast : ∀ u ∈ (s.take device.length).getLast?, decide (u = space) = false := by
      intro u hu
      apply decide_eq_false
      rintro rfl
      exact hspace (hmap ▸ (mem_map_lowerAscii (by decide)).2 (mem_of_getLast? hu))
    unfold NamesDevice
    rw [hbefore, dropTrailing_append fun u hu => mem_takeWhile_imp hu,
      dropTrailing_eq_self hlast, hmap]
    exact hdevice
  · intro hnames
    obtain ⟨blanks, hstem, hblanks⟩ := dropTrailing_split
      (s.takeWhile (· ≠ dot))
    unfold NamesDevice at hnames
    generalize dropTrailing (· = space) (s.takeWhile (· ≠ dot)) = name at hstem hnames
    rw [hstem, append_assoc] at hsplit
    refine ⟨name.map lowerAscii, hnames, ?_, ?_⟩
    · rw [← hsplit, length_map, take_left]
    · rw [← hsplit, length_map, drop_left]
      unfold endsDevice
      rw [dropWhile_append_of_pos hblanks]
      have hhead := head?_dropWhile_not (· ≠ dot) s
      cases hafter : s.dropWhile (· ≠ dot) with
      | nil => rfl
      | cons u us =>
        rw [hafter] at hhead
        obtain rfl : u = dot := by simpa using hhead
        rfl

/-! ## Bytes -/

theorem utf8Length_append_le (s t : Utf16) : utf8Length (s ++ t) ≤ utf8Length s + utf8Length t :=
  (Utf8.length_encode_append s t).1

theorem utf8Length_le (s : Utf16) : utf8Length s ≤ 3 * s.length := Utf8.length_encode_le s

theorem cutFrom_bytes {budget used : ℕ} (h : used ≤ budget) (cs : List Utf16) :
    used + utf8Length (cutFrom budget used cs) ≤ budget := by
  induction cs generalizing used with
  | nil => exact h
  | cons c cs ih =>
    unfold cutFrom
    split_ifs with hover
    · exact h
    · have hrest := ih (Nat.le_of_not_lt hover)
      have happend := utf8Length_append_le c (cutFrom budget (used + utf8Length c) cs)
      omega

theorem cutToBytes_bytes (s : Utf16) (budget : ℕ) : utf8Length (cutToBytes s budget) ≤ budget := by
  have hcut := cutFrom_bytes (Nat.zero_le budget) (codePoints s)
  rwa [Nat.zero_add] at hcut

theorem utf8Length_prefix {t : Utf16} (h : s <+: t) : utf8Length s ≤ utf8Length t := by
  obtain ⟨rest, rfl⟩ := h
  exact (Utf8.length_encode_append s rest).2

/-- An extension that is kept whole is short. -/
theorem length_suffix_le (segment : Utf16) :
    (splitForArchive segment).2.length ≤ maxDocumentExtLength + 1 := by
  unfold splitForArchive
  dsimp only
  split_ifs with hlong
  · exact Nat.zero_le _
  · show (splitDocumentName segment).2.length ≤ _
    omega

/-! ## Fitting -/

variable {fallback : Utf16}

theorem fallback_presentable (h : IsFallback fallback) :
    Presentable fallback ∧ utf8Length fallback ≤ 8 := by
  -- The instance is named: the units of the name are looked at, not all there are.
  rcases h with rfl | rfl
  all_goals
    exact ⟨⟨by decide, by decide, @of_decide_eq_true _ (decidableBAll _ _) rfl,
      fun u hu => by cases hu; rfl⟩, by decide⟩

/-- A name ends as what is put behind it does. -/
theorem Presentable.append {head tail : Utf16} (hhead : Presentable head)
    (hbytes : utf8Length head + utf8Length tail ≤ maxSegmentBytes)
    (hclean : ∀ u ∈ tail, isUnsafe u = false ∧ isNonPortable u = false)
    (hending : ∀ u ∈ tail.getLast?, isDotOrSpace u = false) : Presentable (head ++ tail) where
  ne := append_ne_nil_of_left_ne_nil hhead.ne tail
  bytes := (utf8Length_append_le head tail).trans hbytes
  clean := by
    intro u hu
    rcases mem_append.1 hu with hu | hu
    · exact hhead.clean u hu
    · exact hclean u hu
  ending := by
    intro u hu
    rw [getLast?_append] at hu
    cases htail : tail.getLast? with
    | none =>
      rw [htail] at hu
      exact hhead.ending u hu
    | some v =>
      rw [htail] at hu
      obtain rfl : v = u := Option.some.inj hu
      exact hending v htail

theorem mem_underscored {p : UInt16 → Bool} {u : UInt16} (h : u ∈ underscored p s) :
    u = underscore ∨ u ∈ s ∧ p u = false := by
  obtain ⟨v, hv, rfl⟩ := mem_map.1 h
  split_ifs with hp
  · exact Or.inl rfl
  · exact Or.inr ⟨hv, Bool.eq_false_iff.2 hp⟩

section Segments

variable {fallback : Utf16} (hfallback : IsFallback fallback)
include hfallback

theorem fitSegment_presentable {stem tail : Utf16} (hstem : stem ≠ [])
    (htail : utf8Length tail + 8 ≤ maxSegmentBytes)
    (hclean : ∀ u ∈ stem ++ tail, isUnsafe u = false ∧ isNonPortable u = false)
    (hending : ∀ u ∈ (stem ++ tail).getLast?, isDotOrSpace u = false) :
    Presentable (fitSegment stem tail fallback) := by
  obtain ⟨hname, hshort⟩ := fallback_presentable hfallback
  have hcleanTail : ∀ u ∈ tail, isUnsafe u = false ∧ isNonPortable u = false :=
    fun u hu => hclean u (mem_append_right _ hu)
  have hendingTail : ∀ u ∈ tail.getLast?, isDotOrSpace u = false := by
    intro u hu
    apply hending u
    rw [getLast?_append, Option.mem_def.1 hu]
    rfl
  have hcut := cutToBytes_bytes stem (maxSegmentBytes - utf8Length tail)
  unfold fitSegment
  dsimp only
  split_ifs with hwhole htrimmed
  · rw [hwhole] at hcut
    have happend := utf8Length_append_le stem tail
    exact ⟨append_ne_nil_of_left_ne_nil hstem tail, by omega, hclean, hending⟩
  · exact hname.append (by omega) hcleanTail hendingTail
  · have htrim := prefix_dropTrailing isDotOrSpace
      (cutToBytes stem (maxSegmentBytes - utf8Length tail))
    have hbytes := utf8Length_prefix htrim
    have hhead : Presentable (dropTrailing isDotOrSpace
        (cutToBytes stem (maxSegmentBytes - utf8Length tail))) := by
      refine ⟨htrimmed, by omega, fun u hu => ?_, getLast?_dropTrailing _⟩
      exact hclean u (mem_append_left _ ((htrim.trans (prefix_cutToBytes _ _)).subset hu))
    exact hhead.append (by omega) hcleanTail hendingTail

omit hfallback in
theorem not_isDotLikeOnly_cons {u : UInt16} (hu : u ≠ dot ∧ u ≠ 0x2024 ∧ u ≠ 0xFF0E) (s : Utf16) :
    isDotLikeOnly (u :: s) = false := by
  apply decide_eq_false
  intro hall
  have hfirst := all_eq_true.1 hall.2 u mem_cons_self
  rw [decide_eq_true_eq] at hfirst
  rcases hfirst with h | h | h
  · exact hu.1 h
  · exact hu.2.1 h
  · exact hu.2.2 h

/-- The underscore is kept by every cut, so that a name with it is never all dots. -/
theorem settle_dots (segment : Utf16) : isDotLikeOnly (settle segment fallback) = false := by
  have hfallbackDots : ∀ rest, isDotLikeOnly (fallback ++ rest) = false := by
    intro rest
    rcases hfallback with rfl | rfl
    all_goals exact not_isDotLikeOnly_cons (by decide) _
  unfold settle
  split_ifs with hdots hdevice
  · rw [← append_nil fallback]
    exact hfallbackDots []
  · obtain ⟨head, heq, hhead, hheadne⟩ := fitSegment_spec
      (splitForArchive (underscore :: segment)).1 (splitForArchive (underscore :: segment)).2 fallback
    show isDotLikeOnly (fitSegment (splitForArchive (underscore :: segment)).1
      (splitForArchive (underscore :: segment)).2 fallback) = false
    rw [heq]
    rcases hhead with hstart | rfl
    · cases head with
      | nil =>
        exact absurd rfl (hheadne (splitForArchive_ne_nil (cons_ne_nil _ _))
          (fallback_safe hfallback).ne)
      | cons u head =>
        rw [(cons_prefix_cons.1 (hstart.trans (prefix_splitForArchive _))).1]
        exact not_isDotLikeOnly_cons (by decide) _
    · exact hfallbackDots _
  · exact Bool.eq_false_iff.2 hdots

omit hfallback in
theorem suffix_short (segment : Utf16) :
    utf8Length (splitForArchive segment).2 + 8 ≤ maxSegmentBytes := by
  have hbytes := utf8Length_le (splitForArchive segment).2
  have hlength := length_suffix_le segment
  unfold maxDocumentExtLength at hlength
  unfold maxSegmentBytes
  omega

/-- A name that is presentable is made portable by the two rules that look at it as a whole. -/
theorem settle_portable {segment : Utf16} (h : Presentable segment) :
    Portable (settle segment fallback) := by
  have hslash : slash ∉ segment := fun hmem => absurd (h.clean slash hmem).1 (by decide)
  have hsafe := settle_safe hfallback h.ne hslash
  have hdevice : ¬ NamesDevice (settle segment fallback) := by
    rw [← isReservedDeviceName_iff_names, hsafe.device]
    decide
  refine ⟨?_, settle_dots hfallback segment, hdevice⟩
  · unfold settle
    split_ifs with hdots hname
    · exact (fallback_presentable hfallback).1
    · -- the underscore is one more byte, which a second cut makes room for
      have hsplit := splitForArchive_append (underscore :: segment)
      apply fitSegment_presentable hfallback (splitForArchive_ne_nil (cons_ne_nil _ _))
        (suffix_short _)
      · rw [hsplit]
        intro u hu
        rcases mem_cons.1 hu with rfl | hu
        · exact ⟨rfl, rfl⟩
        · exact h.clean u hu
      · rw [hsplit, getLast?_cons_of_ne_nil h.ne]
        exact h.ending
    · exact h

theorem fallback_portable : Portable fallback := by
  have hdevice : ¬ NamesDevice fallback := by
    rw [← isReservedDeviceName_iff_names, (fallback_safe hfallback).device]
    decide
  refine ⟨(fallback_presentable hfallback).1, ?_, hdevice⟩
  rcases hfallback with rfl | rfl
  · decide
  · decide

theorem archiveSegment_isPortable (unicode : Unicode) (name : Utf16) :
    Portable (archiveSegment unicode name fallback) := by
  unfold archiveSegment
  dsimp only
  generalize hstripped : stripUnsafeFilenameCharacters (replaceLone (unicode.normalize name)) = stripped
  have hclean : ∀ u ∈ underscored isNonPortable stripped,
      isUnsafe u = false ∧ isNonPortable u = false := by
    intro u hu
    have hmade := mem_underscored hu
    rcases hmade with rfl | ⟨hmem, hportable⟩
    · exact ⟨rfl, rfl⟩
    · rw [← hstripped] at hmem
      have htrim := trim_subset _ ((prefix_dropTrailing _ _).subset hmem)
      rcases mem_underscored htrim with rfl | ⟨-, hsafe⟩
      · exact ⟨rfl, rfl⟩
      · exact ⟨hsafe, hportable⟩
  have hending : ∀ u ∈ (underscored isNonPortable stripped).getLast?, isDotOrSpace u = false := by
    intro u hu
    unfold underscored at hu
    rw [getLast?_map] at hu
    obtain ⟨v, hv, rfl⟩ := Option.map_eq_some_iff.1 hu
    rw [← hstripped] at hv
    split_ifs
    · rfl
    · exact getLast?_dropTrailing _ v hv
  split_ifs with hnil
  · exact fallback_portable hfallback
  · have hsplit := splitForArchive_append (underscored isNonPortable stripped)
    have hfit : Presentable (fitSegment (splitForArchive (underscored isNonPortable stripped)).1
        (splitForArchive (underscored isNonPortable stripped)).2 fallback) := by
      apply fitSegment_presentable hfallback (splitForArchive_ne_nil hnil) (suffix_short _)
      · rw [hsplit]
        exact hclean
      · rw [hsplit]
        exact hending
    exact settle_portable hfallback hfit

end Segments

/-! ## Counters -/

theorem length_decimal_le {n k : ℕ} (hk : 0 < k) (h : n < 10 ^ k) : (decimal n).length ≤ k := by
  unfold decimal
  split_ifs
  · exact hk
  · rw [length_map, length_reverse, Nat.digits_length_le_iff (by decide)]
    exact h

theorem counterTail_clean (counter : ℕ) :
    ∀ u ∈ counterTail counter, isUnsafe u = false ∧ isNonPortable u = false := by
  intro u hu
  unfold counterTail at hu
  rw [mem_cons, mem_cons, mem_append, mem_singleton] at hu
  rcases hu with rfl | rfl | hu | rfl
  · exact ⟨rfl, rfl⟩
  · exact ⟨rfl, rfl⟩
  · have hdigit := all_eq_true.1 (decimal_digits counter) u hu
    have hdigit := of_decide_eq_true hdigit
    have hnat : u = .ofNat u.toNat := UInt16.ofNat_toNat.symm
    generalize u.toNat = n at hdigit hnat
    obtain ⟨hlow, hhigh⟩ := hdigit
    subst hnat
    interval_cases n <;> exact ⟨rfl, rfl⟩
  · exact ⟨rfl, rfl⟩

/-- A number that `String` writes in digits alone takes no more room than the longest name leaves. -/
theorem tail_short {counter : ℕ} (h : counter < 10 ^ 21) (segment : Utf16) :
    utf8Length (counterTail counter ++ (splitForArchive segment).2) + 8 ≤ maxSegmentBytes := by
  have hbytes := utf8Length_le (counterTail counter ++ (splitForArchive segment).2)
  have hsuffix := length_suffix_le segment
  have hdigits := length_decimal_le (by decide) h
  have hlength : (counterTail counter).length = (decimal counter).length + 3 := by
    unfold counterTail
    rw [length_cons, length_cons, length_append, length_singleton]
  rw [length_append] at hbytes
  unfold maxDocumentExtLength at hsuffix
  unfold maxSegmentBytes
  omega

variable {segment : Utf16}

theorem Portable.numbered (h : Portable segment) (hfallback : IsFallback fallback) {counter : ℕ}
    (hcounter : counter < 10 ^ 21) :
    Portable (numbered segment counter fallback) := by
  have hsplit := splitForArchive_append segment
  have hclean := h.clean
  have hending := h.ending
  rw [← hsplit] at hclean hending
  apply settle_portable hfallback
  apply fitSegment_presentable hfallback (splitForArchive_ne_nil h.ne) (tail_short hcounter segment)
  · intro u hu
    rw [mem_append, mem_append] at hu
    rcases hu with hu | hu | hu
    · exact hclean u (mem_append_left _ hu)
    · exact counterTail_clean counter u hu
    · exact hclean u (mem_append_right _ hu)
  · -- the extension ends the name as before, and where there is none a bracket does
    intro u hu
    rw [← append_assoc, getLast?_append] at hu
    rw [getLast?_append] at hending
    cases hsuffix : (splitForArchive segment).2.getLast? with
    | none =>
      rw [hsuffix, Option.none_or, getLast?_append] at hu
      unfold counterTail at hu
      rw [getLast?_cons_of_ne_nil (cons_ne_nil _ _),
        getLast?_cons_of_ne_nil (by simp), getLast?_concat] at hu
      cases hu
      rfl
    | some v =>
      rw [hsuffix] at hu hending
      obtain rfl : v = u := Option.some.inj hu
      exact hending v rfl

theorem Portable.safe (h : Portable segment) : Safe segment where
  ne := h.ne
  slash := fun hmem => absurd (h.clean slash hmem).1 (by decide)
  device := by
    rw [Bool.eq_false_iff, Ne, isReservedDeviceName_iff_names]
    exact h.device

theorem numbered_injective (h : Safe segment) (hfallback : IsFallback fallback) :
    Function.Injective fun counter => numbered segment counter fallback := by
  intro n m heq
  obtain ⟨before, hbefore, -⟩ := numbered_spec h hfallback n
  obtain ⟨before', hbefore', -⟩ := numbered_spec h hfallback m
  have heq : numbered segment n fallback = numbered segment m fallback := heq
  rw [hbefore, hbefore'] at heq
  have hspace : ∀ (start : Utf16) (k : ℕ),
      start ++ space :: 0x28 :: (decimal k ++ 0x29 :: (splitForArchive segment).2) =
        (start ++ [space]) ++ 0x28 :: decimal k ++ 0x29 :: (splitForArchive segment).2 := by
    intro start k
    simp only [append_assoc, cons_append, nil_append]
  rw [hspace, hspace] at heq
  have hdecimal := (PathTree.append_sep_inj (not_mem_decimal (by decide) n)
    (not_mem_decimal (by decide) m) (append_cancel_right heq)).2
  exact decimal_injective hdecimal

/-- **Every name in an archive is one that any system can hold.** A number that is put in keeps it
one, and different numbers make different names. -/
theorem archiveSegment_portable (unicode : Unicode) {fallback : Utf16} (hfallback : IsFallback fallback) :
    (∀ name, Portable (archiveSegment unicode name fallback)) ∧
      ∀ segment, Portable segment →
        (∀ counter < 10 ^ 21, Portable (numbered segment counter fallback)) ∧
        Function.Injective fun counter => numbered segment counter fallback :=
  ⟨archiveSegment_isPortable hfallback unicode, fun _ h =>
    ⟨fun _ hcounter => h.numbered hfallback hcounter, numbered_injective h.safe hfallback⟩⟩

theorem archiveSegment_portable_sample :
    Portable (archiveSegment ascii (units "CON .txt") fallbackDocumentSegment) ∧
      Portable (numbered (archiveSegment ascii (units "CON .txt") fallbackDocumentSegment) 2
        fallbackDocumentSegment) ∧
      numbered (archiveSegment ascii (units "CON .txt") fallbackDocumentSegment) 2
          fallbackDocumentSegment ≠
        numbered (archiveSegment ascii (units "CON .txt") fallbackDocumentSegment) 3
          fallbackDocumentSegment := by
  obtain ⟨hnames, hnumbers⟩ := archiveSegment_portable ascii (Or.inl rfl)
  obtain ⟨hkept, hapart⟩ := hnumbers _ (hnames (units "CON .txt"))
  refine ⟨hnames _, hkept 2 (by norm_num), fun heq => ?_⟩
  exact absurd (hapart heq) (by decide)

end HVault.Archive
