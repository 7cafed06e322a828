import HVault.Json.StringArray
import HVault.Vault.BackupCodes
import Mathlib.Data.List.TakeWhile

/-!
# A list of backup codes is read as JSON reads it

A JSON array of strings is read as its strings, as far as there may be codes. The literal that is one
too many is read before it is counted, so the issue names it (`segmentArray_matches`).
-/

namespace HVault.BackupCodes

open Json List

/-- The items are the first `max` strings, and the one issue is the string behind them. -/
structure Segmentation.Matches (seg : Segmentation) (max : ℕ) (strings : List Utf16) : Prop where
  items : seg.items.map (·.value) = strings.take max
  issues : strings.length ≤ max → seg.issues = []
  tooMany : max < strings.length →
    ∃ item, strings[max]? = some item.value ∧ seg.issues = [tooManyCodesIssue item max]

/-! ## A string -/

variable {t s : Utf16} {start itemNumber i : ℕ}

theorem readEscape_escape {c u : UInt16} (h : (c, u) ∈ escapes) (rest : Utf16) :
    readEscape i itemNumber (c :: rest) = .ok ([u], 1) := by
  simp only [escapes, mem_cons, Prod.mk.injEq, not_mem_nil, or_false] at h
  rcases h with ⟨rfl, rfl⟩ | ⟨rfl, rfl⟩ | ⟨rfl, rfl⟩ | ⟨rfl, rfl⟩ | ⟨rfl, rfl⟩ | ⟨rfl, rfl⟩ |
    ⟨rfl, rfl⟩ | ⟨rfl, rfl⟩
  all_goals rfl

theorem readEscape_byNumber {a b c d : UInt16} {j k l m : ℕ} (ha : UriText.hexValue a = some j)
    (hb : UriText.hexValue b = some k) (hc : UriText.hexValue c = some l)
    (hd : UriText.hexValue d = some m) (rest : Utf16) :
    readEscape i itemNumber (0x75 :: a :: b :: c :: d :: rest) =
      .ok ([.ofNat (0x1000 * j + 0x100 * k + 0x10 * l + m)], 5) := by
  have hbrace : a ≠ openBrace := by
    intro heq
    subst heq
    cases ha
  have hnumber : parseHex [a, b, c, d] = some (0x1000 * j + 0x100 * k + 0x10 * l + m) := by
    unfold parseHex
    simp only [mapM_cons, mapM_nil, ha, hb, hc, hd, Option.bind_eq_bind, Option.bind_some,
      Option.pure_def, Option.map_some, foldl_cons, foldl_nil, Option.some.injEq]
    omega
  rw [readEscape, if_neg (by decide), if_neg (by decide), if_neg (by decide), if_neg (by decide),
    if_neg (by decide), if_neg (by decide), if_neg (by decide), if_neg (by decide),
    if_neg (by simp), if_neg (by decide), if_neg (by decide), if_pos rfl]
  simp [hbrace, hnumber]

theorem readLiteralFrom_skip (taken rest : Utf16) (i : ℕ) (out : Utf16) :
    readLiteralFrom doubleQuote start itemNumber taken.length i out (taken ++ rest) =
      readLiteralFrom doubleQuote start itemNumber 0 (i + taken.length) out rest := by
  induction taken generalizing i with
  | nil => rfl
  | cons u taken ih =>
    rw [length_cons, cons_append, readLiteralFrom, ih]
    congr 1
    omega

theorem readLiteralFrom_escape (taken : Utf16) {text rest out : Utf16}
    (h : readEscape i itemNumber (taken ++ rest) = .ok (text, taken.length)) :
    readLiteralFrom doubleQuote start itemNumber 0 i out (backslashUnit :: (taken ++ rest)) =
      readLiteralFrom doubleQuote start itemNumber 0 (i + 1 + taken.length) (out ++ text) rest := by
  rw [readLiteralFrom, if_neg (by decide), if_pos rfl, h]
  exact readLiteralFrom_skip ..

theorem readLiteralFrom_body (h : StringBody t s) (start itemNumber i : ℕ) (out rest : Utf16) :
    readLiteralFrom doubleQuote start itemNumber 0 i out (t ++ doubleQuote :: rest) =
      .ok ⟨out ++ s, i + t.length + 1⟩ := by
  induction h generalizing i out with
  | nil =>
    rw [nil_append, readLiteralFrom, if_pos rfl, append_nil]
    rfl
  | @plain u t s hu _ ih =>
    obtain ⟨hmin, hplain⟩ := of_decide_eq_true hu
    have hquote : u ≠ doubleQuote := hplain.1
    have hbackslash : u ≠ backslashUnit := hplain.2
    have hbreak : isLineBreak u = false := by
      refine decide_eq_false fun heq => ?_
      rcases heq with rfl | rfl
      all_goals revert hmin; decide
    rw [cons_append, readLiteralFrom, if_neg hquote, if_neg hbackslash, if_neg (by simp [hbreak]),
      if_neg (by simp [doubleQuote, backtick]), ih, append_assoc, length_cons]
    have hlength : i + 1 + t.length + 1 = i + (t.length + 1) + 1 := by omega
    rw [hlength]
    rfl
  | @escape c u t s hc _ ih =>
    have hlength : i + 1 + 1 + t.length + 1 = i + (t.length + 1 + 1) + 1 := by omega
    show readLiteralFrom doubleQuote start itemNumber 0 i out
      (backslashUnit :: ([c] ++ (t ++ doubleQuote :: rest))) = _
    rw [readLiteralFrom_escape [c] (readEscape_escape hc _), length_singleton, ih, append_assoc,
      hlength]
    rfl
  | @byNumber a b c d _ _ _ _ t s ha hb hc hd _ ih =>
    have hlength : i + 1 + 5 + t.length + 1 = i + (t.length + 1 + 1 + 1 + 1 + 1 + 1) + 1 := by omega
    show readLiteralFrom doubleQuote start itemNumber 0 i out
      (backslashUnit :: ([0x75, a, b, c, d] ++ (t ++ doubleQuote :: rest))) = _
    rw [readLiteralFrom_escape [0x75, a, b, c, d] (readEscape_byNumber ha hb hc hd _)]
    show readLiteralFrom doubleQuote start itemNumber 0 (i + 1 + 5) _ _ = _
    rw [ih, append_assoc, hlength]
    rfl

/-! ## A list -/

variable {max : ℕ} {items : List ParsedItem}

theorem isWhitespace_of_isBlank {u : UInt16} (h : isBlank u) : isWhitespace u := by
  rcases of_decide_eq_true h with rfl | rfl | rfl | rfl
  all_goals rfl

theorem arrayFrom_blank {blank : Utf16} (h : blank.all isBlank) (expect held : Bool) (pos : ℕ)
    (rest : Utf16) : arrayFrom max items expect held pos (blank ++ rest) =
      arrayFrom max items expect held (pos + blank.length) rest := by
  induction blank generalizing pos with
  | nil => rfl
  | cons u blank ih =>
    rw [all_cons, Bool.and_eq_true] at h
    have hlength : pos + 1 + blank.length = pos + (blank.length + 1) := by omega
    rw [cons_append, arrayFrom, if_pos (isWhitespace_of_isBlank h.1), ih h.2, hlength, length_cons]

theorem arrayFrom_string (h : StringBody t s) (max : ℕ) (items : List ParsedItem) (held : Bool)
    (pos : ℕ) (rest : Utf16) :
    ∃ item held' pos', item.value = s ∧
      arrayFrom max items true held pos (doubleQuote :: (t ++ doubleQuote :: rest)) =
        if max ≤ items.length then ⟨items, [tooManyCodesIssue item max]⟩
        else arrayFrom max (items ++ [item]) false held' pos' rest := by
  refine ⟨⟨s, pos, pos + 1 + t.length + 1 - pos, false, items.length + 1⟩,
    s.contains commaUnit || s.any isWhitespace, pos + 1 + t.length + 1, rfl, ?_⟩
  have hread := readLiteralFrom_body h pos (items.length + 1) (pos + 1) [] rest
  rw [arrayFrom, if_neg (by decide), if_neg (by decide), if_neg (by simp), if_pos (by decide)]
  split
  · next issue herror =>
    rw [hread] at herror
    cases herror
  · next literal hok =>
    rw [hread, nil_append] at hok
    cases hok
    have hlength : pos + 1 + t.length + 1 - (pos + 1) = t.length + 1 := by omega
    have hdrop : (t ++ doubleQuote :: rest).drop (t.length + 1) = rest := by
      rw [drop_append, drop_of_length_le (Nat.le_succ _), Nat.add_sub_cancel_left]
      rfl
    simp only [hlength, hdrop]

theorem arrayFrom_end {after : Utf16} (h : after.all isBlank) (expect held : Bool) (pos : ℕ) :
    arrayFrom max items expect held pos (closeBracket :: after) = ⟨items, []⟩ := by
  have hrest : after.dropWhile isWhitespace = [] :=
    dropWhile_eq_nil_iff.2 fun u hu => isWhitespace_of_isBlank (all_eq_true.1 h u hu)
  rw [arrayFrom, if_neg (by decide), if_pos rfl, arrayEnd, hrest]
  rfl

theorem matches_all (h : items.length ≤ max) :
    Segmentation.Matches ⟨items, []⟩ max (items.map (·.value)) where
  items := by rw [take_of_length_le (by rw [length_map]; exact h)]
  issues _ := rfl
  tooMany hmore := by
    rw [length_map] at hmore
    omega

theorem matches_tooMany (h : items.length = max) (item : ParsedItem) (strings : List Utf16) :
    Segmentation.Matches ⟨items, [tooManyCodesIssue item max]⟩ max
      (items.map (·.value) ++ item.value :: strings) where
  items := by rw [take_left' (by rw [length_map]; exact h)]
  issues hmax := by
    rw [length_append, length_map, length_cons] at hmax
    omega
  tooMany _ := by
    refine ⟨item, ?_, rfl⟩
    rw [getElem?_append_right (by rw [length_map]; omega), length_map, h, Nat.sub_self]
    rfl

theorem arrayFrom_strings {inner after : Utf16} {strings : List Utf16} (h : Strings inner strings)
    (hafter : after.all isBlank) (hmax : items.length ≤ max) (held : Bool) (pos : ℕ) :
    (arrayFrom max items true held pos (inner ++ closeBracket :: after)).Matches max
      (items.map (·.value) ++ strings) := by
  induction h generalizing items held pos with
  | @last before t behind s hbefore hbody hbehind =>
    rw [append_assoc, arrayFrom_blank hbefore]
    obtain ⟨item, held', pos', rfl, hread⟩ := arrayFrom_string hbody max items held
      (pos + before.length) (behind ++ closeBracket :: after)
    rw [cons_append, append_assoc, cons_append]
    refine hread ▸ ?_
    split_ifs with hfull
    · exact matches_tooMany (by omega) item []
    · rw [arrayFrom_blank hbehind, arrayFrom_end hafter]
      have hlength : (items ++ [item]).length ≤ max := by
        rw [length_append, length_singleton]
        omega
      have hall := matches_all hlength
      rwa [map_append] at hall
  | @cons before t behind s rest strings hbefore hbody hbehind _ ih =>
    rw [append_assoc, arrayFrom_blank hbefore]
    obtain ⟨item, held', pos', rfl, hread⟩ := arrayFrom_string hbody max items held
      (pos + before.length) (behind ++ commaUnit :: (rest ++ closeBracket :: after))
    rw [cons_append, append_assoc, cons_append, append_assoc, cons_append]
    refine hread ▸ ?_
    split_ifs with hfull
    · exact matches_tooMany (by omega) item strings
    · rw [arrayFrom_blank hbehind, arrayFrom, if_neg (by decide), if_neg (by decide), if_pos rfl,
        if_pos rfl]
      have hlength : (items ++ [item]).length ≤ max := by
        rw [length_append, length_singleton]
        omega
      have hrest := ih hlength held' (pos' + behind.length + 1)
      rwa [map_append, append_assoc] at hrest

theorem segmentArray_stringArray {text : Utf16} {strings : List Utf16}
    (h : StringArray text strings) (max : ℕ) : (segmentArray text max).Matches max strings := by
  have hopen {before : Utf16} (hbefore : before.all isBlank) (rest : Utf16) : ∃ pos,
      segmentArray (before ++ openBracket :: rest) max = arrayFrom max [] true false pos rest := by
    have hskip : (before ++ openBracket :: rest).dropWhile isWhitespace = openBracket :: rest := by
      rw [dropWhile_append_of_pos fun u hu => isWhitespace_of_isBlank (all_eq_true.1 hbefore u hu)]
      exact dropWhile_cons_of_neg (by decide)
    unfold segmentArray
    simp only [hskip]
    exact ⟨_, if_pos rfl⟩
  cases h with
  | @empty before inner after hbefore hinner hafter =>
    obtain ⟨pos, hread⟩ := hopen hbefore (inner ++ closeBracket :: after)
    have hnone := matches_all (show [].length ≤ max from Nat.zero_le max)
    rw [← arrayFrom_end hafter true false (pos + inner.length), ← arrayFrom_blank hinner] at hnone
    exact hread ▸ hnone
  | @full before inner after _ hbefore hinner hafter =>
    obtain ⟨pos, hread⟩ := hopen hbefore (inner ++ closeBracket :: after)
    exact hread ▸ arrayFrom_strings hinner hafter (Nat.zero_le max) false pos

/-- **A list is read as JSON reads it**, as far as there may be codes. -/
theorem segmentArray_matches (max : ℕ) :
    (∀ text strings, StringArray text strings → (segmentArray text max).Matches max strings) ∧
      ∀ cs strings, parse cs = some (.array (strings.map .string)) →
        (segmentArray (utf16 cs) max).Matches max strings :=
  ⟨fun _ _ h => segmentArray_stringArray h max,
    fun _ _ h => segmentArray_stringArray (parse_strings h) max⟩

/-- A list of one code that is written with an escape. -/
theorem segmentArray_matches_escape :
    (segmentArray (utf16 ['[', '"', '\\', 'u', '0', '0', '4', '1', '"', ']'])
      maxLoginBackupCodes).Matches maxLoginBackupCodes [[0x41]] :=
  (segmentArray_matches maxLoginBackupCodes).2 _ [[0x41]] rfl

theorem strings_empty (n : ℕ) :
    Strings ((replicate n [doubleQuote, doubleQuote, commaUnit]).flatten ++ [doubleQuote, doubleQuote])
      (replicate (n + 1) []) := by
  induction n with
  | zero => exact @Strings.last [] [] [] [] rfl .nil rfl
  | succ n ih => exact @Strings.cons [] [] [] [] _ _ rfl .nil rfl ih

/-- A list of empty strings, of which there is one more than there may be codes. -/
theorem segmentArray_not_json : ∃ text strings, text.length ≤ maxLoginBackupCodesInputLength ∧
    StringArray text strings ∧ (segmentArray text maxLoginBackupCodes).issues ≠ [] := by
  have harray : StringArray _ (replicate (maxLoginBackupCodes + 1) []) :=
    @StringArray.full [] _ [] _ rfl (strings_empty maxLoginBackupCodes) rfl
  obtain ⟨item, -, hissues⟩ := (segmentArray_stringArray harray maxLoginBackupCodes).tooMany
    (by decide)
  exact ⟨_, _, by decide +kernel, harray, by rw [hissues]; exact cons_ne_nil _ _⟩

end HVault.BackupCodes
