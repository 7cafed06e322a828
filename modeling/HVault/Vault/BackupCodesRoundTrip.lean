import HVault.Vault.BackupCodesArray

/-!
# Backup codes are read as they were written

What a code is made of stands for nothing in any format (`isCodeUnit_plain`), so the text of codes
falls into the pieces it was joined from, one lemma for each format. Every format but `single` is
read back, and the format that is found out reads every text (`formatBackupCodes_parses`). A list in
the format `single` is not: it is written as lines, and read as one code.
-/

namespace HVault.BackupCodes

open Json DocumentCrypto UriText List

/-! ## What a code is made of -/

def isCodeUnit (u : UInt16) : Bool := isAlphanumeric u || isCodePunctuation u

/-- A code unit that is no part of the grammar of any format. -/
structure Plain (u : UInt16) : Prop where
  whitespace : isWhitespace u = false
  invisible : isInvisible u = false
  bracket : isBracket u = false
  comma : u ≠ commaUnit
  quote : isQuote u = false
  backslash : u ≠ backslashUnit

variable {u : UInt16}

theorem toNat_of_isCodeUnit (h : isCodeUnit u) :
    0x2B ≤ u.toNat ∧ u.toNat ≤ 0x7A ∧ u.toNat ≠ 0x2C ∧ u.toNat ≠ 0x5B ∧ u.toNat ≠ 0x5C ∧
      u.toNat ≠ 0x5D ∧ u.toNat ≠ 0x60 := by
  rcases (Bool.or_eq_true ..).mp h with halpha | hmark
  · have halpha := of_decide_eq_true halpha
    omega
  · rcases of_decide_eq_true hmark with rfl | rfl | rfl | rfl | rfl | rfl <;> decide

theorem isCodeUnit_plain (h : isCodeUnit u) : Plain u := by
  have hnat := toNat_of_isCodeUnit h
  -- Each mark of a grammar is told from the unit by its number.
  have hne {v : UInt16} (hv : u.toNat ≠ v.toNat) : u ≠ v := fun heq => hv (congrArg _ heq)
  constructor
  · unfold isWhitespace isTrimmed
    simp only [decide_eq_false_iff_not, not_or]
    refine ⟨by omega, hne ?_, hne ?_, hne ?_, by omega, hne ?_, hne ?_, hne ?_, hne ?_, hne ?_, hne ?_⟩
    all_goals simp only [UInt16.reduceToNat]; omega
  · unfold isInvisible
    simp only [decide_eq_false_iff_not, not_or]
    refine ⟨by omega, by omega, by omega, hne ?_, by omega, hne ?_⟩
    all_goals simp only [UInt16.reduceToNat]; omega
  · unfold isBracket
    simp only [decide_eq_false_iff_not, not_or]
    refine ⟨hne ?_, hne ?_, hne ?_, hne ?_⟩
    all_goals simp only [openBracket, closeBracket, openBrace, closeBrace, UInt16.reduceToNat]; omega
  · exact hne (by simp only [commaUnit, UInt16.reduceToNat]; omega)
  · unfold isQuote
    simp only [decide_eq_false_iff_not, not_or]
    refine ⟨hne ?_, hne ?_, hne ?_⟩
    all_goals simp only [doubleQuote, backtick, UInt16.reduceToNat]; omega
  · exact hne (by simp only [backslashUnit, UInt16.reduceToNat]; omega)

theorem Plain.lineBreak (h : Plain u) : isLineBreak u = false := by
  have hbreak {v : UInt16} (hv : isWhitespace v) : u ≠ v := by
    rintro rfl
    rw [h.whitespace] at hv
    cases hv
  unfold isLineBreak
  rw [decide_eq_false_iff_not, not_or]
  exact ⟨hbreak rfl, hbreak rfl⟩

/-- A list of code units that are part of no grammar. -/
structure IsCode (c : Utf16) : Prop where
  ne : c ≠ []
  plain : ∀ u ∈ c, Plain u

variable {c : Utf16}

theorem isValidBackupCode_spec {maxLength : ℕ} (h : isValidBackupCode c maxLength) :
    IsCode c ∧ c.length ≤ maxLength ∧ (∀ u ∈ c, isCodeUnit u) ∧ c.any isAlphanumeric := by
  obtain ⟨hne, hlength, hall, hany⟩ := of_decide_eq_true h
  have hunits : ∀ u ∈ c, isCodeUnit u := all_eq_true.mp hall
  exact ⟨⟨hne, fun u hu => isCodeUnit_plain (hunits u hu)⟩, hlength, hunits, hany⟩

/-! ## A valid code has no issue -/

theorem findChar_eq_none {value : Utf16} {test : UInt16 → Bool}
    {report : ℕ → UInt16 → BackupCodesIssue} (h : ∀ u ∈ value, test u = false) :
    findChar value test report = none := by
  unfold findChar
  rw [findIdx?_eq_none_iff.mpr h]
  rfl

theorem classifyItem_valid {item : ParsedItem} {format : BackupCodesFormat} {limits : Limits}
    (h : isValidBackupCode item.value limits.maxCodeLength) :
    classifyItem item format limits = none := by
  obtain ⟨hcode, hlength, hunits, hany⟩ := isValidBackupCode_spec h
  unfold classifyItem
  simp only
  rw [findChar_eq_none fun u hu => (hcode.plain u hu).whitespace,
    findChar_eq_none fun u hu => (hcode.plain u hu).invisible,
    findChar_eq_none fun u hu => (hcode.plain u hu).bracket,
    findChar_eq_none fun u hu => decide_eq_false (hcode.plain u hu).comma,
    findChar_eq_none fun u hu => (hcode.plain u hu).quote,
    findChar_eq_none, if_pos hany, if_pos hlength]
  · rfl
  · intro u hu
    have hunit := hunits u hu
    unfold isCodeUnit at hunit
    cases halpha : isAlphanumeric u with
    | true => rfl
    | false =>
      rw [halpha, Bool.false_or] at hunit
      rw [hunit]
      rfl

/-! ## Text without white space at its ends -/

structure Solid (s : Utf16) : Prop where
  head : ∃ u ∈ s.head?, isTrimmed u = false
  last : ∃ u ∈ s.getLast?, isTrimmed u = false

variable {s : Utf16}

theorem Solid.ne (h : Solid s) : s ≠ [] := by
  rintro rfl
  obtain ⟨u, hu, -⟩ := h.head
  cases hu

theorem dropWhile_of_head (h : ∃ u ∈ s.head?, isTrimmed u = false) : s.dropWhile isTrimmed = s := by
  obtain ⟨u, hu, hkept⟩ := h
  cases s with
  | nil => rfl
  | cons v s =>
    cases Option.some.inj hu
    exact dropWhile_cons_of_neg (by rw [hkept]; exact Bool.false_ne_true)

theorem Solid.trim (h : Solid s) : trim s = s := by
  unfold Json.trim
  rw [dropWhile_of_head h.head, dropWhile_of_head, reverse_reverse]
  rw [head?_reverse]
  exact h.last

theorem Solid.append {t : Utf16} (hs : Solid s) (between : Utf16) (ht : Solid t) :
    Solid (s ++ between ++ t) := by
  constructor
  · rw [append_assoc, head?_append_of_ne_nil _ hs.ne]
    exact hs.head
  · rw [getLast?_append_of_ne_nil _ ht.ne]
    exact ht.last

theorem IsCode.solid (h : IsCode c) : Solid c := by
  constructor
  · exact ⟨c.head h.ne, head?_eq_some_head h.ne, (h.plain _ (head_mem h.ne)).whitespace⟩
  · exact ⟨c.getLast h.ne, getLast?_eq_some_getLast h.ne,
      (h.plain _ (getLast_mem h.ne)).whitespace⟩

variable {codes : List Utf16}

theorem solid_intercalate (sep : Utf16) (hne : codes ≠ []) (h : ∀ c ∈ codes, IsCode c) :
    Solid (sep.intercalate codes) := by
  induction codes with
  | nil => exact absurd rfl hne
  | cons c codes ih =>
    have hc := (h c mem_cons_self).solid
    cases codes with
    | nil => simpa using hc
    | cons d codes =>
      rw [intercalate_cons_cons]
      exact hc.append sep (ih (cons_ne_nil _ _) fun e he => h e (mem_cons_of_mem _ he))

/-! ## Pieces become items -/

/-- The items are `codes`, and nothing is wrong with them. -/
structure Segmentation.Yields (seg : Segmentation) (codes : List Utf16) : Prop where
  issues : seg.issues = []
  values : seg.items.map (·.value) = codes

theorem parseWithFormat_yields {input : Utf16} {format : BackupCodesFormat} {limits : Limits}
    (hinput : trim input ≠ []) (hyields : (segment input format limits).Yields codes)
    (hvalid : ∀ c ∈ codes, isValidBackupCode c limits.maxCodeLength) (detected : Bool) :
    parseWithFormat input format detected limits = .ok codes format detected := by
  have hnone : (segment input format limits).items.filterMap
      (fun item => classifyItem item format limits) = [] := by
    rw [filterMap_eq_nil_iff]
    intro item hitem
    refine classifyItem_valid (hvalid _ ?_)
    rw [← hyields.values]
    exact mem_map_of_mem hitem
  unfold parseWithFormat
  simp only [if_neg hinput, hyields.issues, ne_eq, not_true_eq_false, if_false, hnone,
    insertionSort_nil, hyields.values]

variable {max : ℕ}

theorem newlineItems_yields {pieces : List (ℕ × Utf16)} (items : List ParsedItem)
    (hne : ∀ p ∈ pieces, trim p.2 ≠ []) (hmax : items.length + pieces.length ≤ max) :
    (newlineItems max items pieces).Yields
      (items.map (·.value) ++ pieces.map fun p => trim p.2) := by
  induction pieces generalizing items with
  | nil => exact ⟨rfl, by simp [newlineItems]⟩
  | cons p pieces ih =>
    obtain ⟨pos, raw⟩ := p
    rw [length_cons] at hmax
    have hpos : 0 < (trim raw).length := length_pos_of_ne_nil (hne _ mem_cons_self)
    rw [newlineItems, if_pos hpos]
    simp only [if_neg (show ¬ max ≤ items.length by omega)]
    have hrest := ih (items ++ [trimmedItem pos raw (items.length + 1)])
      (fun q hq => hne q (mem_cons_of_mem _ hq))
      (by rw [length_append, length_singleton]; omega)
    rw [map_append, append_assoc] at hrest
    exact hrest

theorem commaItems_yields (trailingComma : Bool) {pieces : List (ℕ × Utf16)}
    (items : List ParsedItem) (itemNumber : ℕ) (hne : ∀ p ∈ pieces, trim p.2 ≠ [])
    (hmax : items.length + pieces.length ≤ max) :
    (commaItems max trailingComma items [] itemNumber pieces).Yields
      (items.map (·.value) ++ pieces.map fun p => trim p.2) := by
  induction pieces generalizing items itemNumber with
  | nil => exact ⟨rfl, by simp [commaItems]⟩
  | cons p pieces ih =>
    obtain ⟨pos, raw⟩ := p
    rw [length_cons] at hmax
    have hpos : 0 < (trim raw).length := length_pos_of_ne_nil (hne _ mem_cons_self)
    rw [commaItems]
    simp only [if_neg (Nat.ne_of_gt hpos), if_neg (show ¬ max ≤ items.length by omega)]
    have hrest := ih (items ++ [trimmedItem pos raw (itemNumber + 1)]) (itemNumber + 1)
      (fun q hq => hne q (mem_cons_of_mem _ hq))
      (by rw [length_append, length_singleton]; omega)
    rw [map_append, append_assoc] at hrest
    exact hrest

theorem spaceItems_yields {words : List (ℕ × Utf16)} (items : List ParsedItem)
    (hmax : items.length + words.length ≤ max) :
    (spaceItems max items words).Yields (items.map (·.value) ++ words.map Prod.snd) := by
  induction words generalizing items with
  | nil => exact ⟨rfl, by simp [spaceItems]⟩
  | cons p words ih =>
    obtain ⟨pos, word⟩ := p
    rw [length_cons] at hmax
    rw [spaceItems]
    simp only [if_neg (show ¬ max ≤ items.length by omega)]
    have hrest := ih (items ++ [⟨word, pos, word.length, true, items.length + 1⟩])
      (by rw [length_append, length_singleton]; omega)
    rw [map_append, append_assoc] at hrest
    exact hrest

/-! ## The text of codes falls into its codes -/

theorem linesFrom_cons (h : isLineBreak u = false) (start : ℕ) (raw rest : Utf16) :
    linesFrom start raw (u :: rest) = linesFrom start (raw ++ [u]) rest := by
  have hreturn : u ≠ carriageReturn := fun heq => (of_decide_eq_false h) (.inr heq)
  cases rest with
  | nil =>
    rw [linesFrom, linesFrom, h]
    rfl
  | cons v rest =>
    rw [linesFrom, if_neg fun hpair => hreturn hpair.1, h]
    rfl

variable {piece : Utf16}

theorem linesFrom_append (h : ∀ u ∈ piece, isLineBreak u = false) (start : ℕ) (raw rest : Utf16) :
    linesFrom start raw (piece ++ rest) = linesFrom start (raw ++ piece) rest := by
  induction piece generalizing raw with
  | nil => rw [nil_append, append_nil]
  | cons u piece ih =>
    rw [cons_append, linesFrom_cons (h u mem_cons_self),
      ih (fun v hv => h v (mem_cons_of_mem _ hv)), append_assoc]
    rfl

theorem linesFrom_lineFeed (start : ℕ) (raw rest : Utf16) :
    linesFrom start raw (lineFeed :: rest) =
      (start, raw) :: linesFrom (start + raw.length + 1) [] rest := by
  cases rest with
  | nil => rfl
  | cons v rest => rfl

theorem linesFrom_intercalate (hne : codes ≠ []) (h : ∀ c ∈ codes, IsCode c) (start : ℕ) :
    (linesFrom start [] ([lineFeed].intercalate codes)).map Prod.snd = codes := by
  induction codes generalizing start with
  | nil => exact absurd rfl hne
  | cons c codes ih =>
    have hc : ∀ u ∈ c, isLineBreak u = false :=
      fun u hu => ((h c mem_cons_self).plain u hu).lineBreak
    cases codes with
    | nil =>
      rw [intercalate_singleton, ← append_nil c, linesFrom_append hc]
      simp [linesFrom]
    | cons d codes =>
      rw [intercalate_cons_cons, append_assoc, linesFrom_append hc, cons_append,
        nil_append, linesFrom_lineFeed, nil_append, map_cons,
        ih (cons_ne_nil _ _) fun e he => h e (mem_cons_of_mem _ he)]

theorem commaPieces_append (h : ∀ u ∈ piece, u ≠ commaUnit) (start : ℕ) (raw rest : Utf16) :
    commaPieces start raw (piece ++ rest) = commaPieces start (raw ++ piece) rest := by
  induction piece generalizing raw with
  | nil => rw [nil_append, append_nil]
  | cons u piece ih =>
    rw [cons_append, commaPieces, if_neg (h u mem_cons_self),
      ih (fun v hv => h v (mem_cons_of_mem _ hv)), append_assoc]
    rfl

/-- White space in front of the first piece is what follows the comma before it. -/
theorem commaPieces_intercalate (hne : codes ≠ []) (h : ∀ c ∈ codes, IsCode c) (start : ℕ)
    (raw : Utf16) (hraw : ∀ u ∈ raw, isTrimmed u) :
    (commaPieces start raw ([commaUnit, spaceUnit].intercalate codes)).map (fun p => trim p.2) =
      codes := by
  have htrim {raw c : Utf16} (hraw : ∀ u ∈ raw, isTrimmed u) (hc : IsCode c) :
      trim (raw ++ c) = c := by
    unfold trim
    rw [dropWhile_append_of_pos hraw]
    exact hc.solid.trim
  induction codes generalizing start raw with
  | nil => exact absurd rfl hne
  | cons c codes ih =>
    have hcode := h c mem_cons_self
    have hc : ∀ u ∈ c, u ≠ commaUnit := fun u hu => (hcode.plain u hu).comma
    cases codes with
    | nil =>
      rw [intercalate_singleton, ← append_nil c, commaPieces_append hc, commaPieces,
        append_nil, map_singleton, htrim hraw hcode]
    | cons d codes =>
      rw [intercalate_cons_cons, append_assoc, commaPieces_append hc, cons_append,
        commaPieces, if_pos rfl, map_cons, htrim hraw hcode]
      have hspace := ih (cons_ne_nil _ _) (fun e he => h e (mem_cons_of_mem _ he))
        (start + (raw ++ c).length + 1) [spaceUnit] (by simp [spaceUnit, isTrimmed])
      have hstep : commaPieces (start + (raw ++ c).length + 1) []
          ([spaceUnit] ++ [commaUnit, spaceUnit].intercalate (d :: codes)) = _ :=
        commaPieces_append (by simp [spaceUnit, commaUnit]) _ _ _
      rw [hstep, nil_append, hspace]

theorem wordsFrom_append (h : ∀ u ∈ piece, isWhitespace u = false) (start : ℕ) (raw rest : Utf16) :
    wordsFrom start raw (piece ++ rest) = wordsFrom start (raw ++ piece) rest := by
  induction piece generalizing raw with
  | nil => rw [nil_append, append_nil]
  | cons u piece ih =>
    rw [cons_append, wordsFrom, h u mem_cons_self, if_neg Bool.false_ne_true,
      ih (fun v hv => h v (mem_cons_of_mem _ hv)), append_assoc]
    rfl

theorem wordsFrom_intercalate (hne : codes ≠ []) (h : ∀ c ∈ codes, IsCode c) (start : ℕ) :
    (wordsFrom start [] ([spaceUnit].intercalate codes)).map Prod.snd = codes := by
  induction codes generalizing start with
  | nil => exact absurd rfl hne
  | cons c codes ih =>
    have hcode := h c mem_cons_self
    have hc : ∀ u ∈ c, isWhitespace u = false := fun u hu => (hcode.plain u hu).whitespace
    cases codes with
    | nil =>
      rw [intercalate_singleton, ← append_nil c, wordsFrom_append hc, wordsFrom,
        nil_append, append_nil, if_neg hcode.ne]
      rfl
    | cons d codes =>
      rw [intercalate_cons_cons, append_assoc, wordsFrom_append hc, cons_append,
        nil_append, nil_append, wordsFrom, if_pos (by decide), if_neg hcode.ne,
        map_cons, ih (cons_ne_nil _ _) fun e he => h e (mem_cons_of_mem _ he)]

/-! ## The text of an array -/

theorem strings_intercalate {codes : List Utf16} (hne : codes ≠ []) (before : Utf16)
    (hbefore : before.all isBlank) :
    Strings (before ++ [commaUnit, spaceUnit].intercalate (codes.map stringify)) codes := by
  induction codes generalizing before with
  | nil => exact absurd rfl hne
  | cons c codes ih =>
    obtain ⟨t, htext, hbody⟩ := stringText_body c
    have htext : stringify c = 0x22 :: (t ++ [0x22]) := htext
    cases codes with
    | nil =>
      rw [map_singleton, intercalate_singleton, htext]
      exact .last hbefore hbody rfl
    | cons d codes =>
      have hrest := ih (cons_ne_nil _ _) [spaceUnit] rfl
      rw [map_cons, map_cons, intercalate_cons_cons, htext, ← map_cons]
      simp only [cons_append, append_assoc, nil_append]
      exact @Strings.cons _ _ [] _ _ _ hbefore hbody rfl hrest

/-! ## What is written is read -/

section

variable {codes : List Utf16} {limits : Limits}

theorem values_ne {pieces : List (ℕ × Utf16)} (f : ℕ × Utf16 → Utf16) (hcode : ∀ c ∈ codes, IsCode c)
    (hvalues : pieces.map f = codes) : ∀ p ∈ pieces, f p ≠ [] := by
  intro p hp
  refine (hcode _ ?_).ne
  rw [← hvalues]
  exact mem_map_of_mem hp

theorem map_trim {pieces : List (ℕ × Utf16)} (hcode : ∀ c ∈ codes, IsCode c)
    (hvalues : pieces.map Prod.snd = codes) : pieces.map (fun p => trim p.2) = codes := by
  have hsame : ∀ c ∈ codes, trim c = c := fun c hc => (hcode c hc).solid.trim
  calc pieces.map (fun p => trim p.2) = (pieces.map Prod.snd).map trim := by
        rw [map_map]
        rfl
    _ = codes := by
        rw [hvalues, map_congr_left hsame, map_id']

theorem segmentNewline_codes (hne : codes ≠ []) (hcode : ∀ c ∈ codes, IsCode c)
    (hmax : codes.length ≤ limits.max) :
    (segmentNewline ([lineFeed].intercalate codes) limits.max).Yields codes := by
  have hvalues := map_trim hcode (linesFrom_intercalate hne hcode 0)
  have hlength := congrArg length hvalues
  rw [length_map] at hlength
  have hyields := newlineItems_yields [] (values_ne _ hcode hvalues)
    (show 0 + _ ≤ limits.max by rw [hlength]; omega)
  rw [hvalues] at hyields
  exact hyields

theorem segmentComma_codes (hne : codes ≠ []) (hcode : ∀ c ∈ codes, IsCode c)
    (hmax : codes.length ≤ limits.max) :
    (segmentComma ([commaUnit, spaceUnit].intercalate codes) limits.max).Yields codes := by
  have hvalues := commaPieces_intercalate hne hcode 0 [] nofun
  have hlength := congrArg length hvalues
  rw [length_map] at hlength
  have hyields := fun trailingComma => commaItems_yields trailingComma [] 0
    (values_ne _ hcode hvalues) (show 0 + _ ≤ limits.max by rw [hlength]; omega)
  rw [hvalues] at hyields
  exact hyields _

theorem segmentSpace_codes (hne : codes ≠ []) (hcode : ∀ c ∈ codes, IsCode c)
    (hmax : codes.length ≤ limits.max) :
    (segmentSpace ([spaceUnit].intercalate codes) limits.max).Yields codes := by
  have hvalues := wordsFrom_intercalate hne hcode 0
  have hlength := congrArg length hvalues
  rw [length_map] at hlength
  have hyields := spaceItems_yields [] (show 0 + _ ≤ limits.max by rw [hlength]; omega)
  rw [hvalues] at hyields
  exact hyields

theorem segmentArray_codes (hne : codes ≠ []) (hmax : codes.length ≤ limits.max) :
    (segmentArray (openBracket :: ([commaUnit, spaceUnit].intercalate (codes.map stringify) ++
      [closeBracket])) limits.max).Yields codes := by
  have hstrings := strings_intercalate hne [] rfl
  have harray := segmentArray_stringArray (@StringArray.full [] _ [] _ rfl hstrings rfl) limits.max
  refine ⟨harray.issues hmax, ?_⟩
  have hitems := harray.items
  rwa [take_of_length_le hmax] at hitems

theorem segmentSingle_code (hcode : IsCode c) (hmax : 1 ≤ limits.max) :
    (segmentSingle c limits.max).Yields [c] := by
  unfold segmentSingle
  simp only [if_neg (show ¬ limits.max < 1 by omega)]
  exact ⟨rfl, by rw [map_singleton, trimmedItem, hcode.solid.trim]⟩

theorem formatBackupCodes_solid (hne : codes ≠ []) (hcode : ∀ c ∈ codes, IsCode c)
    (format : BackupCodesFormat) : Solid (formatBackupCodes codes format) := by
  unfold formatBackupCodes
  rw [if_neg hne]
  cases format with
  | array =>
    constructor
    · exact ⟨openBracket, rfl, by decide⟩
    · refine ⟨closeBracket, ?_, by decide⟩
      show (openBracket :: (_ ++ [closeBracket])).getLast? = some closeBracket
      rw [← cons_append, getLast?_concat]
  | comma | space | newline | single => exact solid_intercalate _ hne hcode

variable {format : BackupCodesFormat}

/-- The text is read in the format it was written in. -/
theorem parseWithFormat_format (hne : codes ≠ [])
    (hvalid : ∀ c ∈ codes, isValidBackupCode c limits.maxCodeLength)
    (hmax : codes.length ≤ limits.max) (hsingle : format = .single → codes.length ≤ 1)
    (detected : Bool) :
    parseWithFormat (formatBackupCodes codes format) format detected limits =
      .ok codes format detected := by
  have hcode : ∀ c ∈ codes, IsCode c := fun c hc => (isValidBackupCode_spec (hvalid c hc)).1
  have hsolid := formatBackupCodes_solid hne hcode format
  refine parseWithFormat_yields (by rw [hsolid.trim]; exact hsolid.ne) ?_ hvalid detected
  unfold formatBackupCodes
  rw [if_neg hne]
  cases format with
  | array => exact segmentArray_codes hne hmax
  | comma => exact segmentComma_codes hne hcode hmax
  | space => exact segmentSpace_codes hne hcode hmax
  | newline => exact segmentNewline_codes hne hcode hmax
  | single =>
    have hpos := length_pos_of_ne_nil hne
    obtain ⟨c, rfl⟩ := length_eq_one_iff.mp (Nat.le_antisymm (hsingle rfl) hpos)
    show (segmentSingle ([lineFeed].intercalate [c]) limits.max).Yields [c]
    rw [intercalate_singleton]
    exact segmentSingle_code (hcode c mem_cons_self) (hpos.trans_le hmax)

/-- A text in the format `single` is read as one code at most. -/
theorem parseWithFormat_single {input : Utf16} {detected detected' : Bool}
    (h : parseWithFormat input .single detected limits = .ok codes format detected') :
    codes.length ≤ 1 := by
  have hitems : (segmentSingle input limits.max).items.length ≤ 1 := by
    unfold segmentSingle
    simp only
    split_ifs
    · exact Nat.zero_le 1
    · exact le_rfl
  unfold parseWithFormat at h
  simp only at h
  split_ifs at h
  · cases h
    exact Nat.zero_le 1
  all_goals
    split at h
    · cases h
    · cases h
      rw [length_map]
      exact hitems

/-! ## The format that is found out -/

variable {p : UInt16 → Bool}

theorem any_intercalate_false {sep : Utf16} (hsep : sep.any p = false)
    (h : ∀ c ∈ codes, c.any p = false) : (sep.intercalate codes).any p = false := by
  induction codes with
  | nil => rfl
  | cons c codes ih =>
    have hc := h c mem_cons_self
    cases codes with
    | nil => rwa [intercalate_singleton]
    | cons d codes =>
      rw [intercalate_cons_cons, any_append, any_append, hc, hsep,
        ih fun e he => h e (mem_cons_of_mem _ he)]
      rfl

theorem any_intercalate_true {sep : Utf16} (hsep : sep.any p) (h : 2 ≤ codes.length) :
    (sep.intercalate codes).any p := by
  match codes, h with
  | c :: d :: codes, _ =>
    rw [intercalate_cons_cons, any_append, any_append, hsep, Bool.or_true,
      Bool.true_or]

theorem any_code (hcode : IsCode c) (h : ∀ u, Plain u → p u = false) : c.any p = false := by
  rw [any_eq_false]
  intro u hu
  rw [h u (hcode.plain u hu)]
  exact Bool.false_ne_true

theorem detectFormats_first (hcode : ∀ c ∈ codes, IsCode c) (hcount : 2 ≤ codes.length) :
    (detectFormats ([commaUnit, spaceUnit].intercalate codes)).1 = .comma ∧
      (detectFormats ([spaceUnit].intercalate codes)).1 = .space ∧
        (detectFormats ([lineFeed].intercalate codes)).1 = .newline := by
  have hbreak (sep : Utf16) (hsep : sep.any isLineBreak = false) :
      (sep.intercalate codes).any isLineBreak = false :=
    any_intercalate_false hsep fun c hc => any_code (hcode c hc) fun u hu => hu.lineBreak
  have hcomma : ([spaceUnit].intercalate codes).any (· = commaUnit) = false :=
    any_intercalate_false (by decide) fun c hc =>
      any_code (hcode c hc) fun u hu => decide_eq_false hu.comma
  unfold detectFormats
  refine ⟨?_, ?_, ?_⟩
  · simp only [hbreak [commaUnit, spaceUnit] (by decide), Bool.false_eq_true, if_false]
    rw [if_pos (any_intercalate_true (by decide) hcount)]
  · simp only [hbreak [spaceUnit] (by decide), hcomma, Bool.false_eq_true, if_false]
    rw [if_pos (any_intercalate_true (by decide) hcount)]
  · rw [if_pos (any_intercalate_true (by decide) hcount)]

theorem detectFormats_code (hcode : IsCode c) : detectFormats c = (.single, []) := by
  have hspace : c.any (fun u => isWhitespace u && !isLineBreak u) = false :=
    any_code hcode fun u hu => by rw [hu.whitespace, Bool.false_and]
  unfold detectFormats
  simp only [any_code hcode fun u hu => hu.lineBreak,
    any_code hcode fun u hu => decide_eq_false hu.comma, hspace, Bool.false_eq_true, if_false]

theorem head?_intercalate {sep : Utf16} (hne : codes ≠ []) (hcode : ∀ c ∈ codes, IsCode c) :
    (sep.intercalate codes).head? ≠ some openBracket := by
  have hhead {c : Utf16} (hc : IsCode c) : c.head? ≠ some openBracket := by
    intro heq
    have hbracket := (hc.plain _ (mem_of_mem_head? heq)).bracket
    cases hbracket
  match codes, hne with
  | [c], _ =>
    rw [intercalate_singleton]
    exact hhead (hcode c mem_cons_self)
  | c :: d :: codes, _ =>
    have hc := hcode c mem_cons_self
    rw [intercalate_cons_cons, append_assoc, head?_append_of_ne_nil _ hc.ne]
    exact hhead hc

/-- Every text but that of an array is also the text in the format that is found. -/
theorem detected_format (hne : codes ≠ []) (hcode : ∀ c ∈ codes, IsCode c)
    (harray : format ≠ .array) :
    ∃ found, (detectFormats (formatBackupCodes codes format)).1 = found ∧
      formatBackupCodes codes found = formatBackupCodes codes format ∧
        (found = .single → codes.length ≤ 1) ∧
          (formatBackupCodes codes format).head? ≠ some openBracket := by
  have hhead (sep : Utf16) : (sep.intercalate codes).head? ≠ some openBracket :=
    head?_intercalate hne hcode
  by_cases hcount : 2 ≤ codes.length
  · obtain ⟨hcomma, hspace, hnewline⟩ := detectFormats_first hcode hcount
    unfold formatBackupCodes
    simp only [if_neg hne]
    cases format with
    | array => exact absurd rfl harray
    | comma => exact ⟨.comma, hcomma, rfl, nofun, hhead _⟩
    | space => exact ⟨.space, hspace, rfl, nofun, hhead _⟩
    | newline | single => exact ⟨.newline, hnewline, rfl, nofun, hhead _⟩
  · have hpos := length_pos_of_ne_nil hne
    obtain ⟨c, rfl⟩ := length_eq_one_iff.mp (show codes.length = 1 by omega)
    have hsame {g : BackupCodesFormat} (hg : g ≠ .array) : formatBackupCodes [c] g = c := by
      unfold formatBackupCodes
      rw [if_neg hne]
      cases g with
      | array => exact absurd rfl hg
      | comma | space | newline | single => exact intercalate_singleton
    have hhead := hhead []
    rw [intercalate_singleton] at hhead
    rw [hsame harray, detectFormats_code (hcode c mem_cons_self)]
    exact ⟨.single, rfl, hsame nofun, fun _ => le_rfl, hhead⟩

/-- The first format that may be meant is the one that is tried, when it reads the text. -/
theorem parseBackupCodes_first {input : Utf16} {options : ParseBackupCodesOptions}
    (hformat : options.format.getD .auto = .auto)
    (hinput : input.length ≤ options.limits.maxInputLength) (hsolid : Solid input)
    (hfirst : if input.head? = some openBracket then format = .array
      else (detectFormats input).1 = format)
    (hparse : parseWithFormat input format true options.limits = .ok codes format true) :
    parseBackupCodes input options = .ok codes format true := by
  unfold parseBackupCodes
  simp only [hformat, if_neg (show ¬ options.limits.maxInputLength < input.length by
    omega), hsolid.trim, if_neg hsolid.ne]
  split_ifs at hfirst ⊢ with hbracket
  · rw [← hfirst, hparse]
  · rw [hfirst, map_cons, hparse, find?_cons_of_pos rfl]
    rfl

end

/-- Codes are read back in the format they were written in, a list in the format `single` apart, and
in every format where the format is to be found out. -/
theorem formatBackupCodes_parses {codes : List Utf16} {format : BackupCodesFormat}
    {options : ParseBackupCodesOptions}
    (hvalid : ∀ c ∈ codes, isValidBackupCode c options.limits.maxCodeLength)
    (hcount : codes.length ≤ options.limits.max)
    (hinput : (formatBackupCodes codes format).length ≤ options.limits.maxInputLength) :
    (parseBackupCodes (formatBackupCodes codes format)
        { options with format := some (.declared format) } = .ok codes format false ↔
      (format = .single → codes.length ≤ 1)) ∧
      ∀ requested : Option BackupCodesInputFormat, requested.getD .auto = .auto →
        ∃ found, parseBackupCodes (formatBackupCodes codes format)
          { options with format := requested } = .ok codes found true := by
  have hshort : ¬ options.limits.maxInputLength < (formatBackupCodes codes format).length := by omega
  have hdeclared : parseBackupCodes (formatBackupCodes codes format)
      { options with format := some (.declared format) } =
        parseWithFormat (formatBackupCodes codes format) format false options.limits :=
    if_neg hshort
  rw [hdeclared]
  by_cases hne : codes = []
  · subst hne
    refine ⟨iff_of_true ?_ fun _ => Nat.zero_le 1, fun requested hauto => ⟨.single, ?_⟩⟩
    · rfl
    · unfold parseBackupCodes
      simp only [hauto]
      exact if_neg (Nat.not_lt_zero _)
  have hcode : ∀ c ∈ codes, IsCode c := fun c hc => (isValidBackupCode_spec (hvalid c hc)).1
  have hread (g : BackupCodesFormat) (hsingle : g = .single → codes.length ≤ 1) (detected : Bool) :
      parseWithFormat (formatBackupCodes codes g) g detected options.limits =
        .ok codes g detected :=
    parseWithFormat_format hne hvalid hcount hsingle detected
  constructor
  · constructor
    · rintro hok rfl
      exact parseWithFormat_single hok
    · exact fun hsingle => hread format hsingle false
  intro requested hauto
  have hsolid := formatBackupCodes_solid hne hcode format
  by_cases harray : format = .array
  · subst harray
    have hbracket : (formatBackupCodes codes .array).head? = some openBracket := by
      unfold formatBackupCodes
      rw [if_neg hne]
      rfl
    exact ⟨.array, parseBackupCodes_first hauto hinput hsolid (by rw [if_pos hbracket]) (hread .array nofun true)⟩
  · obtain ⟨found, hfound, htext, hsingle, hhead⟩ := detected_format hne hcode harray
    have hparse := hread found hsingle true
    rw [htext] at hparse
    exact ⟨found, parseBackupCodes_first hauto hinput hsolid (by rw [if_neg hhead, hfound]) hparse⟩

def sampleCodes : List Utf16 := [Json.units "abcde-12345", Json.units "c3=="]

theorem formatBackupCodes_parses_sample :
    parseBackupCodes (formatBackupCodes sampleCodes .array) { format := some (.declared .array) } =
        .ok sampleCodes .array false ∧
      ∃ found, parseBackupCodes (formatBackupCodes sampleCodes .array) {} =
        .ok sampleCodes found true := by
  obtain ⟨hdeclared, hfound⟩ :=
    @formatBackupCodes_parses sampleCodes .array {} (by decide) (by decide) (by decide)
  exact ⟨hdeclared.mpr nofun, hfound none rfl⟩

/-- A list in the format `single` is read as one code. -/
theorem formatBackupCodes_single_list :
    ¬ ∀ (codes : List Utf16) (format : BackupCodesFormat) (options : ParseBackupCodesOptions),
      codes.Nodup → (∀ c ∈ codes, isValidBackupCode c options.limits.maxCodeLength) →
        codes.length ≤ options.limits.max →
          (formatBackupCodes codes format).length ≤ options.limits.maxInputLength →
            parseBackupCodes (formatBackupCodes codes format)
              { options with format := some (.declared format) } = .ok codes format false := by
  intro h
  exact absurd (h [[0x61], [0x62]] .single {} (by decide) (by decide) (by decide) (by decide))
    (by decide)

end HVault.BackupCodes
