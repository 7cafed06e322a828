import HVault.Vault.BackupCodesRoundTrip

/-!
# What backup-code issues point at

Every segmenter walks over the input once, so what it tells of lies between the places it has
passed (`segment_inside`), and what is wrong with an item lies in the item's own span
(`classifyItem_inside`). A text that is read gives valid codes only, and one that is not gives
issues in the order of their places (`parseBackupCodes_sound`).
-/

namespace HVault.BackupCodes

open Json DocumentCrypto UriText List Nat

/-! ## Spans -/

/-- The issue marks a part of a text of `n` code units. -/
def BackupCodesIssue.Inside (n : ℕ) (issue : BackupCodesIssue) : Prop :=
  issue.index + issue.length ≤ n

/-- The item was read from a part of a text of `n` code units. Where its span is exact, every place
in its value is a place in that part. -/
structure ParsedItem.Inside (n : ℕ) (item : ParsedItem) : Prop where
  span : item.start + item.length ≤ n
  value : item.spanExact → item.value.length ≤ item.length

/-- What a segmenter has collected. -/
structure Collected (n max : ℕ) (items : List ParsedItem) : Prop where
  inside : ∀ item ∈ items, item.Inside n
  count : items.length ≤ max

structure Segmentation.Inside (n max : ℕ) (seg : Segmentation) : Prop where
  items : Collected n max seg.items
  issues : ∀ issue ∈ seg.issues, issue.Inside n

theorem Collected.nil (n max : ℕ) : Collected n max [] :=
  ⟨fun _ h => absurd h not_mem_nil, zero_le _⟩

section
variable {n max : ℕ} {items : List ParsedItem} {item : ParsedItem}

theorem Collected.snoc (h : Collected n max items) (hitem : item.Inside n)
    (hroom : ¬ max ≤ items.length) : Collected n max (items ++ [item]) := by
  constructor
  · intro i hi
    rcases mem_append.mp hi with hi | hi
    · exact h.inside i hi
    · rw [mem_singleton.mp hi]
      exact hitem
  · rw [length_append, length_singleton]
    omega

theorem Collected.done (h : Collected n max items) : (Segmentation.mk items []).Inside n max :=
  ⟨h, fun _ hi => absurd hi not_mem_nil⟩

theorem Collected.report (h : Collected n max items) {issue : BackupCodesIssue}
    (hissue : issue.Inside n) : (Segmentation.mk items [issue]).Inside n max := by
  refine ⟨h, ?_⟩
  intro i hi
  rw [mem_singleton.mp hi]
  exact hissue

theorem ParsedItem.Inside.tooMany (h : item.Inside n) (max : ℕ) :
    (tooManyCodesIssue item max).Inside n :=
  h.span

end

theorem length_trim_le (s : Utf16) : (trim s).length ≤ (s.dropWhile isTrimmed).length := by
  unfold trim
  rw [length_reverse]
  apply ((dropWhile_sublist _).length_le).trans
  rw [length_reverse]

variable {n : ℕ}

theorem trimmedItem_inside {pos : ℕ} {raw : Utf16} (h : pos + raw.length ≤ n) (itemNumber : ℕ) :
    (trimmedItem pos raw itemNumber).Inside n := by
  refine ⟨?_, fun _ => le_rfl⟩
  have htrim := length_trim_le raw
  have hdrop : (raw.dropWhile isTrimmed).length ≤ raw.length := (dropWhile_sublist _).length_le
  show pos + (raw.length - (raw.dropWhile isTrimmed).length) + (trim raw).length ≤ n
  omega

/-! ## Lines, pieces and words -/

theorem linesFrom_inside (start : ℕ) (raw us : Utf16) :
    ∀ p ∈ linesFrom start raw us, p.1 + p.2.length ≤ start + raw.length + us.length := by
  fun_induction linesFrom start raw us with
  | case1 start raw => simp
  | case2 start raw u hbreak => simp
  | case3 start raw u hbreak =>
    intro p hp
    rw [mem_singleton.mp hp]
    simp [add_assoc]
  | case4 start raw u v us hpair ih | case5 start raw u v us hpair hbreak ih =>
    intro p hp
    rcases mem_cons.mp hp with rfl | hp
    · simp only [length_cons]
      omega
    · have hlater := ih p hp
      simp only [length_cons, length_nil] at hlater ⊢
      omega
  | case6 start raw u v us hpair hbreak ih =>
    intro p hp
    have hlater := ih p hp
    simp only [length_append, length_cons, length_nil] at hlater ⊢
    omega

variable {max : ℕ} {items : List ParsedItem}

theorem newlineItems_inside {lines : List (ℕ × Utf16)} (hitems : Collected n max items)
    (hlines : ∀ p ∈ lines, p.1 + p.2.length ≤ n) :
    (newlineItems max items lines).Inside n max := by
  induction lines generalizing items with
  | nil => exact hitems.done
  | cons p lines ih =>
    obtain ⟨pos, raw⟩ := p
    have hitem := trimmedItem_inside (hlines (pos, raw) mem_cons_self) (items.length + 1)
    have hrest : ∀ p ∈ lines, p.1 + p.2.length ≤ n :=
      fun p hp => hlines p (mem_cons_of_mem _ hp)
    rw [newlineItems]
    split_ifs with hvalue hfull
    · exact hitems.report (hitem.tooMany max)
    · exact ih (hitems.snoc hitem hfull) hrest
    · exact ih hitems hrest

/-- Every piece but the first follows a comma. -/
theorem commaPieces_cons (start : ℕ) (raw us : Utf16) :
    ∃ rest, commaPieces start raw us = (start, raw ++ us.takeWhile (· ≠ commaUnit)) :: rest ∧
      ∀ p ∈ rest, start < p.1 ∧ p.1 + p.2.length ≤ start + raw.length + us.length := by
  induction us generalizing start raw with
  | nil => exact ⟨[], by simp [commaPieces], nofun⟩
  | cons u us ih =>
    by_cases hcomma : u = commaUnit
    · obtain ⟨rest, hpieces, hrest⟩ := ih (start + raw.length + 1) []
      refine ⟨commaPieces (start + raw.length + 1) [] us, ?_, ?_⟩
      · rw [commaPieces, if_pos hcomma]
        simp [hcomma]
      · have htake : (us.takeWhile (· ≠ commaUnit)).length ≤ us.length :=
          (takeWhile_sublist _).length_le
        intro p hp
        rw [hpieces] at hp
        simp only [length_cons]
        rcases mem_cons.mp hp with rfl | hp
        · simp only [nil_append]
          omega
        · have hlater := hrest p hp
          simp only [length_nil] at hlater
          omega
    · obtain ⟨rest, hpieces, hrest⟩ := ih start (raw ++ [u])
      refine ⟨rest, ?_, ?_⟩
      · rw [commaPieces, if_neg hcomma, hpieces]
        simp [hcomma]
      · intro p hp
        have hlater := hrest p hp
        simp only [length_append, length_cons, length_nil] at hlater ⊢
        omega

variable {itemNumber : ℕ}

/-- A blank piece that is not the first is told by the comma before it. -/
theorem emptyItemIssue_inside {pos : ℕ} {raw : Utf16} (trailingComma isLast : Bool)
    (hpos : 0 < pos) (h : pos + raw.length ≤ n) (hnumber : itemNumber ≠ 1) :
    (emptyItemIssue trailingComma isLast pos raw itemNumber).Inside n := by
  show (if itemNumber = 1 then pos + raw.length else pos - 1) + 1 ≤ n
  rw [if_neg hnumber]
  omega

theorem commaItems_inside (trailingComma : Bool) {issues : List BackupCodesIssue}
    {pieces : List (ℕ × Utf16)} (hitems : Collected n max items)
    (hissues : ∀ issue ∈ issues, issue.Inside n) (hnumber : 0 < itemNumber)
    (hpieces : ∀ p ∈ pieces, 0 < p.1 ∧ p.1 + p.2.length ≤ n) :
    (commaItems max trailingComma items issues itemNumber pieces).Inside n max := by
  induction pieces generalizing items issues itemNumber with
  | nil => exact ⟨hitems, hissues⟩
  | cons p pieces ih =>
    obtain ⟨pos, raw⟩ := p
    obtain ⟨hpos, hspan⟩ := hpieces (pos, raw) mem_cons_self
    have hrest : ∀ p ∈ pieces, 0 < p.1 ∧ p.1 + p.2.length ≤ n :=
      fun p hp => hpieces p (mem_cons_of_mem _ hp)
    have hitem := trimmedItem_inside hspan (itemNumber + 1)
    rw [commaItems]
    split_ifs with hblank hfull
    · apply ih hitems _ (succ_pos _) hrest
      intro issue hi
      rcases mem_append.mp hi with hi | hi
      · exact hissues issue hi
      · rw [mem_singleton.mp hi]
        exact emptyItemIssue_inside _ _ hpos hspan (by omega)
    · refine ⟨hitems, ?_⟩
      intro issue hi
      rcases mem_append.mp hi with hi | hi
      · exact hissues issue hi
      · rw [mem_singleton.mp hi]
        exact hitem.tooMany max
    · exact ih (hitems.snoc hitem hfull) hissues (succ_pos _) hrest

theorem wordsFrom_inside (start : ℕ) (raw us : Utf16) :
    ∀ p ∈ wordsFrom start raw us, p.1 + p.2.length ≤ start + raw.length + us.length := by
  induction us generalizing start raw with
  | nil =>
    rw [wordsFrom]
    split_ifs
    · intro p hp
      exact absurd hp not_mem_nil
    · simp
  | cons u us ih =>
    rw [wordsFrom]
    simp only [length_cons]
    split_ifs with hspace hraw
    · intro p hp
      have hlater := ih (start + 1) [] p hp
      simp only [length_nil] at hlater
      omega
    · intro p hp
      rcases mem_cons.mp hp with rfl | hp
      · show start + raw.length ≤ _
        omega
      · have hlater := ih (start + raw.length + 1) [] p hp
        simp only [length_nil] at hlater
        omega
    · intro p hp
      have hlater := ih start (raw ++ [u]) p hp
      simp only [length_append, length_cons, length_nil] at hlater
      omega

theorem spaceItems_inside {words : List (ℕ × Utf16)} (hitems : Collected n max items)
    (hwords : ∀ p ∈ words, p.1 + p.2.length ≤ n) :
    (spaceItems max items words).Inside n max := by
  induction words generalizing items with
  | nil => exact hitems.done
  | cons p words ih =>
    obtain ⟨pos, word⟩ := p
    have hitem : (ParsedItem.mk word pos word.length true (items.length + 1)).Inside n :=
      ⟨hwords (pos, word) mem_cons_self, fun _ => le_rfl⟩
    have hrest : ∀ p ∈ words, p.1 + p.2.length ≤ n :=
      fun p hp => hwords p (mem_cons_of_mem _ hp)
    rw [spaceItems]
    split_ifs with hfull
    · exact hitems.report (hitem.tooMany max)
    · exact ih (hitems.snoc hitem hfull) hrest

/-! ## Array literals -/

theorem unterminated_inside {start ended : ℕ} (itemNumber : ℕ) (atLineBreak : Bool)
    (hstart : start < ended) (hended : ended ≤ n) :
    (unterminated start ended itemNumber atLineBreak).Inside n := by
  have hmax : max 1 (ended - start) ≤ ended - start := Nat.max_le.mpr ⟨by omega, le_rfl⟩
  show start + max 1 (ended - start) ≤ n
  omega

/-- What is told, if anything, marks a part of a text of `n` code units. -/
def ErrorInside {α : Type} (n : ℕ) : Except BackupCodesIssue α → Prop
  | .error issue => issue.Inside n
  | .ok _ => True

variable {α : Type}

theorem ErrorInside.ok (a : α) : ErrorInside n (.ok a) :=
  trivial

theorem ErrorInside.badEscape {index length : ℕ} {message : String} {hint : Option String}
    (h : index + length ≤ n) :
    @ErrorInside α n (.error (badEscape message index length itemNumber hint)) :=
  h

theorem ErrorInside.ite {c : Prop} [Decidable c] {a b : Except BackupCodesIssue α}
    (ha : ErrorInside n a) (hb : ErrorInside n b) :
    ErrorInside n (if c then a else b) := by
  split
  · exact ha
  · exact hb

/-- What is wrong with an escape lies between its backslash and the end. -/
theorem readEscape_inside {backslash : ℕ} (itemNumber : ℕ) {us : Utf16}
    (hn : backslash + 1 + us.length ≤ n) :
    ErrorInside n (readEscape backslash itemNumber us) := by
  cases us with
  | nil => exact unterminated_inside _ _ (lt_succ_self _) hn
  | cons ch rest =>
    rw [length_cons] at hn
    have htwo : (rest.take 2).length ≤ rest.length := length_take_le' _ _
    have hfour : (rest.take 4).length ≤ rest.length := length_take_le' _ _
    have hchar : backslash + 2 ≤ n := by omega
    -- The escapes of one character are read; a digit is refused.
    iterate 9 refine .ite (.ok _) ?_
    refine .ite (.badEscape hchar) ?_
    refine .ite ?_ ?_
    · dsimp only
      cases parseHex (rest.take 2) with
      | none => exact .badEscape (by omega)
      | some unit => exact .ite (.badEscape (by omega)) (.ok _)
    refine .ite (.ite ?_ ?_) (.ok _)
    · cases hcount : rest.tail.findIdx? (· = closeBrace) with
      | none => exact .badEscape hchar
      | some count =>
        -- The closing brace is behind the digits.
        have hclose : count < rest.tail.length := by
          obtain ⟨hlt, -⟩ := findIdx?_eq_some_iff_getElem.mp hcount
          exact hlt
        rw [length_tail] at hclose
        dsimp only
        cases parseHex (rest.tail.take count) with
        | none => exact .badEscape hchar
        | some point =>
          refine .ite (.badEscape hchar) ?_
          exact .ite (.badEscape (by omega)) (.ok _)
    · dsimp only
      cases parseHex (rest.take 4) with
      | none => exact .badEscape (by omega)
      | some unit => exact .ite (.badEscape (by omega)) (.ok _)

theorem readLiteralFrom_inside {n : ℕ} {quote : UInt16} {start itemNumber skip i : ℕ}
    {out us : Utf16} (hstart : start < i) (hn : i + us.length = n) :
    match readLiteralFrom quote start itemNumber skip i out us with
    | .error issue => issue.Inside n
    | .ok literal => literal.ended ≤ n := by
  induction us generalizing skip i out with
  | nil => exact unterminated_inside _ _ hstart hn.le
  | cons ch rest ih =>
    rw [length_cons] at hn
    have hnext (skip : ℕ) (out : Utf16) :=
      @ih skip (i + 1) out (by omega) (by omega)
    cases skip with
    | succ skip => exact hnext skip out
    | zero =>
      rw [readLiteralFrom]
      split_ifs with hquote hbackslash hbreak htemplate
      · show i + 1 ≤ n
        omega
      · have hescape := @readEscape_inside n i itemNumber rest (by omega)
        cases hread : readEscape i itemNumber rest with
        | error issue =>
          rw [hread] at hescape
          exact hescape
        | ok read => exact hnext read.2 (out ++ read.1)
      · exact unterminated_inside _ _ hstart (by omega)
      · -- The brace is behind the dollar sign.
        have hrest : 0 < rest.length := by
          apply length_pos_of_ne_nil
          rintro rfl
          exact Option.some_ne_none _ htemplate.2.2.symm
        show i + 2 ≤ n
        omega
      · exact hnext 0 (out ++ [ch])

theorem arrayEnd_inside {n max pos : ℕ} {items : List ParsedItem} {us : Utf16}
    (hitems : Collected n max items) (hn : pos + us.length = n) :
    (arrayEnd items pos us).Inside n max := by
  have hdrop : (us.dropWhile isWhitespace).length ≤ us.length := (dropWhile_sublist _).length_le
  unfold arrayEnd
  dsimp only
  split_ifs
  · exact hitems.done
  · apply hitems.report
    show pos + (us.length - (us.dropWhile isWhitespace).length) +
      (us.dropWhile isWhitespace).length ≤ n
    omega

theorem separatorIssue_inside {n pos : ℕ} (count : ℕ) (ch : UInt16) (held : Bool)
    (h : pos + 1 ≤ n) : (separatorIssue count pos ch held).Inside n := by
  unfold separatorIssue
  split_ifs <;> exact h

theorem elementIssue_inside {n pos : ℕ} (itemNumber : ℕ) (ch : UInt16) {rest : Utf16}
    (h : pos + (rest.length + 1) ≤ n) : (elementIssue itemNumber pos ch rest).Inside n := by
  have hone : pos + 1 ≤ n := by omega
  have hbare : pos + bareTokenLength (ch :: rest) ≤ n := by
    have htake := (takeWhile_sublist (l := ch :: rest)
      fun u => !(u = commaUnit || u = closeBracket || isWhitespace u)).length_le
    rw [length_cons] at htake
    have hmax : bareTokenLength (ch :: rest) ≤ rest.length + 1 :=
      Nat.max_le.mpr ⟨by omega, htake⟩
    omega
  unfold elementIssue
  split_ifs
  · exact hone
  · exact hone
  · exact hone
  · exact hbare

theorem readLiteralFrom_span {n : ℕ} {quote : UInt16} {pos itemNumber : ℕ} {rest : Utf16}
    {literal : LiteralOk} (hn : pos + (rest.length + 1) = n)
    (h : readLiteralFrom quote pos itemNumber 0 (pos + 1) [] rest = .ok literal) :
    pos + 1 < literal.ended ∧ literal.ended ≤ n := by
  have hinside := @readLiteralFrom_inside n quote pos itemNumber 0 (pos + 1) [] rest
    (lt_succ_self pos) (by omega)
  rw [h] at hinside
  exact ⟨readLiteralFrom_ended h, hinside⟩

theorem arrayFrom_inside {n max : ℕ} {items : List ParsedItem}
    {expectElement previousHeldSeparator : Bool} {pos : ℕ} {us : Utf16}
    (hitems : Collected n max items) (hn : pos + us.length = n) :
    (arrayFrom max items expectElement previousHeldSeparator pos us).Inside n max := by
  fun_induction arrayFrom max items expectElement previousHeldSeparator pos us with
  | case1 items expectElement held pos =>
    apply hitems.report
    exact hn.le
  | case2 items expectElement held pos ch rest hspace ih =>
    exact ih hitems (by rw [← hn, length_cons]; omega)
  | case3 items expectElement held pos rest =>
    exact arrayEnd_inside hitems (by rw [← hn, length_cons]; omega)
  | case4 items held pos rest hspace hclose ih =>
    exact ih hitems (by rw [← hn, length_cons]; omega)
  | case5 items held pos ch rest =>
    exact hitems.report (separatorIssue_inside _ _ _ (by rw [← hn, length_cons]; omega))
  | case6 items expectElement held pos ch rest hspace hclose hexpect hquote issue hread =>
    rw [length_cons] at hn
    have hinside := @readLiteralFrom_inside n ch pos (items.length + 1) 0 (pos + 1) [] rest
      (lt_succ_self pos) (by omega)
    rw [hread] at hinside
    exact hitems.report hinside
  | case7 items expectElement held pos ch rest hspace hclose hexpect hquote literal hread item =>
    obtain ⟨hstart, hended⟩ := readLiteralFrom_span hn hread
    apply hitems.report
    show pos + (literal.ended - pos) ≤ n
    omega
  | case8 items expectElement held pos ch rest hspace hclose hexpect hquote literal hread item
      hroom ih =>
    obtain ⟨hstart, hended⟩ := readLiteralFrom_span hn hread
    have hitem : item.Inside n := by
      refine ⟨?_, nofun⟩
      show pos + (literal.ended - pos) ≤ n
      omega
    apply ih (hitems.snoc hitem hroom)
    rw [length_cons] at hn
    rw [length_drop]
    omega
  | case9 items expectElement held pos ch rest =>
    exact hitems.report (elementIssue_inside _ _ (by rw [← hn, length_cons]))

/-! ## Segmentation -/

theorem segmentComma_inside {input : Utf16} (h : trim input ≠ []) (max : ℕ) :
    (segmentComma input max).Inside input.length max := by
  obtain ⟨rest, hpieces, hrest⟩ := commaPieces_cons 0 [] input
  have hlater : ∀ p ∈ rest, 0 < p.1 ∧ p.1 + p.2.length ≤ input.length := by
    intro p hp
    have hp := hrest p hp
    rw [length_nil] at hp
    omega
  unfold segmentComma
  rw [hpieces, nil_append]
  generalize hfirst : input.takeWhile (· ≠ commaUnit) = first
  have hlength : first.length ≤ input.length := by
    rw [← hfirst]
    exact (takeWhile_sublist _).length_le
  have hitem := @trimmedItem_inside input.length 0 first (by omega) 1
  rw [commaItems]
  split_ifs with hblank hfull
  · -- The input is not blank, so there is a comma behind a first piece that is.
    have hcomma : first.length < input.length := by
      apply lt_of_le_of_ne hlength
      intro heq
      have hall : first = input :=
        (hfirst ▸ takeWhile_prefix (· ≠ commaUnit)).eq_of_length heq
      rw [hall] at hblank
      exact h (eq_nil_of_length_eq_zero hblank)
    apply commaItems_inside _ (.nil _ _) _ one_pos hlater
    intro issue hi
    rw [mem_singleton.mp hi]
    show 0 + first.length + 1 ≤ input.length
    omega
  · exact (Collected.nil _ _).report (hitem.tooMany max)
  · exact commaItems_inside _ ((Collected.nil _ _).snoc hitem hfull)
      (fun _ hi => absurd hi not_mem_nil) one_pos hlater

/-- What is collected from a text, or told of it, lies in it. -/
theorem segment_inside {input : Utf16} (h : trim input ≠ []) (format : BackupCodesFormat)
    (limits : Limits) : (segment input format limits).Inside input.length limits.max := by
  have hnil := Collected.nil input.length limits.max
  cases format with
  | array =>
    show (segmentArray input limits.max).Inside _ _
    have hdrop : (input.dropWhile isWhitespace).length ≤ input.length :=
      (dropWhile_sublist _).length_le
    unfold segmentArray
    dsimp only
    split_ifs with hopen
    · apply arrayFrom_inside hnil
      have hpos : 0 < (input.dropWhile isWhitespace).length := by
        apply length_pos_of_ne_nil
        intro hempty
        rw [hempty] at hopen
        cases hopen
      rw [length_tail]
      omega
    · apply hnil.report
      show input.length - (input.dropWhile isWhitespace).length + 0 ≤ input.length
      omega
  | comma => exact segmentComma_inside h limits.max
  | space =>
    apply spaceItems_inside hnil
    intro p hp
    have hinside := wordsFrom_inside 0 [] input p hp
    rwa [length_nil, Nat.zero_add] at hinside
  | newline =>
    apply newlineItems_inside hnil
    intro p hp
    have hinside := linesFrom_inside 0 [] input p hp
    rwa [length_nil, Nat.zero_add] at hinside
  | single =>
    have hitem := @trimmedItem_inside input.length 0 input (by omega) 1
    show (segmentSingle input limits.max).Inside _ _
    unfold segmentSingle
    split_ifs with hmax
    · exact hnil.report (hitem.tooMany limits.max)
    · exact (hnil.snoc hitem (by rw [length_nil]; omega)).done

/-! ## Each item -/

theorem findChar_forall {P : BackupCodesIssue → Prop} {value : Utf16} {test : UInt16 → Bool}
    {report : ℕ → UInt16 → BackupCodesIssue}
    (h : ∀ offset < value.length, ∀ ch, P (report offset ch)) :
    ∀ issue ∈ findChar value test report, P issue := by
  intro issue hissue
  obtain ⟨offset, hoffset, rfl⟩ := Option.map_eq_some_iff.mp hissue
  obtain ⟨hlt, -⟩ := findIdx?_eq_some_iff_getElem.mp hoffset
  exact h offset hlt _

theorem orElse_forall {P : α → Prop} {a b : Option α} (ha : ∀ x ∈ a, P x) (hb : ∀ x ∈ b, P x) :
    ∀ x ∈ (a <|> b), P x := by
  cases a with
  | none => exact hb
  | some y => exact ha

theorem classifyItem_inside {item : ParsedItem} (hitem : item.Inside n)
    (format : BackupCodesFormat) (limits : Limits) :
    ∀ issue ∈ classifyItem item format limits, issue.Inside n := by
  have hspan := hitem.span
  have hspot (offset : ℕ) (h : offset < item.value.length) :
      (if item.spanExact then item.start + offset else item.start) +
        (if item.spanExact then 1 else item.length) ≤ n := by
    split_ifs with hexact
    · have hvalue := hitem.value hexact
      omega
    · exact hspan
  unfold classifyItem
  iterate 6
    refine orElse_forall (findChar_forall fun offset h _ => hspot offset h) ?_
  apply orElse_forall
  all_goals
    split_ifs
    · exact nofun
    · intro issue hissue
      cases hissue
      exact hspan

theorem findChar_none {value : Utf16} {test : UInt16 → Bool}
    {report : ℕ → UInt16 → BackupCodesIssue} (h : findChar value test report = none) :
    ∀ u ∈ value, test u = false :=
  findIdx?_eq_none_iff.mp (Option.map_eq_none_iff.mp h)

theorem orElse_none {a b : Option α} (h : (a <|> b) = none) : a = none ∧ b = none := by
  cases a with
  | none => exact ⟨rfl, h⟩
  | some y => cases h

/-- The checks of an item are those of a code. -/
theorem classifyItem_eq_none_iff {item : ParsedItem} {format : BackupCodesFormat}
    {limits : Limits} : classifyItem item format limits = none ↔
      isValidBackupCode item.value limits.maxCodeLength := by
  constructor
  · intro hnone
    obtain ⟨hcode, hends⟩ := orElse_none
      (orElse_none (orElse_none (orElse_none (orElse_none (orElse_none hnone).2).2).2).2).2
    obtain ⟨hmarks, hlong⟩ := orElse_none hends
    have hany : item.value.any isAlphanumeric := by
      by_contra hno
      rw [if_neg hno] at hmarks
      cases hmarks
    have hlength : item.value.length ≤ limits.maxCodeLength := by
      by_contra hno
      rw [if_neg hno] at hlong
      cases hlong
    have hunits : ∀ u ∈ item.value, (isAlphanumeric u || isCodePunctuation u) := by
      intro u hu
      have hunit := findChar_none hcode u hu
      rw [← Bool.not_or] at hunit
      exact (Bool.not_eq_false' _).mp hunit
    apply decide_eq_true
    refine ⟨?_, hlength, all_eq_true.mpr hunits, hany⟩
    intro hempty
    rw [hempty] at hany
    cases hany
  · exact classifyItem_valid

/-! ## Texts -/

/-- A text that is read gives valid codes, no more than may be stored. Otherwise every issue lies
in the text, and the first of them is the primary one. -/
def BackupCodesParseResult.Sound (input : Utf16) (limits : Limits) :
    BackupCodesParseResult → Prop
  | .ok codes _ _ =>
    codes.length ≤ limits.max ∧ ∀ code ∈ codes, isValidBackupCode code limits.maxCodeLength
  | .failed _ _ issue issues =>
    (∀ i ∈ issues, i.Inside input.length) ∧
      issues.Pairwise (fun a b => a.index ≤ b.index) ∧ issues.head? = some issue

/-- The issues of a text lie in it. Where there are none, every item is a valid code. -/
theorem parseWithFormat_sound (input : Utf16) (format : BackupCodesFormat) (detected : Bool)
    (limits : Limits) : (parseWithFormat input format detected limits).Sound input limits := by
  unfold parseWithFormat
  split_ifs with hblank
  · exact ⟨zero_le _, fun _ h => absurd h not_mem_nil⟩
  have hseg := segment_inside hblank format limits
  generalize segment input format limits = seg at hseg
  dsimp only
  generalize hfound : (if seg.issues ≠ [] then seg.issues
    else seg.items.filterMap fun item => classifyItem item format limits) = found
  have hinside : ∀ i ∈ found, i.Inside input.length := by
    intro i hi
    rw [← hfound] at hi
    split_ifs at hi
    · exact hseg.issues i hi
    · obtain ⟨item, hitem, hissue⟩ := mem_filterMap.mp hi
      exact classifyItem_inside (hseg.items.inside item hitem) format limits i hissue
  have hsorted := pairwise_insertionSort
    (fun a b : BackupCodesIssue => a.index ≤ b.index) found
  have hperm := perm_insertionSort
    (fun a b : BackupCodesIssue => a.index ≤ b.index) found
  cases hsort : found.insertionSort (fun a b => a.index ≤ b.index) with
  | cons primary others =>
    rw [hsort] at hsorted hperm
    exact ⟨fun i hi => hinside i (hperm.mem_iff.mp hi), hsorted, rfl⟩
  | nil =>
    rw [hsort] at hperm
    have hempty : found = [] := hperm.nil_eq.symm
    rw [hempty] at hfound
    have hclean : seg.items.filterMap (fun item => classifyItem item format limits) = [] := by
      split_ifs at hfound with hissues
      · exact absurd hfound hissues
      · exact hfound
    refine ⟨(length_map _).trans_le hseg.items.count, ?_⟩
    intro code hcode
    obtain ⟨item, hitem, rfl⟩ := mem_map.mp hcode
    exact classifyItem_eq_none_iff.mp (filterMap_eq_nil_iff.mp hclean item hitem)

/-- What a text is read as is sound in every format, given or found out, and an item has no issue
exactly where its value is a valid code. -/
theorem parseBackupCodes_sound (input : Utf16) (options : ParseBackupCodesOptions) :
    (parseBackupCodes input options).Sound input options.limits ∧
      ∀ item format, classifyItem item format options.limits = none ↔
        isValidBackupCode item.value options.limits.maxCodeLength := by
  refine ⟨?_, fun item format => classifyItem_eq_none_iff⟩
  have hread (format : BackupCodesFormat) (detected : Bool) :=
    parseWithFormat_sound input format detected options.limits
  unfold parseBackupCodes
  generalize options.format.getD .auto = requested
  by_cases hlong : options.limits.maxInputLength < input.length
  · rw [if_pos hlong]
    have hinside : options.limits.maxInputLength + 0 ≤ input.length := hlong.le
    have hissues (issue : BackupCodesIssue) (h : issue.Inside input.length) :
        (∀ i ∈ [issue], i.Inside input.length) ∧
          [issue].Pairwise (fun a b => a.index ≤ b.index) ∧ [issue].head? = some issue :=
      ⟨fun i hi => mem_singleton.mp hi ▸ h, pairwise_singleton _ _, rfl⟩
    cases requested with
    | auto | declared format => exact hissues _ hinside
  · rw [if_neg hlong]
    cases requested with
    | declared format => exact hread format false
    | auto =>
      dsimp only
      split_ifs with hblank harray
      · exact ⟨zero_le _, fun _ h => absurd h not_mem_nil⟩
      · exact hread .array true
      · -- The first format that reads the text, or the most likely one.
        cases hfind : find? (·.isOk) (((detectFormats (trim input)).1 ::
          (detectFormats (trim input)).2).map fun candidate =>
            parseWithFormat input candidate true options.limits) with
        | none => exact hread _ true
        | some result =>
          obtain ⟨candidate, -, rfl⟩ := mem_map.mp (mem_of_find?_eq_some hfind)
          exact hread candidate true

end HVault.BackupCodes
