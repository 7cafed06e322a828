import HVault.Data.UriText
import HVault.Export.ArchiveNames

/-!
# Backup codes

Backup codes are typed or pasted as text in one of five formats, each read exactly, or in a format
that is found out. What is wrong with a text is told by its place in it, never by the text itself.
`formatBackupCodes` renders codes as text again.
-/

namespace HVault.BackupCodes

open Json Backup DocumentCrypto Archive UriText

inductive BackupCodesFormat where
  | array
  | comma
  | space
  | newline
  | single
  deriving DecidableEq

/-- A format a caller may ask for. -/
inductive BackupCodesInputFormat where
  | declared (format : BackupCodesFormat)
  | auto
  deriving DecidableEq

/-! ## Issues -/

inductive BackupCodesErrorCode where
  | inputTooLong
  | tooManyCodes
  | emptyItem
  | codeContainsWhitespace
  | codeInvisibleChar
  | codeContainsBracket
  | codeContainsComma
  | codeContainsQuote
  | codeInvalidChar
  | codeNoAlphanumeric
  | codeTooLong
  | arrayMissingOpen
  | arrayUnclosed
  | arrayMissingComma
  | arrayMissingQuote
  | arrayUnexpectedChar
  | arrayUnterminatedString
  | arrayEmptyElement
  | arrayUnquotedValue
  | arrayNestedArray
  | arrayObjectElement
  | arrayTemplateSubstitution
  | arrayBadEscape
  | arrayTrailingContent
  deriving DecidableEq

/-- One problem, and where it is in the input. A `length` of zero marks what is missing. -/
structure BackupCodesIssue where
  code : BackupCodesErrorCode
  message : String
  index : ℕ
  length : ℕ
  itemNumber : Option ℕ := none
  hint : Option String := none
  deriving DecidableEq

/-- On failure `issue` is the first of `issues`. -/
inductive BackupCodesParseResult where
  | ok (codes : List Utf16) (format : BackupCodesFormat) (detected : Bool)
  | failed (format : BackupCodesFormat) (detected : Bool) (issue : BackupCodesIssue)
    (issues : List BackupCodesIssue)
  deriving DecidableEq

structure Limits where
  max : ℕ
  maxCodeLength : ℕ
  maxInputLength : ℕ

structure ParseBackupCodesOptions where
  format : Option BackupCodesInputFormat := none
  max : Option ℕ := none
  maxCodeLength : Option ℕ := none
  maxInputLength : Option ℕ := none

def maxLoginBackupCodes : ℕ := 50
def maxLoginBackupCodeLength : ℕ := 128
def maxLoginBackupCodesInputLength : ℕ := 20000

def ParseBackupCodesOptions.limits (options : ParseBackupCodesOptions) : Limits where
  max := options.max.getD maxLoginBackupCodes
  maxCodeLength := options.maxCodeLength.getD maxLoginBackupCodeLength
  maxInputLength := options.maxInputLength.getD maxLoginBackupCodesInputLength

/-! ## Characters -/

def commaUnit : UInt16 := 0x2C
def spaceUnit : UInt16 := 0x20
def lineFeed : UInt16 := 0x0A
def carriageReturn : UInt16 := 0x0D
def openBracket : UInt16 := 0x5B
def closeBracket : UInt16 := 0x5D
def openBrace : UInt16 := 0x7B
def closeBrace : UInt16 := 0x7D
def doubleQuote : UInt16 := 0x22
def backtick : UInt16 := 0x60
def backslashUnit : UInt16 := 0x5C
def dollar : UInt16 := 0x24
def semicolon : UInt16 := 0x3B

/-- The marks a code may hold. -/
def isCodePunctuation (u : UInt16) : Bool :=
  u = 0x2D ∨ u = 0x5F ∨ u = 0x2E ∨ u = 0x2B ∨ u = 0x2F ∨ u = 0x3D

/-- `\s` stands for what `trim` drops. -/
def isWhitespace : UInt16 → Bool := isTrimmed

def isLineBreak (u : UInt16) : Bool := u = lineFeed ∨ u = carriageReturn

/-- What cannot be seen but is no white space. -/
def isInvisible (u : UInt16) : Bool :=
  u.toNat ≤ 0x08 ∨ (0x0E ≤ u.toNat ∧ u.toNat ≤ 0x1F) ∨ (0x7F ≤ u.toNat ∧ u.toNat ≤ 0x9F) ∨
    u = 0xAD ∨ (0x200B ≤ u.toNat ∧ u.toNat ≤ 0x200F) ∨ u = 0x2060

def isBracket (u : UInt16) : Bool :=
  u = openBracket ∨ u = closeBracket ∨ u = openBrace ∨ u = closeBrace

def isQuote (u : UInt16) : Bool := u = doubleQuote ∨ u = 0x27 ∨ u = backtick

/-- A mark as a message names it. -/
def punctuationName (u : UInt16) : Option String :=
  if u = semicolon then some "a semicolon (;)"
  else if u = 0x3A then some "a colon (:)"
  else if u = 0x7C then some "a vertical bar (|)"
  else if u = backslashUnit then some "a backslash (\\)"
  else if u = 0x28 ∨ u = 0x29 then some "a parenthesis"
  else if u = 0x3C ∨ u = 0x3E then some "an angle bracket"
  else if u = 0x40 then some "an at sign (@)"
  else if u = 0x23 then some "a number sign (#)"
  else if u = dollar then some "a dollar sign ($)"
  else if u = 0x25 then some "a percent sign (%)"
  else if u = 0x5E then some "a caret (^)"
  else if u = 0x26 then some "an ampersand (&)"
  else if u = 0x2A then some "an asterisk (*)"
  else if u = 0x21 then some "an exclamation mark (!)"
  else if u = 0x3F then some "a question mark (?)"
  else if u = 0x7E then some "a tilde (~)"
  else none

def formatSwitchHint : BackupCodesFormat → String
  | .array => "If your codes are in a list like [\"code1\", \"code2\"], choose the array format."
  | .comma => "If your codes are separated by commas, choose the comma-separated format."
  | .space => "If your codes are separated by spaces, choose the space-separated format."
  | .newline => "If each code is on its own line, choose the one-code-per-line format."
  | .single => "If you have only one code, choose the single-code format."

/-- A code holds letters, digits and the marks, and not only marks. -/
def isValidBackupCode (value : Utf16) (maxLength : ℕ) : Bool :=
  value ≠ [] ∧ value.length ≤ maxLength ∧
    value.all (fun u => isAlphanumeric u || isCodePunctuation u) ∧ value.any isAlphanumeric

def itemLabel : BackupCodesFormat → ℕ → String
  | .single, _ => "The code"
  | _, itemNumber => s!"Item {itemNumber}"

/-! ## Segmentation -/

/-- What may be a code. Where `spanExact` is not set, places in `value` are not those in the input:
an escape is longer than what it stands for. -/
structure ParsedItem where
  value : Utf16
  start : ℕ
  length : ℕ
  spanExact : Bool
  itemNumber : ℕ

/-- With any issue the items are not looked at. -/
structure Segmentation where
  items : List ParsedItem
  issues : List BackupCodesIssue

def tooManyCodesIssue (item : ParsedItem) (max : ℕ) : BackupCodesIssue where
  code := .tooManyCodes
  message := s!"You can store at most {max} backup codes on one login. Item {max + 1} and anything after it must be removed."
  index := item.start
  length := item.length
  itemNumber := some (max + 1)

/-- What a piece of the input is as a code, without the white space around it. -/
def trimmedItem (pos : ℕ) (raw : Utf16) (itemNumber : ℕ) : ParsedItem where
  value := trim raw
  start := pos + (raw.length - (raw.dropWhile isTrimmed).length)
  length := (trim raw).length
  spanExact := true
  itemNumber := itemNumber

def segmentSingle (input : Utf16) (max : ℕ) : Segmentation :=
  let item := trimmedItem 0 input 1
  if max < 1 then ⟨[], [tooManyCodesIssue item max]⟩ else ⟨[item], []⟩

/-- The lines of the input and where they start; `raw` is what has been read of the first. -/
def linesFrom (start : ℕ) (raw : Utf16) : Utf16 → List (ℕ × Utf16)
  | [] => [(start, raw)]
  | [u] =>
    if isLineBreak u then [(start, raw), (start + raw.length + 1, [])] else [(start, raw ++ [u])]
  | u :: v :: us =>
    if u = carriageReturn ∧ v = lineFeed then
      (start, raw) :: linesFrom (start + raw.length + 2) [] us
    else if isLineBreak u then (start, raw) :: linesFrom (start + raw.length + 1) [] (v :: us)
    else linesFrom start (raw ++ [u]) (v :: us)

def newlineItems (max : ℕ) (items : List ParsedItem) : List (ℕ × Utf16) → Segmentation
  | [] => ⟨items, []⟩
  | (pos, raw) :: rest =>
    -- A blank line is dropped.
    if 0 < (trim raw).length then
      let item := trimmedItem pos raw (items.length + 1)
      if max ≤ items.length then ⟨items, [tooManyCodesIssue item max]⟩
      else newlineItems max (items ++ [item]) rest
    else newlineItems max items rest

def segmentNewline (input : Utf16) (max : ℕ) : Segmentation :=
  newlineItems max [] (linesFrom 0 [] input)

def commaPieces (start : ℕ) (raw : Utf16) : Utf16 → List (ℕ × Utf16)
  | [] => [(start, raw)]
  | u :: us =>
    if u = commaUnit then (start, raw) :: commaPieces (start + raw.length + 1) [] us
    else commaPieces start (raw ++ [u]) us

/-- A piece that is blank is no code: the place told is the comma next to it. -/
def emptyItemIssue (trailingComma isLast : Bool) (pos : ℕ) (raw : Utf16) (itemNumber : ℕ) :
    BackupCodesIssue where
  code := .emptyItem
  message := s!"Item {itemNumber} is empty."
  index := if itemNumber = 1 then pos + raw.length else pos - 1
  length := 1
  itemNumber := some itemNumber
  hint := some <|
    if trailingComma && isLast then "Remove the trailing comma at the end."
    else if itemNumber = 1 then "The list starts with a comma. Remove it, or put a code before it."
    else "There are two commas in a row. Remove the extra one, or put the missing code between them."

def commaItems (max : ℕ) (trailingComma : Bool) (items : List ParsedItem)
    (issues : List BackupCodesIssue) (itemNumber : ℕ) : List (ℕ × Utf16) → Segmentation
  | [] => ⟨items, issues⟩
  | (pos, raw) :: rest =>
    let itemNumber := itemNumber + 1
    if (trim raw).length = 0 then
      commaItems max trailingComma items
        (issues ++ [emptyItemIssue trailingComma rest.isEmpty pos raw itemNumber]) itemNumber rest
    else
      let item := trimmedItem pos raw itemNumber
      if max ≤ items.length then ⟨items, issues ++ [tooManyCodesIssue item max]⟩
      else commaItems max trailingComma (items ++ [item]) issues itemNumber rest

def segmentComma (input : Utf16) (max : ℕ) : Segmentation :=
  let trailingComma := (input.reverse.dropWhile isTrimmed).head? = some commaUnit
  commaItems max trailingComma [] [] 0 (commaPieces 0 [] input)

/-- The words of the input; `raw` is what has been read of the first. -/
def wordsFrom (start : ℕ) (raw : Utf16) : Utf16 → List (ℕ × Utf16)
  | [] => if raw = [] then [] else [(start, raw)]
  | u :: us =>
    if isWhitespace u then
      if raw = [] then wordsFrom (start + 1) [] us
      else (start, raw) :: wordsFrom (start + raw.length + 1) [] us
    else wordsFrom start (raw ++ [u]) us

def spaceItems (max : ℕ) (items : List ParsedItem) : List (ℕ × Utf16) → Segmentation
  | [] => ⟨items, []⟩
  | (pos, word) :: rest =>
    let item : ParsedItem := ⟨word, pos, word.length, true, items.length + 1⟩
    if max ≤ items.length then ⟨items, [tooManyCodesIssue item max]⟩
    else spaceItems max (items ++ [item]) rest

def segmentSpace (input : Utf16) (max : ℕ) : Segmentation :=
  spaceItems max [] (wordsFrom 0 [] input)

/-! ## Array literals -/

def badEscapeHint : String := "Backup codes do not need escapes. Remove the backslash."

/-- A string that has been read, and the place behind its closing quote. -/
structure LiteralOk where
  value : Utf16
  ended : ℕ

def unterminated (start ended itemNumber : ℕ) (atLineBreak : Bool) : BackupCodesIssue where
  code := .arrayUnterminatedString
  message :=
    if atLineBreak then s!"Item {itemNumber} is missing its closing quote before the end of the line."
    else s!"Item {itemNumber} is missing its closing quote."
  index := start
  length := Nat.max 1 (ended - start)
  itemNumber := some itemNumber
  hint := some <|
    if atLineBreak then
      "A quoted code cannot be split across two lines. Add the closing quote at the end of the line."
    else s!"Add a quote at the end of item {itemNumber}, then close the list with ] ."

def badEscape (message : String) (index length itemNumber : ℕ) (hint : Option String := none) :
    BackupCodesIssue where
  code := .arrayBadEscape
  message := message
  index := index
  length := length
  itemNumber := some itemNumber
  hint := hint

/-- `parseInt(digits, 16)` of text that is all digits, or nothing. -/
def parseHex (digits : Utf16) : Option ℕ :=
  (digits.mapM UriText.hexValue).map (List.foldl (fun value digit => value * 16 + digit) 0)

/-- `String.fromCodePoint`. -/
def fromCodePoint (point : ℕ) : Utf16 :=
  if point < 0x10000 then [.ofNat point]
  else [.ofNat (0xD800 + (point - 0x10000) / 0x400), .ofNat (0xDC00 + (point - 0x10000) % 0x400)]

/-- An escape of which the backslash has been read: what it stands for, and how many code units it
takes behind the backslash. -/
def readEscape (backslash itemNumber : ℕ) : Utf16 → Except BackupCodesIssue (Utf16 × ℕ)
  | [] => .error (unterminated backslash (backslash + 1) itemNumber false)
  | ch :: rest =>
    -- A line that goes on in the next one.
    if ch = lineFeed ∨ ch = 0x2028 ∨ ch = 0x2029 then .ok ([], 1)
    else if ch = carriageReturn then .ok ([], if rest.head? = some lineFeed then 2 else 1)
    else if ch = 0x6E then .ok ([0x0A], 1)
    else if ch = 0x74 then .ok ([0x09], 1)
    else if ch = 0x72 then .ok ([0x0D], 1)
    else if ch = 0x62 then .ok ([0x08], 1)
    else if ch = 0x66 then .ok ([0x0C], 1)
    else if ch = 0x76 then .ok ([0x0B], 1)
    else if ch = 0x30 ∧ ¬ rest.head?.any isDigit then .ok ([0], 1)
    else if isDigit ch then
      .error (badEscape
        s!"Item {itemNumber} contains a backslash followed by a digit, which is not a valid escape."
        backslash 2 itemNumber (some badEscapeHint))
    else if ch = 0x78 then
      let digits := rest.take 2
      match parseHex digits with
      | some unit =>
        if digits.length < 2 then
          .error (badEscape
            s!"Item {itemNumber} has an incomplete \\x escape. It needs exactly two hex digits, like \\x41."
            backslash (2 + digits.length) itemNumber)
        else .ok ([.ofNat unit], 3)
      | none =>
        .error (badEscape
          s!"Item {itemNumber} has an incomplete \\x escape. It needs exactly two hex digits, like \\x41."
          backslash (2 + digits.length) itemNumber)
    else if ch = 0x75 then
      let incomplete :=
        s!"Item {itemNumber} has an incomplete \\u escape. It needs four hex digits (\\u0041) or braces (\\u\x7b1F600\x7d)."
      if rest.head? = some openBrace then
        match rest.tail.findIdx? (· = closeBrace) with
        | none => .error (badEscape incomplete backslash 2 itemNumber)
        | some count =>
          match parseHex (rest.tail.take count) with
          | none => .error (badEscape incomplete backslash 2 itemNumber)
          | some point =>
            if count = 0 ∨ 6 < count then .error (badEscape incomplete backslash 2 itemNumber)
            else if 0x10FFFF < point then
              .error (badEscape
                s!"Item {itemNumber} has a \\u\x7b \x7d escape above the largest code point (10FFFF)."
                backslash (count + 4) itemNumber)
            else .ok (fromCodePoint point, count + 3)
      else
        let digits := rest.take 4
        match parseHex digits with
        | some unit =>
          if digits.length < 4 then
            .error (badEscape incomplete backslash (2 + digits.length) itemNumber)
          else .ok ([.ofNat unit], 5)
        | none => .error (badEscape incomplete backslash (2 + digits.length) itemNumber)
    else .ok ([ch], 1)

/-- A string of which the opening quote, at `start`, has been read. `skip` code units of an escape
are still to be passed over, `i` is the place and `out` what has been read. -/
def readLiteralFrom (quote : UInt16) (start itemNumber : ℕ) (skip i : ℕ) (out : Utf16) :
    Utf16 → Except BackupCodesIssue LiteralOk
  | [] => .error (unterminated start i itemNumber false)
  | ch :: rest =>
    match skip with
    | skip + 1 => readLiteralFrom quote start itemNumber skip (i + 1) out rest
    | 0 =>
      if ch = quote then .ok ⟨out, i + 1⟩
      else if ch = backslashUnit then
        match readEscape i itemNumber rest with
        | .error issue => .error issue
        | .ok (text, taken) =>
          readLiteralFrom quote start itemNumber taken (i + 1) (out ++ text) rest
      else if quote ≠ backtick ∧ isLineBreak ch then .error (unterminated start i itemNumber true)
      else if quote = backtick ∧ ch = dollar ∧ rest.head? = some openBrace then
        .error {
          code := .arrayTemplateSubstitution
          message := s!"Item {itemNumber} uses a backtick template with a substitution in it, which is not supported. Use plain quotes."
          index := i
          length := 2
          itemNumber := some itemNumber }
      else readLiteralFrom quote start itemNumber 0 (i + 1) (out ++ [ch]) rest

theorem readLiteralFrom_ended {quote : UInt16} {start itemNumber skip i : ℕ} {out us : Utf16}
    {literal : LiteralOk}
    (h : readLiteralFrom quote start itemNumber skip i out us = .ok literal) :
    i < literal.ended := by
  induction us generalizing skip i out with
  | nil => cases h
  | cons ch rest ih =>
    cases skip with
    | succ skip => exact (Nat.lt_succ_self i).trans (ih h)
    | zero =>
      rw [readLiteralFrom] at h
      split_ifs at h
      · cases h
        exact Nat.lt_succ_self i
      · split at h
        · cases h
        · exact (Nat.lt_succ_self i).trans (ih h)
      · exact (Nat.lt_succ_self i).trans (ih h)

/-- Up to the next comma, bracket or white space. -/
def bareTokenLength (us : Utf16) : ℕ :=
  Nat.max 1 (us.takeWhile fun u => !(u = commaUnit || u = closeBracket || isWhitespace u)).length

/-- What follows the closing bracket, at `pos`. -/
def arrayEnd (items : List ParsedItem) (pos : ℕ) (us : Utf16) : Segmentation :=
  let rest := us.dropWhile isWhitespace
  if rest = [] then ⟨items, []⟩
  else ⟨items, [{
    code := .arrayTrailingContent
    message := "There is extra text after the closing ] . Remove anything after ] ."
    index := pos + (us.length - rest.length)
    length := rest.length }]⟩

/-- What stands where a comma is expected. -/
def separatorIssue (n pos : ℕ) (ch : UInt16) (previousHeldSeparator : Bool) : BackupCodesIssue :=
  if isQuote ch then {
    code := .arrayMissingComma
    message := s!"Items {n} and {n + 1} are not separated. Put a comma (,) between them."
    index := pos
    length := 1
    itemNumber := some n }
  else if previousHeldSeparator then {
    code := .arrayMissingQuote
    message := s!"Item {n} is missing its closing quote, so the text after it was read as part of item {n}."
    index := pos
    length := 1
    itemNumber := some n
    hint := s!"Add the missing quote at the end of item {n}." }
  else {
    code := .arrayUnexpectedChar
    message := s!"Unexpected text after item {n}. Items must be separated by a comma (,) and the list must end with ] ."
    index := pos
    length := 1
    itemNumber := some n }

/-- What stands where a string is expected and is none. -/
def elementIssue (itemNumber pos : ℕ) (ch : UInt16) (rest : Utf16) : BackupCodesIssue :=
  if ch = commaUnit then {
    code := .arrayEmptyElement
    message := s!"Item {itemNumber} is empty (two commas in a row)."
    index := pos
    length := 1
    itemNumber := some itemNumber
    hint := some "Remove the extra comma." }
  else if ch = openBracket then {
    code := .arrayNestedArray
    message := s!"Item {itemNumber} is a list inside the list. Use one flat list of quoted codes."
    index := pos
    length := 1
    itemNumber := some itemNumber }
  else if ch = openBrace then {
    code := .arrayObjectElement
    message := s!"Item {itemNumber} is an object. Use one flat list of quoted codes."
    index := pos
    length := 1
    itemNumber := some itemNumber }
  else {
    code := .arrayUnquotedValue
    message := s!"Item {itemNumber} is not wrapped in quotes. Every code must be quoted, like \"a1b2c3\"."
    index := pos
    length := bareTokenLength (ch :: rest)
    itemNumber := some itemNumber
    hint := some "Values such as 123 or true are not accepted. Put quotes around the value." }

/-- The elements of a list of which the opening bracket has been read. -/
def arrayFrom (max : ℕ) (items : List ParsedItem) (expectElement previousHeldSeparator : Bool)
    (pos : ℕ) : Utf16 → Segmentation
  | [] => ⟨items, [{
      code := .arrayUnclosed
      message := "The list is missing its closing ] . Add ] at the end."
      index := pos
      length := 0 }]⟩
  | ch :: rest =>
    if isWhitespace ch then
      arrayFrom max items expectElement previousHeldSeparator (pos + 1) rest
    else if ch = closeBracket then arrayEnd items (pos + 1) rest
    else if expectElement = false then
      if ch = commaUnit then arrayFrom max items true previousHeldSeparator (pos + 1) rest
      else ⟨items, [separatorIssue items.length pos ch previousHeldSeparator]⟩
    else if isQuote ch then
      match hread : readLiteralFrom ch pos (items.length + 1) 0 (pos + 1) [] rest with
      | .error issue => ⟨items, [issue]⟩
      | .ok literal =>
        let item : ParsedItem :=
          ⟨literal.value, pos, literal.ended - pos, false, items.length + 1⟩
        if max ≤ items.length then ⟨items, [tooManyCodesIssue item max]⟩
        else
          arrayFrom max (items ++ [item]) false
            (literal.value.contains commaUnit || literal.value.any isWhitespace) literal.ended
            (rest.drop (literal.ended - (pos + 1)))
    else ⟨items, [elementIssue (items.length + 1) pos ch rest]⟩
termination_by us => us.length
decreasing_by
  all_goals simp only [List.length_cons, List.length_drop]
  all_goals omega

def segmentArray (input : Utf16) (max : ℕ) : Segmentation :=
  let rest := input.dropWhile isWhitespace
  let pos := input.length - rest.length
  if rest.head? = some openBracket then arrayFrom max [] true false (pos + 1) rest.tail
  else ⟨[], [{
    code := .arrayMissingOpen
    message := "A list must start with [ , like [\"code1\", \"code2\"]."
    index := pos
    length := 0
    hint := some "If your codes are not in a list, choose a different format." }]⟩

def segment (input : Utf16) (format : BackupCodesFormat) (limits : Limits) : Segmentation :=
  match format with
  | .array => segmentArray input limits.max
  | .comma => segmentComma input limits.max
  | .space => segmentSpace input limits.max
  | .newline => segmentNewline input limits.max
  | .single => segmentSingle input limits.max

/-! ## Each item -/

/-- The first code unit that fails a check, reported by its offset and itself. -/
def findChar (value : Utf16) (test : UInt16 → Bool) (report : ℕ → UInt16 → BackupCodesIssue) :
    Option BackupCodesIssue :=
  (value.findIdx? test).map fun offset => report offset (value.getD offset 0)

/-- The one problem worth telling about an item. What tells most is looked for first. -/
def classifyItem (item : ParsedItem) (format : BackupCodesFormat) (limits : Limits) :
    Option BackupCodesIssue :=
  let label := itemLabel format item.itemNumber
  -- The place of one code unit of the item, or the whole of it.
  let spot (code : BackupCodesErrorCode) (message : String) (hint : Option String) (offset : ℕ) :
      BackupCodesIssue :=
    ⟨code, message, if item.spanExact then item.start + offset else item.start,
      if item.spanExact then 1 else item.length, some item.itemNumber, hint⟩
  let whole (code : BackupCodesErrorCode) (message hint : String) : BackupCodesIssue :=
    ⟨code, message, item.start, item.length, some item.itemNumber, some hint⟩
  let whitespace := findChar item.value isWhitespace fun offset ch =>
    spot .codeContainsWhitespace
      (if isLineBreak ch then
        s!"{label} contains a line break. A backup code cannot span two lines."
      else s!"{label} contains a space. A backup code cannot contain spaces.")
      (some <|
        if isLineBreak ch then formatSwitchHint .newline
        else if ch ≠ spaceUnit ∧ ch ≠ 0x09 then
          "That looks like a non-breaking space left behind by copy and paste. Delete it."
        else formatSwitchHint .space) offset
  let invisible := findChar item.value isInvisible fun offset _ =>
    spot .codeInvisibleChar s!"{label} contains an invisible character."
      (some s!"Copy and paste often carries hidden characters. Retype {label.toLower} by hand.")
      offset
  let bracket := findChar item.value isBracket fun offset _ =>
    spot .codeContainsBracket s!"{label} contains a bracket. Brackets are not part of a backup code."
      (some (formatSwitchHint .array)) offset
  let comma := findChar item.value (· = commaUnit) fun offset _ =>
    spot .codeContainsComma s!"{label} contains a comma (,). A backup code cannot contain a comma."
      (some <|
        if offset = item.value.length - 1 then s!"Remove the comma at the end of {label.toLower}."
        else formatSwitchHint .comma) offset
  let quote := findChar item.value isQuote fun offset _ =>
    spot .codeContainsQuote
      s!"{label} contains a quote character. Quotes are not part of a backup code."
      (some (formatSwitchHint .array)) offset
  let invalid := findChar item.value (fun u => !isAlphanumeric u && !isCodePunctuation u)
    fun offset ch =>
      spot .codeInvalidChar
        (match punctuationName ch with
        | none => s!"{label} contains a character that is not allowed. Backup codes may only contain letters, digits and - _ . + / =."
        | some named => s!"{label} contains {named}. Backup codes may only contain letters, digits and - _ . + / =.")
        (if ch = semicolon ∧ offset = item.value.length - 1 then
          some s!"Remove the semicolon at the end of {label.toLower}, or replace your semicolons with commas and choose the comma-separated format."
        else none) offset
  let noAlphanumeric :=
    if item.value.any isAlphanumeric then none
    else some (whole .codeNoAlphanumeric
      s!"{label} is not a backup code: it has no letters or digits."
      "If that is a leftover dash or separator, delete it.")
  let tooLong :=
    if item.value.length ≤ limits.maxCodeLength then none
    else some (whole .codeTooLong
      s!"{label} is longer than {limits.maxCodeLength} characters, which is longer than any backup code."
      "Check that two codes did not run together, and that nothing extra was pasted.")
  whitespace <|> invisible <|> bracket <|> comma <|> quote <|> invalid <|> noAlphanumeric <|> tooLong

/-! ## Reading and writing -/

def parseWithFormat (input : Utf16) (format : BackupCodesFormat) (detected : Bool)
    (limits : Limits) : BackupCodesParseResult :=
  if trim input = [] then .ok [] format detected
  else
    let seg := segment input format limits
    let issues :=
      if seg.issues ≠ [] then seg.issues
      else seg.items.filterMap fun item => classifyItem item format limits
    match issues.insertionSort (fun a b => a.index ≤ b.index) with
    | primary :: others => .failed format detected primary (primary :: others)
    | [] => .ok (seg.items.map (·.value)) format detected

/-- The formats a text may have, the most likely first. -/
def detectFormats (trimmed : Utf16) : BackupCodesFormat × List BackupCodesFormat :=
  let hasComma := trimmed.any (· = commaUnit)
  -- A line break is not counted.
  let hasSpace := trimmed.any fun u => isWhitespace u && !isLineBreak u
  let space := if hasSpace then [BackupCodesFormat.space] else []
  if trimmed.any isLineBreak then (.newline, (if hasComma then [.comma] else []) ++ space)
  else if hasComma then (.comma, space)
  else if hasSpace then (.space, [])
  else (.single, [])

def BackupCodesParseResult.isOk : BackupCodesParseResult → Bool
  | .ok .. => true
  | .failed .. => false

def parseBackupCodes (input : Utf16) (options : ParseBackupCodesOptions) :
    BackupCodesParseResult :=
  let requested := options.format.getD .auto
  let limits := options.limits
  if limits.maxInputLength < input.length then
    let issue : BackupCodesIssue := {
      code := .inputTooLong
      message := s!"This is too long to be a list of backup codes. Keep it under {limits.maxInputLength} characters."
      index := limits.maxInputLength
      length := 0
      hint := some "Paste only the codes, not the whole page they came from." }
    match requested with
    | .auto => .failed .single true issue [issue]
    | .declared format => .failed format false issue [issue]
  else
    match requested with
    | .declared format => parseWithFormat input format false limits
    | .auto =>
      let trimmed := trim input
      if trimmed = [] then .ok [] .single true
      else if trimmed.head? = some openBracket then parseWithFormat input .array true limits
      else
        let (first, others) := detectFormats trimmed
        let results := (first :: others).map fun candidate =>
          parseWithFormat input candidate true limits
        (results.find? (·.isOk)).getD (parseWithFormat input first true limits)

/-- `JSON.stringify(code)`. -/
def stringify (code : Utf16) : Utf16 := utf16 (stringText code)

def formatBackupCodes (codes : List Utf16) (format : BackupCodesFormat) : Utf16 :=
  if codes = [] then []
  else
    match format with
    | .array =>
      openBracket :: ([commaUnit, spaceUnit].intercalate (codes.map stringify) ++ [closeBracket])
    | .comma => [commaUnit, spaceUnit].intercalate codes
    | .space => [spaceUnit].intercalate codes
    -- One code can stand alone; a list cannot, and is written line by line.
    | .newline | .single => [lineFeed].intercalate codes

end HVault.BackupCodes
