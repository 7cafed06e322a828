import HVault.Data.UriText
import HVault.Totp.Base32
import HVault.Totp.MigrationReader

/-!
# Links of one-time passwords

The `otpauth://` link of an account, as it is built and as it is understood. A label that makes the
link too long is cut from its end, the account first (`buildFrom`).

* `Composed.parses`: what is composed is understood;
* `buildOtpauthUri_parses`: so is what is built, with the key that was given.

What the browser does with a URL, and letters with the tables of Unicode, is a parameter (`Platform`).
-/

namespace HVault.Otpauth

open Json Backup DocumentCrypto Archive Totp UriText List

/-! ## The platform -/

structure Url where
  hostname : Utf16
  pathname : Utf16
  search : Utf16

def question : UInt16 := 0x3F

/-- A path of one segment; a dot, and two, stand for no segment. -/
def undotted (path : Utf16) : Utf16 := if path = [dot] ∨ path = [dot, dot] then [] else path

def typeText : OtpType → Utf16
  | .totp => units "totp"
  | .hotp => units "hotp"

/-- `new URL`, `toUpperCase` and `toLowerCase`. Neither changes a letter that has the case already, a
digit has none, and a URL whose parts need no escape is its parts. -/
structure Platform where
  parseUrl : Utf16 → Option Url
  toUpperCase : Utf16 → Utf16
  toLowerCase : Utf16 → Utf16
  upper_capital : ∀ s, (s.all fun u => isAlphanumeric u && u.toNat < 0x61) → toUpperCase s = s
  lower_small : ∀ s, (s.all fun u => isAlphanumeric u && 0x60 < u.toNat) → toLowerCase s = s
  parseUrl_parts : ∀ type label path pairs, encodeURIComponent label = some path →
    parseUrl (units "otpauth://" ++ typeText type ++
      slash :: (path ++ question :: formSerialize pairs)) =
      some ⟨typeText type, slash :: undotted path, formSerialize pairs⟩

/-! ## Reading -/

inductive TotpAlgorithm
  | sha1
  | sha256
  | sha512
deriving DecidableEq

def TotpAlgorithm.text : TotpAlgorithm → Utf16
  | .sha1 => units "SHA1"
  | .sha256 => units "SHA256"
  | .sha512 => units "SHA512"

def totpAlgorithm (value : Utf16) : Option TotpAlgorithm :=
  [TotpAlgorithm.sha1, .sha256, .sha512].find? fun algorithm => algorithm.text = value

def supportedDigits : List ℕ := [6, 7, 8]

def defaultDigits : ℕ := 6

def defaultPeriod : ℕ := 30

/-- A stored value, understood. -/
structure ParsedTotp where
  type : OtpType
  secret : Utf16
  issuer : Utf16
  account : Utf16
  algorithm : TotpAlgorithm
  digits : ℕ
  period : ℕ
  counter : Option Utf16
deriving DecidableEq

inductive TotpParseFailure
  | empty
  | invalidBase32
  | invalidUri
  | missingSecret
  | unsupportedAlgorithm
  | unsupportedDigits
  | unsupportedPeriod
deriving DecidableEq

def isNumeral (s : Utf16) : Bool := s ≠ [] ∧ s.all isDigit

def maxSafeInteger : ℕ := 2 ^ 53 - 1

def positiveInteger (raw : Utf16) : Option ℕ :=
  if isNumeral raw ∧ numberOf raw ≤ maxSafeInteger ∧ 0 < numberOf raw then
    some (numberOf raw)
  else none

/-- The issuer and the account of a label. -/
def splitLabel (label : Utf16) : Utf16 × Utf16 :=
  if colon ∈ label then
    (trim (label.takeWhile (· ≠ colon)), trim (dropSpaces (label.drop (label.idxOf colon + 1))))
  else ([], trim label)

/-- A parameter that is there and not empty. -/
def given (param : Option Utf16) : Option Utf16 := param.filter (· ≠ [])

def parseType (host : Utf16) : Option OtpType :=
  if host = units "totp" then some .totp else if host = units "hotp" then some .hotp else none

/-- `pathname.replace(/^\//, '')`. -/
def dropSlash (pathname : Utf16) : Utf16 :=
  match pathname with
  | u :: rest => if u = slash then rest else u :: rest
  | [] => []

def parseAlgorithm (platform : Platform) (raw : Option Utf16) : Except TotpParseFailure TotpAlgorithm :=
  match given raw with
  | none => .ok .sha1
  | some raw =>
    match totpAlgorithm (platform.toUpperCase raw) with
    | some algorithm => .ok algorithm
    | none => .error .unsupportedAlgorithm

def parseDigits (raw : Option Utf16) : Except TotpParseFailure ℕ :=
  match given raw with
  | none => .ok defaultDigits
  | some raw =>
    match positiveInteger raw with
    | some digits => if digits ∈ supportedDigits then .ok digits else .error .unsupportedDigits
    | none => .error .unsupportedDigits

def parsePeriod (raw : Option Utf16) : Except TotpParseFailure ℕ :=
  match given raw with
  | none => .ok defaultPeriod
  | some raw =>
    match positiveInteger raw with
    | some period => .ok period
    | none => .error .unsupportedPeriod

def parseOtpauthUri (platform : Platform) (raw : Utf16) : Except TotpParseFailure ParsedTotp :=
  match platform.parseUrl raw with
  | none => .error .invalidUri
  | some url =>
    match parseType (platform.toLowerCase url.hostname) with
    | none => .error .invalidUri
    | some type => do
      let params := formParse url.search
      let secretParam := (get params (units "secret")).getD []
      if trim secretParam = [] then throw .missingSecret
      let secret := normaliseBase32 platform.toUpperCase secretParam
      if !isDecodableBase32 secret then throw .invalidBase32
      match decodeURIComponent (dropSlash url.pathname) with
      | none => throw .invalidUri
      | some label =>
        let fromLabel := splitLabel label
        let issuer := (given (get params (units "issuer"))).getD fromLabel.1
        let algorithm ← parseAlgorithm platform (get params (units "algorithm"))
        let digits ← parseDigits (get params (units "digits"))
        let period ← parsePeriod (get params (units "period"))
        let counter := if type = .hotp then (get params (units "counter")).filter isNumeral else none
        return { type, secret, issuer, account := fromLabel.2, algorithm, digits, period, counter }

def parseTotpValue (platform : Platform) (raw : Utf16) : Except TotpParseFailure ParsedTotp :=
  let trimmed := trim raw
  if trimmed = [] then .error .empty
  else if (trimmed.take 10).map lowerAscii = units "otpauth://" then
    parseOtpauthUri platform trimmed
  else
    let secret := normaliseBase32 platform.toUpperCase trimmed
    if !isDecodableBase32 secret then .error .invalidBase32
    else .ok ⟨.totp, secret, [], [], .sha1, defaultDigits, defaultPeriod, none⟩

/-! ## Writing -/

structure OtpauthUriInput where
  type : OtpType
  secret : Utf16
  issuer : Utf16
  account : Utf16
  algorithm : TotpAlgorithm
  digits : ℕ
  period : ℕ
  counter : Option Utf16

structure BuiltOtpauthUri where
  uri : Utf16
  truncated : Bool
deriving DecidableEq

/-- What `encodeURIComponent` throws at half of a pair. -/
inductive UriError
  | malformed
deriving DecidableEq

def labelText (issuer account : Utf16) : Utf16 :=
  if issuer.length > 0 then issuer ++ colon :: account else account

/-- The parameters, in the order in which they are set. -/
def parameters (input : OtpauthUriInput) (issuer : Utf16) : List (Utf16 × Utf16) :=
  [(units "secret", input.secret)] ++
    (if issuer.length > 0 then [(units "issuer", issuer)] else []) ++
    [(units "algorithm", input.algorithm.text), (units "digits", decimal input.digits)] ++
    [if input.type = .hotp then (units "counter", input.counter.getD (units "0"))
      else (units "period", decimal input.period)]

def composeUri (input : OtpauthUriInput) (issuer account : Utf16) : Except UriError Utf16 :=
  match encodeURIComponent (labelText issuer account) with
  | none => .error .malformed
  | some path => .ok (units "otpauth://" ++ typeText input.type ++
      slash :: (path ++ question :: formSerialize (parameters input issuer)))

/-- The loop, from the label to which it has come. -/
def buildFrom (input : OtpauthUriInput) (maxLength : ℕ) (issuer account : Utf16) :
    Except UriError (Option BuiltOtpauthUri) := do
  let uri ← composeUri input issuer account
  if uri.length ≤ maxLength then
    return some ⟨uri, issuer ≠ input.issuer ∨ account ≠ input.account⟩
  else if 0 < account.length then buildFrom input maxLength issuer account.dropLast
  else if 0 < issuer.length then buildFrom input maxLength issuer.dropLast account
  else return none
termination_by issuer.length + account.length
decreasing_by
  · rw [List.length_dropLast]
    omega
  · rw [List.length_dropLast]
    omega

def buildOtpauthUri (input : OtpauthUriInput) (maxLength : ℕ) :
    Except UriError (Option BuiltOtpauthUri) :=
  buildFrom input maxLength input.issuer input.account

/-! ## What is composed is understood -/

/-- The account of a key that can be made codes of. -/
structure IsEntry (input : OtpauthUriInput) (bytes : Bytes) : Prop where
  secret : input.secret = encodeBase32 bytes
  nonempty : bytes ≠ []
  digits : input.digits ∈ supportedDigits
  period : 0 < input.period ∧ input.period ≤ maxSafeInteger
  counter : ∀ counter ∈ input.counter, isNumeral counter

/-- What is understood is the account that was given. The label is left out, as it may be cut. -/
structure Agrees (platform : Platform) (input : OtpauthUriInput) (bytes : Bytes)
    (parsed : ParsedTotp) : Prop where
  secret : parsed.secret = input.secret
  decoded : decodeBase32 platform.toUpperCase parsed.secret = some bytes
  type : parsed.type = input.type
  algorithm : parsed.algorithm = input.algorithm
  digits : parsed.digits = input.digits
  period : input.type = .totp → parsed.period = input.period
  counter : input.type = .hotp → parsed.counter = some (input.counter.getD (units "0"))

theorem trim_graphic {s : Utf16} (h : ∀ u ∈ s, isGraphic u) : trim s = s := by
  have hkept : ∀ u ∈ s, isTrimmed u = false := by
    intro u hu
    have hgraphic := of_decide_eq_true (h u hu)
    unfold isTrimmed
    rw [decide_eq_false_iff_not]
    rintro (h | rfl | rfl | rfl | h | rfl | rfl | rfl | rfl | rfl | rfl)
    · omega
    · exact absurd hgraphic (by decide)
    · exact absurd hgraphic (by decide)
    · exact absurd hgraphic (by decide)
    · omega
    all_goals exact absurd hgraphic (by decide)
  have hdrop {t : Utf16} (ht : ∀ u ∈ t, isTrimmed u = false) : t.dropWhile isTrimmed = t := by
    cases t with
    | nil => rfl
    | cons u t =>
      rw [dropWhile_cons_of_neg]
      rw [ht u mem_cons_self]
      exact Bool.false_ne_true
  unfold trim
  rw [hdrop hkept, hdrop fun u hu => hkept u (mem_reverse.1 hu), reverse_reverse]

theorem isGraphic_plain {u : UInt16} (h : isGraphic u) : Utf8.isPlain u := by
  have hgraphic := of_decide_eq_true h
  exact Utf8.isPlain_of_lt (by omega)

/-- A string of ASCII that is seen is the value of a parameter as it is. -/
theorem scalars_graphic {s : Utf16} (h : ∀ u ∈ s, isGraphic u) : utf16 (Utf8.scalars s) = s :=
  Utf8.utf16_scalars (all_eq_true.2 fun u hu => isGraphic_plain (h u hu))

theorem isDigit_graphic {u : UInt16} (h : isDigit u) : isGraphic u := by
  have hdigit := of_decide_eq_true h
  exact decide_eq_true (by omega)

theorem isNumeral_graphic {s : Utf16} (h : isNumeral s) : ∀ u ∈ s, isGraphic u :=
  fun u hu => isDigit_graphic (all_eq_true.1 (of_decide_eq_true h).2 u hu)

theorem numberOf_digits {ds : List ℕ} (h : ∀ d ∈ ds, d < 10) :
    numberOf (ds.reverse.map fun d => .ofNat (0x30 + d)) = Nat.ofDigits 10 ds := by
  unfold numberOf
  induction ds with
  | nil => rfl
  | cons d ds ih =>
    have hd := h d mem_cons_self
    have hdigit : (UInt16.ofNat (0x30 + d)).toNat = 0x30 + d := toNat_unit (by omega)
    rw [reverse_cons, map_append, foldl_append,
      ih fun d hd => h d (mem_cons_of_mem _ hd), Nat.ofDigits_cons]
    show 10 * Nat.ofDigits 10 ds + ((UInt16.ofNat (0x30 + d)).toNat - 0x30) = _
    rw [hdigit]
    omega

theorem numberOf_decimal {n : ℕ} (h : 0 < n) : numberOf (decimal n) = n := by
  unfold decimal
  rw [if_neg h.ne', numberOf_digits fun d hd => Nat.digits_lt_base (by decide) hd,
    Nat.ofDigits_digits]

theorem isNumeral_decimal (n : ℕ) : isNumeral (decimal n) := by
  unfold decimal
  split
  · decide
  · rename_i hn
    refine decide_eq_true ⟨?_, ?_⟩
    · intro hnil
      rw [map_eq_nil_iff, reverse_eq_nil_iff, Nat.digits_eq_nil_iff_eq_zero] at hnil
      exact hn hnil
    · rw [all_eq_true]
      intro u hu
      obtain ⟨d, hd, rfl⟩ := mem_map.1 hu
      have hlt := Nat.digits_lt_base (by decide) (mem_reverse.1 hd)
      have hdigit : (UInt16.ofNat (0x30 + d)).toNat = 0x30 + d := toNat_unit (by omega)
      unfold isDigit
      rw [hdigit]
      exact decide_eq_true (by omega)

theorem positiveInteger_decimal {n : ℕ} (hpos : 0 < n) (hsafe : n ≤ maxSafeInteger) :
    positiveInteger (decimal n) = some n := by
  unfold positiveInteger
  rw [numberOf_decimal hpos]
  exact if_pos ⟨isNumeral_decimal n, hsafe, hpos⟩

theorem given_of_ne {s : Utf16} (h : s ≠ []) : given (some s) = some s :=
  Option.filter_some_pos (decide_eq_true h)

theorem decimal_ne_nil (n : ℕ) : decimal n ≠ [] := (of_decide_eq_true (isNumeral_decimal n)).1

theorem base32_graphic : ∀ u ∈ base32AlphabetChars, isGraphic u ∧ isAlphanumeric u ∧ u.toNat < 0x61 := by
  have hall : (base32AlphabetChars.all fun u =>
      isGraphic u && isAlphanumeric u && u.toNat < 0x61) = true := by decide
  intro u hu
  have hu := all_eq_true.1 hall u hu
  simp only [Bool.and_eq_true, decide_eq_true_eq] at hu
  exact ⟨hu.1.1, hu.1.2, hu.2⟩

section

variable {input : OtpauthUriInput} {bytes : Bytes}

theorem IsEntry.secret_graphic (h : IsEntry input bytes) : ∀ u ∈ input.secret, isGraphic u := by
  intro u hu
  rw [h.secret] at hu
  exact (base32_graphic u (encodeBase32_mem bytes u hu)).1

theorem upper_encodeBase32 (platform : Platform) (bytes : Bytes) :
    platform.toUpperCase (encodeBase32 bytes) = encodeBase32 bytes := by
  refine platform.upper_capital _ (all_eq_true.2 fun u hu => ?_)
  obtain ⟨-, halphanumeric, hlt⟩ := base32_graphic u (encodeBase32_mem bytes u hu)
  rw [halphanumeric, decide_eq_true hlt]
  rfl

theorem IsEntry.secret_ne_nil (h : IsEntry input bytes) : input.secret ≠ [] := by
  rw [h.secret]
  intro hnil
  have hdecodable := isDecodableBase32_encode h.nonempty
  rw [hnil] at hdecodable
  cases hdecodable

/-- The parameters as they are found. -/
def found (input : OtpauthUriInput) (issuer : Utf16) : List (Utf16 × Utf16) :=
  [(units "secret", input.secret)] ++
    (if issuer.length > 0 then [(units "issuer", utf16 (Utf8.scalars issuer))] else []) ++
    [(units "algorithm", input.algorithm.text), (units "digits", decimal input.digits)] ++
    [if input.type = .hotp then (units "counter", input.counter.getD (units "0"))
      else (units "period", decimal input.period)]

theorem IsEntry.formParse (h : IsEntry input bytes) (issuer : Utf16) :
    formParse (formSerialize (parameters input issuer)) = found input issuer := by
  have hdecimal (n : ℕ) : utf16 (Utf8.scalars (decimal n)) = decimal n :=
    scalars_graphic (isNumeral_graphic (isNumeral_decimal n))
  have halgorithm : utf16 (Utf8.scalars input.algorithm.text) = input.algorithm.text := by
    cases input.algorithm <;> decide
  have hcounter : utf16 (Utf8.scalars (input.counter.getD (units "0"))) =
      input.counter.getD (units "0") := by
    cases hcounter : input.counter with
    | none => decide
    | some counter => exact scalars_graphic (isNumeral_graphic (h.counter counter hcounter))
  have hsecret := scalars_graphic h.secret_graphic
  rw [formParse_serialize (by simp [parameters])]
  unfold parameters found
  simp only [map_append, map_cons, map_nil, hsecret, halgorithm, hdecimal]
  congr 1
  · congr 1
    congr 1
    split
    · rfl
    · rfl
  · split
    · rw [hcounter]
      rfl
    · rw [hdecimal]
      rfl

theorem found_secret (input : OtpauthUriInput) (issuer : Utf16) :
    get (found input issuer) (units "secret") = some input.secret := rfl

theorem found_rest {issuer : Utf16} {name : Utf16} (hsecret : name ≠ units "secret")
    (hissuer : name ≠ units "issuer") : get (found input issuer) name =
      get [(units "algorithm", input.algorithm.text), (units "digits", decimal input.digits),
        if input.type = .hotp then (units "counter", input.counter.getD (units "0"))
          else (units "period", decimal input.period)] name := by
  unfold found UriText.get
  rw [append_assoc, append_assoc, find?_append, find?_append,
    find?_cons_of_neg (by simpa using hsecret.symm)]
  split
  · rw [find?_cons_of_neg (by simpa using hissuer.symm)]
    rfl
  · rfl

theorem found_algorithm (input : OtpauthUriInput) (issuer : Utf16) :
    get (found input issuer) (units "algorithm") = some input.algorithm.text :=
  found_rest (by decide) (by decide)

theorem found_digits (input : OtpauthUriInput) (issuer : Utf16) :
    get (found input issuer) (units "digits") = some (decimal input.digits) :=
  found_rest (by decide) (by decide)

theorem found_period (h : input.type = .totp) (issuer : Utf16) :
    get (found input issuer) (units "period") = some (decimal input.period) := by
  rw [found_rest (by decide) (by decide), h]
  rfl

theorem found_no_period (h : input.type = .hotp) (issuer : Utf16) :
    get (found input issuer) (units "period") = none := by
  rw [found_rest (by decide) (by decide), h]
  rfl

theorem found_counter (h : input.type = .hotp) (issuer : Utf16) :
    get (found input issuer) (units "counter") = some (input.counter.getD (units "0")) := by
  rw [found_rest (by decide) (by decide), h]
  rfl

theorem parseType_lower (platform : Platform) (type : OtpType) :
    parseType (platform.toLowerCase (typeText type)) = some type := by
  cases type with
  | totp =>
    rw [platform.lower_small (typeText .totp) (by decide)]
    rfl
  | hotp =>
    rw [platform.lower_small (typeText .hotp) (by decide)]
    rfl

theorem parseAlgorithm_text (platform : Platform) (algorithm : TotpAlgorithm) :
    parseAlgorithm platform (some algorithm.text) = .ok algorithm := by
  unfold parseAlgorithm
  cases algorithm with
  | sha1 | sha256 | sha512 =>
    rw [given_of_ne (by decide)]
    dsimp only
    rw [platform.upper_capital _ (by decide)]
    rfl

theorem parseDigits_decimal {digits : ℕ} (h : digits ∈ supportedDigits) :
    parseDigits (some (decimal digits)) = .ok digits := by
  have hpos : 0 < digits ∧ digits ≤ maxSafeInteger := by
    simp only [supportedDigits, mem_cons, not_mem_nil, or_false] at h
    have hsafe : 8 ≤ maxSafeInteger := by decide
    omega
  unfold parseDigits
  rw [given_of_ne (decimal_ne_nil _)]
  dsimp only
  rw [positiveInteger_decimal hpos.1 hpos.2]
  exact if_pos h

theorem parsePeriod_decimal {period : ℕ} (hpos : 0 < period) (hsafe : period ≤ maxSafeInteger) :
    parsePeriod (some (decimal period)) = .ok period := by
  unfold parsePeriod
  rw [given_of_ne (decimal_ne_nil _)]
  dsimp only
  rw [positiveInteger_decimal hpos hsafe]

/-- A label that was encoded can be decoded, also where its path is taken for none. -/
theorem decode_undotted {label path : Utf16} (h : encodeURIComponent label = some path) :
    ∃ read, decodeURIComponent (undotted path) = some read := by
  unfold undotted
  split
  · exact ⟨[], rfl⟩
  · exact ⟨label, decodeURIComponent_encode h⟩

/-- The link of a path and a query. -/
def link (type : OtpType) (path query : Utf16) : Utf16 :=
  units "otpauth://" ++ typeText type ++ slash :: (path ++ question :: query)

theorem link_graphic {type : OtpType} {path query : Utf16} (hpath : ∀ u ∈ path, isGraphic u)
    (hquery : ∀ u ∈ query, isGraphic u) : ∀ u ∈ link type path query, isGraphic u := by
  have hstart : ((units "otpauth://" ++ typeText type).all isGraphic) = true := by
    cases type <;> decide
  intro u hu
  rcases mem_append.1 hu with hu | hu
  · exact all_eq_true.1 hstart u hu
  · rcases mem_cons.1 hu with rfl | hu
    · decide
    · rcases mem_append.1 hu with hu | hu
      · exact hpath u hu
      · rcases mem_cons.1 hu with rfl | hu
        · decide
        · exact hquery u hu

/-- A link is taken for one. -/
theorem parseTotpValue_link (platform : Platform) {type : OtpType} {path query : Utf16}
    (hpath : ∀ u ∈ path, isGraphic u) (hquery : ∀ u ∈ query, isGraphic u) :
    parseTotpValue platform (link type path query) =
      parseOtpauthUri platform (link type path query) := by
  have hne : link type path query ≠ [] := by
    exact append_ne_nil_of_left_ne_nil
      (append_ne_nil_of_left_ne_nil (by decide) _) _
  have hscheme : ((link type path query).take 10).map lowerAscii = units "otpauth://" := by
    unfold link
    rw [append_assoc, take_append_of_le_length (by decide)]
    decide
  unfold parseTotpValue
  rw [trim_graphic (link_graphic hpath hquery)]
  simp only [if_neg hne, if_pos hscheme]

theorem parseOtpauthUri_link (platform : Platform) (h : IsEntry input bytes) {issuer label path : Utf16}
    (hpath : encodeURIComponent label = some path) :
    ∃ parsed, parseOtpauthUri platform
      (link input.type path (formSerialize (parameters input issuer))) = .ok parsed ∧
        Agrees platform input bytes parsed := by
  obtain ⟨read, hread⟩ := decode_undotted hpath
  have hdrop : dropSlash (slash :: undotted path) = undotted path := by
    rw [dropSlash, if_pos rfl]
  have hsecret : normaliseBase32 platform.toUpperCase input.secret = input.secret := by
    rw [h.secret]
    exact normaliseBase32_encode (upper_encodeBase32 platform bytes)
  have hdecodable : isDecodableBase32 input.secret = true := by
    rw [h.secret]
    exact isDecodableBase32_encode h.nonempty
  have hdecoded : decodeBase32 platform.toUpperCase input.secret = some bytes := by
    rw [h.secret]
    exact decodeBase32_encode (upper_encodeBase32 platform bytes)
  have hnotEmpty : ¬trim input.secret = [] := by
    rw [trim_graphic h.secret_graphic]
    exact h.secret_ne_nil
  obtain ⟨period, hperiod, hsame⟩ :
      ∃ period, parsePeriod (UriText.get (found input issuer) (units "period")) = .ok period ∧
        (input.type = .totp → period = input.period) := by
    cases htype : input.type with
    | totp =>
      rw [found_period htype]
      exact ⟨_, parsePeriod_decimal h.period.1 h.period.2, fun _ => rfl⟩
    | hotp =>
      rw [found_no_period htype]
      exact ⟨_, rfl, fun htotp => absurd htotp (by decide)⟩
  have hcounter (hhotp : input.type = .hotp) :
      (if input.type = .hotp then
        (UriText.get (found input issuer) (units "counter")).filter isNumeral
      else none) = some (input.counter.getD (units "0")) := by
    rw [if_pos hhotp, found_counter hhotp]
    refine Option.filter_some_pos ?_
    cases hcounter : input.counter with
    | none => decide
    | some counter => exact h.counter counter hcounter
  unfold parseOtpauthUri link
  simp only [platform.parseUrl_parts _ _ _ _ hpath, parseType_lower, h.formParse, found_secret,
    Option.getD_some, if_neg hnotEmpty, hsecret, hdecodable, hdrop, hread, found_algorithm,
    found_digits, parseAlgorithm_text, parseDigits_decimal h.digits, hperiod]
  exact ⟨_, rfl, ⟨rfl, hdecoded, rfl, rfl, rfl, hsame, hcounter⟩⟩

theorem composeUri_parses (platform : Platform) (h : IsEntry input bytes) {issuer account uri : Utf16}
    (huri : composeUri input issuer account = .ok uri) :
    ∃ parsed, parseTotpValue platform uri = .ok parsed ∧ Agrees platform input bytes parsed := by
  unfold composeUri at huri
  cases hpath : encodeURIComponent (labelText issuer account) with
  | none =>
    rw [hpath] at huri
    cases huri
  | some path =>
    rw [hpath] at huri
    obtain rfl : link input.type path (formSerialize (parameters input issuer)) = uri :=
      Except.ok.inj huri
    rw [parseTotpValue_link platform (encodeURIComponent_graphic hpath) (formSerialize_graphic _)]
    exact parseOtpauthUri_link platform h hpath

/-- A link that fits is returned. -/
theorem buildFrom_fits {maxLength : ℕ} {issuer account uri : Utf16}
    (huri : composeUri input issuer account = .ok uri) (hfits : uri.length ≤ maxLength) :
    buildFrom input maxLength issuer account =
      .ok (some ⟨uri, issuer ≠ input.issuer ∨ account ≠ input.account⟩) := by
  rw [buildFrom, huri]
  exact if_pos hfits

/-- A label whose link is too long loses its last unit, the account's first. -/
theorem buildFrom_long {maxLength : ℕ} {issuer account uri : Utf16}
    (huri : composeUri input issuer account = .ok uri) (hlong : maxLength < uri.length) :
    buildFrom input maxLength issuer account =
      if 0 < account.length then buildFrom input maxLength issuer account.dropLast
      else if 0 < issuer.length then buildFrom input maxLength issuer.dropLast account
      else .ok none := by
  rw [buildFrom, huri]
  exact if_neg (Nat.not_le.2 hlong)

/-- What the loop ends with is a link of a shorter label, and fits. -/
theorem buildFrom_spec {maxLength : ℕ} {issuer account : Utf16} {built : BuiltOtpauthUri}
    (h : buildFrom input maxLength issuer account = .ok (some built)) :
    built.uri.length ≤ maxLength ∧
      ∃ issuer' account', composeUri input issuer' account' = .ok built.uri := by
  fun_induction buildFrom input maxLength issuer account with
  | case1 issuer account ih1 ih2 =>
    obtain ⟨uri, huri, h⟩ := bind_ok h
    split at h
    · rename_i hfits
      obtain rfl := Option.some.inj (Except.ok.inj h)
      exact ⟨hfits, issuer, account, huri⟩
    · split at h
      · rename_i hlong haccount
        exact ih1 haccount h
      · split at h
        · rename_i hlong haccount hissuer
          exact ih2 hissuer h
        · cases h

end

/-- A link that is built fits, and is understood as the account it is of. -/
theorem buildOtpauthUri_parses (platform : Platform) {input : OtpauthUriInput} {bytes : Bytes}
    (hentry : IsEntry input bytes) {maxLength : ℕ} {built : BuiltOtpauthUri}
    (h : buildOtpauthUri input maxLength = .ok (some built)) :
    built.uri.length ≤ maxLength ∧ ∃ parsed, parseTotpValue platform built.uri = .ok parsed ∧
      Agrees platform input bytes parsed := by
  obtain ⟨hfits, issuer, account, huri⟩ := buildFrom_spec h
  exact ⟨hfits, composeUri_parses platform hentry huri⟩

/-! ## A platform -/

def upperAscii (u : UInt16) : UInt16 := if 0x61 ≤ u.toNat ∧ u.toNat ≤ 0x7A then u - 0x20 else u

/-- URLs of this scheme taken apart as they stand. -/
def splitUrl (s : Utf16) : Option Url :=
  if (units "otpauth://").isPrefixOf s then
    let rest := s.drop 10
    let path := (rest.dropWhile (· ≠ slash)).drop 1
    some ⟨rest.takeWhile (· ≠ slash), slash :: undotted (path.takeWhile (· ≠ question)),
      (path.dropWhile (· ≠ question)).drop 1⟩
  else none

theorem span_mark {s : Utf16} {mark : UInt16} (h : mark ∉ s) (rest : Utf16) :
    (s ++ mark :: rest).takeWhile (· ≠ mark) = s ∧
      (s ++ mark :: rest).dropWhile (· ≠ mark) = mark :: rest := by
  have hs : ∀ u ∈ s, decide (u ≠ mark) = true := fun u hu => decide_eq_true fun heq => h (heq ▸ hu)
  rw [takeWhile_append_of_pos hs, dropWhile_append_of_pos hs,
    takeWhile_cons_of_neg (by simp), dropWhile_cons_of_neg (by simp), append_nil]
  exact ⟨rfl, rfl⟩

theorem question_notMem {label path : Utf16} (h : encodeURIComponent label = some path) :
    question ∉ path := by
  unfold encodeURIComponent at h
  split_ifs at h
  cases h
  intro hmem
  obtain ⟨c, -, hmem⟩ := mem_flatMap.1 hmem
  unfold escapeChar at hmem
  split at hmem
  · rename_i hkept
    rw [← mem_singleton.1 hmem] at hkept
    exact absurd hkept.2 (by decide)
  · obtain ⟨b, -, hmem⟩ := mem_flatMap.1 hmem
    have hb := b.toNat_lt
    have hdigit {n : ℕ} (hn : n < 16) : question ≠ UriText.hexDigit n := by
      interval_cases n <;> decide
    simp only [escapeByte, mem_cons, not_mem_nil, or_false] at hmem
    rcases hmem with hmem | hmem | hmem
    · exact absurd hmem (by decide)
    · exact hdigit (by omega) hmem
    · exact hdigit (by omega) hmem

theorem splitUrl_parts (type : OtpType) (label path : Utf16) (pairs : List (Utf16 × Utf16))
    (h : encodeURIComponent label = some path) :
    splitUrl (units "otpauth://" ++ typeText type ++
      slash :: (path ++ question :: formSerialize pairs)) =
      some ⟨typeText type, slash :: undotted path, formSerialize pairs⟩ := by
  have hhost : slash ∉ typeText type := by
    cases type <;> decide
  have hstart : (units "otpauth://").isPrefixOf (units "otpauth://" ++ typeText type ++
      slash :: (path ++ question :: formSerialize pairs)) = true := by
    rw [append_assoc]
    exact isPrefixOf_iff_prefix.2 (prefix_append _ _)
  have hdrop : (units "otpauth://" ++ typeText type ++
      slash :: (path ++ question :: formSerialize pairs)).drop 10 =
      typeText type ++ slash :: (path ++ question :: formSerialize pairs) := by
    rw [append_assoc]
    exact drop_left' rfl
  unfold splitUrl
  simp only [if_pos hstart, hdrop, span_mark hhost, drop_one, tail_cons,
    span_mark (question_notMem h)]

theorem map_case {s : Utf16} {p : UInt16 → Bool} {f : UInt16 → UInt16}
    (h : s.all fun u => isAlphanumeric u && p u) (hf : ∀ u, p u → f u = u) : s.map f = s := by
  refine (map_congr_left fun u hu => hf u ?_).trans (map_id s)
  exact (Bool.and_eq_true_iff.1 (all_eq_true.1 h u hu)).2

def plainPlatform : Platform where
  parseUrl := splitUrl
  toUpperCase s := s.map upperAscii
  toLowerCase s := s.map lowerAscii
  upper_capital s h := map_case h fun u hu => by
    have hu := of_decide_eq_true hu
    exact if_neg (by omega)
  lower_small s h := map_case h fun u hu => by
    have hu := of_decide_eq_true hu
    exact if_neg (by omega)
  parseUrl_parts := splitUrl_parts

/-- A key for codes by a counter that has no counter. -/
def withoutCounter : OtpauthUriInput :=
  ⟨.hotp, encodeBase32 [0x41], [], [], .sha1, 6, 30, none⟩

theorem withoutCounter_entry : IsEntry withoutCounter [0x41] :=
  ⟨rfl, by decide, by decide, by decide, nofun⟩

def withoutCounterUri : Utf16 :=
  units "otpauth://hotp/?secret=IE&algorithm=SHA1&digits=6&counter=0"

theorem build_withoutCounter :
    buildOtpauthUri withoutCounter 500 = .ok (some ⟨withoutCounterUri, false⟩) := by
  have huri : composeUri withoutCounter [] [] = .ok withoutCounterUri := rfl
  rw [buildOtpauthUri]
  exact buildFrom_fits huri (by decide)

/-- A key with a label. -/
def labelled : OtpauthUriInput :=
  ⟨.totp, encodeBase32 [0x41], units "Ab", units "c", .sha256, 8, 30, none⟩

theorem labelled_entry : IsEntry labelled [0x41] :=
  ⟨rfl, by decide, by decide, by decide, nofun⟩

/-- Its link where all of the account and half of the issuer have been cut. -/
def labelledUri : Utf16 :=
  units "otpauth://totp/A%3A?secret=IE&issuer=A&algorithm=SHA256&digits=8&period=30"

theorem build_labelled :
    buildOtpauthUri labelled 74 = .ok (some ⟨labelledUri, true⟩) := by
  have hwhole : composeUri labelled (units "Ab") (units "c") = .ok (units
    "otpauth://totp/Ab%3Ac?secret=IE&issuer=Ab&algorithm=SHA256&digits=8&period=30") := rfl
  have hissuer : composeUri labelled (units "Ab") [] = .ok (units
    "otpauth://totp/Ab%3A?secret=IE&issuer=Ab&algorithm=SHA256&digits=8&period=30") := rfl
  have hcut : composeUri labelled (units "A") [] = .ok labelledUri := rfl
  rw [buildOtpauthUri]
  refine (buildFrom_long hwhole (by decide)).trans ?_
  refine (buildFrom_long hissuer (by decide)).trans ?_
  exact buildFrom_fits hcut (by decide)

theorem buildOtpauthUri_parses_sample : labelledUri.length ≤ 74 ∧
    ∃ parsed, parseTotpValue plainPlatform labelledUri = .ok parsed ∧
      Agrees plainPlatform labelled [0x41] parsed :=
  buildOtpauthUri_parses plainPlatform labelled_entry build_labelled

/-- It is read back with one. -/
theorem counter_read_back :
    buildOtpauthUri withoutCounter 500 = .ok (some ⟨withoutCounterUri, false⟩) ∧
      ∃ parsed, parseTotpValue plainPlatform withoutCounterUri = .ok parsed ∧
        parsed.counter ≠ withoutCounter.counter := by
  obtain ⟨parsed, hparsed, hagrees⟩ :=
    @composeUri_parses withoutCounter [0x41] plainPlatform withoutCounter_entry [] []
      withoutCounterUri rfl
  refine ⟨build_withoutCounter, parsed, hparsed, ?_⟩
  rw [hagrees.counter rfl]
  exact Option.some_ne_none _

/-! ## The codec -/

/-- **Base32 is a codec.** Bytes are decoded from what they are encoded as, which is decodable where
there are any; and letters that are decodable are encoded again, up to case, separators and padding,
where the bits that no byte takes are zero. -/
theorem base32_codec (platform : Platform) :
    (∀ bytes, decodeBase32 platform.toUpperCase (encodeBase32 bytes) = some bytes ∧
      (isDecodableBase32 (encodeBase32 bytes) = true ↔ bytes ≠ [])) ∧
    ∀ value, isDecodableBase32 (normaliseBase32 platform.toUpperCase value) = true →
      ∃ bytes, decodeBase32 platform.toUpperCase value = some bytes ∧
        (encodeBase32 bytes = normaliseBase32 platform.toUpperCase value ↔
          unusedBits (normaliseBase32 platform.toUpperCase value) = 0) := by
  refine ⟨fun bytes => ⟨decodeBase32_encode (upper_encodeBase32 platform bytes), ?_, ?_⟩,
    fun value hvalue => encodeBase32_decode hvalue⟩
  · rintro hdecodable rfl
    exact absurd hdecodable (by decide)
  · exact isDecodableBase32_encode

theorem base32_codec_sample :
    ∃ bytes, decodeBase32 plainPlatform.toUpperCase (units "me ra-y=") = some bytes ∧
      (encodeBase32 bytes = normaliseBase32 plainPlatform.toUpperCase (units "me ra-y=") ↔
        unusedBits (normaliseBase32 plainPlatform.toUpperCase (units "me ra-y=")) = 0) :=
  (base32_codec plainPlatform).2 _ (by decide)

/-- No bytes are encoded as no letters, which are not decodable. -/
theorem encodeBase32_nil_refused : encodeBase32 [] = [] ∧
    ¬ ∀ bytes, isDecodableBase32 (encodeBase32 bytes) = true :=
  ⟨rfl, fun hall => absurd (hall []) (by decide)⟩

end HVault.Otpauth
