import HVault.Export.ArchiveNames
import HVault.Json.Schema

/-!
# What an item holds

The schemas that an item's data is checked with before it is sealed and after it is opened.

* `normalizeUri_idempotent`: an address that was completed is complete;
* `vaultItemDataSchemas_stable`: what is accepted on writing is accepted on reading, and stays.

An address's regular expression, an email address and a time are judged by the platform and by the
schema library (`Judges`).
-/

namespace HVault.ItemData

open Json DocumentCrypto Archive

structure Judges where
  /-- `new RegExp(s)` does not throw. -/
  compiles : Utf16 → Bool
  /-- `z.email()` accepts. -/
  isEmail : Utf16 → Bool
  /-- `new Date(s)` is a time. -/
  isTime : Utf16 → Bool

/-! ## Addresses -/

/-- The text begins with the word, in whatever case. -/
def beginsWith (word s : Utf16) : Bool := (s.take word.length).map lowerAscii = word

/-- `/^(https?:|mailto:)/i`. -/
def hasWebScheme (uri : Utf16) : Bool :=
  beginsWith (units "http:") uri || beginsWith (units "https:") uri || beginsWith (units "mailto:") uri

def isLetter (u : UInt16) : Bool := 0x61 ≤ (lowerAscii u).toNat ∧ (lowerAscii u).toNat ≤ 0x7A

def isSchemePart (u : UInt16) : Bool := isLetter u ∨ isDigit u ∨ u = 0x2B ∨ u = 0x2E ∨ u = 0x2D

/-- `/^[a-z][a-z0-9+.-]*:/i`. -/
def hasScheme (uri : Utf16) : Bool :=
  match uri with
  | u :: rest => isLetter u && (rest.dropWhile isSchemePart).head? = some 0x3A
  | [] => false

def normalizeUri (uri : Utf16) : Utf16 :=
  if uri = [] then uri
  else if hasWebScheme uri then uri
  else if hasScheme uri then uri
  else if [slash, slash].isPrefixOf uri then units "https:" ++ uri
  else units "https://" ++ uri

theorem hasWebScheme_https (rest : Utf16) : hasWebScheme (units "https:" ++ rest) := by
  have hword : beginsWith (units "https:") (units "https:" ++ rest) = true := by
    unfold beginsWith
    rw [List.take_left]
    decide
  unfold hasWebScheme
  rw [hword, Bool.or_true, Bool.true_or]

theorem normalizeUri_idempotent (uri : Utf16) : normalizeUri (normalizeUri uri) = normalizeUri uri := by
  have hkept {s : Utf16} (hs : hasWebScheme s) : normalizeUri s = s := by
    unfold normalizeUri
    split_ifs <;> rfl
  by_cases hempty : uri = []
  · rw [hempty]
    rfl
  · by_cases hweb : hasWebScheme uri
    · rw [hkept hweb, hkept hweb]
    · by_cases hscheme : hasScheme uri
      · have hsame : normalizeUri uri = uri := by
          unfold normalizeUri
          rw [if_neg hempty, if_neg hweb, if_pos hscheme]
        rw [hsame, hsame]
      · -- the scheme is put before it, and then it has one
        have hput : ∃ rest, normalizeUri uri = units "https:" ++ rest := by
          unfold normalizeUri
          rw [if_neg hempty, if_neg hweb, if_neg hscheme]
          split_ifs
          · exact ⟨uri, rfl⟩
          · exact ⟨[slash, slash] ++ uri, rfl⟩
        obtain ⟨rest, hrest⟩ := hput
        rw [hrest]
        exact hkept (hasWebScheme_https rest)

def maxUriLength : ℕ := 2048

def uriMatchTypes : List Utf16 := ["domain", "exact", "startsWith", "regex"].map units

def isRegex (uriMatch : Utf16) : Bool := uriMatch = units "regex"

/-- The address as it is stored; a pattern is left alone. -/
def storedUri (uri uriMatch : Utf16) : Utf16 := if isRegex uriMatch then uri else normalizeUri uri

def isValidUriLength (uri uriMatch : Utf16) : Bool := (storedUri uri uriMatch).length ≤ maxUriLength

/-- A check of an address and how it is matched. -/
def onEntry (check : Utf16 → Utf16 → Bool) : Value → Bool
  | .object fields =>
    match lookup (units "uri") fields, lookup (units "match") fields with
    | some (.string uri), some (.string uriMatch) => check uri uriMatch
    | _, _ => true
  | _ => true

def normalizeEntry : Value → Value
  | .object fields =>
    match lookup (units "uri") fields, lookup (units "match") fields with
    | some (.string uri), some (.string uriMatch) =>
      .object (assign (units "uri") (.string (storedUri uri uriMatch)) fields)
    | _, _ => .object fields
  | v => v

def uriIssue (message : String) : Issue := ⟨["uri"], some message⟩

def uriTooLongMessage : String :=
  "URI must be 2048 characters or fewer, counting the https:// that a bare domain is given"

def uriEntryObject : Schema := .object [("uri", .string), ("match", .enum uriMatchTypes)]

def uriEntrySchema (judges : Judges) : Schema :=
  (((uriEntryObject.transform normalizeEntry).refine (onEntry isValidUriLength)
    (uriIssue uriTooLongMessage)).refine
    (onEntry fun uri uriMatch => isRegex uriMatch || uri = [] || hasWebScheme uri)
    (uriIssue "URI must start with http://, https://, or mailto:")).refine
    (onEntry fun uri uriMatch => !isRegex uriMatch || judges.compiles uri)
    (uriIssue "Invalid regular expression pattern")

/-! ## Times and telephone numbers -/

def eat (mark : UInt16) : Utf16 → Option Utf16
  | u :: rest => if u = mark then some rest else none
  | [] => none

def eatDigits : ℕ → Utf16 → Option Utf16
  | 0, s => some s
  | _ + 1, [] => none
  | n + 1, u :: rest => if isDigit u then eatDigits n rest else none

/-- `(Z|[+-]\d{2}:\d{2})?$`. -/
def isZone : Utf16 → Bool
  | [] => true
  | u :: rest =>
    if u = 0x5A then rest = []
    else if u = 0x2B ∨ u = 0x2D then (eatDigits 2 rest >>= eat 0x3A >>= eatDigits 2) = some []
    else false

/-- `(\.\d+)?` and the rest. -/
def isFraction (s : Utf16) : Bool :=
  match eat 0x2E s with
  | some rest => rest.head?.any isDigit && isZone (rest.dropWhile isDigit)
  | none => isZone s

/-- `(:\d{2}(\.\d+)?)?` and the rest. -/
def isSeconds (s : Utf16) : Bool :=
  match eat 0x3A s with
  | some rest => (eatDigits 2 rest).any isFraction
  | none => isZone s

/-- A date, or a date and a time. -/
def isIso8601 (s : Utf16) : Bool :=
  match eatDigits 4 s >>= eat 0x2D >>= eatDigits 2 >>= eat 0x2D >>= eatDigits 2 with
  | none => false
  | some [] => true
  | some (u :: rest) => u = 0x54 && (eatDigits 2 rest >>= eat 0x3A >>= eatDigits 2).any isSeconds

def isLeapYear (year : ℕ) : Bool := year % 4 = 0 ∧ (year % 100 ≠ 0 ∨ year % 400 = 0)

def daysInMonth (year month : ℕ) : ℕ :=
  if month = 2 then if isLeapYear year then 29 else 28
  else if month ∈ [4, 6, 9, 11] then 30
  else 31

/-- A date that a `Date` does not move. -/
def isCalendarDate (s : Utf16) : Bool :=
  match (s.takeWhile (· ≠ 0x54)).splitOn 0x2D with
  | year :: month :: day :: _ =>
    1 ≤ numberOf month ∧ numberOf month ≤ 12 ∧ 1 ≤ numberOf day ∧
      numberOf day ≤ daysInMonth (numberOf year) (numberOf month)
  | _ => false

def hasValidTime (judges : Judges) (s : Utf16) : Bool := 0x54 ∉ s || judges.isTime s

def isLineEnd (u : UInt16) : Bool := u = 0x0A ∨ u = 0x0D ∨ u = 0x2028 ∨ u = 0x2029

/-- `[\d\s().-]`. -/
def isPhonePart (u : UInt16) : Bool :=
  isDigit u ∨ isTrimmed u ∨ u = 0x28 ∨ u = 0x29 ∨ u = 0x2E ∨ u = 0x2D

/-- `/^\+?(?=.*\d)[\d\s().-]+$/`, or nothing: a digit must come before the first line ends. -/
def isValidIdentityPhone (s : Utf16) : Bool :=
  let number := (eat 0x2B s).getD s
  s = [] || (number.takeWhile (!isLineEnd ·)).any isDigit && number.all isPhonePart

def isValidIdentityEmail (judges : Judges) (s : Utf16) : Bool := s = [] || judges.isEmail s

/-! ## The schemas -/

def maxNoteContentLength : ℕ := 50000
def maxLoginBackupCodes : ℕ := 50
def maxLoginBackupCodeLength : ℕ := 128
def maxLoginUsernameLength : ℕ := 500
def maxLoginPasswordLength : ℕ := 10000
def maxLoginTotpLength : ℕ := 500
def maxUrisPerItem : ℕ := 100
def maxCustomFieldNameLength : ℕ := 500
def maxCustomFieldsPerItem : ℕ := 100
def maxSecretDescriptionLength : ℕ := 10000
def maxCardCardholderNameLength : ℕ := 300
def maxCardBrandLength : ℕ := 50
def maxCardNumberLength : ℕ := 30
def maxCardExpMonthLength : ℕ := 2
def maxCardExpYearLength : ℕ := 4
def maxCardCvvLength : ℕ := 4
def maxIdentityNameLength : ℕ := 200
def maxIdentityEmailLength : ℕ := 254
def maxIdentityPhoneLength : ℕ := 30
def maxIdentityPhones : ℕ := 10
def maxIdentityPhoneLabelLength : ℕ := 50
def maxIdentityCompanyLength : ℕ := 300
def maxIdentitySsnLength : ℕ := 20
def maxIdentityPassportLength : ℕ := 50
def maxAddressStreetLength : ℕ := 500
def maxAddressCityLength : ℕ := 200
def maxAddressStateLength : ℕ := 200
def maxAddressZipLength : ℕ := 20
def maxAddressCountryLength : ℕ := 100
def maxAddressDeliveryNotesLength : ℕ := 1000

/-- `z.string().max(n)`. -/
def text (n : ℕ) : Schema := Schema.string.maxLength n

def optionalText (n : ℕ) : Schema := (text n).optional

/-- `z.string().max(n).optional().default('')`. -/
def textOrEmpty (n : ℕ) : Schema := (optionalText n).withDefault (.string [])

/-- A further check of a string. -/
def stringThat (check : Utf16 → Bool) (message : String) (schema : Schema) : Schema :=
  schema.refine (fun
    | .string s => check s
    | _ => true) ⟨[], some message⟩

/-- Nothing where an array may be, or an empty one. -/
def arrayOrEmpty (n : ℕ) (schema : Schema) : Schema :=
  (schema.array.maxLength n).optional.withDefault (.array [])

def customFieldSchema : Schema := .object
  [("name", (Schema.string.minLength 1).maxLength maxCustomFieldNameLength),
    ("value", text maxNoteContentLength),
    ("type", .enum (["text", "hidden", "boolean"].map units))]

def loginDataSchema (judges : Judges) : Schema := .object
  [("username", textOrEmpty maxLoginUsernameLength),
    ("password", textOrEmpty maxLoginPasswordLength),
    ("uris", arrayOrEmpty maxUrisPerItem (uriEntrySchema judges)),
    ("totp", optionalText maxLoginTotpLength),
    ("backupCodes", ((text maxLoginBackupCodeLength).array.maxLength maxLoginBackupCodes).optional),
    ("notes", optionalText maxNoteContentLength),
    ("customFields", arrayOrEmpty maxCustomFieldsPerItem customFieldSchema)]

def expiresAtSchema (judges : Judges) : Schema :=
  stringThat (hasValidTime judges) "expiresAt must have a valid time component"
    (stringThat isCalendarDate "expiresAt must be a valid calendar date"
      (stringThat isIso8601 "expiresAt must be a valid ISO 8601 date or datetime string" (text 100)))

def secretDataSchema (judges : Judges) : Schema := .object
  [("value", textOrEmpty maxNoteContentLength),
    ("description", optionalText maxSecretDescriptionLength),
    ("expiresAt", (expiresAtSchema judges).optional),
    ("customFields", arrayOrEmpty maxCustomFieldsPerItem customFieldSchema)]

def noteDataSchema : Schema := .object
  [("content", textOrEmpty maxNoteContentLength),
    ("format", (Schema.enum (["markdown", "plaintext"].map units)).optional.withDefault
      (.string (units "markdown"))),
    ("customFields", (customFieldSchema.array.maxLength maxCustomFieldsPerItem).optional)]

def addressShape : Schema.Shape :=
  [("street", textOrEmpty maxAddressStreetLength),
    ("street2", textOrEmpty maxAddressStreetLength),
    ("city", textOrEmpty maxAddressCityLength),
    ("state", textOrEmpty maxAddressStateLength),
    ("zip", textOrEmpty maxAddressZipLength),
    ("country", textOrEmpty maxAddressCountryLength)]

def addressSchema : Schema := .object addressShape

def identityAddressSchema : Schema :=
  .object (addressShape ++ [("deliveryNotes", textOrEmpty maxAddressDeliveryNotesLength)])

def cardDataSchema : Schema := .object
  [("cardholderName", textOrEmpty maxCardCardholderNameLength),
    ("number", textOrEmpty maxCardNumberLength),
    ("expMonth", textOrEmpty maxCardExpMonthLength),
    ("expYear", textOrEmpty maxCardExpYearLength),
    ("cvv", textOrEmpty maxCardCvvLength),
    ("brand", optionalText maxCardBrandLength),
    ("notes", optionalText maxNoteContentLength),
    ("billingAddress", addressSchema.optional),
    ("customFields", (customFieldSchema.array.maxLength maxCustomFieldsPerItem).optional)]

def phoneSchema : Schema := .object
  [("label", optionalText maxIdentityPhoneLabelLength),
    ("number", stringThat isValidIdentityPhone "Invalid phone number"
      ((Schema.string.minLength 1).maxLength maxIdentityPhoneLength))]

def identityDataSchema (judges : Judges) : Schema := .object
  [("firstName", textOrEmpty maxIdentityNameLength),
    ("lastName", textOrEmpty maxIdentityNameLength),
    ("email", (stringThat (isValidIdentityEmail judges) "Invalid email address"
      (text maxIdentityEmailLength)).optional),
    ("phone", (stringThat isValidIdentityPhone "Invalid phone number"
      (text maxIdentityPhoneLength)).optional),
    ("phones", (phoneSchema.array.maxLength maxIdentityPhones).optional),
    ("address", identityAddressSchema.optional),
    ("company", optionalText maxIdentityCompanyLength),
    ("ssn", optionalText maxIdentitySsnLength),
    ("passport", optionalText maxIdentityPassportLength),
    ("notes", optionalText maxNoteContentLength),
    ("customFields", arrayOrEmpty maxCustomFieldsPerItem customFieldSchema)]

inductive ItemType
  | login
  | secret
  | note
  | card
  | identity
deriving DecidableEq

def vaultItemDataSchemas (judges : Judges) : ItemType → Schema
  | .login => loginDataSchema judges
  | .secret => secretDataSchema judges
  | .note => noteDataSchema
  | .card => cardDataSchema
  | .identity => identityDataSchema judges

/-! ## What is accepted stays -/

section

open Schema

theorem stable_text (n : ℕ) : Stable (text n) := stable_string.maxLength n

theorem stable_optionalText (n : ℕ) : Stable (optionalText n) := (stable_text n).optional

theorem stable_textOrEmpty (n : ℕ) : Stable (textOrEmpty n) :=
  (stable_optionalText n).withDefault (plain_string [])
    (refine_eq_ok.2 ⟨rfl, decide_eq_true (Nat.zero_le n)⟩)

theorem stable_arrayOrEmpty (n : ℕ) {schema : Schema} (h : Stable schema) :
    Stable (arrayOrEmpty n schema) :=
  ((h.array.maxLength n).optional).withDefault (plain_array (List.forall_mem_nil _))
    (refine_eq_ok.2 ⟨rfl, decide_eq_true (Nat.zero_le n)⟩)

theorem Stable.stringThat {schema : Schema} (h : Stable schema) (check : Utf16 → Bool) (message : String) :
    Stable (stringThat check message schema) := h.refine _ _

/-- An address and how it is matched. -/
def uriEntry (uri uriMatch : Utf16) : Value :=
  .object [(units "uri", .string uri), (units "match", .string uriMatch)]

theorem uriEntryObject_eq_ok {v : Value} (h : uriEntryObject (some v) = .ok (some v)) :
    ∃ uri uriMatch, v = uriEntry uri uriMatch ∧ uriMatch ∈ uriMatchTypes := by
  unfold uriEntryObject object at h
  split at h
  · obtain ⟨read, hread, hv⟩ := bind_ok h
    obtain ⟨uri, huri, hread⟩ := bind_ok hread
    obtain ⟨rest, hrest, hread⟩ := bind_ok hread
    obtain ⟨uriMatch, hmatch, hrest⟩ := bind_ok hrest
    obtain ⟨uri, rfl⟩ := string_eq_ok (mapError_ok huri)
    obtain ⟨uriMatch, hmem, rfl⟩ := enum_eq_ok (mapError_ok hmatch)
    cases hrest
    cases hread
    exact ⟨uri, uriMatch, (Option.some.inj (Except.ok.inj hv)).symm, hmem⟩
  · cases h

variable (uri : Utf16)

theorem uriEntryObject_entry {uriMatch : Utf16} (h : uriMatch ∈ uriMatchTypes) :
    uriEntryObject (some (uriEntry uri uriMatch)) = .ok (some (uriEntry uri uriMatch)) := by
  have henum : enum uriMatchTypes (some (.string uriMatch)) = .ok (some (.string uriMatch)) := if_pos h
  have hfields : properties [(units "uri", .string uri), (units "match", .string uriMatch)]
      [("uri", string), ("match", enum uriMatchTypes)] =
        .ok [(units "uri", .string uri), (units "match", .string uriMatch)] := by
    have hmatch : lookup (utf16 "match".toList)
        [(units "uri", Value.string uri), (units "match", Value.string uriMatch)] =
          some (.string uriMatch) := rfl
    have huri : lookup (utf16 "uri".toList)
        [(units "uri", Value.string uri), (units "match", Value.string uriMatch)] =
          some (.string uri) := rfl
    simp only [properties, hmatch, huri, henum]
    rfl
  unfold uriEntryObject uriEntry object
  dsimp only
  rw [hfields]
  rfl

variable (uriMatch : Utf16)

theorem normalizeEntry_entry :
    normalizeEntry (uriEntry uri uriMatch) = uriEntry (storedUri uri uriMatch) uriMatch := rfl

theorem storedUri_idempotent :
    storedUri (storedUri uri uriMatch) uriMatch = storedUri uri uriMatch := by
  unfold storedUri
  split_ifs
  · rfl
  · exact normalizeUri_idempotent uri

theorem plain_uriEntry : Plain (uriEntry uri uriMatch) := by
  refine plain_object (pairwise_follows (by decide : ([units "uri", units "match"]).Nodup) ?_) ?_
  · exact List.all_eq_true.1 (by decide : ([units "uri", units "match"].all isName) = true)
  · intro field hfield
    rcases List.mem_cons.1 hfield with rfl | hfield
    · exact plain_string uri
    · obtain rfl := List.mem_singleton.1 hfield
      exact plain_string uriMatch

variable (judges : Judges)

/-- An address is completed once. -/
theorem stable_uriEntrySchema : Stable (uriEntrySchema judges) := by
  refine Stable.refine (Stable.refine (Stable.refine (Stable.transform ?_ ?_) _ _) _ _) _ _
  · refine stable_object (by decide) ?_
    simp only [List.forall_mem_cons]
    exact ⟨stable_string, stable_enum _, List.forall_mem_nil _⟩
  · intro v _ hv
    obtain ⟨uri, uriMatch, rfl, hmem⟩ := uriEntryObject_eq_ok hv
    rw [normalizeEntry_entry, normalizeEntry_entry, storedUri_idempotent]
    exact ⟨plain_uriEntry _ _, uriEntryObject_entry _ hmem, rfl⟩

theorem stable_customFieldSchema : Stable customFieldSchema := by
  refine stable_object (by simp only [List.map_cons, List.map_nil]; decide) ?_
  simp only [List.forall_mem_cons]
  exact ⟨(stable_string.minLength _).maxLength _, stable_text _, stable_enum _, List.forall_mem_nil _⟩

theorem stable_customFields : Stable (arrayOrEmpty maxCustomFieldsPerItem customFieldSchema) :=
  stable_arrayOrEmpty _ stable_customFieldSchema

theorem stable_optionalCustomFields :
    Stable (customFieldSchema.array.maxLength maxCustomFieldsPerItem).optional :=
  ((stable_customFieldSchema.array).maxLength _).optional

theorem stable_loginDataSchema : Stable (loginDataSchema judges) := by
  refine stable_object (by simp only [List.map_cons, List.map_nil]; decide) ?_
  simp only [List.forall_mem_cons]
  exact ⟨stable_textOrEmpty _, stable_textOrEmpty _, stable_arrayOrEmpty _ (stable_uriEntrySchema judges),
    stable_optionalText _, ((stable_text _).array.maxLength _).optional, stable_optionalText _,
    stable_customFields, List.forall_mem_nil _⟩

theorem stable_secretDataSchema : Stable (secretDataSchema judges) := by
  refine stable_object (by simp only [List.map_cons, List.map_nil]; decide) ?_
  simp only [List.forall_mem_cons]
  have hexpires : Stable (expiresAtSchema judges) :=
    Stable.stringThat (Stable.stringThat (Stable.stringThat (stable_text _) _ _) _ _) _ _
  exact ⟨stable_textOrEmpty _, stable_optionalText _, hexpires.optional, stable_customFields,
    List.forall_mem_nil _⟩

theorem stable_noteDataSchema : Stable noteDataSchema := by
  refine stable_object (by simp only [List.map_cons, List.map_nil]; decide) ?_
  simp only [List.forall_mem_cons]
  exact ⟨stable_textOrEmpty _, (stable_enum _).optional.withDefault (plain_string _) rfl,
    stable_optionalCustomFields, List.forall_mem_nil _⟩

theorem stable_addressShape : ∀ property ∈ addressShape, Stable property.2 := by
  unfold addressShape
  simp only [List.forall_mem_cons]
  exact ⟨stable_textOrEmpty _, stable_textOrEmpty _, stable_textOrEmpty _, stable_textOrEmpty _,
    stable_textOrEmpty _, stable_textOrEmpty _, List.forall_mem_nil _⟩

theorem stable_addressSchema : Stable addressSchema :=
  stable_object (by decide) stable_addressShape

theorem stable_identityAddressSchema : Stable identityAddressSchema := by
  refine stable_object (by decide) fun property hproperty => ?_
  rcases List.mem_append.1 hproperty with hproperty | hproperty
  · exact stable_addressShape property hproperty
  · obtain rfl := List.mem_singleton.1 hproperty
    exact stable_textOrEmpty _

theorem stable_cardDataSchema : Stable cardDataSchema := by
  refine stable_object (by simp only [List.map_cons, List.map_nil]; decide) ?_
  simp only [List.forall_mem_cons]
  exact ⟨stable_textOrEmpty _, stable_textOrEmpty _, stable_textOrEmpty _, stable_textOrEmpty _,
    stable_textOrEmpty _, stable_optionalText _, stable_optionalText _, stable_addressSchema.optional,
    stable_optionalCustomFields, List.forall_mem_nil _⟩

theorem stable_phoneSchema : Stable phoneSchema := by
  refine stable_object (by simp only [List.map_cons, List.map_nil]; decide) ?_
  simp only [List.forall_mem_cons]
  exact ⟨stable_optionalText _,
    Stable.stringThat ((stable_string.minLength _).maxLength _) _ _, List.forall_mem_nil _⟩

theorem stable_identityDataSchema : Stable (identityDataSchema judges) := by
  refine stable_object (by simp only [List.map_cons, List.map_nil]; decide) ?_
  simp only [List.forall_mem_cons]
  exact ⟨stable_textOrEmpty _, stable_textOrEmpty _, (Stable.stringThat (stable_text _) _ _).optional,
    (Stable.stringThat (stable_text _) _ _).optional, (stable_phoneSchema.array.maxLength _).optional,
    stable_identityAddressSchema.optional, stable_optionalText _, stable_optionalText _,
    stable_optionalText _, stable_optionalText _, stable_customFields, List.forall_mem_nil _⟩

/-- What is accepted as an item's data is a value, its text holds all of it, and read again it is the
same. -/
theorem vaultItemDataSchemas_stable (judges : Judges) (type : ItemType) (x : Value) (y : Option Value)
    (h : vaultItemDataSchemas judges type (some x) = .ok y) :
    ∃ v, y = some v ∧ parse (stringify v) = some v ∧
      vaultItemDataSchemas judges type (some v) = .ok (some v) := by
  have hstable : Stable (vaultItemDataSchemas judges type) := by
    cases type with
    | login => exact stable_loginDataSchema judges
    | secret => exact stable_secretDataSchema judges
    | note => exact stable_noteDataSchema
    | card => exact stable_cardDataSchema
    | identity => exact stable_identityDataSchema judges
  obtain ⟨hsome, hplain, hagain⟩ := hstable (some x) y h
  obtain ⟨v, rfl⟩ := Option.isSome_iff_exists.1 (hsome rfl)
  exact ⟨v, rfl, (hplain v rfl).parse, hagain⟩

/-- A platform that knows one time and refuses brackets. -/
def sampleJudges : Judges := ⟨fun s => 0x5B ∉ s, fun s => 0x40 ∈ s, fun _ => true⟩

/-- A login with a bare domain, and a property that no schema names. -/
def sampleInput : Value :=
  .object [(units "uris", .array [uriEntry (units "example.com") (units "domain")]), (units "colour", .null)]

def sampleData : Value :=
  .object [(units "username", .string []), (units "password", .string []),
    (units "uris", .array [uriEntry (units "https://example.com") (units "domain")]),
    (units "customFields", .array [])]

theorem sample_accepted :
    vaultItemDataSchemas sampleJudges .login (some sampleInput) = .ok (some sampleData) := rfl

theorem vaultItemDataSchemas_stable_sample : parse (stringify sampleData) = some sampleData ∧
    vaultItemDataSchemas sampleJudges .login (some sampleData) = .ok (some sampleData) := by
  obtain ⟨v, hv, hread⟩ :=
    vaultItemDataSchemas_stable sampleJudges .login sampleInput (some sampleData) sample_accepted
  cases hv
  exact hread

end

end HVault.ItemData
