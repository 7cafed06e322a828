import HVault.Import.CanonicalJson
import HVault.Vault.ItemData

/-!
# The keys an item is matched by

A login with a site and a username is matched by these, every other item by the hash of its content.
Both kinds of key are strings whose parts stand between NUL characters:

* `login`, the host and the username, in which anything may stand;
* the type of the item and the digits of the hash.

`identityKey_eq_iff` says what two items have in common that get one key. The browser judges the
addresses and normalises text (`Browser`).
-/

namespace HVault.ItemIdentity

open Json ItemData Archive Option

structure Browser where
  /-- `s.normalize('NFC')`. -/
  nfc : Utf16 → Utf16
  toLowerCase : Utf16 → Utf16
  /-- `new URL(s).hostname`, if that does not throw. -/
  hostname : Utf16 → Option Utf16
  /-- `crypto.subtle.digest('SHA-256', bytes)`. -/
  sha256 : List UInt8 → List UInt8
  judges : Judges

structure ItemIdentityInput where
  itemType : ItemType
  name : Utf16
  data : List (Utf16 × Value)

/-- The two keys of an item. -/
structure ItemKeys where
  identityKey : Utf16
  contentKey : Utf16
  deriving DecidableEq

/-- True for the placeholder the store keeps of an item it could not decode. -/
def isUndecodableData (data : List (Utf16 × Value)) : Bool :=
  (match lookup (units "_validationError") data with
    | some (.bool true) => true
    | _ => false) || (lookup (units "_raw") data).isSome

/-! ## Sites and usernames -/

/-- What comes after the first `//`. -/
def afterSlashes : Utf16 → Option Utf16
  | 0x2F :: 0x2F :: rest => some rest
  | _ :: rest => afterSlashes rest
  | [] => none

/-- Up to the first `/`, `?` or `#`. -/
def authorityOf (normalized : Utf16) : Utf16 :=
  ((afterSlashes normalized).getD normalized).takeWhile fun u => u ∉ [slash, 0x3F, 0x23]

/-- A backslash, a tab or the end of a line. -/
def rewritesAuthority (u : UInt16) : Bool := u ∈ ([0x5C, 0x09, 0x0A, 0x0D] : Utf16)

def dropWww (host : Utf16) : Utf16 := if (units "www.").isPrefixOf host then host.drop 4 else host

def dropDot (host : Utf16) : Utf16 := if host.getLast? = some dot then host.dropLast else host

/-- The first address of a login, if it names a site: a pattern does not. -/
def siteUri (data : List (Utf16 × Value)) : Utf16 :=
  match lookup (units "uris") data with
  | some (.array (.string uri :: _)) => uri
  | some (.array (.object first :: _)) =>
    match lookup (units "uri") first, lookup (units "match") first with
    | some (.string uri), some (.string uriMatch) => if isRegex uriMatch then [] else uri
    | some (.string uri), _ => uri
    | _, _ => []
  | _ => []

/-- The field separator. -/
def sep : UInt16 := 0

def typeName : ItemType → Utf16
  | .login => units "login"
  | .secret => units "secret"
  | .note => units "note"
  | .card => units "card"
  | .identity => units "identity"

def hexDigit (n : ℕ) : UInt16 := .ofNat (Nat.digitChar n).toNat

/-- `b.toString(16).padStart(2, '0')`. -/
def hexByte (b : UInt8) : Utf16 := [hexDigit (b.toNat / 16), hexDigit (b.toNat % 16)]

namespace Browser

variable (browser : Browser)

def normalizeHost (rawUri : Utf16) : Utf16 :=
  let trimmed := trim rawUri
  if trimmed = [] then []
  else
    let normalized := normalizeUri trimmed
    if (authorityOf normalized).any rewritesAuthority then []
    else
      match browser.hostname normalized with
      | none => []
      | some hostname => dropDot (dropWww (browser.toLowerCase (browser.nfc hostname)))

def normalizeUsername : Option Value → Utf16
  | some (.string s) => browser.toLowerCase (trim (browser.nfc s))
  | _ => []

/-! ## Keys -/

def sha256Hex (input : List Char) : Utf16 :=
  (browser.sha256 (Utf8.encode (utf16 input))).flatMap hexByte

/-- What the schema makes of the data, or the data where it refuses it. -/
def schemaValidated (itemType : ItemType) (data : List (Utf16 × Value)) : List (Utf16 × Value) :=
  match vaultItemDataSchemas browser.judges itemType (some (.object data)) with
  | .ok (some (.object fields)) => fields
  | _ => data

def logicalLoginKey (itemType : ItemType) (data : List (Utf16 × Value)) : Option Utf16 :=
  if itemType ≠ .login then none
  else
    let host := browser.normalizeHost (siteUri data)
    let username := browser.normalizeUsername (lookup (units "username") data)
    if host ≠ [] ∧ username ≠ [] then some (units "login" ++ sep :: (host ++ sep :: username))
    else none

/-- The value an item is hashed as. -/
def contentText (name : Utf16) (data : List (Utf16 × Value)) : List Char :=
  canonicalJson browser.nfc (.object [(units "name", .string name), (units "data", .object data)])

def contentKeyFrom (itemType : ItemType) (name : Utf16) (data : List (Utf16 × Value)) : Utf16 :=
  typeName itemType ++ sep :: browser.sha256Hex (browser.contentText name data)

def computeItemIdentity (input : ItemIdentityInput) : Utf16 :=
  let data := browser.schemaValidated input.itemType input.data
  match browser.logicalLoginKey input.itemType data with
  | some logical => logical
  | none => browser.contentKeyFrom input.itemType input.name data

/-- Both keys of an item, its data validated once. -/
def computeItemKeys (input : ItemIdentityInput) : ItemKeys :=
  let data := browser.schemaValidated input.itemType input.data
  let contentKey := browser.contentKeyFrom input.itemType input.name data
  { identityKey := (browser.logicalLoginKey input.itemType data).getD contentKey, contentKey }

/-- The site and the username of a login that has both. -/
def account (input : ItemIdentityInput) : Option (Utf16 × Utf16) :=
  let data := browser.schemaValidated input.itemType input.data
  let host := browser.normalizeHost (siteUri data)
  let username := browser.normalizeUsername (lookup (units "username") data)
  if input.itemType = .login ∧ host ≠ [] ∧ username ≠ [] then some (host, username) else none

/-- The canonical text of an item's name and validated data. -/
def content (input : ItemIdentityInput) : List Char :=
  browser.contentText input.name (browser.schemaValidated input.itemType input.data)

end Browser

/-! ## The parts of a key -/

/-- What stands before the first separator is told from what stands after it. -/
theorem append_first_sep_inj {α : Type} {s : α} {a b r r' : List α} (ha : s ∉ a) (hb : s ∉ b)
    (h : a ++ s :: r = b ++ s :: r') : a = b ∧ r = r' := by
  have hreverse : r.reverse ++ s :: a.reverse = r'.reverse ++ s :: b.reverse := by
    simpa using congrArg List.reverse h
  obtain ⟨hr, ha⟩ := PathTree.append_sep_inj (by simpa using ha) (by simpa using hb) hreverse
  exact ⟨List.reverse_injective ha, List.reverse_injective hr⟩

theorem sep_notMem_typeName (itemType : ItemType) : sep ∉ typeName itemType := by
  cases itemType <;> decide

theorem typeName_injective : Function.Injective typeName := by
  intro a b h
  cases a <;> cases b <;> first | rfl | exact absurd h (by decide)

theorem hexDigit_ne_sep {n : ℕ} (h : n < 16) : sep ≠ hexDigit n := by
  have hall : ∀ n < 16, sep ≠ hexDigit n := by decide
  exact hall n h

theorem hexDigit_inj {n m : ℕ} (hn : n < 16) (hm : m < 16) (h : hexDigit n = hexDigit m) : n = m := by
  have hall : ∀ n < 16, ∀ m < 16, hexDigit n = hexDigit m → n = m := by decide
  exact hall n hn m hm h

theorem sep_notMem_hexByte (b : UInt8) : sep ∉ hexByte b := by
  have hb := b.toNat_lt
  simp [hexByte, hexDigit_ne_sep (show b.toNat / 16 < 16 by omega),
    hexDigit_ne_sep (show b.toNat % 16 < 16 by omega)]

theorem hexByte_injective : Function.Injective hexByte := by
  intro b c h
  have hb := b.toNat_lt
  have hc := c.toNat_lt
  simp only [hexByte, List.cons.injEq, and_true] at h
  have hhigh := hexDigit_inj (by omega) (by omega) h.1
  have hlow := hexDigit_inj (by omega) (by omega) h.2
  apply UInt8.toNat_inj.1
  omega

/-- The digits of bytes tell the bytes. -/
theorem flatMap_hexByte_injective :
    Function.Injective fun bytes : List UInt8 => bytes.flatMap hexByte := by
  intro bytes bytes' h
  simp only at h
  induction bytes generalizing bytes' with
  | nil =>
    cases bytes' with
    | nil => rfl
    | cons c cs => simp [hexByte] at h
  | cons b bs ih =>
    cases bytes' with
    | nil => simp [hexByte] at h
    | cons c cs =>
      rw [List.flatMap_cons, List.flatMap_cons] at h
      obtain ⟨hbyte, hrest⟩ := List.append_inj h rfl
      rw [hexByte_injective hbyte, ih hrest]

namespace Browser

variable {browser : Browser}

/-- Text is told by its hash. -/
theorem sha256Hex_inj (hsha : Function.Injective browser.sha256) {text text' : List Char}
    (h : browser.sha256Hex text = browser.sha256Hex text') : text = text' := by
  have hbytes := hsha (flatMap_hexByte_injective h)
  have hread := congrArg (Utf8.decodeFrom .fresh) hbytes
  rwa [Utf8.decodeFrom_encode, Utf8.decodeFrom_encode, Utf8.scalars_utf16, Utf8.scalars_utf16] at hread

theorem sep_notMem_sha256Hex (text : List Char) : sep ∉ browser.sha256Hex text := by
  unfold sha256Hex
  rw [List.mem_flatMap]
  rintro ⟨b, -, hb⟩
  exact sep_notMem_hexByte b hb

/-! ## Hosts -/

/-- What the browser promises: no host has a NUL in it, and no text gets one. -/
structure Sound (browser : Browser) : Prop where
  hostname : ∀ {uri host : Utf16}, browser.hostname uri = some host → sep ∉ host
  nfc : ∀ {s : Utf16}, sep ∉ s → sep ∉ browser.nfc s
  toLowerCase : ∀ {s : Utf16}, sep ∉ s → sep ∉ browser.toLowerCase s

theorem Sound.normalizeHost (h : browser.Sound) (rawUri : Utf16) :
    sep ∉ browser.normalizeHost rawUri := by
  unfold Browser.normalizeHost
  dsimp only
  split_ifs with htrimmed hrewrites
  · exact List.not_mem_nil
  · exact List.not_mem_nil
  · cases hhost : browser.hostname (normalizeUri (trim rawUri)) with
    | none => exact List.not_mem_nil
    | some hostname =>
      have hlower := h.toLowerCase (h.nfc (h.hostname hhost))
      have hwww : sep ∉ dropWww (browser.toLowerCase (browser.nfc hostname)) := by
        unfold dropWww
        split_ifs
        · exact fun hmem => hlower (List.mem_of_mem_drop hmem)
        · exact hlower
      dsimp only
      unfold dropDot
      split_ifs
      · exact fun hmem => hwww (List.mem_of_mem_dropLast hmem)
      · exact hwww

/-! ## The key of an account -/

/-- The key of a site and a username. -/
def accountKey (account : Utf16 × Utf16) : Utf16 :=
  units "login" ++ sep :: (account.1 ++ sep :: account.2)

/-- The logical key of an item is that of its account. -/
theorem logicalLoginKey_eq (x : ItemIdentityInput) :
    browser.logicalLoginKey x.itemType (browser.schemaValidated x.itemType x.data)
      = (browser.account x).map accountKey := by
  unfold logicalLoginKey account
  by_cases htype : x.itemType = .login
  · rw [if_neg (not_not.2 htype)]
    simp only [htype, true_and]
    split_ifs
    · rfl
    · rfl
  · rw [if_pos htype]
    simp [htype]

theorem Sound.sep_notMem_account (h : browser.Sound) {x : ItemIdentityInput}
    {account : Utf16 × Utf16} (haccount : browser.account x = some account) : sep ∉ account.1 := by
  unfold Browser.account at haccount
  dsimp only at haccount
  split_ifs at haccount
  rw [← some.inj haccount]
  exact h.normalizeHost _

theorem accountKey_inj {account account' : Utf16 × Utf16} (hhost : sep ∉ account.1)
    (hhost' : sep ∉ account'.1) (h : accountKey account = accountKey account') :
    account = account' := by
  have hlogin : sep ∉ units "login" := sep_notMem_typeName .login
  obtain ⟨-, hrest⟩ := append_first_sep_inj hlogin hlogin h
  obtain ⟨hhosts, husers⟩ := append_first_sep_inj hhost hhost' hrest
  exact Prod.ext hhosts husers

variable (browser) in
/-- A username follows a second separator, and no hash has one. -/
theorem accountKey_ne_contentKey (account : Utf16 × Utf16) (y : ItemIdentityInput) :
    accountKey account ≠ (browser.computeItemKeys y).2 := by
  intro h
  obtain ⟨-, hrest⟩ :=
    append_first_sep_inj (sep_notMem_typeName .login) (sep_notMem_typeName y.itemType) h
  have hmem : sep ∈ account.1 ++ sep :: account.2 := List.mem_append_right _ List.mem_cons_self
  rw [hrest] at hmem
  exact sep_notMem_sha256Hex _ hmem

/-- The identity key is the key of the account, and the content key where there is none. -/
theorem identityKey_eq (x : ItemIdentityInput) :
    (browser.computeItemKeys x).1
      = ((browser.account x).map accountKey).getD (browser.computeItemKeys x).2 := by
  unfold computeItemKeys
  dsimp only
  rw [logicalLoginKey_eq]

/-- The identity key begins with the type of the item. -/
theorem identityKey_prefix (x : ItemIdentityInput) :
    ∃ rest, (browser.computeItemKeys x).1 = typeName x.itemType ++ sep :: rest := by
  rw [identityKey_eq]
  cases haccount : browser.account x with
  | none => exact ⟨_, rfl⟩
  | some account =>
    unfold Browser.account at haccount
    dsimp only at haccount
    split_ifs at haccount with hlogin
    rw [hlogin.1]
    exact ⟨_, rfl⟩

/-- **Matching never crosses item types.** -/
theorem itemType_eq_of_identityKey_eq {x y : ItemIdentityInput}
    (h : (browser.computeItemKeys x).1 = (browser.computeItemKeys y).1) :
    x.itemType = y.itemType := by
  obtain ⟨rest, hx⟩ := browser.identityKey_prefix x
  obtain ⟨rest', hy⟩ := browser.identityKey_prefix y
  rw [hx, hy] at h
  exact typeName_injective
    (append_first_sep_inj (sep_notMem_typeName x.itemType) (sep_notMem_typeName y.itemType) h).1

/-- The content keys of two items are one when their types and their contents are. -/
theorem contentKey_eq_iff (hsha : Function.Injective browser.sha256) {x y : ItemIdentityInput} :
    (browser.computeItemKeys x).2 = (browser.computeItemKeys y).2 ↔
      x.itemType = y.itemType ∧ browser.content x = browser.content y := by
  constructor
  · intro h
    obtain ⟨htype, hhash⟩ :=
      append_first_sep_inj (sep_notMem_typeName x.itemType) (sep_notMem_typeName y.itemType) h
    exact ⟨typeName_injective htype, sha256Hex_inj hsha hhash⟩
  · rintro ⟨htype, hcontent⟩
    show typeName x.itemType ++ sep :: browser.sha256Hex (browser.content x) = _
    rw [htype, hcontent]
    rfl

/-- **One key means one account, or no account on either side and one content.** A logical key is no
content key, and both ways to compute the identity key agree. -/
theorem identityKey_eq_iff (hsound : browser.Sound) (hsha : Function.Injective browser.sha256)
    (x y : ItemIdentityInput) :
    ((browser.computeItemKeys x).1 = (browser.computeItemKeys y).1 ↔
        (∃ account, browser.account x = some account ∧ browser.account y = some account) ∨
          browser.account x = none ∧ browser.account y = none ∧ x.itemType = y.itemType ∧
            browser.content x = browser.content y) ∧
      (∀ logical, browser.logicalLoginKey x.itemType (browser.schemaValidated x.itemType x.data)
        = some logical → logical ≠ (browser.computeItemKeys y).2) ∧
      browser.computeItemIdentity x = (browser.computeItemKeys x).1 := by
  refine ⟨?_, fun logical hlogical => ?_, ?_⟩
  · rw [identityKey_eq, identityKey_eq]
    cases hx : browser.account x with
    | none =>
      cases hy : browser.account y with
      | none =>
        simp only [map_none, getD_none, contentKey_eq_iff hsha]
        simp
      | some account =>
        have hne := browser.accountKey_ne_contentKey account x
        simp [hne.symm]
    | some account =>
      cases hy : browser.account y with
      | none =>
        have hne := browser.accountKey_ne_contentKey account y
        simp [hne]
      | some account' =>
        have hinj := accountKey_inj (hsound.sep_notMem_account hx) (hsound.sep_notMem_account hy)
        have hkeys : accountKey account = accountKey account' ↔ account = account' :=
          ⟨hinj, congrArg accountKey⟩
        simp [hkeys, eq_comm]
  · rw [logicalLoginKey_eq, map_eq_some_iff] at hlogical
    obtain ⟨account, -, rfl⟩ := hlogical
    exact browser.accountKey_ne_contentKey account y
  · unfold computeItemIdentity computeItemKeys
    dsimp only
    cases browser.logicalLoginKey x.itemType (browser.schemaValidated x.itemType x.data) with
    | none => rfl
    | some logical => rfl

end Browser

/-! ## One login, written in two ways -/

def sampleData (uri : String) : List (Utf16 × Value) :=
  [(units "username", .string (units "ann")),
    (units "uris", .array [uriEntry (units uri) (units "domain")])]

def sampleInput (uri : String) : ItemIdentityInput := ⟨.login, units "Shop", sampleData uri⟩

/-- Known of the content of the sample alone; no other text has a digest of its length. -/
def sampleSha256 (text : List Char) (bytes : List UInt8) : List UInt8 :=
  if bytes = Utf8.encode (utf16 text) then
    [0x77, 0xBA, 0x1C, 0xF6, 0x47, 0x32, 0xA0, 0x51, 0x22, 0xE5, 0x00, 0x3F, 0xCC, 0x6C,
      0x12, 0x7F, 0xB1, 0x34, 0xB7, 0x7C, 0x33, 0x40, 0x72, 0xE2, 0xF6, 0x2A, 0x72, 0x4D,
      0xE1, 0x61, 0x66, 0x86]
  else bytes ++ List.replicate 33 0

theorem sampleSha256_injective (text : List Char) : Function.Injective (sampleSha256 text) := by
  intro bytes bytes' h
  unfold sampleSha256 at h
  split_ifs at h with hknown hknown' hknown'
  · rw [hknown, hknown']
  · have hlength := congrArg List.length h
    simp only [List.length_cons, List.length_nil, List.length_append, List.length_replicate] at hlength
    omega
  · have hlength := congrArg List.length h
    simp only [List.length_cons, List.length_nil, List.length_append, List.length_replicate] at hlength
    omega
  · exact List.append_cancel_right h

/-- A browser for plain text and addresses that are a host alone. -/
def sampleBrowser : Browser where
  nfc s := s
  toLowerCase s := s.map lowerAscii
  hostname uri :=
    let host := uri.drop 8
    if (units "https://").isPrefixOf uri ∧ sep ∉ host then some host else none
  sha256 := sampleSha256 (canonicalJson (fun s => s) (.object [(units "name", .string (units "Shop")),
    (units "data", .object [(units "username", .string (units "ann")), (units "password", .string []),
      (units "uris", .array [uriEntry (units "https://example.com") (units "domain")]),
      (units "customFields", .array [])])]))
  judges := sampleJudges

theorem sampleBrowser_sound : sampleBrowser.Sound where
  hostname := by
    intro uri host h
    simp only [sampleBrowser] at h
    split_ifs at h with hhost
    rw [← some.inj h]
    exact hhost.2
  nfc := fun h => h
  toLowerCase := by
    intro s hs hmem
    obtain ⟨u, hu, hlower⟩ := List.mem_map.1 hmem
    unfold lowerAscii at hlower
    split_ifs at hlower with hcapital
    · have htoNat := congrArg UInt16.toNat hlower
      rw [UInt16.toNat_add] at htoNat
      change (u.toNat + 0x20) % 2 ^ 16 = 0 at htoNat
      omega
    · exact hs (hlower ▸ hu)

/-- A bare domain and the address it is stored as. -/
theorem Browser.identityKey_eq_iff_sample :
    (sampleBrowser.computeItemKeys (sampleInput "example.com")).1
      = (sampleBrowser.computeItemKeys (sampleInput "https://example.com")).1 :=
  (Browser.identityKey_eq_iff sampleBrowser_sound (sampleSha256_injective _) (sampleInput "example.com")
    (sampleInput "https://example.com")).1.2 (.inl ⟨(units "example.com", units "ann"), rfl, rfl⟩)

end HVault.ItemIdentity
