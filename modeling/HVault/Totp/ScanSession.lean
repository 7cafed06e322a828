import HVault.Totp.MigrationExport
import HVault.Totp.Otpauth

/-!
# Keys of a scan

A scan takes the accounts of an export: their keys are held apart, and what is shown of them is given
back (`holdEntries`). An account that codes can be made of must have a link that can be stored.

A link that is too long has its label cut, unit by unit. Where it is cut inside a pair, what is left
is no text, and `encodeURIComponent` throws: `holdEntries_ok_iff` says of which accounts this happens.
-/

namespace HVault.Otpauth

open Json Backup DocumentCrypto Archive Totp UriText List Utf8

/-! ## The scan -/

def maxLoginTotpLength : ℕ := 500

structure ScannedEntry where
  id : Utf16
  type : OtpType
  issuer : Utf16
  account : Utf16
  algorithm : MigrationAlgorithm
  digits : ℕ
  counter : Option Utf16
  generatable : Bool
  labelTruncated : Bool
deriving DecidableEq

/-- The keys that are held, by id, and the number of the last id. -/
structure ScanSession where
  held : List (Utf16 × Bytes)
  nextId : ℕ
deriving DecidableEq

/-- What `isGeneratable` tells. -/
def generatable : MigrationAlgorithm → Option TotpAlgorithm
  | .sha1 => some .sha1
  | .sha256 => some .sha256
  | .sha512 => some .sha512
  | .md5 => none

/-- The payload carries no period. -/
def storableInput (entry : MigrationEntry) (algorithm : TotpAlgorithm) : OtpauthUriInput :=
  ⟨entry.type, encodeBase32 entry.secret, entry.issuer, entry.name, algorithm, entry.digits,
    defaultPeriod, entry.counter⟩

def buildStorableUri (entry : MigrationEntry) (algorithm : TotpAlgorithm) :
    Except UriError (Option BuiltOtpauthUri) :=
  buildOtpauthUri (storableInput entry algorithm) maxLoginTotpLength

def scannedEntry (entry : MigrationEntry) (id : Utf16) (generatable labelTruncated : Bool) :
    ScannedEntry :=
  ⟨id, entry.type, entry.issuer, entry.name, entry.algorithm, entry.digits, entry.counter, generatable,
    labelTruncated⟩

def hold (session : ScanSession) (entry : MigrationEntry) :
    Except UriError (ScanSession × List ScannedEntry) := do
  let id := units "scan-" ++ decimal (session.nextId + 1)
  match generatable entry.algorithm with
  | some algorithm =>
    match ← buildStorableUri entry algorithm with
    | none => return (⟨session.held, session.nextId + 1⟩, [])
    | some built =>
      return (⟨session.held ++ [(id, entry.secret)], session.nextId + 1⟩,
        [scannedEntry entry id true built.truncated])
  | none =>
    return (⟨session.held ++ [(id, entry.secret)], session.nextId + 1⟩,
      [scannedEntry entry id false false])

def holdEntries (session : ScanSession) :
    List MigrationEntry → Except UriError (ScanSession × List ScannedEntry)
  | [] => .ok (session, [])
  | entry :: entries => do
    let (session, shown) ← hold session entry
    let (session, out) ← holdEntries session entries
    return (session, shown ++ out)

/-! ## How long a link is -/

/-- The units of the link of a label that is text. -/
def uriLength (input : OtpauthUriInput) (issuer account : Utf16) : ℕ :=
  (link input.type ((Utf8.scalars (labelText issuer account)).flatMap (escapeChar isUnreserved))
    (formSerialize (parameters input issuer))).length

theorem formSerialize_length (pairs : List (Utf16 × Utf16)) : (formSerialize pairs).length =
    (pairs.map fun pair => (formEncode pair.1).length + (formEncode pair.2).length + 2).sum - 1 := by
  unfold formSerialize
  induction pairs with
  | nil => rfl
  | cons pair pairs ih =>
    cases pairs with
    | nil =>
      simp only [map_cons, map_nil, intercalate_singleton, length_append,
        length_cons, sum_cons, sum_nil]
      omega
    | cons next pairs =>
      simp only [map_cons, intercalate_cons_cons, length_append, length_cons,
        length_nil, sum_cons] at ih ⊢
      omega

theorem flatMap_length_le {α β : Type} {l l' : List α} (h : l.Sublist l') (f : α → List β) :
    (l.flatMap f).length ≤ (l'.flatMap f).length := (h.flatMap f).length_le

/-- The label of an issuer and an account, as characters. -/
def labelChars (issuer account : List Char) : List Char :=
  if issuer = [] then account else issuer ++ ':' :: account

theorem utf16_append (cs ds : List Char) : utf16 (cs ++ ds) = utf16 cs ++ utf16 ds :=
  flatMap_append

theorem unitsOf_ne_nil (c : Char) : unitsOf c ≠ [] := by
  rcases unitsOf_cases c with ⟨u, hunits, -⟩ | ⟨high, low, hunits, -⟩
  · rw [hunits]
    exact cons_ne_nil _ _
  · rw [hunits]
    exact cons_ne_nil _ _

theorem utf16_eq_nil {cs : List Char} : utf16 cs = [] ↔ cs = [] := by
  constructor
  · intro h
    cases cs with
    | nil => rfl
    | cons c cs => exact absurd (append_eq_nil_iff.1 h).1 (unitsOf_ne_nil c)
  · rintro rfl
    rfl

theorem labelText_utf16 (issuer account : List Char) :
    labelText (utf16 issuer) (utf16 account) = utf16 (labelChars issuer account) := by
  unfold labelText labelChars
  by_cases h : issuer = []
  · rw [if_pos h, if_neg (by rw [h]; decide)]
  · rw [if_neg h, if_pos (length_pos_iff.2 fun hnil => h (utf16_eq_nil.1 hnil)), utf16_append]
    rfl

theorem labelChars_sublist {issuer account issuer' account' : List Char} (hissuer : issuer.Sublist issuer')
    (haccount : account.Sublist account') :
    (labelChars issuer account).Sublist (labelChars issuer' account') := by
  unfold labelChars
  by_cases h : issuer = []
  · rw [if_pos h]
    split_ifs
    · exact haccount
    · exact (haccount.trans (sublist_cons_self _ _)).trans (sublist_append_right _ _)
  · have h' : issuer' ≠ [] := by
      rintro rfl
      exact h (sublist_nil.1 hissuer)
    rw [if_neg h, if_neg h']
    exact hissuer.append (haccount.cons_cons _)

theorem parameters_length_le {input : OtpauthUriInput} {issuer issuer' : List Char}
    (h : issuer.Sublist issuer') :
    (formSerialize (parameters input (utf16 issuer))).length ≤
      (formSerialize (parameters input (utf16 issuer'))).length := by
  have hencode : (formEncode (utf16 issuer)).length ≤ (formEncode (utf16 issuer')).length := by
    unfold formEncode
    rw [scalars_utf16, scalars_utf16]
    exact flatMap_length_le h _
  rw [formSerialize_length, formSerialize_length]
  unfold parameters
  simp only [map_append, sum_append]
  refine Nat.sub_le_sub_right ?_ 1
  gcongr
  split_ifs with hpos hpos'
  · simp only [map_cons, map_nil, sum_cons, sum_nil]
    omega
  · have hnil : issuer' = [] := utf16_eq_nil.1 (length_eq_zero_iff.1 (by omega))
    rw [hnil, sublist_nil] at h
    rw [h] at hpos
    cases hpos
  · exact Nat.zero_le _
  · exact le_rfl

/-- A shorter label makes no longer link. -/
theorem uriLength_le {input : OtpauthUriInput} {issuer account issuer' account' : List Char}
    (hissuer : issuer.Sublist issuer') (haccount : account.Sublist account') :
    uriLength input (utf16 issuer) (utf16 account) ≤
      uriLength input (utf16 issuer') (utf16 account') := by
  have hlabel := flatMap_length_le (labelChars_sublist hissuer haccount) (escapeChar isUnreserved)
  have hparameters := @parameters_length_le input _ _ hissuer
  unfold uriLength link
  simp only [labelText_utf16, scalars_utf16, length_append, length_cons]
  omega

/-! ## Where a label is cut -/

/-- A character of two units. -/
def isAstral (c : Char) : Prop := 0x10000 ≤ c.toNat

/-- The labels that end in a character of two units fit, so that none is cut inside one. -/
def Whole (fits : List Char → Prop) (cs : List Char) : Prop :=
  ∀ p c q, cs = p ++ c :: q → isAstral c → fits (p ++ [c])

theorem Whole.nil (fits : List Char → Prop) : Whole fits [] :=
  fun p c q h => absurd h.symm (append_ne_nil_of_right_ne_nil p (cons_ne_nil c q))

theorem whole_append_singleton {fits : List Char → Prop} {cs : List Char} {c : Char} :
    Whole fits (cs ++ [c]) ↔ Whole fits cs ∧ (isAstral c → fits (cs ++ [c])) := by
  constructor
  · intro h
    refine ⟨fun p d q hcs hd => h p d (q ++ [c]) ?_ hd, fun hc => h cs c [] rfl hc⟩
    rw [hcs, append_assoc, cons_append]
  · rintro ⟨h, hlast⟩ p d q hcs hd
    rcases eq_nil_or_concat q with rfl | ⟨q, e, rfl⟩
    · obtain ⟨rfl, hc⟩ := append_inj' hcs rfl
      obtain rfl := singleton_inj.1 hc
      exact hlast hd
    · rw [concat_eq_append, ← cons_append, ← append_assoc] at hcs
      exact h p d q (append_inj' hcs rfl).1 hd

/-- Where all of it fits, every shorter one does. -/
theorem Whole.of_fits {fits : List Char → Prop} {cs : List Char}
    (hmono : ∀ p q, fits (p ++ q) → fits p) (h : fits cs) : Whole fits cs := by
  intro p c q hcs _
  refine hmono (p ++ [c]) q ?_
  rwa [append_assoc, singleton_append, ← hcs]

section Cut

variable {input : OtpauthUriInput} {maxLength : ℕ}

theorem composeUri_utf16 (issuer account : List Char) : ∃ uri,
    composeUri input (utf16 issuer) (utf16 account) = .ok uri ∧
      uri.length = uriLength input (utf16 issuer) (utf16 account) := by
  have hwell : isWellFormed (labelText (utf16 issuer) (utf16 account)) = true := by
    rw [labelText_utf16]
    exact isWellFormed_utf16 _
  unfold composeUri encodeURIComponent
  rw [if_pos hwell]
  exact ⟨_, rfl, rfl⟩

theorem composeUri_malformed {issuer account : Utf16}
    (h : isWellFormed (labelText issuer account) = false) :
    composeUri input issuer account = .error .malformed := by
  unfold composeUri encodeURIComponent
  rw [h]
  rfl

theorem buildFrom_malformed {issuer account : Utf16}
    (h : isWellFormed (labelText issuer account) = false) :
    buildFrom input maxLength issuer account = .error .malformed := by
  rw [buildFrom, composeUri_malformed h]
  rfl

theorem buildFrom_ok {issuer account : List Char}
    (h : uriLength input (utf16 issuer) (utf16 account) ≤ maxLength) :
    ∃ built, buildFrom input maxLength (utf16 issuer) (utf16 account) = .ok built := by
  obtain ⟨uri, huri, hlength⟩ := @composeUri_utf16 input issuer account
  exact ⟨_, buildFrom_fits huri (hlength ▸ h)⟩

theorem buildFrom_account {issuer account : List Char} (hne : account ≠ [])
    (h : ¬uriLength input (utf16 issuer) (utf16 account) ≤ maxLength) :
    buildFrom input maxLength (utf16 issuer) (utf16 account) =
      buildFrom input maxLength (utf16 issuer) (utf16 account).dropLast := by
  obtain ⟨uri, huri, hlength⟩ := @composeUri_utf16 input issuer account
  have hpos : 0 < (utf16 account).length := length_pos_iff.2 fun hnil => hne (utf16_eq_nil.1 hnil)
  exact (buildFrom_long huri (hlength ▸ Nat.not_le.1 h)).trans (if_pos hpos)

theorem buildFrom_issuer {issuer : List Char} (hne : issuer ≠ [])
    (h : ¬uriLength input (utf16 issuer) [] ≤ maxLength) :
    buildFrom input maxLength (utf16 issuer) [] =
      buildFrom input maxLength (utf16 issuer).dropLast [] := by
  obtain ⟨uri, huri, hlength⟩ := @composeUri_utf16 input issuer []
  have hpos : 0 < (utf16 issuer).length := length_pos_iff.2 fun hnil => hne (utf16_eq_nil.1 hnil)
  exact (buildFrom_long huri (hlength ▸ Nat.not_le.1 h)).trans
    ((if_neg (Nat.lt_irrefl 0)).trans (if_pos hpos))

theorem buildFrom_nothing (h : ¬uriLength input [] [] ≤ maxLength) :
    buildFrom input maxLength [] [] = .ok none := by
  obtain ⟨uri, huri, hlength⟩ := @composeUri_utf16 input [] []
  exact buildFrom_long huri (hlength ▸ Nat.not_le.1 h)

/-- The last unit of a character of two units is cut off alone. -/
theorem dropLast_utf16 (cs : List Char) (c : Char) :
    (¬isAstral c ∧ (utf16 (cs ++ [c])).dropLast = utf16 cs) ∨
      (isAstral c ∧ ∃ high, isHigh high ∧ (utf16 (cs ++ [c])).dropLast = utf16 cs ++ [high]) := by
  have hlast : utf16 (cs ++ [c]) = utf16 cs ++ unitsOf c := by
    rw [utf16_append]
    exact congrArg _ (append_nil _)
  rcases unitsOf_cases c with ⟨u, hunits, -, -, hlt⟩ | ⟨high, low, hunits, hhigh, -, -, hle⟩
  · refine .inl ⟨Nat.not_le.2 hlt, ?_⟩
    rw [hlast, hunits, dropLast_concat]
  · refine .inr ⟨hle, high, hhigh, ?_⟩
    rw [hlast, hunits, append_cons, dropLast_concat]

theorem isWellFormed_high (cs : List Char) {high : UInt16} (h : isHigh high) :
    isWellFormed (utf16 cs ++ [high]) = false := by
  rw [isWellFormed_utf16_append]
  show Utf8.isPlain high = false
  unfold Utf8.isPlain
  rw [h]
  rfl

theorem isWellFormed_label (issuer account : Utf16) :
    isWellFormed (labelText issuer account) =
      (isWellFormed issuer && isWellFormed account) := by
  unfold labelText
  cases issuer with
  | nil => rfl
  | cons u issuer =>
    rw [if_pos (length_pos_of_ne_nil (cons_ne_nil u issuer))]
    exact isWellFormed_append_plain _ (by decide) _

/-- The issuer is cut once the account is gone. -/
theorem buildFrom_issuer_iff (issuer : List Char) :
    (∃ built, buildFrom input maxLength (utf16 issuer) [] = .ok built) ↔
      Whole (fun cs => uriLength input (utf16 cs) [] ≤ maxLength) issuer := by
  induction issuer using reverseRecOn with
  | nil =>
    refine ⟨fun _ => Whole.nil _, fun _ => ?_⟩
    by_cases hfits : uriLength input [] [] ≤ maxLength
    · exact @buildFrom_ok input maxLength [] [] hfits
    · exact ⟨none, buildFrom_nothing hfits⟩
  | append_singleton cs c ih =>
    by_cases hfits : uriLength input (utf16 (cs ++ [c])) [] ≤ maxLength
    · refine ⟨fun _ => Whole.of_fits ?_ hfits,
        fun _ => @buildFrom_ok input maxLength (cs ++ [c]) [] hfits⟩
      intro p q hpq
      exact (@uriLength_le input p [] (p ++ q) [] (sublist_append_left p q)
        (List.Sublist.refl [])).trans hpq
    · rw [whole_append_singleton, buildFrom_issuer (by simp) hfits]
      rcases dropLast_utf16 cs c with ⟨hc, hdrop⟩ | ⟨hc, high, hhigh, hdrop⟩
      · rw [hdrop, ih]
        exact ⟨fun h => ⟨h, fun hastral => absurd hastral hc⟩, And.left⟩
      · rw [hdrop, buildFrom_malformed (by rw [isWellFormed_label, isWellFormed_high cs hhigh]; rfl)]
        exact ⟨nofun, fun h => absurd (h.2 hc) hfits⟩

/-- The account is cut first. -/
theorem buildFrom_ok_iff (issuer account : List Char) :
    (∃ built, buildFrom input maxLength (utf16 issuer) (utf16 account) = .ok built) ↔
      Whole (fun cs => uriLength input (utf16 issuer) (utf16 cs) ≤ maxLength) account ∧
        Whole (fun cs => uriLength input (utf16 cs) [] ≤ maxLength) issuer := by
  induction account using reverseRecOn with
  | nil => exact (buildFrom_issuer_iff issuer).trans ⟨fun h => ⟨Whole.nil _, h⟩, And.right⟩
  | append_singleton cs c ih =>
    by_cases hfits : uriLength input (utf16 issuer) (utf16 (cs ++ [c])) ≤ maxLength
    · refine ⟨fun _ => ⟨Whole.of_fits ?_ hfits, Whole.of_fits ?_ ?_⟩, fun _ => buildFrom_ok hfits⟩
      · intro p q hpq
        exact (uriLength_le (List.Sublist.refl issuer) (sublist_append_left p q)).trans hpq
      · intro p q hpq
        exact (@uriLength_le input p [] (p ++ q) [] (sublist_append_left p q)
          (List.Sublist.refl [])).trans hpq
      · exact (@uriLength_le input issuer [] issuer (cs ++ [c]) (List.Sublist.refl issuer)
          (nil_sublist _)).trans hfits
    · rw [whole_append_singleton, buildFrom_account (by simp) hfits]
      rcases dropLast_utf16 cs c with ⟨hc, hdrop⟩ | ⟨hc, high, hhigh, hdrop⟩
      · rw [hdrop, ih]
        exact ⟨fun h => ⟨⟨h.1, fun hastral => absurd hastral hc⟩, h.2⟩, fun h => ⟨h.1.1, h.2⟩⟩
      · rw [hdrop, buildFrom_malformed (by
          rw [isWellFormed_label, isWellFormed_high cs hhigh, Bool.and_false])]
        exact ⟨nofun, fun h => absurd (h.1.2 hc) hfits⟩

end Cut

/-- The label is text, and where it is cut for its link to fit, it is not cut inside a pair. -/
structure Storable (input : OtpauthUriInput) (maxLength : ℕ) : Prop where
  issuer : Utf8.isWellFormed input.issuer
  account : Utf8.isWellFormed input.account
  accountCut : Whole (fun cs => uriLength input input.issuer (utf16 cs) ≤ maxLength)
    (Utf8.scalars input.account)
  issuerCut : Whole (fun cs => uriLength input (utf16 cs) [] ≤ maxLength)
    (Utf8.scalars input.issuer)

theorem buildOtpauthUri_ok_iff (input : OtpauthUriInput) (maxLength : ℕ) :
    (∃ built, buildOtpauthUri input maxLength = .ok built) ↔ Storable input maxLength := by
  unfold buildOtpauthUri
  by_cases hwell : isWellFormed input.issuer ∧ isWellFormed input.account
  · have hcut := @buildFrom_ok_iff input maxLength (scalars input.issuer)
      (scalars input.account)
    rw [utf16_scalars_of_wellFormed hwell.1, utf16_scalars_of_wellFormed hwell.2] at hcut
    rw [hcut]
    exact ⟨fun h => ⟨hwell.1, hwell.2, h.1, h.2⟩, fun h => ⟨h.accountCut, h.issuerCut⟩⟩
  · have hlabel : isWellFormed (labelText input.issuer input.account) = false := by
      rw [isWellFormed_label, Bool.eq_false_iff]
      exact fun h => hwell (Bool.and_eq_true_iff.1 h)
    rw [buildFrom_malformed hlabel]
    exact ⟨nofun, fun h => absurd ⟨h.issuer, h.account⟩ hwell⟩

/-! ## What a scan takes -/

/-- A key that no code is made of has no link; any other must have one. -/
def Holdable (entry : MigrationEntry) : Prop :=
  ∀ algorithm, generatable entry.algorithm = some algorithm →
    Storable (storableInput entry algorithm) maxLoginTotpLength

theorem hold_ok_iff (session : ScanSession) (entry : MigrationEntry) :
    (∃ held, hold session entry = .ok held) ↔ Holdable entry := by
  unfold hold Holdable
  cases hgeneratable : generatable entry.algorithm with
  | none => exact ⟨nofun, fun _ => ⟨_, rfl⟩⟩
  | some algorithm =>
    have hbuild := buildOtpauthUri_ok_iff (storableInput entry algorithm) maxLoginTotpLength
    constructor
    · rintro ⟨held, hheld⟩ algorithm' halgorithm'
      cases halgorithm'
      obtain ⟨built, hbuilt, -⟩ := bind_ok hheld
      exact hbuild.1 ⟨built, hbuilt⟩
    · intro h
      obtain ⟨built, hbuilt⟩ := hbuild.2 (h algorithm rfl)
      change buildStorableUri entry algorithm = .ok built at hbuilt
      dsimp only
      rw [hbuilt]
      cases built with
      | none | some built => exact ⟨_, rfl⟩

theorem holdEntries_ok_iff (session : ScanSession) (entries : List MigrationEntry) :
    (∃ held, holdEntries session entries = .ok held) ↔ ∀ entry ∈ entries, Holdable entry := by
  induction entries generalizing session with
  | nil => exact ⟨fun _ => forall_mem_nil _, fun _ => ⟨_, rfl⟩⟩
  | cons entry entries ih =>
    rw [forall_mem_cons, holdEntries]
    constructor
    · rintro ⟨held, hheld⟩
      obtain ⟨first, hfirst, hrest⟩ := bind_ok hheld
      obtain ⟨rest, hrest, -⟩ := bind_ok hrest
      exact ⟨(hold_ok_iff session entry).1 ⟨first, hfirst⟩, (ih first.1).1 ⟨rest, hrest⟩⟩
    · rintro ⟨hentry, hentries⟩
      obtain ⟨first, hfirst⟩ := (hold_ok_iff session entry).2 hentry
      obtain ⟨rest, hrest⟩ := (ih first.1).2 hentries
      rw [hfirst]
      show ∃ held, (holdEntries first.1 entries >>= _) = .ok held
      rw [hrest]
      exact ⟨_, rfl⟩

/-- The accounts of an export that is accepted are taken, unless the label of one is cut inside a
pair. -/
theorem holdEntries_payload_iff (nfc : Utf16 → Utf16) (bytes : Bytes) (session : ScanSession) :
    ∀ payload, readMigrationPayload nfc bytes = .ok payload →
      ((∃ held, holdEntries session payload.entries = .ok held) ↔
        ∀ entry ∈ payload.entries, Holdable entry) :=
  fun payload _ => holdEntries_ok_iff session payload.entries

/-- Forty letters of one unit each, whose link is too long. -/
def accents : List Char := List.replicate 40 'é'

def accentsEntry : MigrationEntry := ⟨.totp, [0x41], [], utf16 accents, .sha1, 6, none⟩

/-- Their label can be cut anywhere. -/
theorem accents_holdable : Holdable accentsEntry := by
  intro algorithm _
  have hscalars : Utf8.scalars (storableInput accentsEntry algorithm).issuer = accents :=
    scalars_utf16 accents
  refine ⟨isWellFormed_utf16 accents, rfl, fun before c after hsplit _ => ?_,
    fun before c after hsplit hc => ?_⟩
  · exact absurd hsplit (by simp [storableInput, accentsEntry, Utf8.scalars])
  · have hmem : c ∈ accents := hscalars ▸ hsplit ▸ by simp
    rw [eq_of_mem_replicate hmem] at hc
    exact absurd hc (Nat.not_le.2 (by decide))

theorem holdEntries_payload_iff_sample : ∃ held, holdEntries ⟨[], 0⟩ [accentsEntry] = .ok held :=
  (holdEntries_payload_iff id ([0x0A, 0x55, 0x0A, 0x01, 0x41, 0x1A, 0x50] ++
    (List.replicate 40 [0xC3, 0xA9]).flatten) ⟨[], 0⟩ ⟨[accentsEntry], 0, 1, 0, 0⟩ rfl).2
      (forall_mem_singleton.2 accents_holdable)

/-- Eighteen faces. -/
def facesBytes : Bytes := (List.replicate 18 [0xF0, 0x9F, 0x98, 0x80]).flatten

def faces : List Char := List.replicate 18 (.ofNat 0x1F600)

def facesEntry : MigrationEntry := ⟨.totp, [0x41], [], utf16 faces, .sha1, 6, none⟩

set_option maxRecDepth 4000 in
theorem faces_notHoldable : ¬Holdable facesEntry := by
  intro h
  have hcut := (h .sha1 rfl).issuerCut (replicate 17 (.ofNat 0x1F600)) (.ofNat 0x1F600) []
    (scalars_utf16 faces) (show 0x10000 ≤ (Char.ofNat 0x1F600).toNat by decide)
  exact absurd hcut (by decide)

/-- The link of the faces has two units too many, and the unit that is cut is half of a face. -/
theorem holdEntries_throws :
    readMigrationPayload id ([0x0A, 0x4D, 0x0A, 0x01, 0x41, 0x1A, 0x48] ++ facesBytes) =
      .ok ⟨[facesEntry], 0, 1, 0, 0⟩ ∧
    holdEntries ⟨[], 0⟩ [facesEntry] = .error .malformed := by
  refine ⟨rfl, ?_⟩
  cases hheld : holdEntries ⟨[], 0⟩ [facesEntry] with
  | ok held =>
    have hall := (holdEntries_ok_iff ⟨[], 0⟩ [facesEntry]).1 ⟨held, hheld⟩
    exact absurd (hall facesEntry mem_cons_self) faces_notHoldable
  | error error =>
    cases error
    rfl

end HVault.Otpauth
