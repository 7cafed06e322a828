import HVault.Crypto.Aead
import HVault.Data.Base64
import HVault.Data.Utf8
import HVault.Restore.Rows

/-!
# The fields of the vault

A field of a row is sealed under the vault key. In its second format the seal names the row and the
field it belongs to (`vaultFieldAad`), and the nonce of the stored field is marked; a field without
the mark is opened as the first format was. `vault_field_bound` says that a field of the second
format opens in its own place only, and that neither format is taken for the other.
-/

namespace HVault.VaultField

open Base64 (base64ToBytes base64ToBytes_btoa)
open Json Backup Restore List

/-! ## Bindings -/

/-- The roles of a field, other than the data of an item. -/
inductive NamedRole where
  | itemName
  | itemPasswordHistory
  | folderName
deriving DecidableEq

inductive VaultFieldRole where
  | named (role : NamedRole)
  | itemData
deriving DecidableEq

def VaultFieldRole.text : VaultFieldRole → Utf16
  | .named .itemName => units "item.name"
  | .itemData => units "item.data"
  | .named .itemPasswordHistory => units "item.password-history"
  | .named .folderName => units "folder.name"

/-- Where a field lives. The id and the type come from an answer or a file, and may be any text. -/
inductive VaultFieldBinding where
  | named (role : NamedRole) (rowId : Utf16)
  | itemData (rowId itemType : Utf16)
deriving DecidableEq

namespace VaultFieldBinding

def role : VaultFieldBinding → VaultFieldRole
  | named role _ => .named role
  | itemData _ _ => .itemData

def rowId : VaultFieldBinding → Utf16
  | named _ rowId => rowId
  | itemData rowId _ => rowId

def itemType : VaultFieldBinding → Option Utf16
  | named _ _ => none
  | itemData _ itemType => some itemType

/-- One place, its id spelled with capitals or without. -/
structure Same (binding binding' : VaultFieldBinding) : Prop where
  role : binding.role = binding'.role
  itemType : binding.itemType = binding'.itemType
  rowId : binding.rowId.map lowerDigit = binding'.rowId.map lowerDigit

end VaultFieldBinding

inductive Fault where
  | notObjectId
  | unknownItemType
  /-- A string that is no base64. -/
  | invalidCharacter
  /-- A ciphertext that does not open. -/
  | operation
deriving DecidableEq

def itemTypes : List Utf16 :=
  [units "login", units "secret", units "note", units "card", units "identity"]

def aadPrefix : Utf16 := units "hvault/vault-field/v2|"

def ivMarker : Utf16 := units "v2:"

/-- `|` -/
def bar : UInt16 := 0x7C

/-- The text that a seal is bound to. -/
def aadText : VaultFieldBinding → Except Fault Utf16
  | .itemData rowId itemType =>
    if !isHexString rowId then .error .notObjectId
    else if itemType ∉ itemTypes then .error .unknownItemType
    else .ok (aadPrefix ++ VaultFieldRole.itemData.text ++ bar :: itemType ++
      bar :: rowId.map lowerDigit)
  | .named role rowId =>
    if !isHexString rowId then .error .notObjectId
    else .ok (aadPrefix ++ (VaultFieldRole.named role).text ++ bar :: rowId.map lowerDigit)

def vaultFieldAad (binding : VaultFieldBinding) : Except Fault (List UInt8) :=
  (aadText binding).map Utf8.encode

/-! ## Sealing and opening -/

/-- A stored triple. -/
structure VaultFieldCiphertext where
  encrypted : Utf16
  iv : Utf16
  tag : Utf16
deriving DecidableEq

section

variable {Key : Type} (aead : Aead Key)

/-- Without additional data the cipher takes the empty string for it. -/
def sealAesGcm (data : Utf16) (vaultKey : Key) (additionalData : Option (List UInt8))
    (iv : List UInt8) : VaultFieldCiphertext :=
  let fullBytes := aead.encrypt ⟨vaultKey, iv, additionalData.getD [], Utf8.encode data⟩
  { encrypted := Base64.btoa (fullBytes.take (fullBytes.length - tagBytes))
    iv := Base64.btoa iv
    tag := Base64.btoa (fullBytes.drop (fullBytes.length - tagBytes)) }

def openAesGcm (encrypted iv tag : Utf16) (vaultKey : Key) (additionalData : Option (List UInt8)) :
    Except Fault Utf16 := do
  let ciphertext ← base64ToBytes Fault.invalidCharacter encrypted
  let ivBytes ← base64ToBytes Fault.invalidCharacter iv
  let tag ← base64ToBytes Fault.invalidCharacter tag
  match aead.decrypt vaultKey ivBytes (additionalData.getD []) (ciphertext ++ tag) with
  | some decrypted => .ok (Utf8.decode decrypted)
  | none => .error .operation

def encryptData (data : Utf16) (vaultKey : Key) (iv : List UInt8) : VaultFieldCiphertext :=
  sealAesGcm aead data vaultKey none iv

def decryptData (encrypted iv tag : Utf16) (vaultKey : Key) : Except Fault Utf16 :=
  openAesGcm aead encrypted iv tag vaultKey none

def isBoundField (iv : Utf16) : Bool := ivMarker.isPrefixOf iv

def decryptVaultField (field : VaultFieldCiphertext) (binding : VaultFieldBinding)
    (vaultKey : Key) : Except Fault Utf16 :=
  if !isBoundField field.iv then decryptData aead field.encrypted field.iv field.tag vaultKey
  else do
    let additionalData ← vaultFieldAad binding
    openAesGcm aead field.encrypted (field.iv.drop ivMarker.length) field.tag vaultKey
      (some additionalData)

def encryptVaultField (plaintext : Utf16) (binding : VaultFieldBinding) (vaultKey : Key)
    (iv : List UInt8) : Except Fault VaultFieldCiphertext := do
  let additionalData ← vaultFieldAad binding
  let field := sealAesGcm aead plaintext vaultKey (some additionalData) iv
  return { field with iv := ivMarker ++ field.iv }

end

/-! ## The text of a binding -/

theorem isHexDigit_plain {u : UInt16} (h : isHexDigit u) : Utf8.isPlain u ∧ u ≠ bar := by
  unfold isHexDigit at h
  simp only [decide_eq_true_eq] at h
  refine ⟨Utf8.isPlain_of_lt (by omega), ?_⟩
  rintro rfl
  exact absurd h (by decide)

theorem lower_isHexString {rowId : Utf16} (h : isHexString rowId) :
    (rowId.map lowerDigit).length = 24 ∧ ∀ u ∈ rowId.map lowerDigit, isHexDigit u := by
  unfold isHexString at h
  simp only [decide_eq_true_eq, all_eq_true] at h
  refine ⟨by rw [length_map]; exact h.1, ?_⟩
  intro u hu
  obtain ⟨v, hv, rfl⟩ := mem_map.1 hu
  exact isHexDigit_lowerDigit (h.2 v hv)

theorem itemTypes_plain {itemType : Utf16} (h : itemType ∈ itemTypes) :
    ∀ u ∈ itemType, Utf8.isPlain u ∧ u ≠ bar := by
  have hall : (itemTypes.all fun itemType => itemType.all fun u =>
      decide (Utf8.isPlain u ∧ u ≠ bar)) = true := by decide
  intro u hu
  exact of_decide_eq_true (all_eq_true.1 (all_eq_true.1 hall itemType h) u hu)

theorem text_plain (role : VaultFieldRole) : ∀ u ∈ role.text, Utf8.isPlain u ∧ u ≠ bar := by
  have hall : (role.text.all fun u => decide (Utf8.isPlain u ∧ u ≠ bar)) = true := by
    rcases role with ⟨_ | _ | _⟩ | _ <;> decide
  exact fun u hu => of_decide_eq_true (all_eq_true.1 hall u hu)

theorem text_injective : Function.Injective VaultFieldRole.text := by
  rintro (⟨_ | _ | _⟩ | _) (⟨_ | _ | _⟩ | _) h
  all_goals first | rfl | exact absurd h (by decide)

/-- What follows the role: the type, where there is one, and the id. -/
def tailOf : VaultFieldBinding → Utf16
  | .itemData rowId itemType => itemType ++ bar :: rowId.map lowerDigit
  | .named _ rowId => rowId.map lowerDigit

/-- A binding that a field can be sealed for. -/
structure Valid (binding : VaultFieldBinding) : Prop where
  rowId : isHexString binding.rowId
  itemType : ∀ itemType ∈ binding.itemType, itemType ∈ itemTypes

variable {binding : VaultFieldBinding}

theorem aadText_spec {text : Utf16} (h : aadText binding = .ok text) :
    Valid binding ∧ text = aadPrefix ++ (binding.role.text ++ bar :: tailOf binding) := by
  cases binding with
  | named role rowId =>
    simp only [aadText] at h
    split_ifs at h with hid
    have hid : isHexString rowId := by simpa using hid
    refine ⟨⟨hid, nofun⟩, ?_⟩
    rw [← Except.ok.inj h, append_assoc]
    rfl
  | itemData rowId itemType =>
    simp only [aadText] at h
    split_ifs at h with hid htype
    have hid : isHexString rowId := by simpa using hid
    refine ⟨⟨hid, ?_⟩, ?_⟩
    · intro itemType' hsome
      cases hsome
      exact htype
    · rw [← Except.ok.inj h]
      rfl

theorem tailOf_plain (h : Valid binding) : ∀ u ∈ tailOf binding, Utf8.isPlain u := by
  have hid := lower_isHexString h.rowId
  cases binding with
  | named role rowId => exact fun u hu => (isHexDigit_plain (hid.2 u hu)).1
  | itemData rowId itemType =>
    intro u hu
    rcases mem_append.1 hu with hu | hu
    · exact (itemTypes_plain (h.itemType itemType rfl) u hu).1
    · rcases mem_cons.1 hu with rfl | hu
      · decide
      · exact (isHexDigit_plain (hid.2 u hu)).1

/-- Up to its first bar, a text is read in one way. -/
theorem split_at_bar {us us' vs vs' : Utf16} (hus : ∀ u ∈ us, u ≠ bar) (hus' : ∀ u ∈ us', u ≠ bar)
    (h : us ++ bar :: vs = us' ++ bar :: vs') : us = us' ∧ vs = vs' := by
  induction us generalizing us' with
  | nil =>
    cases us' with
    | nil => exact ⟨rfl, (cons.inj h).2⟩
    | cons u' us' => exact absurd (cons.inj h).1.symm (hus' u' mem_cons_self)
  | cons u us ih =>
    cases us' with
    | nil => exact absurd (cons.inj h).1 (hus u mem_cons_self)
    | cons u' us' =>
      obtain ⟨rfl, hrest⟩ := cons.inj h
      obtain ⟨rfl, hvs⟩ := ih (fun v hv => hus v (mem_cons_of_mem _ hv))
        (fun v hv => hus' v (mem_cons_of_mem _ hv)) hrest
      exact ⟨rfl, hvs⟩

theorem aadText_injective {binding' : VaultFieldBinding} {text : Utf16}
    (h : aadText binding = .ok text) (h' : aadText binding' = .ok text) :
    binding.Same binding' := by
  obtain ⟨hvalid, htext⟩ := aadText_spec h
  obtain ⟨hvalid', htext'⟩ := aadText_spec h'
  obtain ⟨hrole, htail⟩ := split_at_bar (fun u hu => (text_plain _ u hu).2)
    (fun u hu => (text_plain _ u hu).2) (append_cancel_left (htext.symm.trans htext'))
  have hrole := text_injective hrole
  cases binding with
  | named role rowId =>
    cases binding' with
    | named role' rowId' => exact ⟨hrole, rfl, htail⟩
    | itemData rowId' itemType' => cases hrole
  | itemData rowId itemType =>
    cases binding' with
    | named role' rowId' => cases hrole
    | itemData rowId' itemType' =>
      obtain ⟨rfl, hid⟩ := split_at_bar
        (fun u hu => (itemTypes_plain (hvalid.itemType itemType rfl) u hu).2)
        (fun u hu => (itemTypes_plain (hvalid'.itemType itemType' rfl) u hu).2) htail
      exact ⟨rfl, rfl, hid⟩

theorem aadText_plain {text : Utf16} (h : aadText binding = .ok text) : text.all Utf8.isPlain := by
  obtain ⟨hvalid, rfl⟩ := aadText_spec h
  rw [all_eq_true]
  intro u hu
  rcases mem_append.1 hu with hu | hu
  · exact all_eq_true.1 (show aadPrefix.all Utf8.isPlain by decide) u hu
  · rcases mem_append.1 hu with hu | hu
    · exact (text_plain _ u hu).1
    · rcases mem_cons.1 hu with rfl | hu
      · decide
      · exact tailOf_plain hvalid u hu

theorem vaultFieldAad_injective {binding' : VaultFieldBinding} {aad : List UInt8}
    (h : vaultFieldAad binding = .ok aad) (h' : vaultFieldAad binding' = .ok aad) :
    binding.Same binding' := by
  unfold vaultFieldAad at h h'
  match htext : aadText binding, htext' : aadText binding' with
  | .error _, _ => rw [htext] at h; cases h
  | .ok _, .error _ => rw [htext'] at h'; cases h'
  | .ok text, .ok text' =>
    rw [htext] at h
    rw [htext'] at h'
    have hbytes : Utf8.encode text = Utf8.encode text' :=
      (Except.ok.inj h).trans (Except.ok.inj h').symm
    rw [Utf8.encode_inj (aadText_plain htext) (aadText_plain htext') hbytes] at htext
    exact aadText_injective htext htext'

/-- No seal of the second format has the additional data of the first. -/
theorem vaultFieldAad_ne_nil {aad : List UInt8} (h : vaultFieldAad binding = .ok aad) :
    aad ≠ [] := by
  unfold vaultFieldAad at h
  match htext : aadText binding with
  | .error _ => rw [htext] at h; cases h
  | .ok text =>
    rw [htext] at h
    rintro rfl
    have hnone : ([] : Utf16).all Utf8.isPlain := rfl
    have hnil : text = [] := Utf8.encode_inj (aadText_plain htext) hnone (Except.ok.inj h)
    obtain ⟨-, hspec⟩ := aadText_spec htext
    rw [hnil] at hspec
    exact absurd (append_eq_nil_iff.1 hspec.symm).1 (by decide)

/-! ## The bytes of a field -/

/-- What the cipher is given of a triple, however it is spelled. -/
def VaultFieldCiphertext.bytes (field : VaultFieldCiphertext) : Option (List UInt8) := do
  return (← Base64.atob field.encrypted) ++ (← Base64.atob field.tag)

theorem ivMarker_not_base64 (us : Utf16) : Base64.atob (ivMarker ++ us) = none := by
  cases h : Base64.atob (ivMarker ++ us) with
  | none => rfl
  | some bs =>
    have hcolon := Base64.atob_units h 0x3A (mem_append_left us (by decide))
    exact absurd hcolon (by decide)

theorem isBoundField_marked (us : Utf16) : isBoundField (ivMarker ++ us) :=
  isPrefixOf_iff_prefix.2 (prefix_append ivMarker us)

theorem isBoundField_btoa (bs : List UInt8) : isBoundField (Base64.btoa bs) = false := by
  rw [Bool.eq_false_iff]
  intro h
  obtain ⟨us, hus⟩ := isPrefixOf_iff_prefix.1 h
  have hread := Base64.atob_btoa bs
  rw [← hus, ivMarker_not_base64] at hread
  cases hread

section

variable {Key : Type} {aead : Aead Key}

theorem bytes_sealAesGcm (data : Utf16) (vaultKey : Key) (additionalData : Option (List UInt8))
    (iv : List UInt8) :
    (sealAesGcm aead data vaultKey additionalData iv).bytes =
      some (aead.encrypt ⟨vaultKey, iv, additionalData.getD [], Utf8.encode data⟩) := by
  unfold sealAesGcm VaultFieldCiphertext.bytes
  simp only [Base64.atob_btoa]
  exact congrArg some (take_append_drop _ _)

variable {vaultKey : Key}

/-- What opens was read as base64 and deciphered. -/
theorem openAesGcm_ok {encrypted iv tag text : Utf16} {additionalData : Option (List UInt8)}
    (h : openAesGcm aead encrypted iv tag vaultKey additionalData = .ok text) :
    ∃ ivBytes sealed plaintext, Base64.atob iv = some ivBytes ∧
      VaultFieldCiphertext.bytes ⟨encrypted, iv, tag⟩ = some sealed ∧
      aead.decrypt vaultKey ivBytes (additionalData.getD []) sealed = some plaintext ∧
      text = Utf8.decode plaintext := by
  unfold openAesGcm base64ToBytes at h
  unfold VaultFieldCiphertext.bytes
  match hencrypted : Base64.atob encrypted, hiv : Base64.atob iv, htag : Base64.atob tag with
  | none, _, _ => rw [hencrypted] at h; cases h
  | some _, none, _ => rw [hencrypted, hiv] at h; cases h
  | some _, some _, none => rw [hencrypted, hiv, htag] at h; cases h
  | some ciphertext, some ivBytes, some tagBytes =>
    rw [hencrypted, hiv, htag] at h
    match hopen : aead.decrypt vaultKey ivBytes (additionalData.getD [])
        (ciphertext ++ tagBytes) with
    | none =>
      simp only [Option.elim, bind, Except.bind, hopen] at h
      cases h
    | some plaintext =>
      simp only [Option.elim, bind, Except.bind, hopen] at h
      exact ⟨ivBytes, _, plaintext, rfl, rfl, hopen, (Except.ok.inj h).symm⟩

/-- What opens was opened by one of the two formats, and the mark says by which. -/
theorem decryptVaultField_ok {field : VaultFieldCiphertext} {text : Utf16}
    (h : decryptVaultField aead field binding vaultKey = .ok text) :
    ∃ ivBytes aad sealed plaintext, field.bytes = some sealed ∧
      aead.decrypt vaultKey ivBytes aad sealed = some plaintext ∧ text = Utf8.decode plaintext ∧
      (isBoundField field.iv = false ∧ aad = [] ∨
        isBoundField field.iv = true ∧ vaultFieldAad binding = .ok aad) := by
  unfold decryptVaultField at h
  split_ifs at h with hmark
  · obtain ⟨ivBytes, sealed, plaintext, -, hbytes, hopen, htext⟩ := openAesGcm_ok h
    exact ⟨ivBytes, [], sealed, plaintext, hbytes, hopen, htext, .inl ⟨by simpa using hmark, rfl⟩⟩
  · match haad : vaultFieldAad binding with
    | .error _ => rw [haad] at h; cases h
    | .ok aad =>
      rw [haad] at h
      obtain ⟨ivBytes, sealed, plaintext, -, hbytes, hopen, htext⟩ := openAesGcm_ok h
      exact ⟨ivBytes, aad, sealed, plaintext, hbytes, hopen, htext, .inr ⟨by simpa using hmark, rfl⟩⟩

theorem encryptVaultField_ok {plaintext : Utf16} {iv : List UInt8} {field : VaultFieldCiphertext}
    (h : encryptVaultField aead plaintext binding vaultKey iv = .ok field) :
    ∃ aad, vaultFieldAad binding = .ok aad ∧ isBoundField field.iv ∧
      field.bytes = some (aead.encrypt ⟨vaultKey, iv, aad, Utf8.encode plaintext⟩) := by
  unfold encryptVaultField at h
  match haad : vaultFieldAad binding with
  | .error _ => rw [haad] at h; cases h
  | .ok aad =>
    rw [haad] at h
    cases h
    exact ⟨aad, rfl, isBoundField_marked _, bytes_sealAesGcm plaintext vaultKey (some aad) iv⟩

end

/-! ## The law -/

/-- The sealing of a field of the second format. -/
def sealingOf {Key : Type} (data : Utf16) (aad : List UInt8) (vaultKey : Key) (iv : List UInt8) :
    Sealing Key :=
  ⟨vaultKey, iv, aad, Utf8.encode data⟩

/-- Equal additional data are of one role, one type and one id. The bytes of a field of the second
format, however they are spelled and whatever nonce they are put beside, open in its own place only,
marked, and as what was sealed; those of a field of the first format open without the mark only. -/
theorem vault_field_bound {Key : Type} {aead : Aead Key} {made : Set (Sealing Key)}
    (hideal : aead.Ideal made) :
    (∀ binding binding' aad, vaultFieldAad binding = .ok aad → vaultFieldAad binding' = .ok aad →
      binding.Same binding') ∧
    (∀ data binding vaultKey iv field,
      encryptVaultField aead data binding vaultKey iv = .ok field →
      (∀ aad, vaultFieldAad binding = .ok aad → sealingOf data aad vaultKey iv ∈ made) →
      isBoundField field.iv ∧
      ∀ field', field'.bytes = field.bytes →
        (∀ binding' vaultKey' text, decryptVaultField aead field' binding' vaultKey' = .ok text →
          isBoundField field'.iv ∧ binding.Same binding' ∧ vaultKey' = vaultKey ∧
            text = Utf8.decode (Utf8.encode data)) ∧
        ∀ vaultKey' text, decryptData aead field'.encrypted field'.iv field'.tag vaultKey' ≠
          .ok text) ∧
    ∀ data vaultKey iv, sealingOf data [] vaultKey iv ∈ made →
      isBoundField (encryptData aead data vaultKey iv).iv = false ∧
      ∀ field', field'.bytes = (encryptData aead data vaultKey iv).bytes →
        ∀ binding' vaultKey' text, decryptVaultField aead field' binding' vaultKey' = .ok text →
          isBoundField field'.iv = false ∧ vaultKey' = vaultKey ∧
            text = Utf8.decode (Utf8.encode data) := by
  refine ⟨fun _ _ _ h h' => vaultFieldAad_injective h h', ?_, ?_⟩
  · intro data binding vaultKey iv field hfield hmade
    obtain ⟨aad, haad, hmarked, hsealed⟩ := encryptVaultField_ok hfield
    refine ⟨hmarked, fun field' hfield' => ⟨?_, ?_⟩⟩
    · intro binding' vaultKey' text htext
      obtain ⟨ivBytes, aad', sealed, plaintext, hbytes, hopen, rfl, hformat⟩ :=
        decryptVaultField_ok htext
      rw [hfield', hsealed] at hbytes
      cases hbytes
      obtain ⟨rfl, rfl, rfl, rfl⟩ := (Sealing.mk.injEq ..).mp (hideal _ (hmade aad haad) _ _ _ _ hopen)
      rcases hformat with ⟨-, hempty⟩ | ⟨hmark, haad'⟩
      · exact absurd hempty (vaultFieldAad_ne_nil haad)
      · exact ⟨hmark, vaultFieldAad_injective haad haad', rfl, rfl⟩
    · intro vaultKey' text htext
      obtain ⟨ivBytes, sealed, plaintext, -, hbytes, hopen, -⟩ := openAesGcm_ok htext
      rw [show VaultFieldCiphertext.bytes ⟨field'.encrypted, field'.iv, field'.tag⟩ = _ from
        hfield', hsealed] at hbytes
      obtain rfl := Option.some.inj hbytes
      obtain ⟨-, -, hempty, -⟩ :=
        (Sealing.mk.injEq ..).mp (hideal _ (hmade aad haad) _ _ _ _ hopen)
      exact absurd hempty (vaultFieldAad_ne_nil haad)
  · intro data vaultKey iv hmade
    refine ⟨isBoundField_btoa iv, fun field' hfield' binding' vaultKey' text htext => ?_⟩
    obtain ⟨ivBytes, aad', sealed, plaintext, hbytes, hopen, rfl, hformat⟩ :=
      decryptVaultField_ok htext
    rw [hfield', show (encryptData aead data vaultKey iv).bytes = _ from
      bytes_sealAesGcm data vaultKey none iv] at hbytes
    cases hbytes
    obtain ⟨rfl, rfl, hempty, rfl⟩ := (Sealing.mk.injEq ..).mp (hideal _ hmade _ _ _ _ hopen)
    rcases hformat with ⟨hmark, -⟩ | ⟨-, haad'⟩
    · exact ⟨hmark, rfl, rfl⟩
    · exact absurd hempty.symm (vaultFieldAad_ne_nil haad')

/-- The name of an item, whose id is spelled with capitals. -/
def sampleBinding : VaultFieldBinding := .named .itemName (List.replicate 24 0x41)

def sampleText : Utf16 := units "hvault/vault-field/v2|item.name|" ++ List.replicate 24 0x61

/-- A field of each format, under one key. -/
def sampleMade : List (Sealing ℕ) :=
  [sealingOf (units "key") (Utf8.encode sampleText) 7 (List.replicate 12 1),
    sealingOf (units "key") [] 7 (List.replicate 12 2)]

theorem vault_field_bound_sample :
    ∃ field, encryptVaultField (Aead.table sampleMade) (units "key") sampleBinding 7
        (List.replicate 12 1) = .ok field ∧
      decryptVaultField (Aead.table sampleMade) field sampleBinding 7 = .ok (units "key") ∧
      ∀ binding' vaultKey' text,
        decryptVaultField (Aead.table sampleMade) field binding' vaultKey' = .ok text →
        sampleBinding.Same binding' ∧ vaultKey' = 7 := by
  have haad : vaultFieldAad sampleBinding = .ok (Utf8.encode sampleText) := by decide
  have hshort : sampleMade.length ≤ 0x100 := by decide
  obtain ⟨-, hbound, -⟩ := vault_field_bound (Aead.table_ideal hshort)
  have hfield : ∃ field, encryptVaultField (Aead.table sampleMade) (units "key") sampleBinding 7
      (replicate 12 1) = .ok field ∧
      decryptVaultField (Aead.table sampleMade) field sampleBinding 7 = .ok (units "key") := by
    refine ⟨_, rfl, ?_⟩
    decide
  obtain ⟨field, hseal, hopen⟩ := hfield
  refine ⟨field, hseal, hopen, fun binding' vaultKey' text htext => ?_⟩
  obtain ⟨-, hplace⟩ := hbound _ _ _ _ _ hseal fun aad h => by
    rw [haad] at h
    cases h
    exact mem_cons_self
  obtain ⟨-, hsame, hkey, -⟩ := (hplace field rfl).1 binding' vaultKey' text htext
  exact ⟨hsame, hkey⟩

/-- **A field opens where it was sealed**, as what UTF-8 keeps of the text: lone surrogates are read as
the replacement character, and a byte order mark that leads is dropped. -/
theorem vault_field_opens {Key : Type} {aead : Aead Key} {made : Set (Sealing Key)}
    (hopens : ∀ s ∈ made,
      aead.decrypt s.key s.nonce s.additionalData (aead.encrypt s) = some s.plaintext)
    {data : Utf16} {binding : VaultFieldBinding} {vaultKey : Key} {iv aad : List UInt8}
    (haad : vaultFieldAad binding = .ok aad) (hmade : sealingOf data aad vaultKey iv ∈ made) :
    ∃ field, encryptVaultField aead data binding vaultKey iv = .ok field ∧
      decryptVaultField aead field binding vaultKey = .ok (Utf8.decode (Utf8.encode data)) := by
  have hopen := hopens _ hmade
  unfold encryptVaultField decryptVaultField
  rw [haad]
  refine ⟨_, rfl, ?_⟩
  rw [isBoundField_marked, drop_left]
  unfold sealingOf at hopen
  simp [openAesGcm, base64ToBytes, sealAesGcm, Base64.atob_btoa, hopen, bind, Except.bind]

theorem vault_field_opens_sample :
    ∃ field, encryptVaultField (Aead.table sampleMade) (units "key") sampleBinding 7
        (replicate 12 1) = .ok field ∧
      decryptVaultField (Aead.table sampleMade) field sampleBinding 7 =
        .ok (Utf8.decode (Utf8.encode (units "key"))) :=
  have haad : vaultFieldAad sampleBinding = .ok (Utf8.encode sampleText) := by decide
  vault_field_opens (fun _ => Aead.table_decrypt_encrypt) haad mem_cons_self

end HVault.VaultField
