import HVault.Crypto.VaultField
import HVault.Export.ArchiveNames
import HVault.Json.Schema

/-!
# What opens under which key

A row of the account as it comes off the wire, and candidate keys for it. Two loops go through the
keys: `decryptItemUnderAnyKey` looks for one that opens the whole row, and `classifyItem` judges the
row by the fields it reads one by one. Only the verdict `unreadable` lets a row be deleted.

`deletable_verdict` is about any way at all in which a field may open, or fail, under a key.
-/

namespace HVault.VaultRows

open Json Schema Backup VaultField

/-! ## Rows -/

/-- `z.boolean()`. -/
def boolean : Schema
  | some (.bool b) => .ok (some (.bool b))
  | _ => .error .wrong

/-- `z.number()`. -/
def number : Schema
  | some (.number (.finite x h)) => .ok (some (.number (.finite x h)))
  | _ => .error .wrong

/-- `z.string().min(1)`. -/
def text : Schema := string.minLength 1

def vaultItemResponseSchema : Schema :=
  object
    [("_id", text), ("itemType", enum itemTypes), ("folderId", string.optional),
      ("tags", string.array), ("favorite", boolean), ("encryptedData", text), ("dataIv", text),
      ("dataTag", text), ("encryptedName", text), ("nameIv", text), ("nameTag", text),
      ("passwordHistory", (object [("encryptedPassword", text), ("iv", text), ("tag", text),
        ("changedAt", text)]).array.optional),
      ("createdAt", text), ("updatedAt", text), ("deletedAt", string.optional)]

def folderResponseSchema : Schema :=
  object
    [("_id", text), ("encryptedName", text), ("nameIv", text), ("nameTag", text),
      ("parentId", string.optional), ("icon", string.optional), ("color", string.optional),
      ("sortOrder", number), ("createdAt", text), ("updatedAt", text)]

/-- What is thrown, by the name it has. -/
structure Thrown where
  name : Option Utf16

def typeError : Thrown := ⟨some (units "TypeError")⟩

/-- A property of a row, which need not be shaped like one. -/
def prop (row : Value) (name : String) : Except Thrown (Option Value) :=
  match row with
  | .null => .error typeError
  | .object fields => .ok (lookup (units name) fields)
  | _ => .ok none

/-- A stored triple, as the row has it. -/
structure SealedField where
  encrypted : Option Value
  iv : Option Value
  tag : Option Value

/-- The row and the field that a seal is bound to, as the row has them. -/
structure Binding where
  role : VaultFieldRole
  rowId : Option Value
  itemType : Option Value := none

/-- What the elements are that a loop over `value ?? []` goes through. -/
def elementsOf : Option Value → Except Thrown (List Value)
  | none | some .null => .ok []
  | some (.array items) => .ok items
  | some (.string s) => .ok ((Archive.codePoints s).map .string)
  | some _ => .error typeError

section Openers

variable {Key : Type} (decryptVaultField : SealedField → Binding → Key → Except Thrown Utf16)

/-! ## Opening a field -/

def openItemName (item : Value) (key : Key) : Except Thrown Utf16 := do
  decryptVaultField
    ⟨← prop item "encryptedName", ← prop item "nameIv", ← prop item "nameTag"⟩
    { role := .named .itemName, rowId := ← prop item "_id" } key

def openItemData (item : Value) (key : Key) : Except Thrown Utf16 := do
  decryptVaultField
    ⟨← prop item "encryptedData", ← prop item "dataIv", ← prop item "dataTag"⟩
    { role := .itemData, rowId := ← prop item "_id", itemType := ← prop item "itemType" } key

def openHistoryEntry (item entry : Value) (key : Key) : Except Thrown Utf16 := do
  decryptVaultField
    ⟨← prop entry "encryptedPassword", ← prop entry "iv", ← prop entry "tag"⟩
    { role := .named .itemPasswordHistory, rowId := ← prop item "_id" } key

def openFolderName (folder : Value) (key : Key) : Except Thrown Utf16 := do
  decryptVaultField
    ⟨← prop folder "encryptedName", ← prop folder "nameIv", ← prop folder "nameTag"⟩
    { role := .named .folderName, rowId := ← prop folder "_id" } key

/-! ## Opening a row -/

/-- The plaintext of an item, each earlier password beside the date it was stored with. -/
structure ItemPlaintext where
  name : Utf16
  data : Utf16
  history : List (Utf16 × Option Value)

def openHistory (item : Value) (key : Key) : List Value → Except Thrown (List (Utf16 × Option Value))
  | [] => .ok []
  | entry :: entries => do
    let password ← openHistoryEntry decryptVaultField item entry key
    let changedAt ← prop entry "changedAt"
    let history ← openHistory item key entries
    return (password, changedAt) :: history

/-- One turn of the loop over the keys. -/
def openItem (item : Value) (key : Key) : Except Thrown ItemPlaintext := do
  let name ← openItemName decryptVaultField item key
  let data ← openItemData decryptVaultField item key
  let entries ← elementsOf (← prop item "passwordHistory")
  let history ← openHistory decryptVaultField item key entries
  return ⟨name, data, history⟩

/-- The first of the keys, from the `keyIndex`-th on, under which nothing is thrown. -/
def firstThatOpens {α : Type} (attempt : Key → Except Thrown α) (keyIndex : ℕ) :
    List Key → Option (α × ℕ)
  | [] => none
  | key :: keys =>
    match attempt key with
    | .ok opened => some (opened, keyIndex)
    | .error _ => firstThatOpens attempt (keyIndex + 1) keys

def decryptItemUnderAnyKey (item : Value) (keys : List Key) : Option (ItemPlaintext × ℕ) :=
  firstThatOpens (openItem decryptVaultField item) 0 keys

def decryptFolderNameUnderAnyKey (folder : Value) (keys : List Key) : Option (Utf16 × ℕ) :=
  firstThatOpens (openFolderName decryptVaultField folder) 0 keys

/-! ## The verdict on a row -/

def isAuthenticationFailure (error : Thrown) : Bool := error.name = some (units "OperationError")

inductive RowVerdict where
  | readable
  | unreadable
  | damaged
  deriving DecidableEq

inductive FieldVerdict where
  | opened
  | refused
  | malformed
  deriving DecidableEq

def fieldVerdict (attempt : Except Thrown Utf16) : FieldVerdict :=
  match attempt with
  | .ok _ => .opened
  | .error error => if isAuthenticationFailure error then .refused else .malformed

/-- `A row cannot be judged without a candidate key`. -/
inductive Unjudged where
  | noCandidate
  deriving DecidableEq

/-- The turns of the loop over the keys, for the verdicts on two fields under each. -/
def judgeItem (name data : Key → FieldVerdict) (malformed : Bool) : List Key → RowVerdict
  | [] => if malformed then .damaged else .unreadable
  | key :: keys =>
    if name key = .opened ∧ data key = .opened then .readable
    else if name key = .opened ∨ data key = .opened then .damaged
    else judgeItem name data (malformed || name key = .malformed || data key = .malformed) keys

def classifyItem (item : Value) (keys : List Key) : Except Unjudged RowVerdict :=
  if keys.length = 0 then .error .noCandidate
  else if (vaultItemResponseSchema (some item)).isOk = false then .ok .damaged
  else .ok (judgeItem (fun key => fieldVerdict (openItemName decryptVaultField item key))
    (fun key => fieldVerdict (openItemData decryptVaultField item key)) false keys)

def judgeFolder (name : Key → FieldVerdict) (malformed : Bool) : List Key → RowVerdict
  | [] => if malformed then .damaged else .unreadable
  | key :: keys =>
    if name key = .opened then .readable
    else judgeFolder name (malformed || name key = .malformed) keys

def classifyFolder (folder : Value) (keys : List Key) : Except Unjudged RowVerdict :=
  if keys.length = 0 then .error .noCandidate
  else if (folderResponseSchema (some folder)).isOk = false then .ok .damaged
  else .ok (judgeFolder (fun key => fieldVerdict (openFolderName decryptVaultField folder key))
    false keys)

end Openers

/-! ## The loops -/

section Loops

variable {Key : Type}

theorem firstThatOpens_some {α : Type} {attempt : Key → Except Thrown α} {keyIndex : ℕ}
    {keys : List Key} {opened : α × ℕ} (h : firstThatOpens attempt keyIndex keys = some opened) :
    ∃ n key, keys[n]? = some key ∧ opened.2 = keyIndex + n ∧ attempt key = .ok opened.1 := by
  induction keys generalizing keyIndex with
  | nil => cases h
  | cons key keys ih =>
    unfold firstThatOpens at h
    split at h
    · rename_i plain hplain
      rw [← Option.some.inj h]
      exact ⟨0, key, rfl, rfl, hplain⟩
    · obtain ⟨n, found, hfound, hindex, hopened⟩ := ih h
      exact ⟨n + 1, found, hfound, by omega, hopened⟩

theorem judgeItem_unreadable {name data : Key → FieldVerdict} {malformed : Bool} {keys : List Key} :
    judgeItem name data malformed keys = .unreadable ↔
      malformed = false ∧ ∀ key ∈ keys, name key = .refused ∧ data key = .refused := by
  induction keys generalizing malformed with
  | nil => cases malformed <;> simp [judgeItem]
  | cons key keys ih =>
    rw [judgeItem, List.forall_mem_cons]
    -- Nine pairs of verdicts; only two refusals leave the row to the keys that follow.
    cases hname : name key <;> cases hdata : data key <;> simp [ih]

theorem judgeFolder_unreadable {name : Key → FieldVerdict} {malformed : Bool} {keys : List Key} :
    judgeFolder name malformed keys = .unreadable ↔
      malformed = false ∧ ∀ key ∈ keys, name key = .refused := by
  induction keys generalizing malformed with
  | nil => cases malformed <;> simp [judgeFolder]
  | cons key keys ih =>
    rw [judgeFolder, List.forall_mem_cons]
    cases hname : name key <;> simp [ih]

/-- Authentication fails under the key. -/
def Refuses (attempt : Except Thrown Utf16) : Prop :=
  ∃ error, attempt = .error error ∧ isAuthenticationFailure error = true

theorem fieldVerdict_refused {attempt : Except Thrown Utf16} :
    fieldVerdict attempt = .refused ↔ Refuses attempt := by
  unfold Refuses fieldVerdict
  cases attempt with
  | ok s => simp
  | error error =>
    by_cases h : isAuthenticationFailure error = true
    · simp [h]
    · simp [h]

end Loops

/-! ## The law -/

/-- What a way to judge rows owes: `shaped` says that a row is one at all, `refuses` that every field
that is judged fails authentication under a key, `opens` that a row opens under one of some keys. -/
structure Deletable {Key : Type} (judge : List Key → Except Unjudged RowVerdict) (shaped : Prop)
    (refuses : Key → Prop) (opens : List Key → Bool) : Prop where
  unreadable_iff : ∀ keys, judge keys = .ok .unreadable ↔
    keys ≠ [] ∧ shaped ∧ ∀ key ∈ keys, refuses key
  never_opened : ∀ keys, judge keys = .ok .unreadable → opens keys = false
  same_keys : ∀ keys keys', (∀ key, key ∈ keys ↔ key ∈ keys') →
    (judge keys = .ok .unreadable ↔ judge keys' = .ok .unreadable)
  more_keys : ∀ keys added, keys ≠ [] → judge (keys ++ added) = .ok .unreadable →
    judge keys = .ok .unreadable

theorem deletable_of_iff {Key : Type} {judge : List Key → Except Unjudged RowVerdict} {shaped : Prop}
    {refuses : Key → Prop} {opens : List Key → Bool}
    (hjudge : ∀ keys, judge keys = .ok .unreadable ↔
      keys ≠ [] ∧ shaped ∧ ∀ key ∈ keys, refuses key)
    (hopens : ∀ keys, opens keys = true → ∃ key ∈ keys, ¬ refuses key) :
    Deletable judge shaped refuses opens where
  unreadable_iff := hjudge
  never_opened keys := by
    intro h
    by_contra hopened
    obtain ⟨key, hkey, hnot⟩ := hopens keys (by simpa using hopened)
    exact hnot (((hjudge keys).1 h).2.2 key hkey)
  same_keys keys keys' := by
    intro hsame
    have hempty : keys ≠ [] ↔ keys' ≠ [] := by
      simp only [ne_eq, List.eq_nil_iff_forall_not_mem, hsame]
    rw [hjudge, hjudge, hempty]
    simp only [hsame]
  more_keys keys added := by
    intro hne h
    have hall := (hjudge _).1 h
    exact (hjudge keys).2 ⟨hne, hall.2.1, fun key hkey =>
      hall.2.2 key (List.mem_append_left added hkey)⟩

variable {Key : Type} (decryptVaultField : SealedField → Binding → Key → Except Thrown Utf16)

theorem not_refuses_ok (s : Utf16) : ¬ Refuses (.ok s) := by
  intro h
  obtain ⟨error, herror, -⟩ := h
  cases herror

theorem deletable_item (item : Value) :
    Deletable (classifyItem decryptVaultField item) ((vaultItemResponseSchema (some item)).isOk = true)
      (fun key => Refuses (openItemName decryptVaultField item key) ∧
        Refuses (openItemData decryptVaultField item key))
      (fun keys => (decryptItemUnderAnyKey decryptVaultField item keys).isSome) := by
  apply deletable_of_iff
  · intro keys
    unfold classifyItem
    cases keys with
    | nil => simp
    | cons key keys =>
      cases hshaped : (vaultItemResponseSchema (some item)).isOk
      · simp
      · simp [judgeItem_unreadable, fieldVerdict_refused]
  · intro keys h
    obtain ⟨opened, hopened⟩ := Option.isSome_iff_exists.1 h
    obtain ⟨n, key, hkey, -, hplain⟩ := firstThatOpens_some hopened
    refine ⟨key, List.mem_of_getElem? hkey, ?_⟩
    intro hrefuses
    obtain ⟨error, herror, -⟩ := hrefuses.1
    unfold openItem at hplain
    rw [herror] at hplain
    cases hplain

theorem deletable_folder (folder : Value) :
    Deletable (classifyFolder decryptVaultField folder) ((folderResponseSchema (some folder)).isOk = true)
      (fun key => Refuses (openFolderName decryptVaultField folder key))
      (fun keys => (decryptFolderNameUnderAnyKey decryptVaultField folder keys).isSome) := by
  apply deletable_of_iff
  · intro keys
    unfold classifyFolder
    cases keys with
    | nil => simp
    | cons key keys =>
      cases hshaped : (folderResponseSchema (some folder)).isOk
      · simp
      · simp [judgeFolder_unreadable, fieldVerdict_refused]
  · intro keys h
    obtain ⟨opened, hopened⟩ := Option.isSome_iff_exists.1 h
    obtain ⟨n, key, hkey, -, hplain⟩ := firstThatOpens_some hopened
    refine ⟨key, List.mem_of_getElem? hkey, ?_⟩
    intro hrefuses
    rw [hplain] at hrefuses
    exact not_refuses_ok _ hrefuses

/-- The whole of an item as one key opens it. -/
structure OpenedUnder (item : Value) (key : Key) (plain : ItemPlaintext) : Prop where
  name : openItemName decryptVaultField item key = .ok plain.name
  data : openItemData decryptVaultField item key = .ok plain.data
  history : ∃ stored entries, prop item "passwordHistory" = .ok stored ∧
    elementsOf stored = .ok entries ∧ entries.Forall₂ (fun entry read =>
      openHistoryEntry decryptVaultField item entry key = .ok read.1 ∧
        prop entry "changedAt" = .ok read.2) plain.history

theorem openHistory_ok {item : Value} {key : Key} {entries : List Value}
    {history : List (Utf16 × Option Value)}
    (h : openHistory decryptVaultField item key entries = .ok history) :
    entries.Forall₂ (fun entry read => openHistoryEntry decryptVaultField item entry key = .ok read.1 ∧
      prop entry "changedAt" = .ok read.2) history := by
  induction entries generalizing history with
  | nil =>
    cases h
    exact List.Forall₂.nil
  | cons entry entries ih =>
    obtain ⟨password, hpassword, h⟩ := bind_ok h
    obtain ⟨changedAt, hchangedAt, h⟩ := bind_ok h
    obtain ⟨rest, hrest, h⟩ := bind_ok h
    cases h
    exact List.Forall₂.cons ⟨hpassword, hchangedAt⟩ (ih hrest)

theorem openItem_ok {item : Value} {key : Key} {plain : ItemPlaintext}
    (h : openItem decryptVaultField item key = .ok plain) :
    OpenedUnder decryptVaultField item key plain := by
  obtain ⟨name, hname, h⟩ := bind_ok h
  obtain ⟨data, hdata, h⟩ := bind_ok h
  obtain ⟨stored, hstored, h⟩ := bind_ok h
  obtain ⟨entries, hentries, h⟩ := bind_ok h
  obtain ⟨history, hhistory, h⟩ := bind_ok h
  cases h
  exact ⟨hname, hdata, stored, entries, hstored, hentries, openHistory_ok decryptVaultField hhistory⟩

/-- **A deletable verdict** is given only to a row that is shaped like one and whose judged fields
all fail authentication under every key: to none that opens under one of them, whatever the order of
the keys or how often they come, and to none that more keys would not give it to as well. A row that
opens is given whole, as one key opens it. -/
theorem deletable_verdict :
    (∀ item, Deletable (classifyItem decryptVaultField item)
        ((vaultItemResponseSchema (some item)).isOk = true)
        (fun key => Refuses (openItemName decryptVaultField item key) ∧
          Refuses (openItemData decryptVaultField item key))
        (fun keys => (decryptItemUnderAnyKey decryptVaultField item keys).isSome)) ∧
      (∀ folder, Deletable (classifyFolder decryptVaultField folder)
        ((folderResponseSchema (some folder)).isOk = true)
        (fun key => Refuses (openFolderName decryptVaultField folder key))
        (fun keys => (decryptFolderNameUnderAnyKey decryptVaultField folder keys).isSome)) ∧
      ∀ item keys opened, decryptItemUnderAnyKey decryptVaultField item keys = some opened →
        ∃ key, keys[opened.2]? = some key ∧ OpenedUnder decryptVaultField item key opened.1 := by
  refine ⟨deletable_item decryptVaultField, deletable_folder decryptVaultField, ?_⟩
  intro item keys opened h
  obtain ⟨n, key, hkey, hindex, hplain⟩ := firstThatOpens_some h
  rw [Nat.zero_add] at hindex
  rw [hindex]
  exact ⟨key, hkey, openItem_ok decryptVaultField hplain⟩

/-! ## A row that another key takes back -/

theorem sampleOrder_fits : Binary64.round53 0 = 0 ∧ |(0 : ℚ)| < 2 ^ 1024 := by decide +kernel

/-- A folder that opens under the second of two keys. -/
def sampleFolder : Value := .object
  [(units "_id", .string (units "a")), (units "encryptedName", .string (units "b")),
    (units "nameIv", .string (units "c")), (units "nameTag", .string (units "d")),
    (units "sortOrder", .number (.finite 0 sampleOrder_fits)),
    (units "createdAt", .string (units "e")), (units "updatedAt", .string (units "f"))]

def secondKeyOpens (_ : SealedField) (_ : Binding) (key : Bool) : Except Thrown Utf16 :=
  if key then .ok (units "name") else .error ⟨some (units "OperationError")⟩

theorem deletable_verdict_rescued :
    classifyFolder secondKeyOpens sampleFolder [false] = .ok .unreadable ∧
      decryptFolderNameUnderAnyKey secondKeyOpens sampleFolder [false] = none ∧
      classifyFolder secondKeyOpens sampleFolder [false, true] = .ok .readable := by
  have hunreadable : classifyFolder secondKeyOpens sampleFolder [false] = .ok .unreadable := by
    decide +kernel
  have hclosed := ((deletable_verdict secondKeyOpens).2.1 sampleFolder).never_opened _ hunreadable
  exact ⟨hunreadable, by simpa using hclosed, by decide +kernel⟩

end HVault.VaultRows
