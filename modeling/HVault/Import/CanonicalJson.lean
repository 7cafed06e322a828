import HVault.Json.SameValue

/-!
# Canonical JSON

The text that an item's content is hashed by. Strings and property names are put in their composed
form (`nfc`), the properties of an object are set again in the order of their names, and the result
is written. `canonicalJson_eq_iff`: the text tells two values apart exactly when more than that
differs between them.
-/

namespace HVault.ItemIdentity

open Json List

-- `String.prototype.normalize('NFC')`
variable (nfc : Utf16 → Utf16)

mutual

def canonicalize : Value → Value
  | .string s => .string (nfc s)
  | .array items => .array (canonicalizeItems items)
  -- sorting looks at the names alone, so it may come after the values were canonicalized
  | .object fields => .object (inNameOrder (canonicalizeEntries fields))
  | v => v

def canonicalizeItems : List Value → List Value
  | [] => []
  | v :: items => canonicalize v :: canonicalizeItems items

def canonicalizeEntries : List (Utf16 × Value) → List (Utf16 × Value)
  | [] => []
  | (key, v) :: fields => (nfc key, canonicalize v) :: canonicalizeEntries fields

end

def canonicalJson (v : Value) : List Char := stringify (canonicalize nfc v)

/-! ## What a canonical value is -/

theorem canonicalizeItems_eq (items : List Value) :
    canonicalizeItems nfc items = items.map (canonicalize nfc) := by
  induction items with
  | nil => rfl
  | cons v items ih => rw [canonicalizeItems, ih, map_cons]

theorem canonicalizeEntries_eq (fields : List (Utf16 × Value)) :
    canonicalizeEntries nfc fields
      = fields.map fun field => (nfc field.1, canonicalize nfc field.2) := by
  induction fields with
  | nil => rfl
  | cons field fields ih => rw [canonicalizeEntries, ih, map_cons]

theorem names_canonicalizeEntries (fields : List (Utf16 × Value)) :
    (canonicalizeEntries nfc fields).map (·.1) = fields.map fun field => nfc field.1 := by
  rw [canonicalizeEntries_eq, map_map]
  rfl

variable {nfc}

theorem nodup_canonicalizeEntries {fields : List (Utf16 × Value)}
    (h : (fields.map fun field => nfc field.1).Nodup) :
    ((canonicalizeEntries nfc fields).map (·.1)).Nodup := by
  rwa [names_canonicalizeEntries]

/-- A canonical value is in order, and its text holds all of it. -/
theorem plain_canonicalize {v : Value} (h : Apart nfc v) : Schema.Plain (canonicalize nfc v) := by
  induction h with
  | null => exact ⟨.null, rfl⟩
  | bool b => exact ⟨.bool b, rfl⟩
  | number x h => exact ⟨.number _, rfl⟩
  | string s => exact Schema.plain_string _
  | @array items _ ih =>
    rw [canonicalize, canonicalizeItems_eq]
    refine Schema.plain_array fun v hv => ?_
    obtain ⟨u, hu, rfl⟩ := mem_map.1 hv
    exact ih u hu
  | @object fields hnames _ ih =>
    rw [canonicalize]
    refine Schema.plain_object (pairwise_follows_assignAll _) fun field hfield => ?_
    have hmem := (perm_inNameOrder (nodup_canonicalizeEntries hnames)).mem_iff.1 hfield
    rw [canonicalizeEntries_eq] at hmem
    obtain ⟨f, hf, rfl⟩ := mem_map.1 hmem
    exact ih f hf

/-! ## When two canonical values are one -/

/-- A list is another with one element put in iff the element is there and the rest is the same. -/
theorem cons_perm_map_iff {α β : Type} {f : α → β} {b : β} {bs : List β} {as : List α} :
    (b :: bs).Perm (as.map f) ↔
      ∃ before a after, as = before ++ a :: after ∧ f a = b ∧
        bs.Perm ((before ++ after).map f) := by
  constructor
  · intro hperm
    obtain ⟨a, ha, rfl⟩ := mem_map.1 (hperm.mem_iff.1 mem_cons_self)
    obtain ⟨before, after, rfl⟩ := append_of_mem ha
    refine ⟨before, a, after, rfl, rfl, ?_⟩
    have hmoved : (f a :: bs).Perm (f a :: (before ++ after).map f) := by
      refine hperm.trans ?_
      rw [← map_cons]
      exact perm_middle.map f
    exact hmoved.cons_inv
  · rintro ⟨before, a, after, rfl, rfl, hperm⟩
    refine (hperm.cons _).trans ?_
    rw [← map_cons]
    exact (perm_middle.map f).symm

mutual

theorem canonicalize_eq_iff : ∀ v w : Value, Apart nfc v → Apart nfc w →
    (canonicalize nfc v = canonicalize nfc w ↔ Same nfc v w)
  | .null, w, _, _ => by cases w <;> simp [canonicalize, Same]
  | .bool b, w, _, _
  | .number n, w, _, _ | .string s, w, _, _ => by cases w <;> simp [canonicalize, Same]
  | .array items, w, hv, hw => by
    cases w with
    | array items' =>
      rw [canonicalize, canonicalize, Value.array.injEq, Same]
      exact canonicalizeItems_eq_iff items items' hv.items hw.items
    | _ => simp [canonicalize, Same]
  | .object fields, w, hv, hw => by
    cases w with
    | object fields' =>
      rw [canonicalize, canonicalize, Value.object.injEq, Same,
        inNameOrder_eq_iff (nodup_canonicalizeEntries hv.fields.1)
          (nodup_canonicalizeEntries hw.fields.1)]
      exact canonicalizeEntries_perm_iff fields fields' hv.fields.2 hw.fields.2
    | _ => simp [canonicalize, Same]

theorem canonicalizeItems_eq_iff : ∀ items items' : List Value, (∀ v ∈ items, Apart nfc v) →
    (∀ v ∈ items', Apart nfc v) →
      (canonicalizeItems nfc items = canonicalizeItems nfc items' ↔ SameItems nfc items items')
  | [], items', _, _ => by cases items' <;> simp [canonicalizeItems, SameItems]
  | v :: items, items', h, h' => by
    cases items' with
    | nil => simp [canonicalizeItems, SameItems]
    | cons v' items' =>
      rw [forall_mem_cons] at h h'
      rw [canonicalizeItems, canonicalizeItems, cons.injEq, SameItems,
        canonicalize_eq_iff v v' h.1 h'.1, canonicalizeItems_eq_iff items items' h.2 h'.2]

theorem canonicalizeEntries_perm_iff : ∀ fields fields' : List (Utf16 × Value),
    (∀ field ∈ fields, Apart nfc field.2) → (∀ field ∈ fields', Apart nfc field.2) →
      ((canonicalizeEntries nfc fields).Perm (canonicalizeEntries nfc fields') ↔
        SameFields nfc fields fields')
  | [], fields', _, _ => by
    rw [canonicalizeEntries, SameFields, canonicalizeEntries_eq, nil_perm, map_eq_nil_iff]
  | (key, v) :: fields, fields', h, h' => by
    rw [forall_mem_cons] at h
    rw [canonicalizeEntries, canonicalizeEntries_eq nfc fields', cons_perm_map_iff, SameFields]
    constructor
    · rintro ⟨before, ⟨key', v'⟩, after, rfl, heq, hperm⟩
      obtain ⟨hname, hvalue⟩ := Prod.mk.inj heq
      rw [forall_mem_append, forall_mem_cons] at h'
      rw [← canonicalizeEntries_eq] at hperm
      refine ⟨before, key', v', after, rfl, hname.symm, ?_, ?_⟩
      · exact (canonicalize_eq_iff v v' h.1 h'.2.1).1 hvalue.symm
      · exact (canonicalizeEntries_perm_iff fields (before ++ after) h.2
          (forall_mem_append.2 ⟨h'.1, h'.2.2⟩)).1 hperm
    · rintro ⟨before, key', v', after, rfl, hname, hsame, hrest⟩
      rw [forall_mem_append, forall_mem_cons] at h'
      refine ⟨before, (key', v'), after, rfl, ?_, ?_⟩
      · rw [hname, (canonicalize_eq_iff v v' h.1 h'.2.1).2 hsame]
      · rw [← canonicalizeEntries_eq]
        exact (canonicalizeEntries_perm_iff fields (before ++ after) h.2
          (forall_mem_append.2 ⟨h'.1, h'.2.2⟩)).2 hrest

end

/-- **Canonical text decides equality up to the order of keys and the form of strings.** -/
theorem canonicalJson_eq_iff {v w : Value} (hv : Apart nfc v) (hw : Apart nfc w) :
    canonicalJson nfc v = canonicalJson nfc w ↔ Same nfc v w := by
  rw [canonicalJson, canonicalJson, stringify_inj (plain_canonicalize hv) (plain_canonicalize hw)]
  exact canonicalize_eq_iff v w hv hw

/-- The composed form of text whose only accents are acute ones over an `e`. -/
def composeAcute : Utf16 → Utf16
  | 0x65 :: 0x301 :: s => 0xE9 :: composeAcute s
  | u :: s => u :: composeAcute s
  | [] => []

/-- Two orders, and two forms of one name. -/
theorem canonicalJson_eq_iff_sample :
    canonicalJson composeAcute (.object [([0x31, 0x30], .bool true),
        (utf16 "__proto__".toList, .array [.null]), ([0xE9], .string [0x65, 0x301])])
      = canonicalJson composeAcute (.object [([0x65, 0x301], .string [0xE9]),
        ([0x31, 0x30], .bool true), (utf16 "__proto__".toList, .array [.null])]) := by
  have hproto : Apart composeAcute (.array [.null]) := .array (by simp [Apart.null])
  refine (canonicalJson_eq_iff (.object (by decide) ?_) (.object (by decide) ?_)).2 ?_
  · simp [Apart.bool, Apart.string, hproto]
  · simp [Apart.bool, Apart.string, hproto]
  · refine ⟨[_], _, _, [_], rfl, rfl, rfl, ?_⟩
    refine ⟨[_], _, _, [], rfl, rfl, ⟨trivial, trivial⟩, ?_⟩
    exact ⟨[], _, _, [], rfl, rfl, rfl, rfl⟩

end HVault.ItemIdentity
