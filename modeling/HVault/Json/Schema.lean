import Mathlib.Data.List.ReduceOption
import HVault.Json.Reader

/-!
# Schemas over JSON values

A schema reads a value, or a property that is not there: it says what the value is taken for, or the
first thing that is wrong with it. An object is taken for the properties that its schema names, in the
order in which it names them.

`Stable` says that what was read is a value that JSON text holds, and is read as itself. There is a
rule for each way to build a schema.
-/

namespace Json

open List Option

/-- `none` is `undefined`. -/
abbrev Schema := Option Value → Except Issue (Option Value)

namespace Schema

def string : Schema
  | some (.string s) => .ok (some (.string s))
  | _ => .error .wrong

def enum (values : List Utf16) : Schema
  | some (.string s) => if s ∈ values then .ok (some (.string s)) else .error .wrong
  | _ => .error .wrong

def optional (schema : Schema) : Schema
  | none => .ok none
  | some v => schema (some v)

def withDefault (default : Value) (schema : Schema) : Schema
  | none => .ok (some default)
  | some v => schema (some v)

def refine (check : Value → Bool) (issue : Issue) (schema : Schema) : Schema := fun x => do
  let y ← schema x
  if y.all check then return y else throw issue

/-- Of a string or an array. -/
def minLength (n : ℕ) (schema : Schema) : Schema :=
  schema.refine (fun
    | .string s => n ≤ s.length
    | .array items => n ≤ items.length
    | _ => true) .wrong

def maxLength (n : ℕ) (schema : Schema) : Schema :=
  schema.refine (fun
    | .string s => s.length ≤ n
    | .array items => items.length ≤ n
    | _ => true) .wrong

def transform (f : Value → Value) (schema : Schema) : Schema := fun x => do
  let y ← schema x
  return y.map f

def array (schema : Schema) : Schema
  | some (.array items) => do
    let read ← Reader.elements (fun v => schema (some v)) 0 items
    return some (.array read.reduceOption)
  | _ => .error .wrong

abbrev Shape := List (String × Schema)

def properties (fields : List (Utf16 × Value)) : Shape → Except Issue (List (Utf16 × Value))
  | [] => .ok []
  | (name, schema) :: shape => do
    let y ← (schema (lookup (utf16 name.toList) fields)).mapError (.below name)
    let rest ← properties fields shape
    return y.toList.map (utf16 name.toList, ·) ++ rest

def object (shape : Shape) : Schema
  | some (.object fields) => do
    let fields ← properties fields shape
    return some (.object fields)
  | _ => .error .wrong

/-! ## What is read as itself -/

/-- A value that is all there in its text. -/
def Plain (v : Value) : Prop := Ordered v ∧ v.written = v

theorem Plain.parse {v : Value} (h : Plain v) : parse (stringify v) = some v := by
  rw [parse_stringify h.1, h.2]

theorem plain_string (s : Utf16) : Plain (.string s) := ⟨.string s, rfl⟩

def Stable (schema : Schema) : Prop :=
  ∀ x y, schema x = .ok y → (x.isSome → y.isSome) ∧ (∀ v ∈ y, Plain v) ∧ schema y = .ok y

section Rules

variable {schema : Schema}

theorem stable_string : Stable string := by
  intro x y h
  unfold string at h
  split at h
  · cases h
    exact ⟨fun _ => rfl, fun v hv => mem_some.1 hv ▸ plain_string _, rfl⟩
  · cases h

theorem stable_enum (values : List Utf16) : Stable (enum values) := by
  intro x y h
  unfold enum at h
  split at h
  · rename_i s
    split_ifs at h with hs
    cases h
    exact ⟨fun _ => rfl, fun v hv => mem_some.1 hv ▸ plain_string _, if_pos hs⟩
  · cases h

theorem string_eq_ok {x y : Option Value} (h : string x = .ok y) : ∃ s, y = some (.string s) := by
  unfold string at h
  split at h
  · exact ⟨_, (Except.ok.inj h).symm⟩
  · cases h

theorem enum_eq_ok {values : List Utf16} {x y : Option Value} (h : enum values x = .ok y) :
    ∃ s ∈ values, y = some (.string s) := by
  unfold enum at h
  split at h
  · split_ifs at h with hs
    exact ⟨_, hs, (Except.ok.inj h).symm⟩
  · cases h

theorem Stable.optional (h : Stable schema) : Stable schema.optional := by
  intro x y hxy
  cases x with
  | none =>
    cases hxy
    exact ⟨id, nofun, rfl⟩
  | some v =>
    obtain ⟨hsome, hplain, hagain⟩ := h (some v) y hxy
    refine ⟨hsome, hplain, ?_⟩
    cases y with
    | none => rfl
    | some w => exact hagain

theorem Stable.withDefault {default : Value} (h : Stable schema) (hplain : Plain default)
    (hdefault : schema (some default) = .ok (some default)) : Stable (schema.withDefault default) := by
  intro x y hxy
  cases x with
  | none =>
    cases hxy
    exact ⟨fun _ => rfl, fun v hv => mem_some.1 hv ▸ hplain, hdefault⟩
  | some v =>
    obtain ⟨hsome, hplain, hagain⟩ := h (some v) y hxy
    obtain ⟨w, rfl⟩ := isSome_iff_exists.1 (hsome rfl)
    exact ⟨hsome, hplain, hagain⟩

theorem refine_eq_ok {check : Value → Bool} {issue : Issue} {x y : Option Value} :
    schema.refine check issue x = .ok y ↔ schema x = .ok y ∧ y.all check := by
  constructor
  · intro h
    obtain ⟨z, hz, hcheck⟩ := bind_ok h
    split_ifs at hcheck with hall
    · cases hcheck
      exact ⟨hz, hall⟩
  · rintro ⟨hschema, hall⟩
    unfold refine
    rw [hschema]
    exact if_pos hall

theorem Stable.refine (h : Stable schema) (check : Value → Bool) (issue : Issue) :
    Stable (schema.refine check issue) := by
  intro x y hxy
  obtain ⟨hschema, hall⟩ := refine_eq_ok.1 hxy
  obtain ⟨hsome, hplain, hagain⟩ := h x y hschema
  exact ⟨hsome, hplain, refine_eq_ok.2 ⟨hagain, hall⟩⟩

theorem Stable.minLength (h : Stable schema) (n : ℕ) : Stable (schema.minLength n) := h.refine _ _

theorem Stable.maxLength (h : Stable schema) (n : ℕ) : Stable (schema.maxLength n) := h.refine _ _

/-- What a transform makes of a value that is read as itself must be so too, and stay. -/
theorem Stable.transform {f : Value → Value} (h : Stable schema)
    (hf : ∀ v, Plain v → schema (some v) = .ok (some v) →
      Plain (f v) ∧ schema (some (f v)) = .ok (some (f v)) ∧ f (f v) = f v) :
    Stable (schema.transform f) := by
  intro x y hxy
  obtain ⟨z, hz, hmap⟩ := bind_ok hxy
  cases hmap
  obtain ⟨hsome, hplain, hagain⟩ := h x z hz
  cases z with
  | none =>
    refine ⟨hsome, nofun, ?_⟩
    unfold Schema.transform
    rw [map_none, hagain]
    rfl
  | some v =>
    obtain ⟨hplain, hschema, htwice⟩ := hf v (hplain v rfl) hagain
    refine ⟨fun _ => rfl, fun w hw => mem_some.1 hw ▸ hplain, ?_⟩
    unfold Schema.transform
    rw [map_some, hschema]
    show Except.ok (some (f (f v))) = _
    rw [htwice]

theorem plain_array {items : List Value} (h : ∀ v ∈ items, Plain v) : Plain (.array items) := by
  refine ⟨.array fun v hv => (h v hv).1, ?_⟩
  have hwritten : writtenItems items = items := by
    induction items with
    | nil => rfl
    | cons v items ih =>
      rw [writtenItems, (h v mem_cons_self).2, ih fun w hw => h w (mem_cons_of_mem _ hw)]
  rw [Value.written, hwritten]

theorem Stable.elements (h : Stable schema) {items : List Value} {read : List (Option Value)}
    (hread : Forall₂ (fun v x => schema (some v) = .ok x) items read) :
    ∃ vs : List Value, read = vs.map some ∧ ∀ v ∈ vs, Plain v ∧ schema (some v) = .ok (some v) := by
  induction hread with
  | nil => exact ⟨[], rfl, forall_mem_nil _⟩
  | cons hv _ ih =>
    obtain ⟨vs, rfl, hvs⟩ := ih
    obtain ⟨hsome, hplain, hagain⟩ := h _ _ hv
    obtain ⟨w, rfl⟩ := isSome_iff_exists.1 (hsome rfl)
    exact ⟨w :: vs, rfl, forall_mem_cons.2 ⟨⟨hplain w rfl, hagain⟩, hvs⟩⟩

theorem Stable.array (h : Stable schema) : Stable schema.array := by
  intro x y hxy
  unfold Schema.array at hxy
  split at hxy
  · obtain ⟨read, hread, hy⟩ := bind_ok hxy
    obtain ⟨vs, rfl, hvs⟩ := h.elements (Reader.elements_ok hread)
    have hsame : (vs.map some).reduceOption = vs := by simp [reduceOption]
    rw [hsame] at hy
    cases hy
    refine ⟨fun _ => rfl, fun v hv => mem_some.1 hv ▸ plain_array fun v hv => (hvs v hv).1, ?_⟩
    have hagain : Reader.elements (fun v => schema (some v)) 0 vs = .ok (vs.map some) :=
      Reader.elements_of_forall (forall₂_map_right_iff.2 (forall₂_same.2 fun v hv => (hvs v hv).2))
    show (Reader.elements _ 0 vs >>= _) = _
    rw [hagain]
    show Except.ok (some (Value.array (vs.map some).reduceOption)) = _
    rw [hsame]
  · cases hxy

/-! ## Objects -/

def Shape.keys (shape : Shape) : List Utf16 := shape.map fun property => utf16 property.1.toList

theorem lookup_append_of_notMem {key : Utf16} {before after : List (Utf16 × Value)}
    (h : key ∉ before.map (·.1)) : lookup key (before ++ after) = lookup key after := by
  unfold lookup
  rw [find?_append, find?_eq_none.2]
  · rfl
  · intro field hfield
    rw [decide_eq_true_iff]
    exact fun heq => h (heq ▸ mem_map_of_mem hfield)

theorem lookup_of_notMem {key : Utf16} {fields : List (Utf16 × Value)} (h : key ∉ fields.map (·.1)) :
    lookup key fields = none := by
  have happend := @lookup_append_of_notMem key fields [] h
  rwa [append_nil] at happend

theorem lookup_cons_self (key : Utf16) (v : Value) (fields : List (Utf16 × Value)) :
    lookup key ((key, v) :: fields) = some v := by
  simp [lookup]

/-- The keys of what is read are among those of the shape, in its order. -/
theorem properties_keys {shape : Shape} {fields read : List (Utf16 × Value)}
    (h : properties fields shape = .ok read) : (read.map (·.1)).Sublist shape.keys := by
  induction shape generalizing read with
  | nil =>
    cases h
    exact List.Sublist.refl []
  | cons property shape ih =>
    obtain ⟨y, -, h⟩ := bind_ok h
    obtain ⟨rest, hrest, h⟩ := bind_ok h
    obtain rfl := Except.ok.inj h
    have hkeys : Shape.keys (property :: shape) = utf16 property.1.toList :: Shape.keys shape := rfl
    rw [hkeys, map_append]
    cases y with
    | none => exact (ih hrest).cons _
    | some v => exact (ih hrest).cons_cons _

theorem properties_again {shape : Shape} (hstable : ∀ property ∈ shape, Stable property.2)
    (hnodup : shape.keys.Nodup) {fields read before : List (Utf16 × Value)}
    (hbefore : ∀ key ∈ shape.keys, key ∉ before.map (·.1))
    (h : properties fields shape = .ok read) :
    (∀ field ∈ read, Plain field.2) ∧ properties (before ++ read) shape = .ok read := by
  induction shape generalizing read before with
  | nil =>
    cases h
    exact ⟨forall_mem_nil _, rfl⟩
  | cons property shape ih =>
    obtain ⟨name, schema⟩ := property
    obtain ⟨y, hy, h⟩ := bind_ok h
    obtain ⟨rest, hrest, h⟩ := bind_ok h
    obtain rfl := Except.ok.inj h
    obtain ⟨hnew, hnodup⟩ := nodup_cons.1 hnodup
    have hnotRest : utf16 name.toList ∉ rest.map (·.1) := fun hmem => hnew ((properties_keys hrest).subset hmem)
    obtain ⟨-, hplain, hagain⟩ := hstable (name, schema) mem_cons_self _ y (mapError_ok hy)
    change schema y = .ok y at hagain
    -- the property is found where it was put, and where it was not put it is not found
    have hfound : lookup (utf16 name.toList)
        (before ++ (y.toList.map (utf16 name.toList, ·) ++ rest)) = y := by
      rw [lookup_append_of_notMem (hbefore _ mem_cons_self)]
      cases y with
      | none => exact lookup_of_notMem hnotRest
      | some v =>
        exact lookup_cons_self _ _ _
    have hbeforeRest : ∀ key ∈ Shape.keys shape,
        key ∉ (before ++ y.toList.map (utf16 name.toList, ·)).map (·.1) := by
      intro key hkey hmem
      rw [map_append, mem_append] at hmem
      rcases hmem with hmem | hmem
      · exact hbefore key (mem_cons_of_mem _ hkey) hmem
      · obtain ⟨field, hfield, rfl⟩ := mem_map.1 hmem
        obtain ⟨v, -, rfl⟩ := mem_map.1 hfield
        exact hnew hkey
    obtain ⟨hplains, hrests⟩ := ih (fun p hp => hstable p (mem_cons_of_mem _ hp)) hnodup hbeforeRest hrest
    rw [append_assoc] at hrests
    refine ⟨?_, ?_⟩
    · intro field hfield
      rcases mem_append.1 hfield with hfield | hfield
      · obtain ⟨v, hv, rfl⟩ := mem_map.1 hfield
        exact hplain v (mem_toList.1 hv)
      · exact hplains field hfield
    · rw [properties, hfound, hagain]
      show (properties _ shape >>= _) = _
      rw [hrests]
      rfl

theorem plain_object {fields : List (Utf16 × Value)}
    (hfollows : fields.Pairwise fun a b => Follows a.1 b.1) (h : ∀ field ∈ fields, Plain field.2) :
    Plain (.object fields) := by
  refine ⟨.object hfollows fun field hfield => (h field hfield).1, ?_⟩
  have hwritten : writtenFields fields = fields := by
    clear hfollows
    induction fields with
    | nil => rfl
    | cons field fields ih =>
      obtain ⟨key, v⟩ := field
      rw [writtenFields, (h (key, v) mem_cons_self).2,
        ih fun w hw => h w (mem_cons_of_mem _ hw)]
  rw [Value.written, hwritten]

/-- Names of properties that are different and no numbers. -/
def named (names : List String) : Bool :=
  let keys := names.map fun name => utf16 name.toList
  decide keys.Nodup && keys.all isName

theorem stable_object {shape : Shape} (hnamed : named (shape.map (·.1)))
    (hstable : ∀ property ∈ shape, Stable property.2) : Stable (object shape) := by
  intro x y hxy
  have hkeys : (shape.map (·.1)).map (fun name => utf16 name.toList) = shape.keys := map_map
  unfold named at hnamed
  rw [hkeys] at hnamed
  obtain ⟨hnodup, hnames⟩ := Bool.and_eq_true_iff.1 hnamed
  have hnodup := of_decide_eq_true hnodup
  unfold object at hxy
  split at hxy
  · rename_i fields
    obtain ⟨read, hread, hy⟩ := bind_ok hxy
    cases hy
    obtain ⟨hplain, hagain⟩ := @properties_again shape hstable hnodup fields read []
      (fun key _ => not_mem_nil) hread
    have hkeys := properties_keys hread
    have hfollows := pairwise_follows (hnodup.sublist hkeys)
      fun key hkey => all_eq_true.1 hnames key (hkeys.subset hkey)
    refine ⟨fun _ => rfl, fun v hv => mem_some.1 hv ▸ plain_object hfollows hplain, ?_⟩
    show (properties read shape >>= _) = _
    rw [show properties read shape = _ from hagain]
    rfl
  · cases hxy

end Rules

end Schema

end Json
