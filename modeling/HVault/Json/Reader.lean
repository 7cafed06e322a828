import HVault.Json.RoundTrip

/-!
# Readers of JSON values

A reader takes a value for what it stands for, or says where the first thing is that is wrong with it.
An object is read property by property, and what no reader names is dropped.

* `Rereads`: what was written of something is read as that thing, if it is read at all;
* `required_step`, `array_written`: when it is read.

There is a rule of each kind for each reader. What is written of a record is the list of its
properties that are there (`present`), and each is looked up by its name (`lookup_present`).
-/

namespace Json

open List Option Value

/-- Where a value is wrong, and the text where the schema has one of its own. -/
structure Issue where
  path : List String
  message : Option String
deriving DecidableEq

def Issue.below (name : String) (issue : Issue) : Issue := { issue with path := name :: issue.path }

def Issue.wrong : Issue := ⟨[], none⟩

/-- What a reader makes of a value, or the first issue. -/
abbrev Checked (α : Type) := Except Issue α

def units (s : String) : Utf16 := utf16 s.toList

/-! ## Steps that succeed -/

section Steps

variable {ε α β : Type} {x : Except ε α}

theorem bind_ok {f : α → Except ε β} {b : β} (h : x >>= f = .ok b) :
    ∃ a, x = .ok a ∧ f a = .ok b := by
  cases x with
  | error e => cases h
  | ok a => exact ⟨a, rfl, h⟩

theorem mapError_ok {ε' : Type} {f : ε → ε'} {a : α} (h : x.mapError f = .ok a) : x = .ok a := by
  cases x with
  | error e => cases h
  | ok b =>
    cases h
    rfl

/-- A check before the rest has been passed. -/
theorem guard_ok {c : Prop} [Decidable c] {e : ε} {a : α} (h : (do
      if c then Except.error e
      x) = .ok a) : ¬ c ∧ x = .ok a := by
  by_cases hc : c
  · rw [if_pos hc] at h
    cases h
  · rw [if_neg hc] at h
    exact ⟨hc, h⟩

end Steps

/-! ## The readers -/

namespace Reader

def object : Value → Checked (List (Utf16 × Value))
  | .object fields => .ok fields
  | _ => .error .wrong

def string : Value → Checked Utf16
  | .string s => .ok s
  | _ => .error .wrong

def boolean : Value → Checked Bool
  | .bool b => .ok b
  | _ => .error .wrong

/-- A string that passes a further check. -/
def stringThat (check : Utf16 → Bool) (v : Value) : Checked Utf16 := do
  let s ← string v
  if check s then return s else .error .wrong

def nonEmpty : Value → Checked Utf16 := stringThat fun s => s ≠ []

/-- An integer that is exact as a double. -/
def integer : Value → Checked ℤ
  | .number (.finite x _) => if x.den = 1 ∧ |x.num| < 2 ^ 53 then .ok x.num else .error .wrong
  | _ => .error .wrong

def atLeast (low : ℕ) (v : Value) : Checked ℕ := do
  let n ← integer v
  if low ≤ n then return n.toNat else .error .wrong

def between (low high : ℕ) (v : Value) : Checked ℕ := do
  let n ← atLeast low v
  if n ≤ high then return n else .error .wrong

/-- The elements of an array, from the `i`-th on. -/
def elements {α : Type} (schema : Value → Checked α) : ℕ → List Value → Checked (List α)
  | _, [] => .ok []
  | i, v :: items => do
    let x ← (schema v).mapError (.below (toString i))
    let xs ← elements schema (i + 1) items
    return x :: xs

def array {α : Type} (schema : Value → Checked α) : Value → Checked (List α)
  | .array items => elements schema 0 items
  | _ => .error .wrong

def required {α : Type} (name : String) (schema : Value → Checked α)
    (fields : List (Utf16 × Value)) : Checked α :=
  match lookup (units name) fields with
  | some v => (schema v).mapError (.below name)
  | none => .error ⟨[name], none⟩

def optional {α : Type} (name : String) (schema : Value → Checked α)
    (fields : List (Utf16 × Value)) : Checked (Option α) :=
  match lookup (units name) fields with
  | some v => (some <$> schema v).mapError (.below name)
  | none => .ok none

/-! ## What is written -/

def number (n : ℕ) : Value := .number (.ofRat n)

/-- The properties that are there. -/
def present (properties : List (String × Option Value)) : List (Utf16 × Value) :=
  properties.filterMap fun property => property.2.map fun v => (units property.1, v)

/-! ## What has been read -/

section Reads

variable {α : Type} {schema : Value → Checked α} {v : Value}

theorem required_ok {name : String} {fields : List (Utf16 × Value)} {x : α}
    (h : required name schema fields = .ok x) :
    ∃ v, lookup (units name) fields = some v ∧ schema v = .ok x := by
  unfold required at h
  split at h
  · rename_i v hv
    exact ⟨v, hv, mapError_ok h⟩
  · cases h

theorem atLeast_ok {low n : ℕ} (h : atLeast low v = .ok n) : low ≤ n := by
  obtain ⟨z, -, h⟩ := bind_ok h
  split at h
  · rename_i hle
    cases h
    omega
  · cases h

theorem elements_ok {i : ℕ} {items : List Value} {xs : List α}
    (h : elements schema i items = .ok xs) :
    List.Forall₂ (fun v x => schema v = .ok x) items xs := by
  induction items generalizing i xs with
  | nil =>
    cases h
    exact .nil
  | cons v items ih =>
    obtain ⟨x, hx, h⟩ := bind_ok h
    obtain ⟨rest, hrest, h⟩ := bind_ok h
    cases h
    exact .cons (mapError_ok hx) (ih hrest)

/-- What holds of everything that a schema makes holds of all elements. -/
theorem forall_of_elements {P : α → Prop} (hP : ∀ v x, schema v = .ok x → P x)
    {items : List Value} {xs : List α} (h : List.Forall₂ (fun v x => schema v = .ok x) items xs) :
    ∀ x ∈ xs, P x := by
  induction h with
  | nil => nofun
  | cons hx _ ih => exact List.forall_mem_cons.2 ⟨hP _ _ hx, ih⟩

theorem array_ok {xs : List α} (h : array schema v = .ok xs) :
    ∃ items, v = .array items ∧ List.Forall₂ (fun v x => schema v = .ok x) items xs := by
  cases v with
  | array items => exact ⟨items, rfl, elements_ok h⟩
  | _ => cases h

end Reads

/-! ## Properties -/

theorem units_injective : Function.Injective units := fun _ _ h =>
  String.toList_inj.1 (utf16_injective h)

section Properties

variable {properties : List (String × Option Value)}

theorem lookup_present_absent {name : String} (h : name ∉ properties.map (·.1)) :
    lookup (units name) (present properties) = none := by
  unfold lookup
  rw [Option.map_eq_none_iff, List.find?_eq_none]
  intro field hfield heq
  obtain ⟨property, hproperty, hsome⟩ := List.mem_filterMap.1 hfield
  obtain ⟨v, -, rfl⟩ := Option.map_eq_some_iff.1 hsome
  have hname := units_injective (of_decide_eq_true heq)
  exact h (hname ▸ List.mem_map_of_mem hproperty)

theorem present_none (name : String) :
    present ((name, none) :: properties) = present properties := rfl

theorem present_some (name : String) (v : Value) :
    present ((name, some v) :: properties) = (units name, v) :: present properties := rfl

theorem lookup_present (hnodup : (properties.map (·.1)).Nodup) {name : String} {v : Option Value}
    (hmem : (name, v) ∈ properties) : lookup (units name) (present properties) = v := by
  induction properties with
  | nil => cases hmem
  | cons property properties ih =>
    obtain ⟨name', v'⟩ := property
    rw [List.map_cons, List.nodup_cons] at hnodup
    rcases List.mem_cons.1 hmem with heq | hmem
    · obtain ⟨rfl, rfl⟩ := Prod.mk.inj heq
      cases v with
      | none =>
        rw [present_none]
        exact lookup_present_absent hnodup.1
      | some v =>
        unfold lookup
        rw [present_some, List.find?_cons_of_pos (by simp)]
        rfl
    · have hin : name ∈ properties.map (·.1) := List.mem_map_of_mem hmem
      have hne : name' ≠ name := fun heq => hnodup.1 (by rw [heq]; exact hin)
      have hrest := ih hnodup.2 hmem
      cases v' with
      | none =>
        rw [present_none]
        exact hrest
      | some v' =>
        unfold lookup at hrest ⊢
        rw [present_some, List.find?_cons_of_neg (by simpa using fun h => hne (units_injective h))]
        exact hrest

theorem keys_present_sublist : ((present properties).map (·.1)).Sublist
    (properties.map fun property => units property.1) := by
  induction properties with
  | nil => exact .slnil
  | cons property properties ih =>
    obtain ⟨name, v⟩ := property
    cases v with
    | none => exact ih.cons _
    | some v => exact ih.cons_cons _

/-- An object with the properties of a record is in order. -/
theorem ordered_present (hnodup : (properties.map (·.1)).Nodup)
    (hnames : ∀ name ∈ properties.map (·.1), isName (units name))
    (h : ∀ property ∈ properties, ∀ v ∈ property.2, Ordered v) :
    Ordered (.object (present properties)) := by
  refine .object (pairwise_follows ?_ fun key hkey => ?_) fun field hfield => ?_
  · have hunits : (properties.map fun property => units property.1).Nodup := by
      have hmap := hnodup.map units_injective
      rwa [List.map_map] at hmap
    exact hunits.sublist keys_present_sublist
  · obtain ⟨property, hproperty, rfl⟩ := List.mem_map.1 (keys_present_sublist.subset hkey)
    exact hnames _ (List.mem_map_of_mem hproperty)
  · obtain ⟨property, hproperty, hsome⟩ := List.mem_filterMap.1 hfield
    obtain ⟨v, hv, rfl⟩ := Option.map_eq_some_iff.1 hsome
    exact h property hproperty v hv

end Properties

/-! ## Values -/

/-- A schema that reads what was written of a value as that value. -/
def Rereads {α : Type} (schema : Value → Checked α) (json : α → Value) : Prop :=
  ∀ x y, schema (json x).written = .ok y → y = x

theorem stringThat_rereads (check : Utf16 → Bool) : Rereads (stringThat check) .string := by
  intro s y h
  obtain ⟨s', hs', h⟩ := bind_ok h
  cases hs'
  split at h
  · cases h
    rfl
  · cases h

theorem string_rereads : Rereads string .string := by
  intro s y h
  cases h
  rfl

theorem boolean_rereads : Rereads boolean .bool := by
  intro b y h
  cases h
  rfl

theorem integer_number {n : ℕ} {z : ℤ} (h : integer (number n).written = .ok z) : z = n := by
  unfold number at h
  cases hn : Number.ofRat n with
  | infinite negative =>
    rw [hn] at h
    cases h
  | finite x hx =>
    rw [hn] at h
    unfold integer Value.written at h
    dsimp only at h
    split at h
    · rename_i hint
      obtain ⟨hden, hlt⟩ := hint
      have hx' : x = x.num := ((Rat.den_eq_one_iff x).1 hden).symm
      have hbound : x < 2 ^ 53 := by
        rw [hx']
        exact_mod_cast (abs_lt.1 hlt).2
      have hxn := Number.natCast_of_ofRat hn hbound
      cases h
      rw [hxn]
      exact Rat.num_natCast n
    · cases h

theorem atLeast_rereads (low : ℕ) : Rereads (atLeast low) number := by
  intro n y h
  obtain ⟨z, hz, h⟩ := bind_ok h
  split at h
  · cases h
    rw [integer_number hz]
    rfl
  · cases h

theorem between_rereads (low high : ℕ) : Rereads (between low high) number := by
  intro n y h
  obtain ⟨m, hm, h⟩ := bind_ok h
  split at h
  · cases h
    exact atLeast_rereads low n _ hm
  · cases h

theorem array_rereads {α : Type} {schema : Value → Checked α} {json : α → Value}
    (hread : Rereads schema json) : Rereads (array schema) fun xs => .array (xs.map json) := by
  intro xs ys h
  obtain ⟨items, hitems, hall⟩ := array_ok h
  rw [Value.written, writtenItems_eq, List.map_map] at hitems
  obtain rfl := Value.array.inj hitems
  clear h hitems
  induction xs generalizing ys with
  | nil =>
    cases hall
    rfl
  | cons x xs ih =>
    cases hall with
    | cons hy hrest => rw [hread x _ hy, ih _ hrest]

section Records

variable {α : Type} {properties : List (String × Option Value)} {name : String}
  {schema : Value → Checked α} {json : α → Value}

theorem required_rereads (hnodup : (properties.map (·.1)).Nodup) (hread : Rereads schema json)
    {x y : α} (hmem : (name, some (json x)) ∈ properties)
    (h : required name schema (writtenFields (present properties)) = .ok y) : y = x := by
  obtain ⟨v, hv, hy⟩ := required_ok h
  rw [lookup_writtenFields, lookup_present hnodup hmem] at hv
  cases hv
  exact hread x y hy

theorem optional_rereads (hnodup : (properties.map (·.1)).Nodup) (hread : Rereads schema json)
    {x y : Option α} (hmem : (name, x.map json) ∈ properties)
    (h : optional name schema (writtenFields (present properties)) = .ok y) : y = x := by
  unfold optional at h
  rw [lookup_writtenFields, lookup_present hnodup hmem] at h
  cases x with
  | none =>
    cases h
    rfl
  | some x =>
    have hsome : (some <$> schema (json x).written) = .ok y := mapError_ok h
    cases hread' : schema (json x).written with
    | error e =>
      rw [hread'] at hsome
      cases hsome
    | ok z =>
      rw [hread'] at hsome
      cases hsome
      rw [hread x z hread']

/-- The step of a schema that reads a property which was written. -/
theorem required_bind {β : Type} (x : α) (hnodup : (properties.map (·.1)).Nodup)
    (hread : Rereads schema json) (hmem : (name, some (json x)) ∈ properties)
    {rest : α → Checked β} {b : β}
    (h : (required name schema (writtenFields (present properties)) >>= rest) = .ok b) :
    rest x = .ok b := by
  obtain ⟨y, hy, h⟩ := bind_ok h
  rwa [required_rereads hnodup hread hmem hy] at h

theorem optional_bind {β : Type} (x : Option α) (hnodup : (properties.map (·.1)).Nodup)
    (hread : Rereads schema json) (hmem : (name, x.map json) ∈ properties)
    {rest : Option α → Checked β} {b : β}
    (h : (optional name schema (writtenFields (present properties)) >>= rest) = .ok b) :
    rest x = .ok b := by
  obtain ⟨y, hy, h⟩ := bind_ok h
  rwa [optional_rereads hnodup hread hmem hy] at h

end Records

/-! ## When what is written is read -/

theorem stringThat_written {check : Utf16 → Bool} {s : Utf16} :
    stringThat check (Value.string s).written = .ok s ↔ check s := by
  show (if check s then (return s : Checked Utf16) else .error .wrong) = .ok s ↔ _
  constructor
  · intro h
    by_contra hcheck
    rw [if_neg hcheck] at h
    cases h
  · exact fun h => if_pos h

theorem integer_written {n : ℕ} : integer (number n).written = .ok (n : ℤ) ↔ n < 2 ^ 53 := by
  constructor
  · intro h
    unfold number at h
    cases hn : Number.ofRat n with
    | infinite negative =>
      rw [hn] at h
      cases h
    | finite x hx =>
      rw [hn] at h
      unfold integer written at h
      dsimp only at h
      split at h
      · rename_i hint
        obtain ⟨hden, hlt⟩ := hint
        have hnum : x.num = n := Except.ok.inj h
        rw [hnum] at hlt
        have habs := (abs_lt.1 hlt).2
        exact_mod_cast habs
      · cases h
  · intro h
    obtain ⟨hn, heq⟩ := Number.ofRat_natCast h
    unfold number
    rw [heq]
    unfold integer written
    dsimp only
    rw [Rat.num_natCast, abs_of_nonneg (Int.natCast_nonneg n)]
    exact if_pos ⟨Rat.den_natCast n, by exact_mod_cast h⟩

theorem atLeast_written {low n : ℕ} :
    atLeast low (number n).written = .ok n ↔ low ≤ n ∧ n < 2 ^ 53 := by
  constructor
  · intro h
    refine ⟨atLeast_ok h, ?_⟩
    obtain ⟨z, hz, -⟩ := bind_ok h
    rw [integer_number hz] at hz
    exact integer_written.1 hz
  · rintro ⟨hlow, hlt⟩
    unfold atLeast
    rw [integer_written.2 hlt]
    show (if (low : ℤ) ≤ n then (return (n : ℤ).toNat : Checked ℕ) else .error .wrong) = _
    rw [if_pos (by exact_mod_cast hlow)]
    rfl

theorem between_written {low high n : ℕ} :
    between low high (number n).written = .ok n ↔ (low ≤ n ∧ n < 2 ^ 53) ∧ n ≤ high := by
  constructor
  · intro h
    obtain ⟨m, hm, h⟩ := bind_ok h
    obtain rfl : m = n := atLeast_rereads low n m hm
    refine ⟨atLeast_written.1 hm, ?_⟩
    by_contra hhigh
    rw [if_neg hhigh] at h
    cases h
  · rintro ⟨hlow, hhigh⟩
    unfold between
    rw [atLeast_written.2 hlow]
    exact if_pos hhigh

theorem elements_of_forall {α : Type} {schema : Value → Checked α} {i : ℕ} {items : List Value}
    {xs : List α} (h : List.Forall₂ (fun v x => schema v = .ok x) items xs) :
    elements schema i items = .ok xs := by
  induction h generalizing i with
  | nil => rfl
  | cons hx _ ih =>
    rw [elements, hx, ih]
    rfl

theorem array_written {α : Type} {schema : Value → Checked α} {json : α → Value} {xs : List α} :
    array schema (Value.array (xs.map json)).written = .ok xs ↔
      ∀ x ∈ xs, schema (json x).written = .ok x := by
  have hwritten : (Value.array (xs.map json)).written =
      .array (xs.map fun x => (json x).written) := by
    rw [written, writtenItems_eq, List.map_map]
    rfl
  rw [hwritten]
  constructor
  · intro h
    obtain ⟨items, hitems, hall⟩ := array_ok h
    cases hitems
    exact forall₂_same.1 (forall₂_map_left_iff.1 hall)
  · intro h
    exact elements_of_forall (forall₂_map_left_iff.2 (forall₂_same.2 h))

section Records

variable {α : Type} {properties : List (String × Option Value)} {name : String}
  {schema : Value → Checked α} {json : α → Value}

theorem required_written {x y : α} (hnodup : (properties.map (·.1)).Nodup)
    (hread : Rereads schema json) (hmem : (name, some (json x)) ∈ properties)
    (h : required name schema (writtenFields (present properties)) = .ok y) :
    schema (json x).written = .ok x := by
  obtain rfl := required_rereads hnodup hread hmem h
  obtain ⟨v, hv, hx⟩ := required_ok h
  rw [lookup_writtenFields, lookup_present hnodup hmem] at hv
  cases hv
  exact hx

/-- Reading a property that was written, and going on with it. -/
theorem required_step {β : Type} (x : α) (hnodup : (properties.map (·.1)).Nodup)
    (hread : Rereads schema json) (hmem : (name, some (json x)) ∈ properties)
    {rest : α → Checked β} {b : β} :
    (required name schema (writtenFields (present properties)) >>= rest) = .ok b ↔
      schema (json x).written = .ok x ∧ rest x = .ok b := by
  constructor
  · intro h
    obtain ⟨y, hy, hrest⟩ := bind_ok h
    obtain rfl := required_rereads hnodup hread hmem hy
    exact ⟨required_written hnodup hread hmem hy, hrest⟩
  · rintro ⟨hx, hrest⟩
    unfold required
    simp only [lookup_writtenFields, lookup_present hnodup hmem, Option.map_some]
    rw [hx]
    exact hrest

end Records

theorem object_step {β : Type} (fields : List (Utf16 × Value))
    (rest : List (Utf16 × Value) → Checked β) : (object (.object fields) >>= rest) = rest fields :=
  rfl

theorem object_required {β : Type} {properties : List (String × Option Value)} {name : String}
    {fields : List (Utf16 × Value)} (hnodup : (properties.map (·.1)).Nodup)
    (hmem : (name, some (.object fields)) ∈ properties) (hwritten : writtenFields fields = fields)
    {rest : List (Utf16 × Value) → Checked β} :
    (required name object (writtenFields (present properties)) >>= rest) = rest fields := by
  unfold required
  simp only [lookup_writtenFields, lookup_present hnodup hmem, Option.map_some, written]
  rw [hwritten]
  rfl

end Reader

end Json
