import HVault.Json.Numeral
import HVault.Json.Text

/-!
# Values and their text

The values that JSON text denotes, as a script holds them: numbers are doubles, strings are code
units, and an object has its properties in the order a script enumerates them, whatever the order of
the text was. `stringify` writes a value without any blanks, `parse` reads any text.
-/

namespace Json

open List

inductive Value where
  | null
  | bool (b : Bool)
  | number (n : Number)
  | string (s : Utf16)
  | array (items : List Value)
  | object (fields : List (Utf16 × Value))

/-! ## The order of properties -/

section Properties

variable {V : Type}

/-- The number that a property name is, if it is the name of an array element. -/
def arrayIndex (key : Utf16) : Option ℕ :=
  let n := Nat.ofDigitChars 10 (key.map fun u => .ofNat u.toNat) 0
  if utf16 (Nat.toDigits 10 n) = key ∧ n < 2 ^ 32 - 1 then some n else none

/-- Elements come in the order of their numbers, before the other properties. -/
def comesFirst (key key' : Utf16) : Bool :=
  match arrayIndex key, arrayIndex key' with
  | some i, some j => i < j
  | some _, none => true
  | none, _ => false

/-- A property is set: in the place it has, or in that of a new one. -/
def assign (key : Utf16) (v : V) : List (Utf16 × V) → List (Utf16 × V)
  | [] => [(key, v)]
  | (k, w) :: fields =>
    if k = key then (key, v) :: fields
    else if comesFirst key k then (key, v) :: (k, w) :: fields
    else (k, w) :: assign key v fields

/-- The properties of an object that are set one after the other. -/
def assignAll (fields : List (Utf16 × V)) : List (Utf16 × V) :=
  fields.foldl (fun object field => assign field.1 field.2 object) []

/-- Of two properties of an object, the first comes before the second. -/
def Follows (key key' : Utf16) : Prop := key ≠ key' ∧ comesFirst key' key = false

instance (key key' : Utf16) : Decidable (Follows key key') := inferInstanceAs (Decidable (_ ∧ _))

variable {fields : List (Utf16 × V)}

theorem assign_of_follows {key : Utf16} {v : V} (h : ∀ field ∈ fields, Follows field.1 key) :
    assign key v fields = fields ++ [(key, v)] := by
  induction fields with
  | nil => rfl
  | cons field fields ih =>
    obtain ⟨hne, hlast⟩ := h field mem_cons_self
    unfold assign
    rw [if_neg hne, hlast, if_neg Bool.false_ne_true,
      ih fun f hf => h f (mem_cons_of_mem _ hf)]
    rfl

theorem foldl_assign {object : List (Utf16 × V)}
    (h : (object ++ fields).Pairwise fun a b => Follows a.1 b.1) :
    fields.foldl (fun object field => assign field.1 field.2 object) object = object ++ fields := by
  induction fields generalizing object with
  | nil => rw [foldl_nil, append_nil]
  | cons field fields ih =>
    have hfollows : ∀ f ∈ object, Follows f.1 field.1 := fun f hf =>
      (pairwise_append.1 h).2.2 f hf field mem_cons_self
    rw [foldl_cons, assign_of_follows hfollows, ih, append_assoc]
    · rfl
    · rw [append_assoc]
      exact h

/-- Properties that stand in their order are set to themselves. -/
theorem assignAll_eq (h : fields.Pairwise fun a b => Follows a.1 b.1) : assignAll fields = fields :=
  @foldl_assign _ fields [] h

/-- A property name that does not begin with a digit. -/
def isName (key : Utf16) : Bool :=
  key.head?.any fun u => ¬ (0x30 ≤ u.toNat ∧ u.toNat ≤ 0x39)

theorem arrayIndex_of_isName {key : Utf16} (h : isName key) : arrayIndex key = none := by
  obtain ⟨u, us, rfl⟩ : ∃ u us, key = u :: us := by
    cases key with
    | nil => cases h
    | cons u us => exact ⟨u, us, rfl⟩
  have hu : ¬ (0x30 ≤ u.toNat ∧ u.toNat ≤ 0x39) := of_decide_eq_true h
  unfold arrayIndex
  refine if_neg fun ⟨hdigits, _⟩ => hu ?_
  obtain ⟨c, cs, hcs⟩ := exists_cons_of_ne_nil
    (Nat.toDigits_ne_nil (n := Nat.ofDigitChars 10 ((u :: us).map fun u => .ofNat u.toNat) 0))
  have hdigit : c.isDigit := isDigit_toDigits c (hcs ▸ mem_cons_self)
  have hrange : 0x30 ≤ c.toNat ∧ c.toNat ≤ 0x39 := Char.isDigit_iff_toNat.1 hdigit
  have hunits : unitsOf c = [.ofNat c.toNat] := by
    exact if_pos (by omega)
  rw [hcs, utf16, flatMap_cons, hunits] at hdigits
  rw [← (cons.inj hdigits).1, UInt16.toNat_ofNat_of_lt' (show c.toNat < 2 ^ 16 by omega)]
  exact hrange

theorem follows_of_isName {key key' : Utf16} (hne : key ≠ key') (h : isName key') :
    Follows key key' := by
  refine ⟨hne, ?_⟩
  unfold comesFirst
  rw [arrayIndex_of_isName h]

/-- Properties with names of their own stand in their order. -/
theorem pairwise_follows (hnodup : (fields.map (·.1)).Nodup)
    (hnames : ∀ key ∈ fields.map (·.1), isName key) :
    fields.Pairwise fun a b => Follows a.1 b.1 := by
  have hne : fields.Pairwise fun a b => a.1 ≠ b.1 := pairwise_map.1 hnodup
  exact hne.imp_of_mem fun _ hb hab =>
    follows_of_isName hab (hnames _ (mem_map_of_mem hb))

/-- What a property is set to. -/
def lookup (key : Utf16) (fields : List (Utf16 × V)) : Option V :=
  (fields.find? fun field => field.1 = key).map (·.2)

/-- All properties but one. -/
def without (key : Utf16) (fields : List (Utf16 × V)) : List (Utf16 × V) :=
  fields.filter fun field => field.1 ≠ key

end Properties

/-! ## Writing -/

mutual

def Value.text : Value → List Char
  | .null => ['n', 'u', 'l', 'l']
  | .bool true => ['t', 'r', 'u', 'e']
  | .bool false => ['f', 'a', 'l', 's', 'e']
  | .number n => numberText n
  | .string s => stringText s
  | .array items => '[' :: (itemsText items ++ [']'])
  | .object fields => '{' :: (fieldsText fields ++ ['}'])

def itemsText : List Value → List Char
  | [] => []
  | [v] => v.text
  | v :: w :: items => v.text ++ ',' :: itemsText (w :: items)

def fieldsText : List (Utf16 × Value) → List Char
  | [] => []
  | [(key, v)] => stringText key ++ ':' :: v.text
  | (key, v) :: field :: fields =>
    stringText key ++ ':' :: (v.text ++ ',' :: fieldsText (field :: fields))

end

/-- `JSON.stringify`. -/
def stringify (v : Value) : List Char := v.text

mutual

/-- What is left of a value in its text: an infinite number is written as `null`. -/
def Value.written : Value → Value
  | .number (.infinite _) => .null
  | .array items => .array (writtenItems items)
  | .object fields => .object (writtenFields fields)
  | v => v

def writtenItems : List Value → List Value
  | [] => []
  | v :: items => v.written :: writtenItems items

def writtenFields : List (Utf16 × Value) → List (Utf16 × Value)
  | [] => []
  | (key, v) :: fields => (key, v.written) :: writtenFields fields

end

theorem writtenItems_eq (items : List Value) : writtenItems items = items.map Value.written := by
  induction items with
  | nil => rfl
  | cons v items ih => rw [writtenItems, ih, map_cons]

theorem writtenFields_eq (fields : List (Utf16 × Value)) :
    writtenFields fields = fields.map fun field => (field.1, field.2.written) := by
  induction fields with
  | nil => rfl
  | cons field fields ih => rw [writtenFields, ih, map_cons]

theorem lookup_writtenFields (key : Utf16) (fields : List (Utf16 × Value)) :
    lookup key (writtenFields fields) = (lookup key fields).map Value.written := by
  induction fields with
  | nil => rfl
  | cons field fields ih =>
    unfold lookup at ih ⊢
    rw [writtenFields, find?_cons, find?_cons]
    cases decide (field.1 = key) with
    | true => rfl
    | false => exact ih

mutual

theorem text_written : ∀ v : Value, v.written.text = v.text
  | .null => rfl
  | .bool _ => rfl
  | .number (.finite _ _) => rfl
  | .number (.infinite _) => by
    rw [Value.written, Value.text, Value.text]
    rfl
  | .string _ => rfl
  | .array items => by
    rw [Value.written, Value.text, Value.text, itemsText_written items]
  | .object fields => by
    rw [Value.written, Value.text, Value.text, fieldsText_written fields]

theorem itemsText_written : ∀ items : List Value, itemsText (writtenItems items) = itemsText items
  | [] => rfl
  | [v] => by
    rw [writtenItems, writtenItems, itemsText, itemsText, text_written v]
  | v :: w :: items => by
    have hrest := itemsText_written (w :: items)
    rw [writtenItems] at hrest
    rw [writtenItems, writtenItems, itemsText, itemsText, text_written v, hrest]

theorem fieldsText_written :
    ∀ fields : List (Utf16 × Value), fieldsText (writtenFields fields) = fieldsText fields
  | [] => rfl
  | [(key, v)] => by
    rw [writtenFields, writtenFields, fieldsText, fieldsText, text_written v]
  | (key, v) :: (key', w) :: fields => by
    have hrest := fieldsText_written ((key', w) :: fields)
    rw [writtenFields] at hrest
    rw [writtenFields, writtenFields, fieldsText, fieldsText, text_written v, hrest]

end

/-- Writing what is left of a value in its text gives that text. -/
theorem stringify_written (v : Value) : stringify v.written = stringify v := text_written v

/-! ## Reading -/

def isSpace (c : Char) : Bool := c = ' ' ∨ c = '\t' ∨ c = '\n' ∨ c = '\r'

def skip (cs : List Char) : List Char := cs.dropWhile isSpace

/-- A value that is one word, of which the first character has been read. -/
def readWord (word : List Char) (v : Value) (cs : List Char) : Option (Value × List Char) :=
  if word <+: cs then some (v, cs.drop word.length) else none

/-- What must stand before the value of a property: its name and a colon. -/
def readKey (cs : List Char) : Option (Utf16 × List Char) :=
  match skip cs with
  | '"' :: cs => do
    let (key, cs) ← readString cs
    match skip cs with
    | ':' :: rest => some (key, rest)
    | _ => none
  | _ => none

/-- What follows the opening bracket of an array, given how its elements are read. -/
def readArray (readItems : List Char → Option (List Value × List Char)) (cs : List Char) :
    Option (Value × List Char) :=
  match skip cs with
  | ']' :: rest => some (.array [], rest)
  | _ => (readItems cs).map fun (items, rest) => (.array items, rest)

/-- What follows the opening brace of an object, given how its properties are read. -/
def readObject (readFields : List Char → Option (List (Utf16 × Value) × List Char))
    (cs : List Char) : Option (Value × List Char) :=
  match skip cs with
  | '}' :: rest => some (.object [], rest)
  | _ => (readFields cs).map fun (fields, rest) => (.object (assignAll fields), rest)

mutual

/-- A value and what follows it. Every call of these functions is one unit of fuel. -/
def readValue : ℕ → List Char → Option (Value × List Char)
  | 0, _ => none
  | fuel + 1, cs =>
    match skip cs with
    | [] => none
    | c :: rest =>
      if c = '"' then (readString rest).map fun (s, rest) => (.string s, rest)
      else if c = '[' then readArray (readItems fuel) rest
      else if c = '{' then readObject (readFields fuel) rest
      else if c = 'n' then readWord ['u', 'l', 'l'] .null rest
      else if c = 't' then readWord ['r', 'u', 'e'] (.bool true) rest
      else if c = 'f' then readWord ['a', 'l', 's', 'e'] (.bool false) rest
      else (readNumber (c :: rest)).map fun (n, rest) => (.number n, rest)

/-- The elements of an array, up to its end. -/
def readItems : ℕ → List Char → Option (List Value × List Char)
  | 0, _ => none
  | fuel + 1, cs => do
    let (v, cs) ← readValue fuel cs
    match skip cs with
    | ',' :: cs => (readItems fuel cs).map fun (items, rest) => (v :: items, rest)
    | ']' :: rest => some ([v], rest)
    | _ => none

/-- The properties of an object in the order of the text, up to its end. -/
def readFields : ℕ → List Char → Option (List (Utf16 × Value) × List Char)
  | 0, _ => none
  | fuel + 1, cs => do
    let (key, cs) ← readKey cs
    let (v, cs) ← readValue fuel cs
    match skip cs with
    | ',' :: cs => (readFields fuel cs).map fun (fields, rest) => ((key, v) :: fields, rest)
    | '}' :: rest => some ([(key, v)], rest)
    | _ => none

end

/-- `JSON.parse`. Between two calls on one text a character is read, so the fuel never runs out. -/
def parse (cs : List Char) : Option Value := do
  let (v, rest) ← readValue (2 * cs.length) cs
  if skip rest = [] then some v else none

end Json
