import HVault.Json.Tree

/-!
# What is written is read

`parse_stringify`: what is left of a value in its text is read back from that text. The induction is
on the value; the fuel that reading its text takes is twice the text's length, for the text itself
and for every part of it.
-/

namespace Json

open List Option Value

/-- A value as a script holds it: the properties of its objects are in their order. -/
inductive Ordered : Value → Prop
  | null : Ordered .null
  | bool (b : Bool) : Ordered (.bool b)
  | number (n : Number) : Ordered (.number n)
  | string (s : Utf16) : Ordered (.string s)
  | array {items : List Value} (h : ∀ v ∈ items, Ordered v) : Ordered (.array items)
  | object {fields : List (Utf16 × Value)} (hfollows : fields.Pairwise fun a b => Follows a.1 b.1)
      (h : ∀ field ∈ fields, Ordered field.2) : Ordered (.object fields)

/-- An object that JSON text denotes: it is in order, and its text leaves nothing of it out. -/
structure Object where
  fields : List (Utf16 × Value)
  ordered : Ordered (.object fields)
  written : writtenFields fields = fields

/-! ## Blanks -/

variable {c : Char}

theorem skip_cons (hc : isSpace c = false) (cs : List Char) : skip (c :: cs) = c :: cs :=
  dropWhile_cons_of_neg (by simp [hc])

/-- The first character of a value: no blank, and none of those that can follow a value. -/
theorem text_head (v : Value) :
    ∃ c cs, v.text = c :: cs ∧ isSpace c = false ∧ c ≠ ']' := by
  have hdigit : ∀ c : Char, c = '-' ∨ c.isDigit → isSpace c = false ∧ c ≠ ']' := by
    rintro c (rfl | hc)
    · decide
    · refine ⟨?_, ?_⟩
      · by_contra hspace
        have hspace := of_decide_eq_true (Bool.eq_true_of_not_eq_false hspace)
        rcases hspace with rfl | rfl | rfl | rfl <;> exact absurd hc (by decide)
      · rintro rfl
        exact absurd hc (by decide)
  cases v with
  | null => exact ⟨'n', _, by rw [Value.text], by decide, by decide⟩
  | bool b =>
    cases b with
    | true => exact ⟨'t', _, by rw [Value.text], by decide, by decide⟩
    | false => exact ⟨'f', _, by rw [Value.text], by decide, by decide⟩
  | number n =>
    rw [Value.text]
    cases n with
    | finite x h =>
      obtain ⟨c, cs, htext, hc⟩ := numberText_head (h := h)
      exact ⟨c, cs, htext, hdigit c hc⟩
    | infinite negative => exact ⟨'n', _, rfl, by decide, by decide⟩
  | string s => exact ⟨'"', _, by rw [Value.text]; rfl, by decide, by decide⟩
  | array items => exact ⟨'[', _, by rw [Value.text], by decide, by decide⟩
  | object fields => exact ⟨'{', _, by rw [Value.text], by decide, by decide⟩

/-! ## Parts -/

theorem readKey_text (key : Utf16) (rest : List Char) :
    readKey (stringText key ++ ':' :: rest) = some (key, rest) := by
  obtain ⟨cs, htext, hread⟩ := readString_stringText key (':' :: rest)
  unfold readKey
  rw [htext, skip_cons (by decide)]
  simp only [hread, bind_eq_bind, bind_some, skip_cons (show isSpace ':' = false by decide)]

/-- A text that is read with any fuel that is twice its length. -/
def Reads (v : Value) : Prop :=
  ∀ fuel rest, 2 * v.text.length ≤ fuel → StopsNumeral rest →
    readValue fuel (v.text ++ rest) = some (v.written, rest)

variable {rest : List Char}

theorem stopsNumeral_of_head (hc : c = ',' ∨ c = ']' ∨ c = '}') : StopsNumeral (c :: rest) := by
  intro c' hc'
  rw [← some.inj hc']
  rcases hc with rfl | rfl | rfl <;> decide

theorem readItems_text {items : List Value} (hne : items ≠ []) (h : ∀ v ∈ items, Reads v)
    {fuel : ℕ} (hfuel : 2 * (itemsText items).length + 1 ≤ fuel) :
    readItems fuel (itemsText items ++ ']' :: rest) = some (writtenItems items, rest) := by
  induction items generalizing fuel with
  | nil => exact absurd rfl hne
  | cons v items ih =>
    obtain ⟨fuel, rfl⟩ := Nat.exists_eq_add_one_of_ne_zero (by omega : fuel ≠ 0)
    have hv : Reads v := h v mem_cons_self
    cases items with
    | nil =>
      rw [itemsText] at hfuel ⊢
      rw [readItems, hv fuel (']' :: rest) (by omega) (stopsNumeral_of_head (by decide))]
      rfl
    | cons w items =>
      rw [itemsText] at hfuel ⊢
      rw [length_append, length_cons] at hfuel
      rw [append_assoc, cons_append, readItems,
        hv fuel _ (by omega) (stopsNumeral_of_head (by decide))]
      have hrest := @ih nofun (fun v hv => h v (mem_cons_of_mem _ hv)) fuel (by omega)
      show (readItems fuel _).map _ = _
      rw [hrest]
      rfl

theorem readFields_text {fields : List (Utf16 × Value)} (hne : fields ≠ [])
    (h : ∀ field ∈ fields, Reads field.2) {fuel : ℕ}
    (hfuel : 2 * (fieldsText fields).length + 1 ≤ fuel) :
    readFields fuel (fieldsText fields ++ '}' :: rest) = some (writtenFields fields, rest) := by
  induction fields generalizing fuel with
  | nil => exact absurd rfl hne
  | cons field fields ih =>
    obtain ⟨fuel, rfl⟩ := Nat.exists_eq_add_one_of_ne_zero (by omega : fuel ≠ 0)
    obtain ⟨key, v⟩ := field
    have hv : Reads v := h (key, v) mem_cons_self
    cases fields with
    | nil =>
      rw [fieldsText] at hfuel ⊢
      rw [length_append, length_cons] at hfuel
      rw [append_assoc, cons_append, readFields, readKey_text]
      simp only [bind_eq_bind, bind_some]
      rw [hv fuel _ (by omega) (stopsNumeral_of_head (by decide))]
      rfl
    | cons field fields =>
      rw [fieldsText] at hfuel ⊢
      simp only [length_append, length_cons] at hfuel
      rw [append_assoc, cons_append, append_assoc, cons_append, readFields,
        readKey_text]
      have hrest := @ih nofun (fun f hf => h f (mem_cons_of_mem _ hf)) fuel (by omega)
      simp only [bind_eq_bind, bind_some]
      rw [hv fuel _ (by omega) (stopsNumeral_of_head (by decide))]
      show (readFields fuel _).map _ = _
      rw [hrest]
      rfl

/-! ## Values -/

/-- The step of reading that a nonempty text takes. -/
theorem readValue_cons {fuel : ℕ} {cs : List Char} (hc : isSpace c = false) :
    readValue (fuel + 1) (c :: cs) =
      if c = '"' then (readString cs).map fun (s, rest) => (.string s, rest)
      else if c = '[' then readArray (readItems fuel) cs
      else if c = '{' then readObject (readFields fuel) cs
      else if c = 'n' then readWord ['u', 'l', 'l'] .null cs
      else if c = 't' then readWord ['r', 'u', 'e'] (.bool true) cs
      else if c = 'f' then readWord ['a', 'l', 's', 'e'] (.bool false) cs
      else (readNumber (c :: cs)).map fun (n, rest) => (.number n, rest) := by
  rw [readValue, skip_cons hc]

theorem reads_array {items : List Value} (h : ∀ v ∈ items, Reads v) : Reads (.array items) := by
  intro fuel rest hfuel _
  rw [text] at hfuel ⊢
  simp only [length_append, length_cons] at hfuel
  obtain ⟨fuel, rfl⟩ := Nat.exists_eq_add_one_of_ne_zero (by omega : fuel ≠ 0)
  rw [cons_append, append_assoc, readValue_cons (by decide), if_neg (by decide), if_pos rfl]
  cases items with
  | nil => rfl
  | cons v items =>
    -- The text of the first element does not close the array.
    obtain ⟨c, cs, htext⟩ : ∃ c cs, itemsText (v :: items) ++ ([']'] ++ rest) = c :: cs ∧
        isSpace c = false ∧ c ≠ ']' := by
      obtain ⟨c, cs, htext, hc⟩ := text_head v
      cases items with
      | nil | cons w items => exact ⟨c, _, by rw [itemsText, htext]; rfl, hc⟩
    unfold readArray
    rw [htext.1, skip_cons htext.2.1]
    split
    · rename_i heq
      exact absurd (cons.inj heq).1 htext.2.2
    · rw [← htext.1]
      show Option.map _ (readItems fuel (itemsText (v :: items) ++ ']' :: rest)) = _
      rw [readItems_text (cons_ne_nil _ _) h (by omega)]
      rfl

theorem reads_object {fields : List (Utf16 × Value)}
    (hfollows : fields.Pairwise fun a b => Follows a.1 b.1) (h : ∀ field ∈ fields, Reads field.2) :
    Reads (.object fields) := by
  intro fuel rest hfuel _
  rw [text] at hfuel ⊢
  simp only [length_append, length_cons] at hfuel
  obtain ⟨fuel, rfl⟩ := Nat.exists_eq_add_one_of_ne_zero (by omega : fuel ≠ 0)
  rw [cons_append, append_assoc, readValue_cons (by decide), if_neg (by decide),
    if_neg (by decide), if_pos rfl]
  cases fields with
  | nil => rfl
  | cons field fields =>
    obtain ⟨cs, htext⟩ : ∃ cs, fieldsText (field :: fields) ++ (['}'] ++ rest) = '"' :: cs := by
      cases fields with
      | nil | cons g fields => exact ⟨_, by rw [fieldsText]; rfl⟩
    unfold readObject
    rw [htext, skip_cons (by decide)]
    show Option.map _ (readFields fuel ('"' :: cs)) = _
    rw [← htext]
    show Option.map _ (readFields fuel (fieldsText (field :: fields) ++ '}' :: rest)) = _
    rw [readFields_text (cons_ne_nil _ _) h (by omega)]
    have hkeys : (writtenFields (field :: fields)).Pairwise fun a b => Follows a.1 b.1 := by
      rw [writtenFields_eq, pairwise_map]
      exact hfollows
    show some (object (assignAll (writtenFields (field :: fields))), rest) = _
    rw [assignAll_eq hkeys]
    rfl

theorem reads_number {x : ℚ} (h : Binary64.round53 x = x ∧ |x| < 2 ^ 1024) :
    Reads (.number (.finite x h)) := by
  intro fuel rest hfuel hrest
  rw [text] at hfuel ⊢
  have hread := readNumber_text (h := h) hrest
  obtain ⟨c, cs, htext, hc⟩ := numberText_head
  have hne : ∀ c' : Char, c' ≠ '-' → c'.isDigit = false → c ≠ c' := by
    rintro c' hminus hdigit rfl
    rcases hc with hc | hc
    · exact hminus hc
    · rw [hdigit] at hc
      cases hc
  have hspace : isSpace c = false := by
    unfold isSpace
    simp [hne ' ' (by decide) rfl, hne '\t' (by decide) rfl, hne '\n' (by decide) rfl,
      hne '\r' (by decide) rfl]
  rw [htext] at hfuel hread ⊢
  rw [length_cons] at hfuel
  obtain ⟨fuel, rfl⟩ := Nat.exists_eq_add_one_of_ne_zero (by omega : fuel ≠ 0)
  rw [cons_append] at hread ⊢
  rw [readValue_cons hspace, if_neg (hne _ (by decide) rfl), if_neg (hne _ (by decide) rfl),
    if_neg (hne _ (by decide) rfl), if_neg (hne _ (by decide) rfl), if_neg (hne _ (by decide) rfl),
    if_neg (hne _ (by decide) rfl), hread]
  rfl

/-- A value that is one word. -/
theorem reads_word {v : Value} (word : List Char) (htext : v.text = c :: word)
    (hread : ∀ fuel rest, readValue (fuel + 1) (c :: (word ++ rest)) = some (v.written, rest)) :
    Reads v := by
  intro fuel rest hfuel _
  rw [htext] at hfuel ⊢
  rw [length_cons] at hfuel
  obtain ⟨fuel, rfl⟩ := Nat.exists_eq_add_one_of_ne_zero (by omega : fuel ≠ 0)
  exact hread fuel rest

theorem Ordered.reads {v : Value} (h : Ordered v) : Reads v := by
  induction h with
  | null => exact reads_word ['u', 'l', 'l'] (by rw [text]) fun _ _ => rfl
  | bool b =>
    cases b with
    | true => exact reads_word ['r', 'u', 'e'] (by rw [text]) fun _ _ => rfl
    | false => exact reads_word ['a', 'l', 's', 'e'] (by rw [text]) fun _ _ => rfl
  | number n =>
    cases n with
    | finite x h => exact reads_number h
    | infinite negative =>
      exact reads_word ['u', 'l', 'l'] (by rw [text]; rfl) fun _ _ => rfl
  | string s =>
    intro fuel rest hfuel _
    rw [text] at hfuel ⊢
    obtain ⟨cs, htext, hread⟩ := readString_stringText s rest
    have hpos : 0 < (stringText s).length := Nat.succ_pos _
    obtain ⟨fuel, rfl⟩ := Nat.exists_eq_add_one_of_ne_zero (by omega : fuel ≠ 0)
    rw [htext, readValue_cons (by decide), if_pos rfl, hread]
    rfl
  | array _ ih => exact reads_array ih
  | object hfollows _ ih => exact reads_object hfollows ih

/-- The text of a value is read as what is left of the value in it. -/
theorem parse_stringify {v : Value} (h : Ordered v) : parse (stringify v) = some v.written := by
  have hread := h.reads (2 * v.text.length) [] le_rfl nofun
  rw [append_nil] at hread
  unfold parse stringify
  rw [hread]
  rfl

end Json
