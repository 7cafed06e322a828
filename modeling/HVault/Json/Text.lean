import Mathlib.Tactic.IntervalCases

/-!
# Strings as text

A string is a list of UTF-16 code units, which need not pair up; its text is Unicode. Units that
have no character of their own are escaped, so that a written string is read back unit by unit
(`readString_quoteUnits`).
-/

namespace Json

open List UInt16

/-- A string: its UTF-16 code units. -/
abbrev Utf16 := List UInt16

instance : LawfulBEq Utf16 := inferInstance

/-! ## White space -/

/-- What `trim` drops: white space and line ends. -/
def isTrimmed (u : UInt16) : Bool :=
  (0x09 ≤ u.toNat ∧ u.toNat ≤ 0x0D) ∨ u = 0x20 ∨ u = 0xA0 ∨ u = 0x1680 ∨
    (0x2000 ≤ u.toNat ∧ u.toNat ≤ 0x200A) ∨ u = 0x2028 ∨ u = 0x2029 ∨ u = 0x202F ∨ u = 0x205F ∨
    u = 0x3000 ∨ u = 0xFEFF

/-- `String.prototype.trim`. -/
def trim (s : Utf16) : Utf16 := ((s.dropWhile isTrimmed).reverse.dropWhile isTrimmed).reverse

/-! ## Characters and code units -/

def isHigh (u : UInt16) : Bool := 0xD800 ≤ u.toNat ∧ u.toNat < 0xDC00

def isLow (u : UInt16) : Bool := 0xDC00 ≤ u.toNat ∧ u.toNat < 0xE000

/-- The code units of a character. -/
def unitsOf (c : Char) : Utf16 :=
  if c.toNat < 0x10000 then [.ofNat c.toNat]
  else [.ofNat (0xD800 + (c.toNat - 0x10000) / 0x400), .ofNat (0xDC00 + (c.toNat - 0x10000) % 0x400)]

def utf16 (cs : List Char) : Utf16 := cs.flatMap unitsOf

/-- The character of a surrogate pair. -/
def combine (high low : UInt16) : Char :=
  .ofNat (0x10000 + (high.toNat - 0xD800) * 0x400 + (low.toNat - 0xDC00))

theorem toNat_ofNat_of_valid {n : ℕ} (h : n.isValidChar) : (Char.ofNat n).toNat = n := by
  unfold Char.ofNat
  rw [dif_pos h]
  rfl

theorem toNat_combine {high low : UInt16} (hhigh : isHigh high) (hlow : isLow low) :
    (combine high low).toNat =
      0x10000 + (high.toNat - 0xD800) * 0x400 + (low.toNat - 0xDC00) := by
  have hhigh := of_decide_eq_true hhigh
  have hlow := of_decide_eq_true hlow
  exact toNat_ofNat_of_valid (.inr (by omega))

theorem unitsOf_combine {high low : UInt16} (hhigh : isHigh high) (hlow : isLow low) :
    unitsOf (combine high low) = [high, low] := by
  have hnat := toNat_combine hhigh hlow
  have hhigh := of_decide_eq_true hhigh
  have hlow := of_decide_eq_true hlow
  unfold unitsOf
  rw [hnat, if_neg (by omega)]
  have hfirst : 0xD800 + (0x10000 + (high.toNat - 0xD800) * 0x400 + (low.toNat - 0xDC00) - 0x10000) /
      0x400 = high.toNat := by omega
  have hsecond : 0xDC00 + (0x10000 + (high.toNat - 0xD800) * 0x400 + (low.toNat - 0xDC00) - 0x10000) %
      0x400 = low.toNat := by omega
  rw [hfirst, hsecond, UInt16.ofNat_toNat, UInt16.ofNat_toNat]

variable {u : UInt16}

theorem valid_of_not_surrogate (hhigh : isHigh u = false) (hlow : isLow u = false) :
    u.toNat.isValidChar := by
  have hlt : u.toNat < 0x10000 := u.toNat_lt
  have hhigh := of_decide_eq_false hhigh
  have hlow := of_decide_eq_false hlow
  omega

theorem toNat_valid (c : Char) : c.toNat < 0xD800 ∨ 0xE000 ≤ c.toNat ∧ c.toNat < 0x110000 :=
  c.valid

variable {c : Char}

/-- The first character of a text shows in its units. -/
theorem unitsOf_append_inj {c' : Char} {us us' : Utf16} (h : unitsOf c ++ us = unitsOf c' ++ us') :
    c = c' ∧ us = us' := by
  have hc := toNat_valid c
  have hc' := toNat_valid c'
  have hofNat : ∀ {m n : ℕ}, m < 0x10000 → n < 0x10000 → ofNat m = ofNat n → m = n := by
    intro m n hm hn heq
    rw [← toNat_ofNat_of_lt' hm, heq, toNat_ofNat_of_lt' hn]
  unfold unitsOf at h
  split_ifs at h with hsmall hsmall' hsmall'
  · obtain ⟨hunit, hrest⟩ := cons.inj h
    exact ⟨Char.toNat_inj.1 (hofNat hsmall hsmall' hunit), hrest⟩
  · have hunit := hofNat hsmall (by omega) (cons.inj h).1
    omega
  · have hunit := hofNat (by omega) hsmall' (cons.inj h).1
    omega
  · obtain ⟨hhigh, hrest⟩ := cons.inj h
    obtain ⟨hlow, hrest⟩ := cons.inj hrest
    have hhigh := hofNat (by omega) (by omega) hhigh
    have hlow := hofNat (by omega) (by omega) hlow
    exact ⟨Char.toNat_inj.1 (by omega), hrest⟩

theorem utf16_injective : Function.Injective utf16 := by
  intro cs
  induction cs with
  | nil =>
    intro cs' h
    cases cs' with
    | nil => rfl
    | cons c cs' =>
      unfold utf16 unitsOf at h
      rw [flatMap_cons] at h
      split at h <;> cases h
  | cons c cs ih =>
    intro cs' h
    cases cs' with
    | nil =>
      unfold utf16 unitsOf at h
      rw [flatMap_cons] at h
      split at h <;> cases h
    | cons c' cs' =>
      obtain ⟨hc, hrest⟩ := @unitsOf_append_inj _ _ (utf16 cs) (utf16 cs') h
      rw [hc, ih hrest]

/-! ## Writing -/

/-- A code unit by its number. -/
def escapeUnit (u : UInt16) : List Char :=
  ['\\', 'u', Nat.digitChar (u.toNat / 0x1000), Nat.digitChar (u.toNat / 0x100 % 0x10),
    Nat.digitChar (u.toNat / 0x10 % 0x10), Nat.digitChar (u.toNat % 0x10)]

/-- A code unit that is not half of a pair. -/
def quoteUnit (u : UInt16) : List Char :=
  if u = 0x08 then ['\\', 'b']
  else if u = 0x09 then ['\\', 't']
  else if u = 0x0A then ['\\', 'n']
  else if u = 0x0C then ['\\', 'f']
  else if u = 0x0D then ['\\', 'r']
  else if u = 0x22 then ['\\', '"']
  else if u = 0x5C then ['\\', '\\']
  else if u.toNat < 0x20 ∨ isHigh u ∨ isLow u then escapeUnit u
  else [.ofNat u.toNat]

def quoteUnits : Utf16 → List Char
  | [] => []
  | [u] => quoteUnit u
  | u :: v :: us =>
    if isHigh u ∧ isLow v then combine u v :: quoteUnits us
    else quoteUnit u ++ quoteUnits (v :: us)

/-! ## Reading -/

def hexValue (c : Char) : Option ℕ :=
  if c.isDigit then some (c.toNat - '0'.toNat)
  else if 'a' ≤ c ∧ c ≤ 'f' then some (c.toNat - 'a'.toNat + 10)
  else if 'A' ≤ c ∧ c ≤ 'F' then some (c.toNat - 'A'.toNat + 10)
  else none

def unitOfHex (a b c d : Char) : Option UInt16 := do
  return .ofNat (0x1000 * (← hexValue a) + 0x100 * (← hexValue b) + 0x10 * (← hexValue c) +
    (← hexValue d))

/-- The code unit behind a backslash, other than one by its number. -/
def escaped (c : Char) : Option UInt16 :=
  match c with
  | '"' => some 0x22
  | '\\' => some 0x5C
  | '/' => some 0x2F
  | 'b' => some 0x08
  | 'f' => some 0x0C
  | 'n' => some 0x0A
  | 'r' => some 0x0D
  | 't' => some 0x09
  | _ => none

/-- The rest of a string, of which the opening quote has been read, and what follows it. -/
def readString : List Char → Option (Utf16 × List Char)
  | [] => none
  | '"' :: cs => some ([], cs)
  | '\\' :: 'u' :: a :: b :: c :: d :: cs => do
    let u ← unitOfHex a b c d
    let (us, rest) ← readString cs
    return (u :: us, rest)
  | '\\' :: c :: cs => do
    let u ← escaped c
    let (us, rest) ← readString cs
    return (u :: us, rest)
  | c :: cs => do
    if c = '\\' ∨ c.toNat < 0x20 then none
    let (us, rest) ← readString cs
    return (unitsOf c ++ us, rest)

/-! ## What is written is read -/

theorem hexValue_digitChar {n : ℕ} (h : n < 16) : hexValue (Nat.digitChar n) = some n := by
  interval_cases n <;> rfl

theorem unitOfHex_escape (u : UInt16) :
    unitOfHex (Nat.digitChar (u.toNat / 0x1000)) (Nat.digitChar (u.toNat / 0x100 % 0x10))
      (Nat.digitChar (u.toNat / 0x10 % 0x10)) (Nat.digitChar (u.toNat % 0x10)) = some u := by
  have hlt : u.toNat < 0x10000 := u.toNat_lt
  unfold unitOfHex
  rw [hexValue_digitChar (by omega), hexValue_digitChar (by omega), hexValue_digitChar (by omega),
    hexValue_digitChar (by omega)]
  show some (ofNat _) = some u
  have hsum : 0x1000 * (u.toNat / 0x1000) + 0x100 * (u.toNat / 0x100 % 0x10) +
      0x10 * (u.toNat / 0x10 % 0x10) + u.toNat % 0x10 = u.toNat := by omega
  rw [hsum, UInt16.ofNat_toNat]

theorem readString_escapeUnit (u : UInt16) (cs : List Char) :
    readString (escapeUnit u ++ cs) = (readString cs).map fun (us, rest) => (u :: us, rest) := by
  show (do
    let u ← unitOfHex _ _ _ _
    let (us, rest) ← readString cs
    return (u :: us, rest)) = _
  rw [unitOfHex_escape]
  cases readString cs with
  | none => rfl
  | some read => rfl

theorem readString_escaped (hc : c ≠ 'u') (hu : escaped c = some u) (cs : List Char) :
    readString ('\\' :: c :: cs) = (readString cs).map fun (us, rest) => (u :: us, rest) := by
  rw [readString]
  · rw [hu]
    cases readString cs with
    | none => rfl
    | some read => rfl
  · rintro a b c d cs ⟨rfl, -⟩
    exact absurd rfl hc

theorem readString_plain (hquote : c ≠ '"') (hbackslash : c ≠ '\\') (hcontrol : 0x20 ≤ c.toNat)
    (cs : List Char) :
    readString (c :: cs) = (readString cs).map fun (us, rest) => (unitsOf c ++ us, rest) := by
  rw [readString]
  · rw [if_neg fun h => h.elim hbackslash (by omega)]
    cases readString cs with
    | none => rfl
    | some read => rfl
  · exact hquote
  · exact fun _ _ _ _ _ hc _ => hbackslash hc
  · exact fun _ _ hc _ => hbackslash hc

theorem unitsOf_ofNat (h : u.toNat.isValidChar) : unitsOf (Char.ofNat u.toNat) = [u] := by
  have hlt : u.toNat < 0x10000 := u.toNat_lt
  unfold unitsOf
  rw [toNat_ofNat_of_valid h, if_pos hlt, UInt16.ofNat_toNat]

theorem ofNat_ne (h : u.toNat.isValidChar) (hc : u.toNat ≠ c.toNat) : Char.ofNat u.toNat ≠ c := by
  rintro rfl
  exact hc (toNat_ofNat_of_valid h).symm

theorem readString_quoteUnit (u : UInt16) (cs : List Char) :
    readString (quoteUnit u ++ cs) = (readString cs).map fun (us, rest) => (u :: us, rest) := by
  unfold quoteUnit
  split_ifs with hb ht hn hf hr hquote hbackslash hescape
  · rw [hb]
    exact readString_escaped (by decide) rfl cs
  · rw [ht]
    exact readString_escaped (by decide) rfl cs
  · rw [hn]
    exact readString_escaped (by decide) rfl cs
  · rw [hf]
    exact readString_escaped (by decide) rfl cs
  · rw [hr]
    exact readString_escaped (by decide) rfl cs
  · rw [hquote]
    exact readString_escaped (by decide) rfl cs
  · rw [hbackslash]
    exact readString_escaped (by decide) rfl cs
  · exact readString_escapeUnit u cs
  · obtain ⟨hcontrol, hhigh, hlow⟩ : ¬ u.toNat < 0x20 ∧ isHigh u = false ∧ isLow u = false := by
      simpa using hescape
    have hvalid := valid_of_not_surrogate hhigh hlow
    have hplain := readString_plain
      (ofNat_ne hvalid fun h => hquote (UInt16.toNat_inj.1 h))
      (ofNat_ne hvalid fun h => hbackslash (UInt16.toNat_inj.1 h))
      (by rw [toNat_ofNat_of_valid hvalid]; omega) cs
    rw [unitsOf_ofNat hvalid] at hplain
    exact hplain

/-- The units of a written string are read back, up to the closing quote. -/
theorem readString_quoteUnits (us : Utf16) (rest : List Char) :
    readString (quoteUnits us ++ '"' :: rest) = some (us, rest) := by
  induction us using quoteUnits.induct with
  | case1 => rfl
  | case2 u =>
    rw [quoteUnits, readString_quoteUnit]
    rfl
  | case3 u v us hpair ih =>
    have hnat := toNat_combine hpair.1 hpair.2
    have hbig : 0x10000 ≤ (combine u v).toNat := by omega
    have hplain := readString_plain (c := combine u v)
      (fun h => absurd hbig (by rw [h]; decide)) (fun h => absurd hbig (by rw [h]; decide))
      (by omega) (quoteUnits us ++ '"' :: rest)
    rw [quoteUnits, if_pos hpair, cons_append, hplain, ih, unitsOf_combine hpair.1 hpair.2]
    rfl
  | case4 u v us hpair ih =>
    rw [quoteUnits, if_neg hpair, append_assoc, readString_quoteUnit, ih]
    rfl

/-- The text of a string, in quotes. -/
def stringText (us : Utf16) : List Char := '"' :: (quoteUnits us ++ ['"'])

theorem readString_stringText (us : Utf16) (rest : List Char) :
    ∃ cs, stringText us ++ rest = '"' :: cs ∧ readString cs = some (us, rest) := by
  refine ⟨quoteUnits us ++ '"' :: rest, ?_, readString_quoteUnits us rest⟩
  unfold stringText
  rw [cons_append, append_assoc]
  rfl

end Json
