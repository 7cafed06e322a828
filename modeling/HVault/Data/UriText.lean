import HVault.Data.Utf8

/-!
# Text in a URI

What `encodeURIComponent` and `URLSearchParams` make of a string, and their readers. Bytes of UTF-8
stand as a percent sign and two digits, but for those that are kept.

* `decodeURIComponent_encode`: a component is read back;
* `formParse_serialize`: the pairs of a query are read back.
-/

namespace UriText

open Json List

/-! ## Escapes -/

def percent : UInt16 := 0x25

def isAlphanumeric (u : UInt16) : Bool :=
  (0x30 ≤ u.toNat ∧ u.toNat ≤ 0x39) ∨ (0x41 ≤ u.toNat ∧ u.toNat ≤ 0x5A) ∨
    (0x61 ≤ u.toNat ∧ u.toNat ≤ 0x7A)

def hexDigit (n : ℕ) : UInt16 := .ofNat (if n < 10 then 0x30 + n else 0x37 + n)

def hexValue (u : UInt16) : Option ℕ :=
  if 0x30 ≤ u.toNat ∧ u.toNat ≤ 0x39 then some (u.toNat - 0x30)
  else if 0x41 ≤ u.toNat ∧ u.toNat ≤ 0x46 then some (u.toNat - 0x37)
  else if 0x61 ≤ u.toNat ∧ u.toNat ≤ 0x66 then some (u.toNat - 0x57)
  else none

def escapeByte (b : UInt8) : Utf16 :=
  [percent, hexDigit (b.toNat / 16), hexDigit (b.toNat % 16)]

/-- A character, escaped unless it is kept. -/
def escapeChar (keep : UInt16 → Bool) (c : Char) : Utf16 :=
  if c.toNat < 0x80 ∧ keep (.ofNat c.toNat) then [.ofNat c.toNat]
  else (String.utf8EncodeChar c).flatMap escapeByte

variable {n : ℕ}

theorem toNat_byte (h : n < 0x100) : (UInt8.ofNat n).toNat = n :=
  UInt8.toNat_ofNat_of_lt' h

theorem toNat_unit (h : n < 0x10000) : (UInt16.ofNat n).toNat = n :=
  UInt16.toNat_ofNat_of_lt' h

theorem hexValue_hexDigit (h : n < 16) : hexValue (hexDigit n) = some n := by
  interval_cases n <;> rfl

/-! ## Components -/

/-- What stands for itself in a component: letters, digits and some marks. -/
def isUnreserved (u : UInt16) : Bool :=
  isAlphanumeric u ∨ u = 0x2D ∨ u = 0x5F ∨ u = 0x2E ∨ u = 0x21 ∨ u = 0x7E ∨ u = 0x2A ∨ u = 0x27 ∨
    u = 0x28 ∨ u = 0x29

/-- `encodeURIComponent(s)`, which throws where half of a pair stands alone. -/
def encodeURIComponent (s : Utf16) : Option Utf16 :=
  if Utf8.isWellFormed s then some ((Utf8.scalars s).flatMap (escapeChar isUnreserved)) else none

def readEscape : Utf16 → Option (UInt8 × Utf16)
  | u :: high :: low :: rest =>
    if u = percent then do
      let h ← hexValue high
      let l ← hexValue low
      return (.ofNat (16 * h + l), rest)
    else none
  | _ => none

def readEscapes : ℕ → Utf16 → Option (List UInt8 × Utf16)
  | 0, s => some ([], s)
  | n + 1, s => do
    let (b, s) ← readEscape s
    let (bs, s) ← readEscapes n s
    return (b :: bs, s)

/-- How many bytes go with a first byte, after it. -/
def continuation (b : ℕ) : Option ℕ :=
  if b < 0x80 then some 0
  else if b < 0xC0 then none
  else if b < 0xE0 then some 1
  else if b < 0xF0 then some 2
  else if b < 0xF8 then some 3
  else none

/-- The character that bytes are, strictly. -/
def charOf (bs : List UInt8) : Option Char :=
  match Utf8.decodeFrom .fresh bs with
  | [c] => if String.utf8EncodeChar c = bs then some c else none
  | _ => none

/-- A component from where its reading stands; every step takes a unit at least. -/
def decodeComponentFrom : ℕ → Utf16 → Option Utf16
  | _, [] => some []
  | 0, _ :: _ => none
  | fuel + 1, u :: rest =>
    if u ≠ percent then (decodeComponentFrom fuel rest).map (u :: ·)
    else do
      let (b, rest) ← readEscape (u :: rest)
      let more ← continuation b.toNat
      let (bs, rest) ← readEscapes more rest
      let c ← charOf (b :: bs)
      let read ← decodeComponentFrom fuel rest
      return unitsOf c ++ read

/-- `decodeURIComponent(s)`, which throws where an escape is none, or no UTF-8. -/
def decodeURIComponent (s : Utf16) : Option Utf16 := decodeComponentFrom s.length s

theorem readEscape_escapeByte (b : UInt8) (rest : Utf16) :
    readEscape (escapeByte b ++ rest) = some (b, rest) := by
  have hb := b.toNat_lt
  have hback : 16 * (b.toNat / 16) + b.toNat % 16 = b.toNat := Nat.div_add_mod _ _
  simp only [escapeByte, cons_append, nil_append, readEscape]
  rw [if_pos trivial, hexValue_hexDigit (by omega), hexValue_hexDigit (by omega)]
  simp only [Option.bind_eq_bind, Option.bind_some, hback, UInt8.ofNat_toNat]
  rfl

variable (bs : List UInt8)

theorem readEscapes_escapeBytes (rest : Utf16) :
    readEscapes bs.length (bs.flatMap escapeByte ++ rest) = some (bs, rest) := by
  induction bs with
  | nil => rfl
  | cons b bs ih =>
    rw [length_cons, readEscapes, flatMap_cons, append_assoc, readEscape_escapeByte]
    simp only [Option.bind_eq_bind, Option.bind_some, ih]
    rfl

/-- A character's first byte says how many bytes it has. -/
theorem utf8EncodeChar_cons (c : Char) : ∃ b bs, String.utf8EncodeChar c = b :: bs ∧
    continuation b.toNat = some bs.length := by
  have hvalid := toNat_valid c
  have hval : c.val.toNat = c.toNat := rfl
  unfold String.utf8EncodeChar
  rw [hval]
  generalize c.toNat = v at hvalid
  simp only
  split_ifs with hone htwo hthree
  · refine ⟨_, _, rfl, ?_⟩
    rw [toNat_byte (by omega)]
    exact if_pos (by omega)
  · refine ⟨_, _, rfl, ?_⟩
    rw [toNat_byte (by omega)]
    unfold continuation
    rw [if_neg (by omega), if_neg (by omega), if_pos (by omega)]
    rfl
  · refine ⟨_, _, rfl, ?_⟩
    rw [toNat_byte (by omega)]
    unfold continuation
    rw [if_neg (by omega), if_neg (by omega), if_neg (by omega), if_pos (by omega)]
    rfl
  · refine ⟨_, _, rfl, ?_⟩
    rw [toNat_byte (by omega)]
    unfold continuation
    rw [if_neg (by omega), if_neg (by omega), if_neg (by omega), if_neg (by omega),
      if_pos (by omega)]
    rfl

theorem charOf_utf8EncodeChar (c : Char) : charOf (String.utf8EncodeChar c) = some c := by
  have hdecode := Utf8.decodeFrom_utf8EncodeChar c []
  rw [append_nil] at hdecode
  unfold charOf
  rw [hdecode]
  exact if_pos rfl

theorem length_escapeBytes : (bs.flatMap escapeByte).length = 3 * bs.length := by
  induction bs with
  | nil => rfl
  | cons b bs ih =>
    rw [flatMap_cons, length_append, ih, length_cons]
    show 3 + _ = _
    omega

theorem decodeComponentFrom_escape {keep : UInt16 → Bool} (hkeep : keep percent = false)
    (cs : List Char) {fuel : ℕ} (hfuel : (cs.flatMap (escapeChar keep)).length ≤ fuel) :
    decodeComponentFrom fuel (cs.flatMap (escapeChar keep)) = some (utf16 cs) := by
  induction cs generalizing fuel with
  | nil => cases fuel <;> rfl
  | cons c cs ih =>
    rw [flatMap_cons, length_append] at hfuel
    rw [flatMap_cons]
    by_cases hkept : c.toNat < 0x80 ∧ keep (.ofNat c.toNat)
    · rw [escapeChar, if_pos hkept] at hfuel ⊢
      rw [length_singleton] at hfuel
      obtain ⟨fuel, rfl⟩ : ∃ k, fuel = k + 1 := ⟨fuel - 1, by omega⟩
      have hne : UInt16.ofNat c.toNat ≠ percent := by
        intro heq
        rw [heq, hkeep] at hkept
        exact absurd hkept.2 Bool.false_ne_true
      have hunits : unitsOf c = [.ofNat c.toNat] := if_pos (by omega)
      rw [cons_append, nil_append, decodeComponentFrom, if_pos hne, ih (by omega)]
      show some _ = some (unitsOf c ++ utf16 cs)
      rw [hunits]
      rfl
    · rw [escapeChar, if_neg hkept] at hfuel ⊢
      obtain ⟨b, bs, hbytes, hmore⟩ := utf8EncodeChar_cons c
      have hchar := charOf_utf8EncodeChar c
      rw [hbytes] at hfuel hchar ⊢
      rw [length_escapeBytes, length_cons] at hfuel
      obtain ⟨fuel, rfl⟩ : ∃ k, fuel = k + 1 := ⟨fuel - 1, by omega⟩
      rw [flatMap_cons, append_assoc]
      have hfirst := readEscape_escapeByte b
        (bs.flatMap escapeByte ++ cs.flatMap (escapeChar keep))
      rw [escapeByte, cons_append] at hfirst ⊢
      rw [decodeComponentFrom, if_neg (not_not.2 rfl), hfirst]
      simp only [Option.bind_eq_bind, Option.bind_some, hmore, readEscapes_escapeBytes, hchar,
        ih (show (cs.flatMap (escapeChar keep)).length ≤ fuel by omega)]
      rfl

theorem decodeURIComponent_encode {s encoded : Utf16} (h : encodeURIComponent s = some encoded) :
    decodeURIComponent encoded = some s := by
  unfold encodeURIComponent at h
  split_ifs at h with hs
  cases h
  rw [decodeURIComponent, decodeComponentFrom_escape rfl _ le_rfl,
    Utf8.utf16_scalars_of_wellFormed hs]

/-! ## Queries -/

def ampersand : UInt16 := 0x26

def equals : UInt16 := 0x3D

def plus : UInt16 := 0x2B

/-- What stands for itself in a query. -/
def isFormKept (u : UInt16) : Bool :=
  isAlphanumeric u ∨ u = 0x2A ∨ u = 0x2D ∨ u = 0x2E ∨ u = 0x5F

def formEscape (c : Char) : Utf16 := if c = ' ' then [plus] else escapeChar isFormKept c

def formEncode (s : Utf16) : Utf16 := (Utf8.scalars s).flatMap formEscape

/-- `toString` of `URLSearchParams`. -/
def formSerialize (pairs : List (Utf16 × Utf16)) : Utf16 :=
  [ampersand].intercalate (pairs.map fun (name, value) => formEncode name ++ equals :: formEncode value)

/-- Bytes with their escapes read; what is no escape stays. -/
def unescape : List UInt8 → List UInt8
  | b :: high :: low :: rest =>
    if b = 0x25 then
      match hexValue (.ofNat high.toNat), hexValue (.ofNat low.toNat) with
      | some h, some l => .ofNat (16 * h + l) :: unescape rest
      | _, _ => b :: unescape (high :: low :: rest)
    else b :: unescape (high :: low :: rest)
  | bs => bs

/-- A blank for a plus. -/
def unplus (b : UInt8) : UInt8 := if b = 0x2B then 0x20 else b

def formDecode (s : Utf16) : Utf16 :=
  utf16 (Utf8.decodeFrom .fresh (unescape ((Utf8.encode s).map unplus)))

/-- The pieces between ampersands. -/
def pieces : Utf16 → List Utf16
  | [] => [[]]
  | u :: us =>
    match pieces us with
    | [] => [[]]
    | piece :: more => if u = ampersand then [] :: piece :: more else (u :: piece) :: more

/-- The pairs of `new URLSearchParams(query)`. -/
def formParse (query : Utf16) : List (Utf16 × Utf16) :=
  ((pieces query).filter (· ≠ [])).map fun piece =>
    (formDecode (piece.takeWhile (· ≠ equals)), formDecode ((piece.dropWhile (· ≠ equals)).drop 1))

/-- `get` of `URLSearchParams`. -/
def get (pairs : List (Utf16 × Utf16)) (name : Utf16) : Option Utf16 :=
  (pairs.find? fun pair => pair.1 = name).map (·.2)

/-- The bytes of ASCII, one for each unit. -/
def asciiBytes (us : Utf16) : List UInt8 := us.map fun u => .ofNat u.toNat

theorem utf8EncodeChar_ascii {c : Char} (h : c.toNat < 0x80) :
    String.utf8EncodeChar c = [.ofNat c.toNat] := by
  have hval : c.val.toNat = c.toNat := rfl
  unfold String.utf8EncodeChar
  rw [hval]
  simp only
  rw [if_pos (by omega)]

theorem encode_ascii {us : Utf16} (h : ∀ u ∈ us, u.toNat < 0x80) :
    Utf8.encode us = asciiBytes us := by
  have hunit {u : UInt16} (hu : u.toNat < 0x80) : ¬(isHigh u ∨ isLow u) := by
    unfold isHigh isLow
    simp only [decide_eq_true_eq]
    omega
  have hchar {u : UInt16} (hu : u.toNat < 0x80) :
      String.utf8EncodeChar (.ofNat u.toNat) = [.ofNat u.toNat] := by
    have hnat : (Char.ofNat u.toNat).toNat = u.toNat := toNat_ofNat_of_valid (.inl (by omega))
    rw [utf8EncodeChar_ascii (by omega), hnat]
  unfold Utf8.encode
  induction us with
  | nil => rfl
  | cons u us ih =>
    have hu := h u mem_cons_self
    have hrest : ∀ v ∈ us, v.toNat < 0x80 := fun v hv => h v (mem_cons_of_mem _ hv)
    have hscalars : Utf8.scalars (u :: us) = .ofNat u.toNat :: Utf8.scalars us := by
      cases us with
      | nil => exact if_neg (hunit hu)
      | cons v us =>
        have hpair : ¬(isHigh u ∧ isLow v) := fun hpair => hunit hu (.inl hpair.1)
        rw [Utf8.scalars, if_neg hpair, if_neg (hunit hu)]
    rw [hscalars, flatMap_cons, ih hrest, hchar hu]
    rfl

theorem hexDigit_lt (h : n < 16) : (hexDigit n).toNat < 0x80 := by
  interval_cases n <;> decide

/-- A character of ASCII that is seen. -/
def isGraphic (u : UInt16) : Bool := 0x21 ≤ u.toNat ∧ u.toNat < 0x7F

theorem hexDigit_graphic (h : n < 16) : isGraphic (hexDigit n) := by
  interval_cases n <;> decide

theorem escapeByte_graphic (b : UInt8) : ∀ u ∈ escapeByte b, isGraphic u := by
  have hb := b.toNat_lt
  intro u hu
  simp only [escapeByte, mem_cons, not_mem_nil, or_false] at hu
  rcases hu with rfl | rfl | rfl
  · decide
  · exact hexDigit_graphic (by omega)
  · exact hexDigit_graphic (by omega)

variable {u : UInt16}

theorem isAlphanumeric_graphic (h : isAlphanumeric u) : isGraphic u := by
  unfold isAlphanumeric at h
  unfold isGraphic
  rw [decide_eq_true_eq] at h ⊢
  omega

theorem isUnreserved_graphic (h : isUnreserved u) : isGraphic u := by
  unfold isUnreserved at h
  rw [decide_eq_true_eq] at h
  rcases h with h | rfl | rfl | rfl | rfl | rfl | rfl | rfl | rfl | rfl
  · exact isAlphanumeric_graphic h
  all_goals decide

theorem isFormKept_graphic (h : isFormKept u) : isGraphic u := by
  unfold isFormKept at h
  rw [decide_eq_true_eq] at h
  rcases h with h | rfl | rfl | rfl | rfl
  · exact isAlphanumeric_graphic h
  all_goals decide

theorem escapeChar_graphic {keep : UInt16 → Bool} (hkeep : ∀ u, keep u → isGraphic u) (c : Char) :
    ∀ u ∈ escapeChar keep c, isGraphic u := by
  intro u hu
  unfold escapeChar at hu
  split at hu
  · rename_i hkept
    obtain rfl := mem_singleton.1 hu
    exact hkeep _ hkept.2
  · obtain ⟨b, -, hu⟩ := mem_flatMap.1 hu
    exact escapeByte_graphic b u hu

variable (s : Utf16)

theorem formEncode_graphic : ∀ u ∈ formEncode s, isGraphic u := by
  intro u hu
  obtain ⟨c, -, hu⟩ := mem_flatMap.1 hu
  unfold formEscape at hu
  split at hu
  · obtain rfl := mem_singleton.1 hu
    decide
  · exact escapeChar_graphic (fun _ => isFormKept_graphic) c u hu

variable {mark : UInt16}

theorem mem_intercalate {ps : List Utf16} (h : u ∈ [mark].intercalate ps) :
    u = mark ∨ ∃ p ∈ ps, u ∈ p := by
  induction ps with
  | nil => cases h
  | cons p ps ih =>
    cases ps with
    | nil =>
      rw [intercalate_singleton] at h
      exact .inr ⟨p, mem_cons_self, h⟩
    | cons q ps =>
      rw [intercalate_cons_cons, mem_append, mem_append, mem_singleton] at h
      rcases h with (h | h) | h
      · exact .inr ⟨p, mem_cons_self, h⟩
      · exact .inl h
      · rcases ih h with h | ⟨p', hp', h⟩
        · exact .inl h
        · exact .inr ⟨p', mem_cons_of_mem _ hp', h⟩

theorem formSerialize_graphic (pairs : List (Utf16 × Utf16)) :
    ∀ u ∈ formSerialize pairs, isGraphic u := by
  intro u hu
  rcases mem_intercalate hu with rfl | ⟨p, hp, hu⟩
  · decide
  · obtain ⟨⟨name, value⟩, -, rfl⟩ := mem_map.1 hp
    rcases mem_append.1 hu with hu | hu
    · exact formEncode_graphic _ u hu
    · rcases mem_cons.1 hu with rfl | hu
      · decide
      · exact formEncode_graphic _ u hu

theorem encodeURIComponent_graphic {s encoded : Utf16} (h : encodeURIComponent s = some encoded) :
    ∀ u ∈ encoded, isGraphic u := by
  unfold encodeURIComponent at h
  split_ifs at h
  cases h
  intro u hu
  obtain ⟨c, -, hu⟩ := mem_flatMap.1 hu
  exact escapeChar_graphic (fun _ => isUnreserved_graphic) c u hu

theorem formEncode_lt : ∀ u ∈ formEncode s, u.toNat < 0x80 := by
  intro u hu
  have hgraphic := of_decide_eq_true (formEncode_graphic s u hu)
  omega

theorem unescape_cons_of_ne {b : UInt8} (h : b ≠ 0x25) (bs : List UInt8) :
    unescape (b :: bs) = b :: unescape bs := by
  match bs with
  | [] => rfl
  | [_] => rfl
  | _ :: _ :: _ => rw [unescape, if_neg h]

theorem unplus_of_ne (hlt : u.toNat < 0x80) (hne : u ≠ plus) :
    unplus (.ofNat u.toNat) = .ofNat u.toNat := by
  refine if_neg fun heq => hne ?_
  have hnat := congrArg UInt8.toNat heq
  rw [toNat_byte (by omega)] at hnat
  exact UInt16.toNat_inj.1 hnat

theorem hexDigit_ne_plus (h : n < 16) : hexDigit n ≠ plus := by
  interval_cases n <;> decide

theorem unescape_escapeByte (b : UInt8) (rest : List UInt8) :
    unescape ((asciiBytes (escapeByte b)).map unplus ++ rest) = b :: unescape rest := by
  have hb := b.toNat_lt
  have hback : 16 * (b.toNat / 16) + b.toNat % 16 = b.toNat := Nat.div_add_mod _ _
  have hdigit {n : ℕ} (hn : n < 16) : unplus (.ofNat (hexDigit n).toNat) = .ofNat (hexDigit n).toNat :=
    unplus_of_ne (hexDigit_lt hn) (hexDigit_ne_plus hn)
  have hvalue {n : ℕ} (hn : n < 16) :
      hexValue (.ofNat (UInt8.ofNat (hexDigit n).toNat).toNat) = some n := by
    have hlt := hexDigit_lt hn
    rw [toNat_byte (by omega), UInt16.ofNat_toNat, hexValue_hexDigit hn]
  simp only [escapeByte, asciiBytes, map_cons, map_nil, cons_append, nil_append]
  rw [hdigit (show b.toNat / 16 < 16 by omega), hdigit (show b.toNat % 16 < 16 by omega)]
  show unescape (0x25 :: _ :: _ :: rest) = _
  rw [unescape, if_pos rfl]
  simp only [hvalue (show b.toNat / 16 < 16 by omega), hvalue (show b.toNat % 16 < 16 by omega),
    hback, UInt8.ofNat_toNat]

theorem unescape_escapeBytes (rest : List UInt8) :
    unescape ((asciiBytes (bs.flatMap escapeByte)).map unplus ++ rest) = bs ++ unescape rest := by
  induction bs with
  | nil => rfl
  | cons b bs ih =>
    have hsplit : asciiBytes ((b :: bs).flatMap escapeByte) =
        asciiBytes (escapeByte b) ++ asciiBytes (bs.flatMap escapeByte) := by
      rw [flatMap_cons]
      exact map_append
    rw [hsplit, map_append, append_assoc, unescape_escapeByte, ih]
    rfl

/-- A character is read from what stands for it. -/
theorem unescape_formEscape (c : Char) (rest : List UInt8) :
    unescape ((asciiBytes (formEscape c)).map unplus ++ rest) =
      String.utf8EncodeChar c ++ unescape rest := by
  unfold formEscape
  split
  · rename_i hblank
    rw [hblank]
    exact unescape_cons_of_ne (by decide) rest
  · unfold escapeChar
    split
    · rename_i hkept
      have hnat : (UInt16.ofNat c.toNat).toNat = c.toNat := toNat_unit (by omega)
      have hplus : UInt16.ofNat c.toNat ≠ plus := by
        intro heq
        rw [heq] at hkept
        exact absurd hkept.2 (by decide)
      have hpercent : UInt8.ofNat (UInt16.ofNat c.toNat).toNat ≠ 0x25 := by
        intro heq
        have heq := congrArg UInt8.toNat heq
        rw [toNat_byte (by omega)] at heq
        have hunit : UInt16.ofNat c.toNat = percent := UInt16.toNat_inj.1 heq
        rw [hunit] at hkept
        exact absurd hkept.2 (by decide)
      show unescape (unplus (.ofNat (UInt16.ofNat c.toNat).toNat) :: rest) = _
      rw [unplus_of_ne (by omega) hplus, unescape_cons_of_ne hpercent, hnat,
        utf8EncodeChar_ascii hkept.1]
      rfl
    · exact unescape_escapeBytes _ rest

theorem formDecode_encode : formDecode (formEncode s) = utf16 (Utf8.scalars s) := by
  have hunescape (cs : List Char) : unescape ((asciiBytes (cs.flatMap formEscape)).map unplus) =
      cs.flatMap String.utf8EncodeChar := by
    induction cs with
    | nil => rfl
    | cons c cs ih =>
      have hsplit : asciiBytes ((c :: cs).flatMap formEscape) =
          asciiBytes (formEscape c) ++ asciiBytes (cs.flatMap formEscape) := by
        rw [flatMap_cons]
        exact map_append
      rw [hsplit, map_append, unescape_formEscape, ih, flatMap_cons]
  unfold formDecode
  rw [encode_ascii (formEncode_lt s)]
  rw [formEncode, hunescape]
  exact congrArg utf16 (Utf8.decodeFrom_encode s)

theorem pieces_ne_nil : pieces s ≠ [] := by
  cases s with
  | nil => exact cons_ne_nil _ _
  | cons u us =>
    rw [pieces]
    split
    · exact cons_ne_nil _ _
    · split
      · exact cons_ne_nil _ _
      · exact cons_ne_nil _ _

theorem pieces_cons (u : UInt16) (us : Utf16) : ∃ piece more, pieces us = piece :: more ∧
    pieces (u :: us) =
      if u = ampersand then [] :: piece :: more else (u :: piece) :: more := by
  obtain ⟨piece, more, h⟩ := exists_cons_of_ne_nil (pieces_ne_nil us)
  refine ⟨piece, more, h, ?_⟩
  rw [pieces, h]

theorem pieces_self {piece : Utf16} (h : ampersand ∉ piece) : pieces piece = [piece] := by
  induction piece with
  | nil => rfl
  | cons u piece ih =>
    rw [mem_cons, not_or] at h
    obtain ⟨first, more, hpieces, hcons⟩ := pieces_cons u piece
    rw [ih h.2] at hpieces
    obtain ⟨rfl, rfl⟩ := cons.inj hpieces
    rw [hcons, if_neg (Ne.symm h.1)]

theorem pieces_append {piece : Utf16} (h : ampersand ∉ piece) (rest : Utf16) :
    pieces (piece ++ ampersand :: rest) = piece :: pieces rest := by
  induction piece with
  | nil =>
    obtain ⟨first, more, hpieces, hcons⟩ := pieces_cons ampersand rest
    rw [nil_append, hcons, if_pos rfl, hpieces]
  | cons u piece ih =>
    rw [mem_cons, not_or] at h
    obtain ⟨first, more, hpieces, hcons⟩ := pieces_cons u (piece ++ ampersand :: rest)
    rw [ih h.2] at hpieces
    obtain ⟨rfl, rfl⟩ := cons.inj hpieces
    rw [cons_append, hcons, if_neg (Ne.symm h.1)]

/-- Pieces that are joined are found again. -/
theorem pieces_intercalate {ps : List Utf16} (hne : ps ≠ []) (h : ∀ p ∈ ps, ampersand ∉ p) :
    pieces ([ampersand].intercalate ps) = ps := by
  induction ps with
  | nil => exact absurd rfl hne
  | cons p ps ih =>
    have hp := h p mem_cons_self
    cases ps with
    | nil =>
      rw [intercalate_singleton]
      exact pieces_self hp
    | cons q ps =>
      rw [intercalate_cons_cons, append_assoc, singleton_append, pieces_append hp,
        ih (cons_ne_nil _ _) fun p hmem => h p (mem_cons_of_mem _ hmem)]

/-- No separator stands in what is written of a character. -/
theorem formEscape_ne {c : Char} (hu : u ∈ formEscape c)
    (hmark : mark = ampersand ∨ mark = equals) : u ≠ mark := by
  have hdigit {n : ℕ} (hn : n < 16) : hexDigit n ≠ mark := by
    rcases hmark with rfl | rfl <;> interval_cases n <;> decide
  unfold formEscape at hu
  split at hu
  · obtain rfl := mem_singleton.1 hu
    rcases hmark with rfl | rfl <;> decide
  · unfold escapeChar at hu
    split at hu
    · rename_i hkept
      obtain rfl := mem_singleton.1 hu
      rintro heq
      rw [heq] at hkept
      rcases hmark with rfl | rfl
      · exact absurd hkept.2 (by decide)
      · exact absurd hkept.2 (by decide)
    · obtain ⟨b, -, hu⟩ := mem_flatMap.1 hu
      have hb := b.toNat_lt
      simp only [escapeByte, mem_cons, not_mem_nil, or_false] at hu
      rcases hu with rfl | rfl | rfl
      · rcases hmark with rfl | rfl <;> decide
      · exact hdigit (by omega)
      · exact hdigit (by omega)

theorem formEncode_ne (hu : u ∈ formEncode s) (hmark : mark = ampersand ∨ mark = equals) :
    u ≠ mark := by
  obtain ⟨c, -, hu⟩ := mem_flatMap.1 hu
  exact formEscape_ne hu hmark

/-- The pairs that were written, their halves of pairs replaced. -/
theorem formParse_serialize {pairs : List (Utf16 × Utf16)} (hne : pairs ≠ []) :
    formParse (formSerialize pairs) =
      pairs.map fun (name, value) => (utf16 (Utf8.scalars name), utf16 (Utf8.scalars value)) := by
  have hpieces : pieces (formSerialize pairs) =
      pairs.map fun (name, value) => formEncode name ++ equals :: formEncode value := by
    refine pieces_intercalate (fun h => hne (map_eq_nil_iff.1 h)) fun p hp => ?_
    obtain ⟨⟨name, value⟩, -, rfl⟩ := mem_map.1 hp
    intro hmem
    rcases mem_append.1 hmem with hmem | hmem
    · exact formEncode_ne name hmem (.inl rfl) rfl
    · rcases mem_cons.1 hmem with hmem | hmem
      · exact absurd hmem (by decide)
      · exact formEncode_ne value hmem (.inl rfl) rfl
  unfold formParse
  rw [hpieces, filter_eq_self.2 ?_, map_map]
  · refine map_congr_left fun pair _ => ?_
    have hname : ∀ u ∈ formEncode pair.1, decide (u ≠ equals) = true :=
      fun u hu => decide_eq_true (formEncode_ne _ hu (.inr rfl))
    show (formDecode (takeWhile _ (formEncode pair.1 ++ equals :: formEncode pair.2)),
      formDecode ((dropWhile _ (formEncode pair.1 ++ equals :: formEncode pair.2)).drop 1)) = _
    rw [takeWhile_append_of_pos hname, dropWhile_append_of_pos hname,
      takeWhile_cons_of_neg (by decide), dropWhile_cons_of_neg (by decide),
      append_nil, drop_one, tail_cons, formDecode_encode, formDecode_encode]
  · intro p hp
    obtain ⟨⟨name, value⟩, -, rfl⟩ := mem_map.1 hp
    simp

end UriText
