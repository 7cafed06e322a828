import HVault.Json.Text

/-!
# UTF-8

Strings as the bytes of their text and back, as a browser does it (`TextEncoder`, `TextDecoder`).
Half of a pair has no bytes of its own, and what is no text is read as U+FFFD: `encode` takes every
string and `decode` all bytes. The characters of a string are read back (`decodeFrom_encode`).
-/

namespace Utf8

open Json List Char

/-- What stands for what is no text. -/
def replacement : Char := .ofNat 0xFFFD

/-! ## Writing -/

/-- The characters of a string. -/
def scalars : Utf16 → List Char
  | [] => []
  | [u] => if isHigh u ∨ isLow u then [replacement] else [.ofNat u.toNat]
  | u :: v :: us =>
    if isHigh u ∧ isLow v then combine u v :: scalars us
    else if isHigh u ∨ isLow u then replacement :: scalars (v :: us)
    else .ofNat u.toNat :: scalars (v :: us)

/-- `new TextEncoder().encode(us)`. -/
def encode (us : Utf16) : List UInt8 := (scalars us).flatMap String.utf8EncodeChar

/-! ## Reading -/

/-- Where a reader stands: how many bytes it still needs, what it has of the character, and what the
next byte may be. -/
structure Pending where
  needed : ℕ
  point : ℕ
  lower : ℕ
  upper : ℕ

def Pending.fresh : Pending := ⟨0, 0, 0x80, 0xBF⟩

/-- The first byte of a character. -/
def lead (b : ℕ) : List Char × Pending :=
  if b < 0x80 then ([.ofNat b], .fresh)
  else if b < 0xC2 then ([replacement], .fresh)
  else if b < 0xE0 then ([], ⟨1, b - 0xC0, 0x80, 0xBF⟩)
  else if b < 0xF0 then
    ([], ⟨2, b - 0xE0, if b = 0xE0 then 0xA0 else 0x80, if b = 0xED then 0x9F else 0xBF⟩)
  else if b < 0xF5 then
    ([], ⟨3, b - 0xF0, if b = 0xF0 then 0x90 else 0x80, if b = 0xF4 then 0x8F else 0xBF⟩)
  else ([replacement], .fresh)

/-- A byte that cannot go on with a character ends it, and begins the next. -/
def Pending.feed (s : Pending) (b : ℕ) : List Char × Pending :=
  if s.needed = 0 then lead b
  else if s.lower ≤ b ∧ b ≤ s.upper then
    let point := s.point * 64 + (b - 0x80)
    if s.needed = 1 then ([.ofNat point], .fresh) else ([], ⟨s.needed - 1, point, 0x80, 0xBF⟩)
  else
    let (cs, next) := lead b
    (replacement :: cs, next)

def decodeFrom (s : Pending) : List UInt8 → List Char
  | [] => if s.needed = 0 then [] else [replacement]
  | b :: bs => (s.feed b.toNat).1 ++ decodeFrom (s.feed b.toNat).2 bs

def byteOrderMark : Char := .ofNat 0xFEFF

/-- `new TextDecoder().decode(bs)`. -/
def decode (bs : List UInt8) : Utf16 :=
  match decodeFrom .fresh bs with
  | c :: cs => if c = byteOrderMark then utf16 cs else utf16 (c :: cs)
  | [] => []

/-! ## What is written is read -/

theorem feed_fresh (b : ℕ) : Pending.fresh.feed b = lead b := rfl

theorem feed_last {s : Pending} {b : ℕ} (hneeded : s.needed = 1) (hlower : s.lower ≤ b)
    (hupper : b ≤ s.upper) : s.feed b = ([.ofNat (s.point * 64 + (b - 0x80))], .fresh) := by
  unfold Pending.feed
  rw [if_neg (by omega), if_pos ⟨hlower, hupper⟩]
  exact if_pos hneeded

theorem feed_more {s : Pending} {b : ℕ} (hneeded : 2 ≤ s.needed) (hlower : s.lower ≤ b)
    (hupper : b ≤ s.upper) :
    s.feed b = ([], ⟨s.needed - 1, s.point * 64 + (b - 0x80), 0x80, 0xBF⟩) := by
  unfold Pending.feed
  rw [if_neg (by omega), if_pos ⟨hlower, hupper⟩]
  exact if_neg (by omega)

theorem decodeFrom_cons (s : Pending) {n : ℕ} (hn : n < 0x100) (bs : List UInt8) :
    decodeFrom s (UInt8.ofNat n :: bs) = (s.feed n).1 ++ decodeFrom (s.feed n).2 bs := by
  rw [decodeFrom, UInt8.toNat_ofNat_of_lt' hn]

variable (c : Char)

theorem decodeFrom_utf8EncodeChar (bs : List UInt8) :
    decodeFrom .fresh (String.utf8EncodeChar c ++ bs) = c :: decodeFrom .fresh bs := by
  have hvalid := toNat_valid c
  have hc : ofNat c.toNat = c := ofNat_toNat c
  have hval : c.val.toNat = c.toNat := rfl
  unfold String.utf8EncodeChar
  rw [hval]
  generalize c.toNat = v at hvalid hc
  simp only
  split_ifs with hone htwo hthree
  · have hlead : lead v = ([ofNat v], .fresh) := if_pos (by omega)
    rw [cons_append, nil_append, decodeFrom_cons _ (by omega), feed_fresh, hlead, hc]
    rfl
  · have hlead : lead (v / 64 % 0x20 + 0xC0) = ([], ⟨1, v / 64, 0x80, 0xBF⟩) := by
      unfold lead
      have hbits : v / 64 % 0x20 + 0xC0 - 0xC0 = v / 64 := by omega
      rw [if_neg (by omega), if_neg (by omega), if_pos (by omega), hbits]
    rw [cons_append, cons_append, nil_append, decodeFrom_cons _ (by omega),
      feed_fresh, hlead, decodeFrom_cons _ (by omega), feed_last rfl (by simp only; omega)
        (by simp only; omega)]
    have hpoint : v / 64 * 64 + (v % 0x40 + 0x80 - 0x80) = v := by omega
    rw [hpoint, hc]
    rfl
  · have hlead : lead (v / 4096 % 0x10 + 0xE0) =
        ([], ⟨2, v / 4096, if v / 4096 = 0 then 0xA0 else 0x80,
          if v / 4096 = 13 then 0x9F else 0xBF⟩) := by
      unfold lead
      have hbits : v / 4096 % 0x10 + 0xE0 - 0xE0 = v / 4096 := by omega
      have hfirst : v / 4096 % 0x10 + 0xE0 = 0xE0 ↔ v / 4096 = 0 := by omega
      have hlast : v / 4096 % 0x10 + 0xE0 = 0xED ↔ v / 4096 = 13 := by omega
      rw [if_neg (by omega), if_neg (by omega), if_neg (by omega), if_pos (by omega), hbits]
      simp only [hfirst, hlast]
    rw [cons_append, cons_append, cons_append, nil_append,
      decodeFrom_cons _ (by omega), feed_fresh, hlead, decodeFrom_cons _ (by omega),
      feed_more (by simp only; omega) (by simp only; split <;> omega)
        (by simp only; split <;> omega),
      decodeFrom_cons _ (by omega), feed_last rfl (by simp only; omega) (by simp only; omega)]
    have hpoint : (v / 4096 * 64 + (v / 64 % 0x40 + 0x80 - 0x80)) * 64 + (v % 0x40 + 0x80 - 0x80) =
        v := by omega
    simp only
    rw [hpoint, hc]
    rfl
  · have hlead : lead (v / 262144 % 0x08 + 0xF0) =
        ([], ⟨3, v / 262144, if v / 262144 = 0 then 0x90 else 0x80,
          if v / 262144 = 4 then 0x8F else 0xBF⟩) := by
      unfold lead
      have hbits : v / 262144 % 0x08 + 0xF0 - 0xF0 = v / 262144 := by omega
      have hfirst : v / 262144 % 0x08 + 0xF0 = 0xF0 ↔ v / 262144 = 0 := by omega
      have hlast : v / 262144 % 0x08 + 0xF0 = 0xF4 ↔ v / 262144 = 4 := by omega
      rw [if_neg (by omega), if_neg (by omega), if_neg (by omega), if_neg (by omega),
        if_pos (by omega), hbits]
      simp only [hfirst, hlast]
    rw [cons_append, cons_append, cons_append, cons_append, nil_append,
      decodeFrom_cons _ (by omega), feed_fresh, hlead, decodeFrom_cons _ (by omega),
      feed_more (by simp only; omega) (by simp only; split <;> omega)
        (by simp only; split <;> omega),
      decodeFrom_cons _ (by omega), feed_more (by simp only; omega) (by simp only; omega)
        (by simp only; omega),
      decodeFrom_cons _ (by omega), feed_last rfl (by simp only; omega) (by simp only; omega)]
    have hpoint : ((v / 262144 * 64 + (v / 4096 % 0x40 + 0x80 - 0x80)) * 64 +
        (v / 64 % 0x40 + 0x80 - 0x80)) * 64 + (v % 0x40 + 0x80 - 0x80) = v := by omega
    simp only
    rw [hpoint, hc]
    rfl

variable (us : Utf16)

theorem decodeFrom_encode : decodeFrom .fresh (encode us) = scalars us := by
  unfold encode
  generalize scalars us = cs
  induction cs with
  | nil => rfl
  | cons c cs ih => rw [flatMap_cons, decodeFrom_utf8EncodeChar, ih]

/-- A unit that is a character by itself. -/
def isPlain (u : UInt16) : Bool := !isHigh u && !isLow u

variable {u : UInt16}

theorem isPlain_of_lt (h : u.toNat < 0xD800) : isPlain u := by
  unfold isPlain isHigh isLow
  simp only [Bool.and_eq_true, Bool.not_eq_true', decide_eq_false_iff_not]
  omega

/-! ## Strings without halves of pairs -/

/-- No half of a pair stands alone. -/
def isWellFormed : Utf16 → Bool
  | [] => true
  | [u] => isPlain u
  | u :: v :: us =>
    if isHigh u ∧ isLow v then isWellFormed us else isPlain u && isWellFormed (v :: us)

theorem unitsOf_plain (h : isPlain u) : ¬(isHigh u ∨ isLow u) ∧ unitsOf (.ofNat u.toNat) = [u] := by
  obtain ⟨hhigh, hlow⟩ : isHigh u = false ∧ isLow u = false := by simpa [isPlain] using h
  refine ⟨?_, unitsOf_ofNat (valid_of_not_surrogate hhigh hlow)⟩
  rw [hhigh, hlow]
  simp

theorem utf16_scalars_of_wellFormed {us : Utf16} (h : isWellFormed us) :
    utf16 (scalars us) = us := by
  fun_induction isWellFormed us with
  | case1 => rfl
  | case2 u =>
    obtain ⟨hnot, hunits⟩ := unitsOf_plain h
    rw [scalars, if_neg hnot]
    show unitsOf _ ++ [] = _
    rw [hunits]
    rfl
  | case3 u v us hpair ih =>
    rw [scalars, if_pos hpair]
    show unitsOf _ ++ utf16 _ = _
    rw [unitsOf_combine hpair.1 hpair.2, ih h]
    rfl
  | case4 u v us hpair ih =>
    obtain ⟨hplain, hrest⟩ := Bool.and_eq_true_iff.1 h
    obtain ⟨hnot, hunits⟩ := unitsOf_plain hplain
    rw [scalars, if_neg hpair, if_neg hnot]
    show unitsOf _ ++ utf16 _ = _
    rw [hunits, ih hrest]
    rfl

theorem isWellFormed_of_plain {us : Utf16} (h : us.all isPlain) : isWellFormed us := by
  fun_induction isWellFormed us with
  | case1 => rfl
  | case2 u => simpa using h
  | case3 u v us hpair ih =>
    have hu := all_eq_true.1 h u mem_cons_self
    exact absurd (.inl hpair.1) (unitsOf_plain hu).1
  | case4 u v us hpair ih =>
    rw [all_cons, Bool.and_eq_true] at h
    exact Bool.and_eq_true_iff.2 ⟨h.1, ih h.2⟩

theorem utf16_scalars {us : Utf16} (h : us.all isPlain) : utf16 (scalars us) = us :=
  utf16_scalars_of_wellFormed (isWellFormed_of_plain h)

theorem isWellFormed_cons_plain (hu : isPlain u) (us : Utf16) :
    isWellFormed (u :: us) = isWellFormed us := by
  obtain ⟨hnot, -⟩ := unitsOf_plain hu
  cases us with
  | nil => exact hu
  | cons v us =>
    have hpair : ¬(isHigh u ∧ isLow v) := fun hpair => hnot (.inl hpair.1)
    rw [isWellFormed, if_neg hpair, hu, Bool.true_and]

/-- Around a unit that is a character by itself, the parts are well formed by themselves. -/
theorem isWellFormed_append_plain (hu : isPlain u) (vs : Utf16) :
    isWellFormed (us ++ u :: vs) = (isWellFormed us && isWellFormed vs) := by
  obtain ⟨hnot, -⟩ := unitsOf_plain hu
  fun_induction isWellFormed us with
  | case1 => exact isWellFormed_cons_plain hu vs
  | case2 v =>
    have hpair : ¬(isHigh v ∧ isLow u) := fun hpair => hnot (.inr hpair.2)
    rw [singleton_append, isWellFormed, if_neg hpair, isWellFormed_cons_plain hu]
  | case3 v w us hpair ih =>
    rw [cons_append, cons_append, isWellFormed, if_pos hpair, ih]
  | case4 v w us hpair ih =>
    rw [cons_append, cons_append, isWellFormed, if_neg hpair, ← cons_append, ih,
      Bool.and_assoc]

/-- A character is one unit that is no half of a pair, or a pair. -/
theorem unitsOf_cases :
    (∃ u, unitsOf c = [u] ∧ isPlain u ∧ .ofNat u.toNat = c ∧ c.toNat < 0x10000) ∨
      ∃ high low, unitsOf c = [high, low] ∧ isHigh high ∧ isLow low ∧ combine high low = c ∧
        0x10000 ≤ c.toNat := by
  have hvalid := toNat_valid c
  unfold unitsOf
  by_cases h : c.toNat < 0x10000
  · rw [if_pos h]
    have hnat : (UInt16.ofNat c.toNat).toNat = c.toNat := UInt16.toNat_ofNat_of_lt' h
    refine .inl ⟨_, rfl, ?_, ?_, h⟩
    · unfold isPlain isHigh isLow
      rw [hnat]
      simp only [Bool.and_eq_true, Bool.not_eq_true', decide_eq_false_iff_not]
      omega
    · rw [hnat, ofNat_toNat]
  · rw [if_neg h]
    obtain ⟨k, hk⟩ : ∃ k, c.toNat = 0x10000 + k := ⟨c.toNat - 0x10000, by omega⟩
    have hhigh : (UInt16.ofNat (0xD800 + (c.toNat - 0x10000) / 0x400)).toNat = 0xD800 + k / 0x400 := by
      rw [hk, Nat.add_sub_cancel_left]
      exact UInt16.toNat_ofNat_of_lt' (show _ < 0x10000 by omega)
    have hlow : (UInt16.ofNat (0xDC00 + (c.toNat - 0x10000) % 0x400)).toNat = 0xDC00 + k % 0x400 := by
      rw [hk, Nat.add_sub_cancel_left]
      exact UInt16.toNat_ofNat_of_lt' (show _ < 0x10000 by omega)
    refine .inr ⟨_, _, rfl, ?_, ?_, ?_, by omega⟩
    · unfold isHigh
      rw [hhigh]
      exact decide_eq_true (by omega)
    · unfold isLow
      rw [hlow]
      exact decide_eq_true (by omega)
    · unfold combine
      rw [hhigh, hlow]
      have hpoint : 0x10000 + (0xD800 + k / 0x400 - 0xD800) * 0x400 + (0xDC00 + k % 0x400 - 0xDC00) =
          c.toNat := by omega
      rw [hpoint, ofNat_toNat]

theorem scalars_unitsOf : scalars (unitsOf c ++ us) = c :: scalars us := by
  rcases unitsOf_cases c with ⟨u, hunits, hplain, hchar, -⟩ | ⟨high, low, hunits, hhigh, hlow, hchar, -⟩
  · obtain ⟨hnot, -⟩ := unitsOf_plain hplain
    rw [hunits, cons_append, nil_append]
    cases us with
    | nil => exact (if_neg hnot).trans (by rw [hchar]; rfl)
    | cons v us =>
      have hpair : ¬(isHigh u ∧ isLow v) := fun hpair => hnot (.inl hpair.1)
      rw [scalars, if_neg hpair, if_neg hnot, hchar]
  · rw [hunits, cons_append, cons_append, nil_append, scalars, if_pos ⟨hhigh, hlow⟩,
      hchar]

theorem isWellFormed_unitsOf : isWellFormed (unitsOf c ++ us) = isWellFormed us := by
  rcases unitsOf_cases c with ⟨u, hunits, hplain, -, -⟩ | ⟨high, low, hunits, hhigh, hlow, -, -⟩
  · obtain ⟨hnot, -⟩ := unitsOf_plain hplain
    rw [hunits, cons_append, nil_append]
    cases us with
    | nil => rw [isWellFormed, isWellFormed, hplain]
    | cons v us =>
      have hpair : ¬(isHigh u ∧ isLow v) := fun hpair => hnot (.inl hpair.1)
      rw [isWellFormed, if_neg hpair, hplain, Bool.true_and]
  · rw [hunits, cons_append, cons_append, nil_append, isWellFormed,
      if_pos ⟨hhigh, hlow⟩]

theorem scalars_utf16 (cs : List Char) : scalars (utf16 cs) = cs := by
  induction cs with
  | nil => rfl
  | cons c cs ih =>
    show scalars (unitsOf c ++ utf16 cs) = _
    rw [scalars_unitsOf, ih]

theorem isWellFormed_utf16_append (cs : List Char) (us : Utf16) :
    isWellFormed (utf16 cs ++ us) = isWellFormed us := by
  induction cs with
  | nil => rfl
  | cons c cs ih =>
    show isWellFormed (unitsOf c ++ utf16 cs ++ us) = _
    rw [append_assoc, isWellFormed_unitsOf, ih]

theorem isWellFormed_utf16 (cs : List Char) : isWellFormed (utf16 cs) := by
  have happend := isWellFormed_utf16_append cs []
  rwa [append_nil] at happend

/-- The text of a string is read back. -/
theorem decode_encode {us : Utf16} (h : isWellFormed us) (hmark : us.head? ≠ some 0xFEFF) :
    decode (encode us) = us := by
  unfold decode
  rw [decodeFrom_encode]
  have hus := utf16_scalars_of_wellFormed h
  cases hscalars : scalars us with
  | nil =>
    rw [hscalars] at hus
    exact hus
  | cons c cs =>
    rw [hscalars] at hus
    have hc : c ≠ byteOrderMark := by
      rintro rfl
      exact hmark (by rw [← hus]; rfl)
    exact (if_neg hc).trans hus

theorem encode_inj {us us' : Utf16} (hus : us.all isPlain) (hus' : us'.all isPlain)
    (h : encode us = encode us') : us = us' := by
  rw [← utf16_scalars hus, ← utf16_scalars hus', ← decodeFrom_encode us, ← decodeFrom_encode us', h]

/-! ## How many bytes -/

theorem length_encode : (encode us).length = ((scalars us).map utf8Size).sum := by
  unfold encode
  rw [length_flatMap]
  simp only [String.length_utf8EncodeChar]

theorem scalars_pair {v : UInt16} (hu : isHigh u) (hv : isLow v) (us : Utf16) :
    scalars (u :: v :: us) = combine u v :: scalars us := by
  rw [scalars, if_pos ⟨hu, hv⟩]

/-- A unit that makes no pair with the next is a character of its own. -/
theorem scalars_alone {us : Utf16} (h : ¬ (isHigh u ∧ us.head?.any isLow)) :
    scalars (u :: us) = scalars [u] ++ scalars us := by
  cases us with
  | nil => rw [scalars, append_nil]
  | cons v us =>
    have hpair : ¬ (isHigh u ∧ isLow v) := h
    conv_lhs => rw [scalars, if_neg hpair]
    rw [scalars]
    split_ifs
    · rfl
    · rfl

theorem length_encode_alone {us : Utf16} (h : ¬ (isHigh u ∧ us.head?.any isLow)) :
    (encode (u :: us)).length = (encode [u]).length + (encode us).length := by
  rw [length_encode, scalars_alone h, map_append, sum_append, ← length_encode,
    ← length_encode]

theorem length_encode_pair {v : UInt16} (hu : isHigh u) (hv : isLow v) (us : Utf16) :
    (encode (u :: v :: us)).length ≤ 4 + (encode us).length := by
  rw [length_encode, scalars_pair hu hv, map_cons, sum_cons, ← length_encode]
  have hfour := utf8Size_le_four (combine u v)
  omega

/-- Half of a pair is written as what stands for it. -/
theorem length_encode_half (h : isHigh u ∨ isLow u) : (encode [u]).length = 3 := by
  rw [length_encode, scalars, if_pos h]
  rfl

theorem length_encode_unit (u : UInt16) : (encode [u]).length ≤ 3 := by
  by_cases h : isHigh u ∨ isLow u
  · rw [length_encode_half h]
  · rw [length_encode, scalars, if_neg h]
    have hlt := u.toNat_lt
    rw [not_or] at h
    have hhigh := h.1
    have hlow := h.2
    unfold isHigh at hhigh
    unfold isLow at hlow
    rw [decide_eq_true_eq] at hhigh hlow
    have hvalid : u.toNat.isValidChar := by
      omega
    have hnat := toNat_ofNat_of_valid hvalid
    show (ofNat u.toNat).utf8Size + 0 ≤ 3
    have hval : (ofNat u.toNat).val.toNat = u.toNat := hnat
    unfold utf8Size
    dsimp only
    split_ifs with hone htwo hthree
    · omega
    · omega
    · omega
    · rw [UInt32.le_iff_toNat_le, hval] at hthree
      exact absurd (Nat.le_of_lt_succ hlt) hthree

/-- A pair is one character, which none of its halves has fewer bytes than. -/
theorem le_length_encode_pair {v : UInt16} (hu : isHigh u) (hv : isLow v) (us : Utf16) :
    3 + (encode us).length ≤ (encode (u :: v :: us)).length := by
  rw [length_encode (u :: v :: us), scalars_pair hu hv, map_cons, sum_cons, ← length_encode]
  have hnat : (combine u v).val.toNat =
      0x10000 + (u.toNat - 0xD800) * 0x400 + (v.toNat - 0xDC00) := toNat_combine hu hv
  have hsize : (combine u v).utf8Size = 4 := by
    unfold utf8Size
    rw [if_neg, if_neg, if_neg]
    all_goals
      rw [UInt32.le_iff_toNat_le, hnat, UInt32.toNat_ofNatLT]
      omega
  omega

theorem not_isHigh_of_isLow (h : isLow u) : ¬ isHigh u := by
  unfold isLow at h
  unfold isHigh
  rw [decide_eq_true_eq] at h ⊢
  omega

/-- Two strings side by side have as many bytes as both, but for halves that meet: they are one
character of four bytes, and alone have three each. -/
theorem length_encode_append : ∀ us vs : Utf16,
    (encode (us ++ vs)).length ≤ (encode us).length + (encode vs).length ∧
      (encode us).length ≤ (encode (us ++ vs)).length
  | [], vs => ⟨Nat.le_add_left _ _, Nat.zero_le _⟩
  | [u], vs => by
    rw [singleton_append]
    by_cases hpair : isHigh u ∧ vs.head?.any isLow
    · cases vs with
      | nil => exact ⟨Nat.le_refl _, Nat.le_refl _⟩
      | cons v vs =>
        have hv : isLow v := hpair.2
        have hmeet := length_encode_pair hpair.1 hv vs
        have hmeet' := le_length_encode_pair hpair.1 hv vs
        have hfirst := length_encode_half (Or.inl hpair.1)
        have hsecond := length_encode_half (Or.inr hv : isHigh v ∨ isLow v)
        rw [@length_encode_alone v vs fun hboth => not_isHigh_of_isLow hv hboth.1]
        omega
    · rw [length_encode_alone hpair]
      omega
  | u :: v :: us, vs => by
    rw [cons_append, cons_append]
    by_cases hpair : isHigh u ∧ isLow v
    · have ih := length_encode_append us vs
      have hsize : ∀ ws, (encode (u :: v :: ws)).length =
          (combine u v).utf8Size + (encode ws).length := by
        intro ws
        rw [length_encode, scalars_pair hpair.1 hpair.2, map_cons, sum_cons,
          ← length_encode]
      rw [hsize, hsize]
      omega
    · have ih := length_encode_append (v :: us) vs
      have halone : ∀ ws, (encode (u :: v :: ws)).length =
          (encode [u]).length + (encode (v :: ws)).length := fun ws => length_encode_alone hpair
      rw [cons_append] at ih
      rw [halone, halone]
      omega

theorem length_encode_le : (encode us).length ≤ 3 * us.length := by
  induction us with
  | nil => exact Nat.le_refl _
  | cons u us ih =>
    have hsplit := (length_encode_append [u] us).1
    have hunit := length_encode_unit u
    rw [length_cons]
    rw [singleton_append] at hsplit
    omega

end Utf8
