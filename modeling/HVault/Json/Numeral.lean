import Mathlib.Tactic.IntervalCases
import HVault.Json.Binary64

/-!
# Numbers as text

The text of a number in JSON, and the number that a text denotes. A double is written with the
fewest digits that read back as it.

* `Numeral`: the parts of a number as it is written; `readNumeral_text`: reading finds them again;
* `Numeral.ofDigits`: where the point and the exponent of a decimal number go;
* `readNumber_text`: a double that is written is read back.
-/

namespace Json

open Binary64 List Nat

/-! ## Numerals -/

/-- The parts of a number as it is written: the digits before the point, those after it, and the
power of ten behind the `e`. No digits after the point are no point, and the power 0 is no `e`. -/
structure Numeral where
  negative : Bool
  whole : List Char
  fraction : List Char
  power : ℤ
  deriving DecidableEq, Repr

namespace Numeral

def fractionText (fraction : List Char) : List Char :=
  if fraction = [] then [] else '.' :: fraction

def powerText (power : ℤ) : List Char :=
  if power = 0 then []
  else 'e' :: (if power < 0 then '-' else '+') :: Nat.toDigits 10 power.natAbs

def text (d : Numeral) : List Char :=
  (if d.negative then ['-'] else []) ++
    (d.whole ++ (fractionText d.fraction ++ powerText d.power))

/-- The digits before and after the point together, read as one number. -/
def digits (d : Numeral) : ℕ := Nat.ofDigitChars 10 (d.whole ++ d.fraction) 0

def value (d : Numeral) : ℚ :=
  (if d.negative then -1 else 1) * d.digits * 10 ^ (d.power - d.fraction.length)

/-- Digits, at least one before the point, and none before them that is a zero too much. -/
structure Valid (d : Numeral) : Prop where
  whole : d.whole ≠ []
  wholeDigits : ∀ c ∈ d.whole, c.isDigit
  leading : d.whole.head? = some '0' → d.whole = ['0']
  fractionDigits : ∀ c ∈ d.fraction, c.isDigit

end Numeral

/-! ## Reading -/

/-- The digits at the start of a text, of which there must be one, and the rest. -/
def readDigits (cs : List Char) : Option (List Char × List Char) :=
  if cs.takeWhile Char.isDigit = [] then none
  else some (cs.takeWhile Char.isDigit, cs.dropWhile Char.isDigit)

def readSign : List Char → Bool × List Char
  | '-' :: cs => (true, cs)
  | cs => (false, cs)

def readWhole : List Char → Option (List Char × List Char)
  | '0' :: cs => some (['0'], cs)
  | cs => readDigits cs

def readFraction : List Char → Option (List Char × List Char)
  | '.' :: cs => readDigits cs
  | cs => some ([], cs)

/-- The power behind an `e`, with the sign it was found to have. -/
def readPowerDigits (negative : Bool) (cs : List Char) : Option (ℤ × List Char) :=
  (readDigits cs).map fun (ds, rest) =>
    (if negative then -(Nat.ofDigitChars 10 ds 0 : ℤ) else Nat.ofDigitChars 10 ds 0, rest)

def readPowerSign : List Char → Option (ℤ × List Char)
  | '-' :: cs => readPowerDigits true cs
  | '+' :: cs => readPowerDigits false cs
  | cs => readPowerDigits false cs

def readPower : List Char → Option (ℤ × List Char)
  | 'e' :: cs => readPowerSign cs
  | 'E' :: cs => readPowerSign cs
  | cs => some (0, cs)

def readNumeral (cs : List Char) : Option (Numeral × List Char) := do
  let (whole, afterWhole) ← readWhole (readSign cs).2
  let (fraction, afterFraction) ← readFraction afterWhole
  let (power, rest) ← readPower afterFraction
  return (⟨(readSign cs).1, whole, fraction, power⟩, rest)

/-- A text that goes on with no digit. -/
def StopsDigits (rest : List Char) : Prop := ∀ c ∈ rest.head?, c.isDigit = false

/-- A text that goes on with nothing that belongs to a numeral. -/
def StopsNumeral (rest : List Char) : Prop :=
  ∀ c ∈ rest.head?, c.isDigit = false ∧ c ≠ '.' ∧ c ≠ 'e' ∧ c ≠ 'E'

variable {rest : List Char}

theorem StopsNumeral.digits (h : StopsNumeral rest) : StopsDigits rest :=
  fun c hc => (h c hc).1

theorem readDigits_append {ds : List Char} (hds : ∀ c ∈ ds, c.isDigit) (hne : ds ≠ [])
    (hrest : StopsDigits rest) : readDigits (ds ++ rest) = some (ds, rest) := by
  have hstop : rest.takeWhile Char.isDigit = [] ∧ rest.dropWhile Char.isDigit = rest := by
    cases rest with
    | nil => exact ⟨rfl, rfl⟩
    | cons c rest =>
      have hc := hrest c rfl
      exact ⟨takeWhile_cons_of_neg (by simp [hc]), dropWhile_cons_of_neg (by simp [hc])⟩
  unfold readDigits
  rw [takeWhile_append_of_pos hds, dropWhile_append_of_pos hds, hstop.1, hstop.2,
    append_nil, if_neg hne]

theorem readWhole_append {ds : List Char} (hds : ∀ c ∈ ds, c.isDigit) (hne : ds ≠ [])
    (hleading : ds.head? = some '0' → ds = ['0']) (hrest : StopsDigits rest) :
    readWhole (ds ++ rest) = some (ds, rest) := by
  by_cases hzero : ds.head? = some '0'
  · rw [hleading hzero]
    rfl
  · have hread := readDigits_append hds hne hrest
    unfold readWhole
    split
    · rename_i cs heq
      cases ds with
      | nil => exact absurd rfl hne
      | cons c ds =>
        rw [cons_append] at heq
        rw [(cons.inj heq).1] at hzero
        exact absurd rfl hzero
    · exact hread

theorem stopsDigits_of_head {c : Char} (hc : c.isDigit = false) : StopsDigits (c :: rest) := by
  intro c' hc'
  rw [← Option.some.inj hc']
  exact hc

theorem readFraction_append {fraction : List Char} (hds : ∀ c ∈ fraction, c.isDigit)
    (hrest : StopsDigits rest) (hpoint : ∀ cs, rest ≠ '.' :: cs) :
    readFraction (Numeral.fractionText fraction ++ rest) = some (fraction, rest) := by
  unfold Numeral.fractionText
  split
  · rename_i hnil
    rw [hnil, nil_append]
    unfold readFraction
    split
    · rename_i cs
      exact absurd rfl (hpoint cs)
    · rfl
  · rename_i hne
    exact readDigits_append hds hne hrest

theorem isDigit_toDigits {n : ℕ} : ∀ c ∈ toDigits 10 n, c.isDigit :=
  fun _ hc => isDigit_of_mem_toDigits (by decide) (by decide) hc

theorem readPower_append {power : ℤ} (hrest : StopsNumeral rest) :
    readPower (Numeral.powerText power ++ rest) = some (power, rest) := by
  unfold Numeral.powerText
  split
  · rename_i hzero
    rw [hzero, nil_append]
    unfold readPower
    split
    · exact absurd rfl (hrest 'e' rfl).2.2.1
    · exact absurd rfl (hrest 'E' rfl).2.2.2
    · rfl
  · have hdigits : readDigits (toDigits 10 power.natAbs ++ rest) =
        some (toDigits 10 power.natAbs, rest) :=
      readDigits_append isDigit_toDigits toDigits_ne_nil hrest.digits
    split
    · show readPowerDigits true (toDigits 10 power.natAbs ++ rest) = _
      unfold readPowerDigits
      rw [hdigits]
      show some (-(ofDigitChars 10 (toDigits 10 power.natAbs) 0 : ℤ), rest) = _
      rw [ofDigitChars_ten_toDigits, show -(power.natAbs : ℤ) = power by omega]
    · show readPowerDigits false (toDigits 10 power.natAbs ++ rest) = _
      unfold readPowerDigits
      rw [hdigits]
      show some ((ofDigitChars 10 (toDigits 10 power.natAbs) 0 : ℤ), rest) = _
      rw [ofDigitChars_ten_toDigits, show (power.natAbs : ℤ) = power by omega]

theorem stopsDigits_powerText (power : ℤ) (hrest : StopsNumeral rest) :
    StopsDigits (Numeral.powerText power ++ rest) ∧
      ∀ cs, Numeral.powerText power ++ rest ≠ '.' :: cs := by
  unfold Numeral.powerText
  split
  · refine ⟨hrest.digits, fun cs heq => ?_⟩
    rw [nil_append] at heq
    exact (hrest '.' (by rw [heq]; rfl)).2.1 rfl
  · exact ⟨stopsDigits_of_head rfl, nofun⟩

theorem stopsDigits_fractionText (fraction : List Char) (hrest : StopsDigits rest) :
    StopsDigits (Numeral.fractionText fraction ++ rest) := by
  unfold Numeral.fractionText
  split
  · exact hrest
  · exact stopsDigits_of_head rfl

theorem readNumeral_text {d : Numeral} (hd : d.Valid) (hrest : StopsNumeral rest) :
    readNumeral (d.text ++ rest) = some (d, rest) := by
  obtain ⟨hpower, hpoint⟩ := stopsDigits_powerText d.power hrest
  have hfraction := stopsDigits_fractionText d.fraction hpower
  have hwhole := readWhole_append hd.wholeDigits hd.whole hd.leading hfraction
  have hsign : readSign (d.text ++ rest) = (d.negative,
      d.whole ++ (Numeral.fractionText d.fraction ++ (Numeral.powerText d.power ++ rest))) := by
    unfold Numeral.text
    rw [append_assoc, append_assoc, append_assoc]
    cases d.negative with
    | true => rfl
    | false =>
      show readSign (d.whole ++ _) = _
      unfold readSign
      split
      · rename_i cs heq
        have hminus : d.whole.head? = some '-' := by
          rw [← head?_append_of_ne_nil _ hd.whole, heq]
          rfl
        have hdigit := hd.wholeDigits '-' (mem_of_mem_head? hminus)
        exact absurd hdigit (by decide)
      · rfl
  unfold readNumeral
  rw [hsign]
  simp only [hwhole, readFraction_append hd.fractionDigits hpower hpoint, readPower_append hrest,
    Option.bind_eq_bind, Option.bind_some, Option.pure_def]

/-! ## Writing a decimal number -/

namespace Numeral

/-- Where the point and the exponent go in a number with the digits of `s`, the last of them at the
power `t` of ten. -/
def ofDigits (negative : Bool) (s : ℕ) (t : ℤ) : Numeral :=
  let ds := Nat.toDigits 10 s
  let n : ℤ := ds.length + t
  if ds.length ≤ n ∧ n ≤ 21 then ⟨negative, ds ++ List.replicate t.toNat '0', [], 0⟩
  else if 0 < n ∧ n ≤ 21 then ⟨negative, ds.take n.toNat, ds.drop n.toNat, 0⟩
  else if -6 < n ∧ n ≤ 0 then ⟨negative, ['0'], List.replicate (-n).toNat '0' ++ ds, 0⟩
  else ⟨negative, ds.take 1, ds.drop 1, n - 1⟩

theorem head?_toDigits {s : ℕ} (hs : s ≠ 0) : (toDigits 10 s).head? ≠ some '0' := by
  induction s using Nat.strong_induction_on with
  | _ s ih =>
    by_cases hlt : s < 10
    · rw [toDigits_of_lt_base hlt]
      interval_cases s <;> simp_all [digitChar]
    · rw [toDigits_of_base_le (by decide) (by omega),
        head?_append_of_ne_nil _ toDigits_ne_nil]
      exact ih (s / 10) (by omega) (by omega)

variable (negative : Bool)

theorem valid_ofDigits {s : ℕ} (hs : s ≠ 0) (t : ℤ) : (ofDigits negative s t).Valid := by
  have hne : toDigits 10 s ≠ [] := toDigits_ne_nil
  have hhead := head?_toDigits hs
  -- A part of the digits that begins with the first one has no zero there.
  have htake : ∀ k, 0 < k → (toDigits 10 s).take k ≠ [] ∧
      ((toDigits 10 s).take k).head? ≠ some '0' := by
    intro k hk
    rw [head?_take, if_neg (by omega)]
    refine ⟨fun hnil => ?_, hhead⟩
    rcases take_eq_nil_iff.1 hnil with hzero | hnil
    · omega
    · exact hne hnil
  unfold ofDigits
  dsimp only
  split_ifs with hwhole hpoint hsmall
  · refine ⟨by simp [hne], fun c hc => ?_, fun hzero => ?_, nofun⟩
    · rcases mem_append.1 hc with hc | hc
      · exact isDigit_toDigits c hc
      · rw [eq_of_mem_replicate hc]
        rfl
    · rw [head?_append_of_ne_nil _ hne] at hzero
      exact absurd hzero hhead
  · obtain ⟨hsome, hlead⟩ := htake _ (by omega : 0 < ((toDigits 10 s).length + t).toNat)
    exact ⟨hsome, fun c hc => isDigit_toDigits c (mem_of_mem_take hc),
      fun hzero => absurd hzero hlead, fun c hc => isDigit_toDigits c (mem_of_mem_drop hc)⟩
  · refine ⟨by simp, fun c hc => ?_, fun _ => rfl, fun c hc => ?_⟩
    · rw [mem_singleton.1 hc]
      rfl
    rcases mem_append.1 hc with hc | hc
    · rw [eq_of_mem_replicate hc]
      rfl
    · exact isDigit_toDigits c hc
  · obtain ⟨hsome, hlead⟩ := htake 1 (by omega)
    exact ⟨hsome, fun c hc => isDigit_toDigits c (mem_of_mem_take hc),
      fun hzero => absurd hzero hlead, fun c hc => isDigit_toDigits c (mem_of_mem_drop hc)⟩

/-- The digits are those of `s`, or zeros around them, and the point is where it belongs. -/
theorem scale_ofDigits (s : ℕ) (t : ℤ) :
    ((ofDigits negative s t).digits : ℚ) *
      10 ^ ((ofDigits negative s t).power - (ofDigits negative s t).fraction.length) =
        s * 10 ^ t := by
  have hpos : 0 < (toDigits 10 s).length := length_toDigits_pos
  have hread : ofDigitChars 10 (toDigits 10 s) 0 = s := ofDigitChars_ten_toDigits
  unfold ofDigits
  dsimp only
  split_ifs with hwhole hpoint hsmall
  · have ht : ((t.toNat : ℕ) : ℤ) = t := by omega
    simp only [digits, append_nil, ofDigitChars_append, ofDigitChars_replicate_zero,
      hread, length_nil]
    push_cast
    rw [← zpow_natCast, ht]
    ring
  · simp only [digits, take_append_drop, hread, length_drop]
    congr 2
    omega
  · have hzeros : ofDigitChars 10
        (['0'] ++ (replicate (-((toDigits 10 s).length + t)).toNat '0' ++
          toDigits 10 s)) 0 = s := by
      rw [singleton_append, ofDigitChars_cons, ofDigitChars_append,
        ofDigitChars_replicate_zero]
      exact hread
    simp only [digits, hzeros, length_append, length_replicate]
    congr 2
    omega
  · simp only [digits, take_append_drop, hread, length_drop]
    congr 2
    omega

theorem negative_ofDigits (s : ℕ) (t : ℤ) : (ofDigits negative s t).negative = negative := by
  unfold ofDigits
  dsimp only
  split_ifs <;> rfl

theorem value_ofDigits (s : ℕ) (t : ℤ) :
    (ofDigits negative s t).value = (if negative then -1 else 1) * (s * 10 ^ t) := by
  unfold value
  rw [negative_ofDigits, mul_assoc, scale_ofDigits]

end Numeral

/-! ## Writing a double -/

/-- The decimal numbers of `k` digits around a positive `x`, the nearest one first. One that is
carried to a further digit is a power of ten. -/
def decimals (x : ℚ) (k : ℕ) : List (ℕ × ℤ) :=
  let t := Int.log 10 x + 1 - k
  [roundEven (x / 10 ^ t), ⌊x / 10 ^ t⌋, ⌈x / 10 ^ t⌉].map fun s =>
    if s = 10 ^ k then (1, t + k) else (s.toNat, t)

/-- A decimal number that reads back as `x`. -/
def ReadsBack (x : ℚ) (d : ℕ × ℤ) : Prop :=
  d.1 ≠ 0 ∧ round53 ((if x < 0 then -1 else 1) * (d.1 * 10 ^ d.2)) = x

instance (x : ℚ) (d : ℕ × ℤ) : Decidable (ReadsBack x d) := inferInstanceAs (Decidable (_ ∧ _))

/-- All digits of a double. -/
def allDigits (x : ℚ) : ℕ × ℤ := ((|x| * 10 ^ 1074).num.toNat, -1074)

/-- The fewest digits that read back as `x`. Seventeen are always enough. -/
def shortest (x : ℚ) : ℕ × ℤ :=
  (((List.range 17).flatMap fun k => decimals |x| (k + 1)).find? fun d => ReadsBack x d).getD
    (allDigits x)

/-- A power of ten that reaches the last binary place makes an integer. -/
theorem mul_ten_pow {m e : ℤ} {j k : ℕ} (h : e + j = k) :
    (m : ℚ) * 2 ^ e * 10 ^ j = ((m * 2 ^ k * 5 ^ j : ℤ) : ℚ) := by
  have hten : (10 : ℚ) ^ j = 2 ^ (j : ℤ) * 5 ^ j := by
    rw [show (10 : ℚ) = 2 * 5 by norm_num, mul_pow, zpow_natCast]
  have htwo : (2 : ℚ) ^ e * 2 ^ (j : ℤ) = 2 ^ k := by
    rw [← zpow_add₀ (by norm_num), h, zpow_natCast]
  push_cast
  rw [hten, ← htwo]
  ring

variable {x : ℚ}

theorem readsBack_allDigits (hx : x ≠ 0) (h : round53 x = x) : ReadsBack x (allDigits x) := by
  obtain ⟨m, e, -, he, hm⟩ : Representable x := h ▸ representable_round53 x
  have hint : ∃ z : ℤ, |x| * 10 ^ 1074 = z := by
    obtain ⟨k, hk⟩ := Int.le.dest he
    refine ⟨|m| * 2 ^ k * 5 ^ 1074, ?_⟩
    rw [hm, abs_mul, abs_of_pos (two_zpow_pos e), ← Int.cast_abs]
    exact mul_ten_pow (by omega)
  obtain ⟨z, hz⟩ := hint
  have hzpos : 0 < z := by
    have hpos : 0 < |x| * 10 ^ 1074 := mul_pos (abs_pos.2 hx) (by positivity)
    rw [hz] at hpos
    exact_mod_cast hpos
  have hnum : (|x| * 10 ^ 1074).num.toNat = z.toNat := by rw [hz, Rat.num_intCast]
  have hvalue : ((z.toNat : ℕ) : ℚ) * 10 ^ (-1074 : ℤ) = |x| := by
    rw [show ((z.toNat : ℕ) : ℚ) = (z : ℚ) by exact_mod_cast Int.toNat_of_nonneg hzpos.le, ← hz,
      zpow_neg]
    field_simp
  unfold ReadsBack allDigits
  rw [hnum, hvalue]
  refine ⟨by omega, ?_⟩
  split
  · rename_i hneg
    rw [abs_of_neg hneg, neg_one_mul, neg_neg]
    exact h
  · rename_i hnonneg
    rw [abs_of_nonneg (not_lt.1 hnonneg), one_mul]
    exact h

theorem readsBack_shortest (hx : x ≠ 0) (h : round53 x = x) : ReadsBack x (shortest x) := by
  unfold shortest
  cases hfind : ((range 17).flatMap fun k => decimals |x| (k + 1)).find?
      fun d => ReadsBack x d with
  | none => exact readsBack_allDigits hx h
  | some d =>
    have hd := find?_some hfind
    exact of_decide_eq_true hd

/-- The numeral that a double is written as. -/
def numeralOf (x : ℚ) : Numeral :=
  if x = 0 then ⟨false, ['0'], [], 0⟩
  else Numeral.ofDigits (x < 0) (shortest x).1 (shortest x).2

theorem numeralOf_spec (h : round53 x = x) :
    (numeralOf x).Valid ∧ round53 (numeralOf x).value = x := by
  unfold numeralOf
  split
  · rename_i hzero
    have hdigit : ∀ c ∈ ['0'], c.isDigit := by
      intro c hc
      rw [mem_singleton.1 hc]
      rfl
    refine ⟨⟨by simp, hdigit, fun _ => rfl, nofun⟩, ?_⟩
    rw [hzero]
    simp [Numeral.value, Numeral.digits, round53, roundEven, ofDigitChars_cons]
  · rename_i hne
    obtain ⟨hdigits, hround⟩ := readsBack_shortest hne h
    refine ⟨Numeral.valid_ofDigits _ hdigits _, ?_⟩
    rw [Numeral.value_ofDigits]
    simpa using hround

/-- The text of a number. An infinite one has none and is written as `null`. -/
def numberText : Number → List Char
  | .finite x _ => (numeralOf x).text
  | .infinite _ => ['n', 'u', 'l', 'l']

def readNumber (cs : List Char) : Option (Number × List Char) :=
  (readNumeral cs).map fun (d, rest) => (Number.ofRat d.value, rest)

theorem readNumber_text {h : round53 x = x ∧ |x| < 2 ^ 1024} (hrest : StopsNumeral rest) :
    readNumber (numberText (.finite x h) ++ rest) = some (.finite x h, rest) := by
  obtain ⟨hvalid, hround⟩ := numeralOf_spec h.1
  unfold readNumber numberText
  rw [readNumeral_text hvalid hrest]
  refine congrArg some (Prod.ext ?_ rfl)
  unfold Number.ofRat
  simp only [hround]
  rw [dif_pos h.2]

/-- The text of a number begins with a minus or a digit. -/
theorem numberText_head {h : round53 x = x ∧ |x| < 2 ^ 1024} :
    ∃ c cs, numberText (.finite x h) = c :: cs ∧ (c = '-' ∨ c.isDigit) := by
  obtain ⟨hvalid, -⟩ := numeralOf_spec h.1
  show ∃ c cs, (numeralOf x).text = c :: cs ∧ (c = '-' ∨ c.isDigit)
  unfold Numeral.text
  cases hneg : (numeralOf x).negative with
  | true => exact ⟨'-', _, rfl, .inl rfl⟩
  | false =>
    obtain ⟨c, cs, hwhole⟩ := exists_cons_of_ne_nil hvalid.whole
    rw [hwhole]
    refine ⟨c, _, rfl, .inr ?_⟩
    exact hvalid.wholeDigits c (by rw [hwhole]; exact mem_cons_self)

end Json
