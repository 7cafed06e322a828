import Mathlib.Algebra.Order.Field.Power
import Mathlib.Data.Int.Log
import Mathlib.Data.Rat.Floor
import Mathlib.Tactic.Positivity

/-!
# Double precision numbers

The finite numbers of IEEE 754's binary64 as the rationals they are, and rounding to them. The two
zeros are one number here.

* `round53`: the nearest number of 53 significant bits, halfway cases to the even one;
* `representable_round53`, `round53_of_representable`: rounding gives such a number and leaves one
  alone;
* `Number.ofRat`: the double nearest to a rational, infinite where that is out of range.
-/

namespace Binary64

/-! ## Rounding to an integer -/

/-- The nearest integer, and the even one of two that are equally near. -/
def roundEven (x : ℚ) : ℤ :=
  if x - ⌊x⌋ < 1 / 2 then ⌊x⌋
  else if 1 / 2 < x - ⌊x⌋ then ⌊x⌋ + 1
  else ⌊x⌋ + ⌊x⌋ % 2

theorem roundEven_intCast (k : ℤ) : roundEven k = k := by
  simp [roundEven]

theorem floor_le_roundEven (x : ℚ) : ⌊x⌋ ≤ roundEven x := by
  unfold roundEven
  split_ifs <;> omega

theorem roundEven_le (x : ℚ) : roundEven x ≤ ⌊x⌋ + 1 := by
  unfold roundEven
  split_ifs <;> omega

/-! ## Rounding to 53 bits -/

/-- The exponent of the last place of the doubles around `x`. -/
def exponent (x : ℚ) : ℤ := max (Int.log 2 |x| - 52) (-1074)

def round53 (x : ℚ) : ℚ := roundEven (x / 2 ^ exponent x) * 2 ^ exponent x

/-- A rational with 53 significant bits, none of them below the last place of the subnormals. -/
def Representable (x : ℚ) : Prop :=
  ∃ m e : ℤ, |m| < 2 ^ 53 ∧ -1074 ≤ e ∧ x = m * 2 ^ e

theorem two_zpow_pos (e : ℤ) : (0 : ℚ) < 2 ^ e := by positivity

theorem exponent_le {m e : ℤ} (hm : |m| < 2 ^ 53) (he : -1074 ≤ e)
    (hne : (m : ℚ) * 2 ^ e ≠ 0) : exponent (m * 2 ^ e) ≤ e := by
  have hpos : 0 < |(m : ℚ) * 2 ^ e| := abs_pos.2 hne
  have hlt : |(m : ℚ) * 2 ^ e| < ((2 : ℕ) : ℚ) ^ (53 + e) := by
    have hcast : |(m : ℚ)| < 2 ^ (53 : ℤ) := by exact_mod_cast hm
    rw [abs_mul, abs_of_pos (two_zpow_pos e), Nat.cast_ofNat, zpow_add₀ (by norm_num)]
    exact mul_lt_mul_of_pos_right hcast (two_zpow_pos e)
  have hlog := (Int.lt_zpow_iff_log_lt (by norm_num) hpos).1 hlt
  unfold exponent
  omega

theorem round53_of_representable {x : ℚ} (h : Representable x) : round53 x = x := by
  obtain ⟨m, e, hm, he, rfl⟩ := h
  by_cases hzero : (m : ℚ) * 2 ^ e = 0
  · rw [hzero]
    simp [round53, roundEven]
  · obtain ⟨k, hk⟩ := Int.le.dest (exponent_le hm he hzero)
    have hscaled : (m : ℚ) * 2 ^ e / 2 ^ exponent (m * 2 ^ e) = ((m * 2 ^ k : ℤ) : ℚ) := by
      rw [div_eq_iff (two_zpow_pos _).ne']
      push_cast
      rw [mul_assoc, ← zpow_natCast, ← zpow_add₀ (by norm_num), add_comm (k : ℤ), hk]
    unfold round53
    rw [hscaled, roundEven_intCast, ← hscaled, div_mul_cancel₀ _ (two_zpow_pos _).ne']

theorem abs_div_lt (x : ℚ) : |x / 2 ^ exponent x| < 2 ^ 53 := by
  have hlt : |x| < 2 ^ (Int.log 2 |x| + 1) := by
    exact_mod_cast Int.lt_zpow_succ_log_self (by norm_num : 1 < 2) |x|
  have hle : (2 : ℚ) ^ (Int.log 2 |x| + 1) ≤ 2 ^ (53 + exponent x) := by
    refine zpow_le_zpow_right₀ (by norm_num) ?_
    unfold exponent
    omega
  rw [abs_div, abs_of_pos (two_zpow_pos _), div_lt_iff₀ (two_zpow_pos _)]
  calc |x| < 2 ^ (53 + exponent x) := lt_of_lt_of_le hlt hle
    _ = 2 ^ 53 * 2 ^ exponent x := by
      rw [zpow_add₀ (by norm_num)]
      norm_num

theorem abs_roundEven_le (x : ℚ) : |roundEven (x / 2 ^ exponent x)| ≤ 2 ^ 53 := by
  obtain ⟨hlow, hhigh⟩ := abs_lt.1 (abs_div_lt x)
  have hfloor : ⌊x / 2 ^ exponent x⌋ < 2 ^ 53 := by
    rw [Int.floor_lt]
    exact_mod_cast hhigh
  have hceil : -2 ^ 53 ≤ ⌊x / 2 ^ exponent x⌋ := by
    rw [Int.le_floor]
    exact_mod_cast hlow.le
  have hle := floor_le_roundEven (x / 2 ^ exponent x)
  have hge := roundEven_le (x / 2 ^ exponent x)
  rw [abs_le]
  constructor <;> omega

theorem representable_round53 (x : ℚ) : Representable (round53 x) := by
  have hexp : -1074 ≤ exponent x := le_max_right ..
  have hle := abs_roundEven_le x
  by_cases hlt : |roundEven (x / 2 ^ exponent x)| < 2 ^ 53
  · exact ⟨_, _, hlt, hexp, rfl⟩
  · -- A carry out of the 53rd bit: one place up, it is a power of two.
    have hcarry : ∃ k : ℤ, |k| < 2 ^ 53 ∧ roundEven (x / 2 ^ exponent x) = k * 2 := by
      rcases abs_cases (roundEven (x / 2 ^ exponent x)) with ⟨habs, -⟩ | ⟨habs, -⟩
      · exact ⟨2 ^ 52, by norm_num, by omega⟩
      · exact ⟨-2 ^ 52, by norm_num, by omega⟩
    obtain ⟨k, hk, heq⟩ := hcarry
    refine ⟨k, exponent x + 1, hk, by omega, ?_⟩
    unfold round53
    rw [heq, zpow_add_one₀ (by norm_num)]
    push_cast
    ring

theorem round53_round53 (x : ℚ) : round53 (round53 x) = round53 x :=
  round53_of_representable (representable_round53 x)

/-! ## Integers -/

theorem round53_natCast {n : ℕ} (h : n < 2 ^ 53) : round53 n = n := by
  refine round53_of_representable ⟨n, 0, ?_, by norm_num, by simp⟩
  rw [abs_of_nonneg (Int.natCast_nonneg n)]
  exact_mod_cast h

/-- An integer that is too large to be exact does not become smaller than that. -/
theorem le_round53_natCast {n : ℕ} (h : 2 ^ 53 ≤ n) : (2 : ℚ) ^ 53 ≤ round53 n := by
  have hcast : (2 : ℚ) ^ 53 ≤ n := by exact_mod_cast h
  have hlog : 53 ≤ Int.log 2 (n : ℚ) := by
    rw [Int.log_natCast]
    exact_mod_cast Nat.le_log_of_pow_le (by norm_num) h
  have hexp : exponent n = Int.log 2 (n : ℚ) - 52 := by
    unfold exponent
    rw [abs_of_nonneg (Nat.cast_nonneg n)]
    omega
  have hmantissa : 2 ^ 52 ≤ roundEven (n / 2 ^ exponent n) := by
    refine le_trans ?_ (floor_le_roundEven _)
    rw [Int.le_floor, le_div_iff₀ (two_zpow_pos _)]
    have hself : (2 : ℚ) ^ Int.log 2 (n : ℚ) ≤ n := by
      exact_mod_cast Int.zpow_log_le_self (by norm_num : 1 < 2) (by linarith : (0 : ℚ) < n)
    calc ((2 ^ 52 : ℤ) : ℚ) * 2 ^ exponent n = 2 ^ Int.log 2 (n : ℚ) := by
          rw [hexp, zpow_sub₀ (by norm_num)]
          push_cast
          field_simp
      _ ≤ n := hself
  have hplace : (2 : ℚ) ≤ 2 ^ exponent n := by
    calc (2 : ℚ) = 2 ^ (1 : ℤ) := by norm_num
      _ ≤ 2 ^ exponent n := zpow_le_zpow_right₀ (by norm_num) (by omega)
  have hm : (2 : ℚ) ^ 52 ≤ roundEven (n / 2 ^ exponent n) := by exact_mod_cast hmantissa
  unfold round53
  nlinarith

end Binary64

open Binary64 in
/-- A double that is not NaN. -/
inductive Number where
  | finite (x : ℚ) (h : round53 x = x ∧ |x| < 2 ^ 1024)
  | infinite (negative : Bool)
  deriving DecidableEq

namespace Number

open Binary64

/-- The double nearest to a rational. -/
def ofRat (x : ℚ) : Number :=
  if h : |round53 x| < 2 ^ 1024 then .finite (round53 x) ⟨round53_round53 x, h⟩
  else .infinite (x < 0)

theorem ofRat_self {x : ℚ} (h : round53 x = x ∧ |x| < 2 ^ 1024) : ofRat x = .finite x h := by
  unfold ofRat
  simp only [h.1]
  rw [dif_pos h.2]

theorem ofRat_natCast {n : ℕ} (h : n < 2 ^ 53) :
    ∃ hn, ofRat n = .finite (n : ℚ) hn := by
  have hcast : (n : ℚ) < 2 ^ 53 := by exact_mod_cast h
  refine ⟨⟨round53_natCast h, ?_⟩, ofRat_self _⟩
  rw [abs_of_nonneg (Nat.cast_nonneg n)]
  exact lt_trans hcast (pow_lt_pow_right₀ (by norm_num) (by norm_num))

/-- A natural number whose double is below `2 ^ 53` is that double. -/
theorem natCast_of_ofRat {n : ℕ} {x : ℚ} {h : round53 x = x ∧ |x| < 2 ^ 1024}
    (heq : ofRat n = .finite x h) (hx : x < 2 ^ 53) : x = n := by
  have hround : round53 n = x := by
    unfold ofRat at heq
    split at heq
    · exact (Number.finite.inj heq)
    · cases heq
  by_cases hn : n < 2 ^ 53
  · rw [← hround, round53_natCast hn]
  · have hge := le_round53_natCast (Nat.le_of_not_lt hn)
    rw [hround] at hge
    exact absurd hx (not_lt.2 hge)

end Number
