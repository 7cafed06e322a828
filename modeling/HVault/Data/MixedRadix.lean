import Mathlib.Algebra.BigOperators.Ring.List
import Mathlib.Algebra.Ring.Nat
import Mathlib.Algebra.Order.BigOperators.Group.List

/-!
# Mixed radix

A number below the product of some radices has a digit for each of them, the first for what counts
one (`digits`, `value`). Taking off what a place counts lowers its digit and no other
(`digits_sub_place`).
-/

namespace MixedRadix

open List Nat

/-- The digits of a number. -/
def digits : List ℕ → ℕ → List ℕ
  | [], _ => []
  | b :: bs, n => n % b :: digits bs (n / b)

/-- The number with the given digits. -/
def value : List ℕ → List ℕ → ℕ
  | b :: bs, d :: ds => d + b * value bs ds
  | _, _ => 0

/-- What the digit at a position counts. -/
def place (bs : List ℕ) (i : ℕ) : ℕ := (bs.take i).prod

variable {bs ds : List ℕ} {n i : ℕ}

theorem length_digits (bs : List ℕ) (n : ℕ) : (digits bs n).length = bs.length := by
  induction bs generalizing n with
  | nil => rfl
  | cons b bs ih => rw [digits, length_cons, ih, length_cons]

theorem getElem?_digits (bs : List ℕ) (n i : ℕ) :
    (digits bs n)[i]? = bs[i]?.map fun b => n / place bs i % b := by
  induction bs generalizing n i with
  | nil => rfl
  | cons b bs ih =>
    cases i with
    | zero => simp [digits, place]
    | succ i => simp [digits, place, ih, Nat.div_div_eq_div_mul]

theorem digits_value (h : List.Forall₂ (· < ·) ds bs) : digits bs (value bs ds) = ds := by
  induction h with
  | nil => rfl
  | @cons d b ds bs hd _ ih =>
    rw [value, digits, add_mul_mod_self_left, mod_eq_of_lt hd,
      add_mul_div_left _ _ (zero_lt_of_lt hd), div_eq_of_lt hd, zero_add, ih]

theorem value_lt (h : List.Forall₂ (· < ·) ds bs) : value bs ds < bs.prod := by
  induction h with
  | nil => exact one_pos
  | @cons d b ds bs hd _ ih =>
    rw [value, prod_cons]
    calc d + b * value bs ds < b + b * value bs ds := by omega
      _ = b * (value bs ds + 1) := by rw [mul_add, mul_one, add_comm]
      _ ≤ b * bs.prod := mul_le_mul_left b ih

theorem value_digits (h : n < bs.prod) : value bs (digits bs n) = n := by
  induction bs generalizing n with
  | nil =>
    rw [prod_nil] at h
    exact (lt_one_iff.1 h).symm
  | cons b bs ih =>
    rw [prod_cons] at h
    rw [digits, value, ih (Nat.div_lt_of_lt_mul h), mod_add_div]

theorem prod_pos (h : ∀ b ∈ bs, 0 < b) : 0 < bs.prod := by
  induction bs with
  | nil => exact one_pos
  | cons b bs ih =>
    rw [prod_cons]
    exact Nat.mul_pos (h b mem_cons_self) (ih fun b hb => h b (mem_cons_of_mem _ hb))

/-- Numbers with the same digits are the same. -/
theorem digits_injOn {m : ℕ} (hm : m < bs.prod) (hn : n < bs.prod)
    (h : digits bs m = digits bs n) : m = n := by
  rw [← value_digits hm, h, value_digits hn]

theorem digits_zero (bs : List ℕ) : digits bs 0 = List.replicate bs.length 0 := by
  induction bs with
  | nil => rfl
  | cons b bs ih => rw [digits, zero_mod, Nat.zero_div, ih, length_cons, replicate_succ]

theorem place_succ (b : ℕ) (bs : List ℕ) (i : ℕ) : place (b :: bs) (i + 1) = b * place bs i := by
  unfold place
  rw [take_succ_cons, prod_cons]

/-- The digits, each times what its place counts, add up to the number. -/
theorem sum_place (h : ds.length = bs.length) :
    (ds.zipIdx.map fun (d, i) => d * place bs i).sum = value bs ds := by
  induction ds generalizing bs with
  | nil =>
    cases bs with
    | nil => rfl
    | cons => rfl
  | cons d ds ih =>
    cases bs with
    | nil => cases h
    | cons b bs =>
      have hrest : ((ds.zipIdx 1).map fun (d, i) => d * place (b :: bs) i).sum =
          b * (ds.zipIdx.map fun (d, i) => d * place bs i).sum := by
        rw [zipIdx_eq_map_add, map_map, ← sum_map_mul_left]
        congr 1
        refine map_congr_left fun entry _ => ?_
        show entry.1 * place (b :: bs) (1 + entry.2) = b * (entry.1 * place bs entry.2)
        rw [add_comm, place_succ, mul_left_comm]
      have hfirst : d * place (b :: bs) 0 = d := mul_one d
      rw [zipIdx_cons, map_cons, sum_cons, hrest, ih (succ.inj h), value]
      exact congrArg (· + b * value bs ds) hfirst

/-- Taking off what a place counts lowers its digit. -/
theorem digits_sub_place (hpos : ∀ b ∈ bs, 0 < b) (hdigit : ∃ d, (digits bs n)[i]? = some (d + 1)) :
    digits bs (n - place bs i) = (digits bs n).modify i pred ∧ place bs i ≤ n := by
  induction bs generalizing n i with
  | nil =>
    obtain ⟨d, hd⟩ := hdigit
    cases hd
  | cons b bs ih =>
    have hb : 0 < b := hpos b mem_cons_self
    obtain ⟨d, hd⟩ := hdigit
    cases i with
    | zero =>
      rw [digits, getElem?_cons_zero] at hd
      have hmod : n % b = d + 1 := Option.some.inj hd
      have hle := mod_le n b
      have hlt := mod_lt n hb
      have hsplit := mod_add_div n b
      have hless : n - 1 = d + b * (n / b) := by omega
      have hplace : place (b :: bs) 0 = 1 := rfl
      rw [hplace, digits, digits, hless, add_mul_mod_self_left,
        mod_eq_of_lt (by omega), add_mul_div_left _ _ hb, div_eq_of_lt (by omega),
        zero_add, hmod]
      exact ⟨rfl, by omega⟩
    | succ i =>
      rw [digits, getElem?_cons_succ] at hd
      obtain ⟨hrest, hle⟩ := ih (fun b hb => hpos b (mem_cons_of_mem _ hb)) ⟨d, hd⟩
      have hsplit := mod_add_div n b
      have hbig : b * place bs i ≤ b * (n / b) := mul_le_mul_left b hle
      have hless : n - b * place bs i = n % b + b * (n / b - place bs i) := by
        rw [Nat.mul_sub]
        omega
      have hlt := mod_lt n hb
      rw [place_succ, digits, digits, hless, add_mul_mod_self_left, mod_mod,
        add_mul_div_left _ _ hb, div_eq_of_lt hlt, zero_add, hrest,
        modify_succ_cons]
      exact ⟨rfl, by omega⟩

end MixedRadix
