import HVault.Data.Rejection
import Mathlib.Data.Nat.Digits.Lemmas

/-!
# Random integers

A number below a bound is drawn as the fewest bits that reach the bound, out of whole bytes
(`candidate`), and drawn again while it is not below. The numbers below the bound are each what
equally many buffers come out as, so that no number is likelier than another
(`randomBigIntBelow_uniform`).
-/

namespace HVault.SecureRandom

open List Nat Fintype Rejection

inductive Fault where
  /-- The bound is not positive. -/
  | range
  /-- The platform has no source of randomness. -/
  | unavailable
  deriving DecidableEq, Repr

/-- `n.toString(2).length`. -/
def binaryLength (n : ℕ) : ℕ := if n = 0 then 1 else (Nat.digits 2 n).length

def bits (exclusiveMax : ℕ) : ℕ := binaryLength (exclusiveMax - 1)

def byteCount (exclusiveMax : ℕ) : ℕ := (bits exclusiveMax + 7) / 8

/-- The bits of the last byte that are not needed. -/
def discard (exclusiveMax : ℕ) : ℕ := byteCount exclusiveMax * 8 - bits exclusiveMax

def readBytes (buffer : List UInt8) : ℕ :=
  buffer.foldl (fun value byte => value <<< 8 ||| byte.toNat) 0

/-- The number that a buffer comes out as. -/
def candidate (exclusiveMax : ℕ) (buffer : List UInt8) : ℕ :=
  readBytes buffer >>> discard exclusiveMax

/-- The loop, over what the platform fills the buffer with, draw after draw; `none` where it is still
drawing at their end. -/
def drawBelow (exclusiveMax : ℕ) : List (List UInt8) → Option ℕ
  | [] => none
  | buffer :: draws =>
    let value := candidate exclusiveMax buffer
    if value < exclusiveMax then some value else drawBelow exclusiveMax draws

/-- `webcrypto` is what the platform fills the buffer with, if it has a source of randomness. -/
def randomBigIntBelow (exclusiveMax : ℤ) (webcrypto : Option (List (List UInt8))) :
    Except Fault (Option ℕ) :=
  if exclusiveMax ≤ 0 then .error .range
  -- one possible value: nothing to choose, and nothing is drawn
  else if exclusiveMax = 1 then .ok (some 0)
  else match webcrypto with
    | none => .error .unavailable
    | some draws => .ok (drawBelow exclusiveMax.toNat draws)

/-! ## How much is drawn -/

/-- How many bits of a draw are looked at: none where nothing is drawn. -/
def drawnBits (exclusiveMax : ℕ) : ℕ := if exclusiveMax = 1 then 0 else bits exclusiveMax

theorem le_two_pow_iff {n : ℕ} (hn : 0 < n) (b : ℕ) : n ≤ 2 ^ b ↔ (digits 2 (n - 1)).length ≤ b := by
  rw [digits_length_le_iff (by decide)]
  omega

theorem drawnBits_eq {n : ℕ} (hn : 0 < n) : drawnBits n = (digits 2 (n - 1)).length := by
  unfold drawnBits bits binaryLength
  split_ifs with hone hzero
  · rw [hone]
    rfl
  · omega
  · rfl

theorem isLeast_drawnBits {n : ℕ} (hn : 0 < n) : IsLeast {b | n ≤ 2 ^ b} (drawnBits n) := by
  rw [drawnBits_eq hn]
  refine ⟨(le_two_pow_iff hn _).2 le_rfl, fun b hb => ?_⟩
  exact (le_two_pow_iff hn b).1 hb

theorem byteCount_mul (n : ℕ) : byteCount n * 8 = bits n + discard n := by
  unfold discard byteCount
  omega

/-! ## What a buffer comes out as -/

instance fintypeByte : Fintype UInt8 :=
  .ofEquiv (Fin 256)
    { toFun := UInt8.ofFin
      invFun := UInt8.toFin
      left_inv := fun _ => rfl
      right_inv := fun _ => rfl }

theorem card_byte : card UInt8 = 256 := by
  rw [ofEquiv_card, Fintype.card_fin]

/-- A buffer that the platform has filled. -/
abbrev Buffer (exclusiveMax : ℕ) := List.Vector UInt8 (byteCount exclusiveMax)

theorem readBytes_eq (buffer : List UInt8) :
    readBytes buffer = ofDigits 256 (buffer.map UInt8.toNat).reverse := by
  unfold readBytes
  induction buffer using reverseRecOn with
  | nil => rfl
  | append_singleton buffer byte ih =>
    rw [foldl_concat, ih, map_append, reverse_append, map_singleton,
      reverse_singleton, singleton_append, ofDigits_cons, shiftLeft_eq,
      mul_comm, ← two_pow_add_eq_or_of_lt byte.toNat_lt, add_comm]

theorem toNat_lt_of_mem {buffer : List UInt8} {d : ℕ} (h : d ∈ (buffer.map UInt8.toNat).reverse) :
    d < 256 := by
  obtain ⟨byte, -, rfl⟩ := mem_map.1 (mem_reverse.1 h)
  exact byte.toNat_lt

theorem readBytes_lt (buffer : List UInt8) : readBytes buffer < 256 ^ buffer.length := by
  have hlt := ofDigits_lt_base_pow_length (by decide : 1 < 256) fun d hd =>
    @toNat_lt_of_mem buffer d hd
  rw [length_reverse, length_map] at hlt
  rw [readBytes_eq]
  exact hlt

theorem readBytes_injective {buffer buffer' : List UInt8} (hlength : buffer.length = buffer'.length)
    (h : readBytes buffer = readBytes buffer') : buffer = buffer' := by
  rw [readBytes_eq, readBytes_eq] at h
  have hdigits := ofDigits_inj_of_len_eq (by decide)
    (by rw [length_reverse, length_reverse, length_map, length_map, hlength])
    (fun d hd => toNat_lt_of_mem hd) (fun d hd => toNat_lt_of_mem hd) h
  exact map_injective_iff.2 (fun a b => UInt8.toNat_inj.1) (reverse_injective hdigits)

/-- The buffers of a length are the numbers below a power of 256. -/
noncomputable def bufferEquiv (k : ℕ) : List.Vector UInt8 k ≃ Fin (256 ^ k) :=
  Equiv.ofBijective
    (fun buffer => ⟨readBytes buffer.toList, by
      have hlt := readBytes_lt buffer.toList
      rwa [List.Vector.toList_length] at hlt⟩)
    ((Fintype.bijective_iff_injective_and_card _).2 ⟨fun buffer buffer' h => by
      apply List.Vector.toList_injective
      apply readBytes_injective
      · rw [List.Vector.toList_length, List.Vector.toList_length]
      · exact congrArg Fin.val h, by
      rw [card_vector, card_byte, Fintype.card_fin]⟩)

theorem card_between {lo hi n : ℕ} (hhi : hi ≤ n) :
    card {x : Fin n // lo ≤ x.val ∧ x.val < hi} = hi - lo := by
  have hequiv : {x : Fin n // lo ≤ x.val ∧ x.val < hi} ≃ Fin (hi - lo) :=
    { toFun := fun x => ⟨x.val.val - lo, by have := x.property; omega⟩
      invFun := fun y => ⟨⟨lo + y.val, by have := y.isLt; omega⟩, by
        have := y.isLt
        show lo ≤ lo + y.val ∧ lo + y.val < hi
        omega⟩
      left_inv := fun x => by
        apply Subtype.ext
        apply Fin.ext
        show lo + (x.val.val - lo) = x.val.val
        omega
      right_inv := fun y => by
        apply Fin.ext
        show lo + y.val - lo = y.val
        omega }
  rw [Fintype.card_congr hequiv, Fintype.card_fin]

/-- How many buffers are read as a number from `lo` to below `hi`. -/
theorem card_buffers {k lo hi : ℕ} (hhi : hi ≤ 256 ^ k) :
    card {buffer : List.Vector UInt8 k //
      lo ≤ readBytes buffer.toList ∧ readBytes buffer.toList < hi} = hi - lo := by
  rw [← card_between hhi]
  exact Fintype.card_congr ((bufferEquiv k).subtypeEquiv fun buffer => Iff.rfl)

/-! ## Numbers below a bound -/

section Bound

variable {n : ℕ}

/-- What the loop does with one draw. -/
def accept (n : ℕ) (buffer : Buffer n) : Option ℕ :=
  if candidate n buffer.toList < n then some (candidate n buffer.toList) else none

theorem drawBelow_eq_run (draws : List (Buffer n)) :
    drawBelow n (draws.map List.Vector.toList) = run (accept n) draws := by
  induction draws with
  | nil => rfl
  | cons buffer draws ih =>
    rw [map_cons, drawBelow, run, ih]
    unfold accept
    split_ifs
    · rfl
    · rfl

theorem drawBelow_lt {draws : List (List UInt8)} {v : ℕ} (h : drawBelow n draws = some v) : v < n := by
  induction draws with
  | nil => cases h
  | cons buffer draws ih =>
    rw [drawBelow] at h
    split_ifs at h with hlt
    · rwa [← Option.some.inj h]
    · exact ih h

theorem candidate_eq_iff {buffer : List UInt8} {v : ℕ} : candidate n buffer = v ↔
    v * 2 ^ discard n ≤ readBytes buffer ∧ readBytes buffer < (v + 1) * 2 ^ discard n := by
  have hpos : 0 < 2 ^ discard n := Nat.two_pow_pos _
  unfold candidate
  rw [shiftRight_eq_div_pow, ← le_div_iff_mul_le hpos, ← div_lt_iff_lt_mul hpos]
  omega

theorem le_candidate_iff {buffer : List UInt8} :
    n ≤ candidate n buffer ↔ n * 2 ^ discard n ≤ readBytes buffer := by
  unfold candidate
  rw [shiftRight_eq_div_pow, le_div_iff_mul_le (Nat.two_pow_pos _)]

/-- The numbers below the bound, with what is discarded behind each, all fit in the buffer. -/
theorem mul_discard_le (hn : 1 < n) : n * 2 ^ discard n ≤ 256 ^ byteCount n := by
  have hbits : drawnBits n = bits n := if_neg (by omega)
  have hle := (isLeast_drawnBits (zero_lt_of_lt hn)).1
  rw [hbits] at hle
  calc n * 2 ^ discard n ≤ 2 ^ bits n * 2 ^ discard n := mul_le_mul_right _ hle
    _ = 2 ^ (byteCount n * 8) := by rw [← pow_add, byteCount_mul]
    _ = (2 ^ 8) ^ byteCount n := by rw [mul_comm, pow_mul]
    _ = 256 ^ byteCount n := rfl

/-- Each number below the bound has a preimage for each value of the discarded bits. -/
theorem card_candidate (hn : 1 < n) {v : ℕ} (hv : v < n) :
    card {buffer : Buffer n // candidate n buffer.toList = v} = 2 ^ discard n := by
  have hfits : (v + 1) * 2 ^ discard n ≤ 256 ^ byteCount n :=
    (mul_le_mul_right _ hv).trans (mul_discard_le hn)
  have hcount := @card_buffers _ (v * 2 ^ discard n) _ hfits
  have hwidth : (v + 1) * 2 ^ discard n - v * 2 ^ discard n = 2 ^ discard n := by
    rw [succ_mul, Nat.add_sub_cancel_left]
  rw [hwidth] at hcount
  rw [← hcount]
  exact Fintype.card_congr (Equiv.subtypeEquivRight fun buffer => candidate_eq_iff)

theorem hits_some (hn : 1 < n) {v : ℕ} (hv : v < n) :
    hits (accept n) (some v) = 2 ^ discard n := by
  rw [← card_candidate hn hv]
  apply Fintype.card_congr
  apply Equiv.subtypeEquivRight
  intro buffer
  unfold accept
  split_ifs with hlt
  · rw [Option.some.injEq]
  · exact iff_of_false nofun fun heq => hlt (heq ▸ hv)

theorem hits_none :
    hits (accept n) none = 256 ^ byteCount n - n * 2 ^ discard n := by
  rw [← card_buffers (le_refl (256 ^ byteCount n))]
  apply Fintype.card_congr
  apply Equiv.subtypeEquivRight
  intro buffer
  have hlt := readBytes_lt buffer.toList
  rw [List.Vector.toList_length] at hlt
  rw [← le_candidate_iff, and_iff_left hlt]
  unfold accept
  split_ifs with hbelow
  · exact iff_of_false nofun (Nat.not_le_of_lt hbelow)
  · exact iff_of_true rfl (Nat.le_of_not_lt hbelow)

theorem randomBigIntBelow_of_lt (hn : 1 < n) (draws : List (List UInt8)) :
    randomBigIntBelow n (some draws) = .ok (drawBelow n draws) := by
  unfold randomBigIntBelow
  rw [if_neg (by omega), if_neg (by omega)]
  rfl

theorem randomBigIntBelow_lt (hn : 0 < n) {webcrypto : Option (List (List UInt8))} {v : ℕ}
    (h : randomBigIntBelow n webcrypto = .ok (some v)) : v < n := by
  unfold randomBigIntBelow at h
  split_ifs at h with hneg hone
  · obtain rfl : 0 = v := Option.some.inj (Except.ok.inj h)
    exact hn
  · cases webcrypto with
    | none => cases h
    | some draws => exact drawBelow_lt (Except.ok.inj h)

/-- Of the sequences of `k` draws, equally many end with each number below the bound, and the others
are those of which every draw is rejected. -/
theorem card_runs (hn : 1 < n) {v : ℕ} (hv : v < n) (k : ℕ) :
    n * card {draws : Fin k → Buffer n // randomBigIntBelow n
        (some (List.ofFn fun i => (draws i).toList)) = .ok (some v)} +
      (256 ^ byteCount n - n * 2 ^ discard n) ^ k = (256 ^ byteCount n) ^ k := by
  have hcard : card (Buffer n) = 256 ^ byteCount n := by
    rw [card_vector, card_byte]
  have htotal : n * 2 ^ discard n + hits (accept n) none = card (Buffer n) := by
    rw [hits_none, hcard]
    have hle := mul_discard_le hn
    omega
  have hruns := card_mul_runs (accept n) (hits_some hn hv) htotal k
  rw [hits_none, hcard] at hruns
  rw [← hruns]
  congr 2
  apply Fintype.card_congr
  apply Equiv.subtypeEquivRight
  intro draws
  have hdraws : (ofFn fun i => (draws i).toList) = (ofFn draws).map List.Vector.toList := by
    rw [map_ofFn]
    rfl
  rw [randomBigIntBelow_of_lt hn, hdraws, drawBelow_eq_run, Except.ok.injEq]

end Bound

/-- **A number below a bound is drawn uniformly.** The bits that are looked at are the fewest that
reach the bound, and nothing is drawn where there is one number. Otherwise each number below the bound
is what equally many buffers come out as, and what equally many sequences of any length end with; no
other number is ever returned. -/
theorem randomBigIntBelow_uniform {n : ℕ} (hn : 0 < n) :
    IsLeast {b | n ≤ 2 ^ b} (drawnBits n) ∧
      (∀ webcrypto v, randomBigIntBelow n webcrypto = .ok (some v) → v < n) ∧
      (n = 1 → ∀ webcrypto, randomBigIntBelow n webcrypto = .ok (some 0)) ∧
      (1 < n → byteCount n * 8 = drawnBits n + discard n ∧ discard n < 8 ∧
        ∀ v < n, Fintype.card {buffer : Buffer n // candidate n buffer.toList = v} = 2 ^ discard n ∧
          ∀ k, n * Fintype.card {draws : Fin k → Buffer n // randomBigIntBelow n
              (some (List.ofFn fun i => (draws i).toList)) = .ok (some v)} +
            (256 ^ byteCount n - n * 2 ^ discard n) ^ k = (256 ^ byteCount n) ^ k) := by
  refine ⟨isLeast_drawnBits hn, fun _ _ h => randomBigIntBelow_lt hn h, ?_, fun hlt => ?_⟩
  · rintro rfl webcrypto
    rfl
  · have hbits : drawnBits n = bits n := if_neg (by omega)
    refine ⟨by rw [hbits, byteCount_mul], ?_, fun v hv => ⟨card_candidate hlt hv, card_runs hlt hv⟩⟩
    unfold discard byteCount
    omega

theorem randomBigIntBelow_uniform_sample : IsLeast {b | 5 ≤ 2 ^ b} 3 ∧
    ∀ v < 5, Fintype.card {buffer : Buffer 5 // candidate 5 buffer.toList = v} = 32 := by
  obtain ⟨hleast, -, -, huniform⟩ := randomBigIntBelow_uniform (n := 5) (by decide)
  have hbits : drawnBits 5 = 3 := by simp [drawnBits, bits, binaryLength]
  have hdiscard : discard 5 = 5 := by simp [discard, byteCount, bits, binaryLength]
  rw [hbits] at hleast
  rw [hdiscard] at huniform
  exact ⟨hleast, fun v hv => ((huniform (by decide)).2.2 v hv).1⟩

example : randomBigIntBelow 5 (some [[0xA0], [0x9F]]) = .ok (some 4) := by
  simp [randomBigIntBelow, drawBelow, candidate, readBytes, discard, byteCount, bits, binaryLength]

end HVault.SecureRandom
