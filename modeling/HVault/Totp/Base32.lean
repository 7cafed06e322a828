import HVault.Export.ArchiveNames

/-!
# Base32

A key as letters and digits, five bits to each, and back. The buffers of both loops keep bits that
are no longer needed, and lose them where 32 bits are full.

Bytes that were encoded are decoded (`decodeBase32_encode`), and what they are encoded as decodes to
a whole number of bytes (`isDecodableBase32_encode`). Letters that were decoded are encoded again where
the last has no bits that no byte takes (`encodeBase32_decode`).
-/

namespace HVault.Otpauth

open Json Backup DocumentCrypto Archive List Nat

def base32AlphabetChars : Utf16 := units "ABCDEFGHIJKLMNOPQRSTUVWXYZ234567"

def hyphen : UInt16 := 0x2D

def equals : UInt16 := 0x3D

/-- Without the separators that people paste and without padding, in upper case. -/
def normaliseBase32 (toUpperCase : Utf16 → Utf16) (value : Utf16) : Utf16 :=
  toUpperCase (dropTrailing (· = equals) (value.filter fun u => !(isTrimmed u || u = hyphen)))

/-- Letters and digits of the alphabet, in a number that a whole number of bytes has. -/
def isDecodableBase32 (normalised : Utf16) : Bool :=
  normalised.length ≠ 0 ∧ normalised.all (base32AlphabetChars.contains ·) ∧
    [0, 2, 4, 5, 7].contains (normalised.length % 8)

/-! ## The loops -/

/-- The inner loop of the encoder: the places in the alphabet, and the bits that are left. -/
def drain (buffer : ℕ) : ℕ → List ℕ × ℕ
  | bits + 5 =>
    let (out, left) := drain buffer bits
    ((buffer >>> bits &&& 31) :: out, left)
  | bits => ([], bits)

/-- The places in the alphabet that the encoder writes, from where its loop stands. -/
def quintets : List UInt8 → ℕ → ℕ → List ℕ
  | [], buffer, bits => if bits > 0 then [(buffer <<< (5 - bits)) &&& 31] else []
  | b :: bs, buffer, bits =>
    let buffer := buffer <<< 8 % 2 ^ 32 ||| b.toNat
    let (out, bits) := drain buffer (bits + 8)
    out ++ quintets bs buffer bits

def encodeBase32 (bytes : Bytes) : Utf16 :=
  (quintets bytes 0 0).map fun n => base32AlphabetChars.getD n 0

/-- The bytes that the decoder writes, from where its loop stands. -/
def octets : List ℕ → ℕ → ℕ → List ℕ
  | [], _, _ => []
  | index :: indices, buffer, bits =>
    let buffer := buffer <<< 5 % 2 ^ 32 ||| index
    let bits := bits + 5
    if bits ≥ 8 then (buffer >>> (bits - 8) &&& 0xFF) :: octets indices buffer (bits - 8)
    else octets indices buffer bits

/-- `indexOf` in the alphabet. -/
def base32Index (u : UInt16) : Option ℕ :=
  if u ∈ base32AlphabetChars then some (base32AlphabetChars.idxOf u) else none

/-- It throws at a character that is none of the alphabet's. -/
def decodeBase32 (toUpperCase : Utf16 → Utf16) (value : Utf16) : Option Bytes := do
  let indices ← (normaliseBase32 toUpperCase value).mapM base32Index
  return (octets indices 0 0).map UInt8.ofNat

/-! ## What the loops write -/

/-- The number that digits are, the highest first. -/
def number (base : ℕ) (ds : List ℕ) : ℕ := Nat.ofDigits base ds.reverse

theorem number_nil (base : ℕ) : number base [] = 0 := rfl

theorem number_append (base : ℕ) (ds ds' : List ℕ) :
    number base (ds ++ ds') = number base ds * base ^ ds'.length + number base ds' := by
  unfold number
  rw [reverse_append, ofDigits_append, length_reverse]
  ring

theorem number_cons (base d : ℕ) (ds : List ℕ) :
    number base (d :: ds) = d * base ^ ds.length + number base ds := by
  rw [← singleton_append, number_append]
  congr 2

theorem and_31 (n : ℕ) : n &&& 31 = n % 32 := and_two_pow_sub_one_eq_mod n 5

theorem and_255 (n : ℕ) : n &&& 0xFF = n % 256 := and_two_pow_sub_one_eq_mod n 8

/-- The next digit in a buffer of 32 bits. -/
theorem push_eq {buffer width d : ℕ} (hd : d < 2 ^ width) (hwidth : width ≤ 32) :
    buffer <<< width % 2 ^ 32 ||| d = buffer * 2 ^ width % 2 ^ 32 + d := by
  have hmul : buffer * 2 ^ width % 2 ^ 32 = 2 ^ width * (buffer % 2 ^ (32 - width)) := by
    rw [mul_comm, ← mul_mod_mul_left, ← pow_add, Nat.add_sub_cancel' hwidth]
  rw [shiftLeft_eq, hmul, ← two_pow_add_eq_or_of_lt hd]

/-- The low bits of a buffer after the next digit. -/
theorem push_mod {buffer width d bits : ℕ} (hd : d < 2 ^ width) (hbits : bits + width ≤ 32) :
    (buffer <<< width % 2 ^ 32 ||| d) % 2 ^ (bits + width) =
      buffer % 2 ^ bits * 2 ^ width + d := by
  rw [push_eq hd (by omega), add_mod, mod_mod_of_dvd _ (pow_dvd_pow 2 hbits), pow_add,
    mul_mod_mul_right]
  have hlow : buffer % 2 ^ bits * 2 ^ width + d < 2 ^ bits * 2 ^ width := by
    have hlt : buffer % 2 ^ bits < 2 ^ bits := mod_lt _ (Nat.two_pow_pos _)
    calc buffer % 2 ^ bits * 2 ^ width + d < buffer % 2 ^ bits * 2 ^ width + 2 ^ width := by omega
      _ = (buffer % 2 ^ bits + 1) * 2 ^ width := by ring
      _ ≤ 2 ^ bits * 2 ^ width := mul_le_mul_right _ hlt
  have hd' : d < 2 ^ bits * 2 ^ width := lt_of_le_of_lt (le_add_left _ _) hlow
  rw [mod_eq_of_lt hd', mod_eq_of_lt hlow]

theorem drain_spec (buffer bits : ℕ) :
    (drain buffer bits).2 = bits % 5 ∧ (drain buffer bits).1.length = bits / 5 ∧
      (∀ n ∈ (drain buffer bits).1, n < 32) ∧
      number 32 (drain buffer bits).1 * 2 ^ (bits % 5) + buffer % 2 ^ (bits % 5) =
        buffer % 2 ^ bits := by
  fun_induction drain buffer bits with
  | case1 bits out left hdrain ih =>
    rw [hdrain] at ih
    obtain ⟨hleft, hlength, hlt, hnumber⟩ := ih
    have hmod : (bits + 5) % 5 = bits % 5 := add_mod_right _ _
    refine ⟨by rw [hmod]; exact hleft, ?_, ?_, ?_⟩
    · rw [length_cons, hlength]
      omega
    · intro n hn
      rcases mem_cons.1 hn with rfl | hn
      · rw [and_31]
        omega
      · exact hlt n hn
    · have hpow : 32 ^ (bits / 5) * 2 ^ (bits % 5) = 2 ^ bits := by
        rw [show (32 : ℕ) = 2 ^ 5 from rfl, ← pow_mul, ← pow_add, div_add_mod]
      have hhigh : buffer % 2 ^ (bits + 5) =
          buffer % 2 ^ bits + 2 ^ bits * (buffer >>> bits % 32) := by
        rw [pow_add, shiftRight_eq_div_pow]
        exact mod_mul
      rw [hmod, number_cons, hlength, and_31, hhigh, ← hnumber, ← hpow]
      ring
  | case2 bits hbits =>
    have hlt : bits < 5 := by
      by_contra hge
      exact hbits (bits - 5) (by omega)
    rw [mod_eq_of_lt hlt]
    refine ⟨rfl, (div_eq_of_lt hlt).symm, forall_mem_nil _, ?_⟩
    rw [number_nil, zero_mul, zero_add]

/-- How many bits fill up the last of the encoder's letters. -/
def pad (bits : ℕ) : ℕ := (5 - bits % 5) % 5

theorem quintets_spec (bs : List UInt8) (buffer : ℕ) {bits : ℕ} (hbits : bits < 5) :
    (quintets bs buffer bits).length = (bits + 8 * bs.length + 4) / 5 ∧
      (∀ n ∈ quintets bs buffer bits, n < 32) ∧
      number 32 (quintets bs buffer bits) =
        (buffer % 2 ^ bits * 256 ^ bs.length + number 256 (bs.map UInt8.toNat)) *
          2 ^ pad (bits + 8 * bs.length) := by
  induction bs generalizing buffer bits with
  | nil =>
    rw [quintets]
    by_cases hpos : bits > 0
    · rw [if_pos hpos]
      have hpad : pad (bits + 8 * 0) = 5 - bits := by
        unfold pad
        omega
      refine ⟨?_, ?_, ?_⟩
      · rw [length_singleton, length_nil]
        omega
      · intro n hn
        rw [mem_singleton.1 hn, and_31]
        omega
      · rw [length_nil, map_nil, hpad, number_cons, number_nil, and_31,
          shiftLeft_eq]
        have hpow : 2 ^ bits * 2 ^ (5 - bits) = 32 := by
          rw [← pow_add, Nat.add_sub_cancel' hbits.le]
          rfl
        rw [← hpow, mul_mod_mul_right]
        simp [number_nil]
    · rw [if_neg hpos]
      obtain rfl : bits = 0 := by omega
      refine ⟨rfl, forall_mem_nil _, ?_⟩
      simp [number_nil, mod_one]
  | cons b bs ih =>
    have hpush : (buffer <<< 8 % 2 ^ 32 ||| b.toNat) % 2 ^ (bits + 8) =
        buffer % 2 ^ bits * 2 ^ 8 + b.toNat := push_mod b.toNat_lt (by omega)
    rw [quintets, length_cons]
    generalize buffer <<< 8 % 2 ^ 32 ||| b.toNat = next at hpush ⊢
    have hdrain := drain_spec next (bits + 8)
    generalize drain next (bits + 8) = drained at hdrain ⊢
    obtain ⟨out, left⟩ := drained
    obtain ⟨hleft, hlength, hlt, hnumber⟩ := hdrain
    simp only at hleft hlength hlt hnumber ⊢
    rw [hpush, ← hleft] at hnumber
    obtain ⟨hlengthRest, hltRest, hnumberRest⟩ := ih next (show left < 5 by omega)
    have hpad : pad (left + 8 * bs.length) = pad (bits + 8 * (bs.length + 1)) := by
      unfold pad
      omega
    have hpow : 32 ^ (quintets bs next left).length =
        2 ^ left * 256 ^ bs.length * 2 ^ pad (left + 8 * bs.length) := by
      rw [show 32 ^ (quintets bs next left).length = (2 ^ 5) ^ (quintets bs next left).length from rfl,
        show 256 ^ bs.length = (2 ^ 8) ^ bs.length from rfl, ← pow_mul, ← pow_mul, ← pow_add,
        ← pow_add, hlengthRest]
      congr 1
      unfold pad
      omega
    refine ⟨?_, ?_, ?_⟩
    · rw [length_append, hlength, hlengthRest]
      omega
    · intro n hn
      rcases mem_append.1 hn with hn | hn
      · exact hlt n hn
      · exact hltRest n hn
    · rw [number_append, hpow, hnumberRest, ← hpad, map_cons, number_cons, length_map]
      calc number 32 out * (2 ^ left * 256 ^ bs.length * 2 ^ pad (left + 8 * bs.length)) +
            (next % 2 ^ left * 256 ^ bs.length + number 256 (bs.map UInt8.toNat)) *
              2 ^ pad (left + 8 * bs.length)
          = ((number 32 out * 2 ^ left + next % 2 ^ left) * 256 ^ bs.length +
              number 256 (bs.map UInt8.toNat)) * 2 ^ pad (left + 8 * bs.length) := by ring
        _ = (buffer % 2 ^ bits * 256 ^ (bs.length + 1) +
              (b.toNat * 256 ^ bs.length + number 256 (bs.map UInt8.toNat))) *
                2 ^ pad (left + 8 * bs.length) := by
            rw [hnumber]
            ring

theorem octets_spec (indices : List ℕ) (buffer : ℕ) {bits : ℕ} (hbits : bits < 8)
    (hlt : ∀ n ∈ indices, n < 32) :
    (octets indices buffer bits).length = (bits + 5 * indices.length) / 8 ∧
      (∀ n ∈ octets indices buffer bits, n < 256) ∧
      number 256 (octets indices buffer bits) =
        (buffer % 2 ^ bits * 32 ^ indices.length + number 32 indices) /
          2 ^ ((bits + 5 * indices.length) % 8) := by
  induction indices generalizing buffer bits with
  | nil =>
    rw [octets, length_nil]
    refine ⟨(div_eq_of_lt hbits).symm, forall_mem_nil _, ?_⟩
    rw [number_nil, number_nil, mul_zero, add_zero, add_zero, mod_eq_of_lt hbits,
      pow_zero, mul_one]
    exact (div_eq_of_lt (mod_lt _ (Nat.two_pow_pos _))).symm
  | cons index indices ih =>
    have hindex : index < 2 ^ 5 := hlt index mem_cons_self
    have hrest : ∀ n ∈ indices, n < 32 := fun n hn => hlt n (mem_cons_of_mem _ hn)
    have hpush : (buffer <<< 5 % 2 ^ 32 ||| index) % 2 ^ (bits + 5) =
        buffer % 2 ^ bits * 2 ^ 5 + index := push_mod hindex (by omega)
    rw [octets, length_cons]
    generalize buffer <<< 5 % 2 ^ 32 ||| index = next at hpush ⊢
    by_cases hfull : bits + 5 ≥ 8
    · obtain ⟨k, rfl⟩ : ∃ k, bits = k + 3 := ⟨bits - 3, by omega⟩
      rw [if_pos hfull, show k + 3 + 5 - 8 = k by omega, and_255, shiftRight_eq_div_pow]
      obtain ⟨hlength, hoctets, hnumber⟩ := ih next (show k < 8 by omega) hrest
      have hrem : (k + 3 + 5 * (indices.length + 1)) % 8 = (k + 5 * indices.length) % 8 := by omega
      have hsplit : next % 2 ^ (k + 3 + 5) = next / 2 ^ k % 256 * 2 ^ k + next % 2 ^ k := by
        rw [show k + 3 + 5 = k + 8 from rfl, pow_add, mod_mul, add_comm, mul_comm (2 ^ k)]
        rfl
      have hpow : 2 ^ k * 32 ^ indices.length =
          256 ^ (octets indices next k).length * 2 ^ ((k + 5 * indices.length) % 8) := by
        rw [hlength, show 32 ^ indices.length = (2 ^ 5) ^ indices.length from rfl,
          show 256 ^ ((k + 5 * indices.length) / 8) = (2 ^ 8) ^ ((k + 5 * indices.length) / 8)
            from rfl, ← pow_mul, ← pow_mul, ← pow_add, ← pow_add]
        congr 1
        omega
      refine ⟨?_, ?_, ?_⟩
      · rw [length_cons, hlength]
        omega
      · intro n hn
        rcases mem_cons.1 hn with rfl | hn
        · exact mod_lt _ (by decide)
        · exact hoctets n hn
      · have hwhole : buffer % 2 ^ (k + 3) * 32 ^ (indices.length + 1) +
            (index * 32 ^ indices.length + number 32 indices) =
            next % 2 ^ k * 32 ^ indices.length + number 32 indices +
              next / 2 ^ k % 256 * 256 ^ (octets indices next k).length *
                2 ^ ((k + 5 * indices.length) % 8) := by
          calc buffer % 2 ^ (k + 3) * 32 ^ (indices.length + 1) +
                (index * 32 ^ indices.length + number 32 indices)
              = (buffer % 2 ^ (k + 3) * 2 ^ 5 + index) * 32 ^ indices.length +
                  number 32 indices := by ring
            _ = next % 2 ^ k * 32 ^ indices.length + number 32 indices +
                  next / 2 ^ k % 256 * (2 ^ k * 32 ^ indices.length) := by
                rw [← hpush, hsplit]
                ring
            _ = _ := by
                rw [hpow]
                ring
        rw [number_cons, number_cons, hnumber, hrem, hwhole,
          add_mul_div_right _ _ (Nat.two_pow_pos _), add_comm]
    · rw [if_neg hfull]
      obtain ⟨hlength, hoctets, hnumber⟩ := ih next (show bits + 5 < 8 by omega) hrest
      refine ⟨?_, hoctets, ?_⟩
      · rw [hlength]
        omega
      · rw [hnumber, hpush, number_cons, pow_succ]
        congr 1
        · ring
        · congr 1
          omega

/-! ## What is encoded is decoded -/

/-- Digits are what the number of as many says. -/
theorem number_inj {base : ℕ} (hbase : 1 < base) {ds ds' : List ℕ} (hlength : ds.length = ds'.length)
    (hds : ∀ d ∈ ds, d < base) (hds' : ∀ d ∈ ds', d < base) (h : number base ds = number base ds') :
    ds = ds' := by
  refine reverse_injective (ofDigits_inj_of_len_eq hbase ?_ ?_ ?_ h)
  · rw [length_reverse, length_reverse, hlength]
  · exact fun d hd => hds d (mem_reverse.1 hd)
  · exact fun d hd => hds' d (mem_reverse.1 hd)

theorem octets_quintets (bs : List UInt8) : octets (quintets bs 0 0) 0 0 = bs.map UInt8.toNat := by
  obtain ⟨hlength, hlt, hnumber⟩ := quintets_spec bs 0 (show 0 < 5 by decide)
  obtain ⟨hlength', hlt', hnumber'⟩ := octets_spec (quintets bs 0 0) 0 (show 0 < 8 by decide) hlt
  rw [zero_mod, zero_mul, zero_add, zero_add] at hnumber hnumber'
  rw [zero_add] at hlength hlength'
  have hwhole : 5 * (quintets bs 0 0).length = 8 * bs.length + pad (8 * bs.length) := by
    unfold pad
    omega
  have hpad : 5 * (quintets bs 0 0).length % 8 = pad (8 * bs.length) := by omega
  refine number_inj (by decide) ?_ hlt' ?_ ?_
  · rw [hlength', length_map]
    omega
  · intro d hd
    obtain ⟨b, -, rfl⟩ := mem_map.1 hd
    exact b.toNat_lt
  · rw [hnumber', hnumber, hpad, Nat.mul_div_cancel _ (Nat.two_pow_pos _)]

theorem base32Index_getD {n : ℕ} (h : n < 32) : base32Index (base32AlphabetChars.getD n 0) = some n := by
  interval_cases n <;> rfl

theorem mapM_base32Index {ns : List ℕ} (h : ∀ n ∈ ns, n < 32) :
    (ns.map fun n => base32AlphabetChars.getD n 0).mapM base32Index = some ns := by
  induction ns with
  | nil => rfl
  | cons n ns ih =>
    rw [map_cons, mapM_cons, base32Index_getD (h n mem_cons_self),
      ih fun m hm => h m (mem_cons_of_mem _ hm)]
    rfl

/-- What stands in the alphabet is neither a separator nor padding. -/
theorem base32_plain : ∀ u ∈ base32AlphabetChars, isTrimmed u = false ∧ u ≠ hyphen ∧ u ≠ equals := by
  have hall : (base32AlphabetChars.all fun u => !isTrimmed u && u != hyphen && u != equals) = true := by
    decide
  intro u hu
  have hplain := all_eq_true.1 hall u hu
  simp only [Bool.and_eq_true, Bool.not_eq_true', bne_iff_ne] at hplain
  exact ⟨hplain.1.1, hplain.1.2, hplain.2⟩

theorem encodeBase32_mem (bytes : Bytes) : ∀ u ∈ encodeBase32 bytes, u ∈ base32AlphabetChars := by
  intro u hu
  obtain ⟨n, hn, rfl⟩ := mem_map.1 hu
  have hlt := (quintets_spec bytes 0 (show 0 < 5 by decide)).2.1 n hn
  have hget : base32AlphabetChars.getD n 0 = base32AlphabetChars.get ⟨n, hlt⟩ := by
    rw [getD_eq_getElem?_getD, getElem?_eq_getElem hlt, Option.getD_some]
    rfl
  rw [hget]
  exact get_mem _ _

variable {toUpperCase : Utf16 → Utf16} {bytes : Bytes}

theorem normaliseBase32_encode (hupper : toUpperCase (encodeBase32 bytes) = encodeBase32 bytes) :
    normaliseBase32 toUpperCase (encodeBase32 bytes) = encodeBase32 bytes := by
  have hmem := encodeBase32_mem bytes
  have hfilter : (encodeBase32 bytes).filter (fun u => !(isTrimmed u || u = hyphen)) =
      encodeBase32 bytes := by
    rw [filter_eq_self]
    intro u hu
    obtain ⟨htrimmed, hhyphen, -⟩ := base32_plain u (hmem u hu)
    simp [htrimmed, hhyphen]
  have hdrop : dropTrailing (· = equals) (encodeBase32 bytes) = encodeBase32 bytes := by
    unfold dropTrailing
    cases hlast : (encodeBase32 bytes).reverse with
    | nil => exact (reverse_eq_nil_iff.1 hlast).symm
    | cons u us =>
      have hu := hmem u (mem_reverse.1 (hlast ▸ mem_cons_self))
      rw [dropWhile_cons_of_neg, ← hlast, reverse_reverse]
      simpa using (base32_plain u hu).2.2
  unfold normaliseBase32
  rw [hfilter, hdrop, hupper]

theorem decodeBase32_encode (hupper : toUpperCase (encodeBase32 bytes) = encodeBase32 bytes) :
    decodeBase32 toUpperCase (encodeBase32 bytes) = some bytes := by
  unfold decodeBase32
  rw [normaliseBase32_encode hupper, encodeBase32,
    mapM_base32Index (quintets_spec bytes 0 (show 0 < 5 by decide)).2.1]
  show some ((octets (quintets bytes 0 0) 0 0).map UInt8.ofNat) = _
  rw [octets_quintets, map_map]
  congr 1
  exact (map_congr_left fun b _ => UInt8.ofNat_toNat).trans (map_id _)

theorem isDecodableBase32_encode (h : bytes ≠ []) :
    isDecodableBase32 (encodeBase32 bytes) = true := by
  have hpos := length_pos_of_ne_nil h
  have hlength : (encodeBase32 bytes).length = (8 * bytes.length + 4) / 5 := by
    rw [encodeBase32, length_map, (quintets_spec bytes 0 (show 0 < 5 by decide)).1,
      zero_add]
  unfold isDecodableBase32
  rw [decide_eq_true_eq]
  refine ⟨by omega, ?_, ?_⟩
  · rw [all_eq_true]
    exact fun u hu => contains_iff_mem.2 (encodeBase32_mem bytes u hu)
  · have hcases : (encodeBase32 bytes).length % 8 = 0 ∨ (encodeBase32 bytes).length % 8 = 2 ∨
        (encodeBase32 bytes).length % 8 = 4 ∨ (encodeBase32 bytes).length % 8 = 5 ∨
        (encodeBase32 bytes).length % 8 = 7 := by omega
    rcases hcases with h | h | h | h | h <;> rw [h] <;> rfl

/-! ## What is decoded is encoded -/

/-- The bits of the last letter that no byte takes. -/
def unusedBits (normalised : Utf16) : ℕ :=
  base32AlphabetChars.idxOf (normalised.getLast?.getD 0) % 2 ^ (5 * normalised.length % 8)

theorem base32_getD_inj {n m : ℕ} (hn : n < 32) (hm : m < 32)
    (h : base32AlphabetChars.getD n 0 = base32AlphabetChars.getD m 0) : n = m := by
  have hindex := base32Index_getD hn
  rw [h, base32Index_getD hm] at hindex
  exact (Option.some.inj hindex).symm

variable {normalised : Utf16}

theorem isDecodableBase32_spec (h : isDecodableBase32 normalised = true) :
    normalised ≠ [] ∧ (∀ u ∈ normalised, u ∈ base32AlphabetChars) ∧
      (normalised.length % 8 = 0 ∨ normalised.length % 8 = 2 ∨ normalised.length % 8 = 4 ∨
        normalised.length % 8 = 5 ∨ normalised.length % 8 = 7) := by
  unfold isDecodableBase32 at h
  rw [decide_eq_true_eq] at h
  obtain ⟨hlength, hall, hresidue⟩ := h
  refine ⟨fun hnil => hlength (by rw [hnil]; rfl), fun u hu => ?_, ?_⟩
  · exact contains_iff_mem.1 (all_eq_true.1 hall u hu)
  · simpa using hresidue

/-- The places of letters in the alphabet. -/
theorem mapM_base32Index_of_mem (h : ∀ u ∈ normalised, u ∈ base32AlphabetChars) :
    normalised.mapM base32Index = some (normalised.map base32AlphabetChars.idxOf) ∧
      (∀ n ∈ normalised.map base32AlphabetChars.idxOf, n < 32) ∧
      (normalised.map base32AlphabetChars.idxOf).map (fun n => base32AlphabetChars.getD n 0) =
        normalised := by
  have hget : ∀ u ∈ base32AlphabetChars,
      base32AlphabetChars.getD (base32AlphabetChars.idxOf u) 0 = u := by
    intro u hu
    rw [getD_eq_getElem?_getD, getElem?_eq_getElem (idxOf_lt_length_of_mem hu),
      Option.getD_some, getElem_idxOf]
  refine ⟨?_, fun n hn => ?_, ?_⟩
  · induction normalised with
    | nil => rfl
    | cons u us ih =>
      have hu : base32Index u = some (base32AlphabetChars.idxOf u) := if_pos (h u mem_cons_self)
      rw [mapM_cons, hu, ih fun v hv => h v (mem_cons_of_mem _ hv)]
      rfl
  · obtain ⟨u, hu, rfl⟩ := mem_map.1 hn
    exact idxOf_lt_length_of_mem (h u hu)
  · rw [map_map]
    exact (map_congr_left fun u hu => hget u (h u hu)).trans (map_id _)

/-- The letters come back where the bits behind the last byte are zero. -/
theorem encodeBase32_octets {ns : List ℕ} (hlt : ∀ n ∈ ns, n < 32)
    (hresidue : ns.length % 8 = 0 ∨ ns.length % 8 = 2 ∨ ns.length % 8 = 4 ∨ ns.length % 8 = 5 ∨
      ns.length % 8 = 7) :
    encodeBase32 ((octets ns 0 0).map UInt8.ofNat) = ns.map (fun n => base32AlphabetChars.getD n 0) ↔
      number 32 ns % 2 ^ (5 * ns.length % 8) = 0 := by
  obtain ⟨hlength, hoctets, hnumber⟩ := octets_spec ns 0 (show 0 < 8 by decide) hlt
  have hbytes : ((octets ns 0 0).map UInt8.ofNat).map UInt8.toNat = octets ns 0 0 := by
    rw [map_map]
    exact (map_congr_left fun n hn => UInt8.toNat_ofNat_of_lt' (hoctets n hn)).trans
      (map_id _)
  obtain ⟨hquintets, hplaces, hvalue⟩ :=
    quintets_spec ((octets ns 0 0).map UInt8.ofNat) 0 (show 0 < 5 by decide)
  rw [hbytes, length_map, zero_mod, zero_mul, zero_add, zero_add] at hvalue
  rw [length_map, zero_add] at hquintets
  rw [zero_mod, zero_mul, zero_add, zero_add] at hnumber
  rw [zero_add] at hlength
  have hpad : pad (8 * (octets ns 0 0).length) = 5 * ns.length % 8 := by
    unfold pad
    omega
  have hsame : (quintets ((octets ns 0 0).map UInt8.ofNat) 0 0).length = ns.length := by
    omega
  rw [hnumber, hpad] at hvalue
  have hdiv := div_add_mod' (number 32 ns) (2 ^ (5 * ns.length % 8))
  unfold encodeBase32
  constructor
  · intro hmap
    have heq : quintets ((octets ns 0 0).map UInt8.ofNat) 0 0 = ns := by
      refine ext_getElem hsame fun i hi hi' => ?_
      have hget := congrArg (fun l : Utf16 => l[i]?) hmap
      simp only [getElem?_map, getElem?_eq_getElem hi, getElem?_eq_getElem hi',
        Option.map_some, Option.some.injEq] at hget
      exact base32_getD_inj (hplaces _ (getElem_mem hi)) (hlt _ (getElem_mem hi')) hget
    rw [heq] at hvalue
    omega
  · intro hzero
    rw [hzero, add_zero] at hdiv
    rw [number_inj (by decide) hsame hplaces hlt (hvalue.trans hdiv)]

/-- The bits that no byte takes are all in the last letter. -/
theorem number_mod_eq (hne : normalised ≠ []) {t : ℕ} (ht : t ≤ 5) :
    number 32 (normalised.map base32AlphabetChars.idxOf) % 2 ^ t =
      base32AlphabetChars.idxOf (normalised.getLast?.getD 0) % 2 ^ t := by
  obtain ⟨init, last, rfl⟩ := eq_nil_or_concat normalised |>.resolve_left hne
  rw [concat_eq_append, map_append, map_singleton, number_append,
    getLast?_concat, length_singleton, pow_one, Option.getD_some, number_cons, number_nil,
    add_zero, length_nil, pow_zero, mul_one]
  have hdvd : 2 ^ t ∣ number 32 (init.map base32AlphabetChars.idxOf) * 32 :=
    Dvd.dvd.mul_left (pow_dvd_pow 2 ht) _
  rw [add_mod, mod_eq_zero_of_dvd hdvd, zero_add, mod_mod]

theorem encodeBase32_decode {value : Utf16}
    (h : isDecodableBase32 (normaliseBase32 toUpperCase value) = true) :
    ∃ bytes, decodeBase32 toUpperCase value = some bytes ∧
      (encodeBase32 bytes = normaliseBase32 toUpperCase value ↔
        unusedBits (normaliseBase32 toUpperCase value) = 0) := by
  unfold decodeBase32
  generalize normaliseBase32 toUpperCase value = normalised at h ⊢
  obtain ⟨hne, hmem, hresidue⟩ := isDecodableBase32_spec h
  obtain ⟨hindices, hlt, hletters⟩ := mapM_base32Index_of_mem hmem
  have hencode := encodeBase32_octets hlt (by rwa [length_map])
  rw [hletters, length_map, number_mod_eq hne (by omega)] at hencode
  rw [hindices]
  exact ⟨_, rfl, hencode⟩

end HVault.Otpauth
