import HVault.Totp.MigrationReader

/-!
# The bytes of an export
-/

namespace HVault.Totp

open Json Backup DocumentCrypto Archive ProtoWire List Nat Except

/-! ## Code that moves a cursor -/

section Runs

variable {α β : Type} {c c' : Cursor}

theorem bind_eq_ok {x : Reader α} {f : α → Reader β} {r : β × Cursor} :
    (x >>= f) c = .ok r ↔ ∃ a c', x c = .ok (a, c') ∧ f a c' = .ok r := by
  show (x c >>= fun a => f a.1 a.2) = .ok r ↔ _
  cases x c with
  | error e =>
    constructor
    · intro h
      cases h
    · rintro ⟨a, c', h, -⟩
      cases h
  | ok a =>
    constructor
    · intro h
      exact ⟨a.1, a.2, rfl, h⟩
    · rintro ⟨a', c', h, hf⟩
      cases h
      exact hf

theorem pure_eq_ok {a b : α} : (pure a : Reader α) c = .ok (b, c') ↔ a = b ∧ c = c' := by
  show ok (a, c) = ok (b, c') ↔ _
  rw [ok.injEq, Prod.mk.injEq]

theorem not_throw_eq_ok {e : Thrown} {r : α × Cursor} : ¬(throw e : Reader α) c = .ok r := by
  intro h
  cases h

/-- A check that throws, and what comes after it. -/
theorem check_eq_ok {p : Prop} [Decidable p] {e : Thrown} {x : Reader α} {r : α × Cursor} :
    (do
      if p then throw e
      x : Reader α) c = .ok r ↔ ¬p ∧ x c = .ok r := by
  by_cases hp : p
  · rw [if_pos hp]
    constructor
    · intro h
      cases h
    · exact fun h => absurd hp h.1
  · rw [if_neg hp]
    exact ⟨fun h => ⟨hp, h⟩, fun h => h.2⟩

theorem byte_eq_ok {n : ℕ} : byte c = .ok (n, c') ↔ ∃ b : UInt8, c = b :: c' ∧ n = b.toNat := by
  cases c with
  | nil =>
    constructor
    · intro h
      cases h
    · rintro ⟨b, h, -⟩
      cases h
  | cons b rest =>
    rw [byte, ok.injEq, Prod.mk.injEq]
    constructor
    · rintro ⟨rfl, rfl⟩
      exact ⟨b, rfl, rfl⟩
    · rintro ⟨b', h, rfl⟩
      obtain ⟨rfl, rfl⟩ := cons.inj h
      exact ⟨rfl, rfl⟩

theorem slice_eq_ok {n : ℕ} {bs : Bytes} :
    slice n c = .ok (bs, c') ↔ c = bs ++ c' ∧ bs.length = n := by
  unfold slice
  by_cases h : n > c.length
  · rw [if_pos h]
    constructor
    · intro h
      cases h
    · rintro ⟨rfl, rfl⟩
      rw [length_append] at h
      omega
  · rw [if_neg h, ok.injEq, Prod.mk.injEq]
    constructor
    · rintro ⟨rfl, rfl⟩
      exact ⟨(take_append_drop n c).symm, length_take_of_le (by omega)⟩
    · rintro ⟨rfl, rfl⟩
      exact ⟨take_left, drop_left⟩

end Runs

/-! ## Numbers -/

theorem and_low7 (n : ℕ) : n &&& 0x7F = n % 128 := and_two_pow_sub_one_eq_mod n 7

theorem and_high_eq_zero {b : UInt8} : b.toNat &&& 0x80 = 0 ↔ b.toNat < 128 := by
  have hall : ∀ n : Fin 256, n.val &&& 0x80 = 0 ↔ n.val < 128 := by decide +kernel
  exact hall ⟨b.toNat, b.toNat_lt⟩

variable {n : ℕ}

theorem or_shiftLeft {value shift : ℕ} (h : value < 2 ^ shift) :
    value ||| n <<< shift = value + 2 ^ shift * n := by
  rw [shiftLeft_eq, Nat.or_comm, mul_comm, ← two_pow_add_eq_or_of_lt h, add_comm]

variable {c c' : Cursor}

/-- What is read from where a varint's reading stands. -/
theorem spelledFrom_eq_ok {left value shift w : ℕ} (hvalue : value < 2 ^ shift)
    (hshift : shift + 7 * left = 63) :
    spelledFrom left value shift c = .ok ((n, w), c') ↔
      ∃ m bs, c = bs ++ c' ∧ Spells m bs ∧ bs.length ≤ left + 1 ∧ m < 2 ^ (64 - shift) ∧
        n = value + 2 ^ shift * m ∧ w = bs.length + (9 - left) := by
  induction left generalizing value shift n w c with
  | zero =>
    obtain rfl : shift = 63 := by omega
    rw [spelledFrom, bind_eq_ok]
    constructor
    · rintro ⟨b, c₁, hbyte, h⟩
      obtain ⟨b, rfl, rfl⟩ := byte_eq_ok.1 hbyte
      obtain ⟨hlast, h⟩ := check_eq_ok.1 h
      obtain ⟨hout, rfl⟩ := pure_eq_ok.1 h
      obtain ⟨rfl, rfl⟩ := Prod.mk.inj hout
      have hle : b.toNat ≤ 1 := Nat.le_of_not_lt hlast
      refine ⟨b.toNat, [b], rfl, .last (by omega), le_rfl, by omega, or_shiftLeft hvalue, rfl⟩
    · rintro ⟨m, bs, rfl, hspells, hlength, hm, rfl, rfl⟩
      cases hspells with
      | @last b hb =>
        have hle : ¬b.toNat > maxFinalVarintByte := by
          show ¬b.toNat > 1
          omega
        refine ⟨b.toNat, c', rfl, check_eq_ok.2 ⟨hle, pure_eq_ok.2 ⟨?_, rfl⟩⟩⟩
        rw [or_shiftLeft hvalue]
        rfl
      | more hb hrest =>
        have hpos := hrest.length_pos
        rw [length_cons] at hlength
        omega
  | succ left ih =>
    have hnext (b : UInt8) : value ||| (b.toNat % 128) <<< shift < 2 ^ (shift + 7) := by
      rw [or_shiftLeft hvalue, pow_add]
      have hlow : b.toNat % 128 ≤ 127 := by omega
      have hmul := mul_le_mul_left (2 ^ shift) hlow
      omega
    have hbits : 2 ^ (64 - shift) = 2 ^ (64 - (shift + 7)) * 128 := by
      rw [← Nat.pow_add 2 _ 7]
      congr 1
      omega
    rw [spelledFrom, bind_eq_ok]
    constructor
    · rintro ⟨b, c₁, hbyte, h⟩
      obtain ⟨b, rfl, rfl⟩ := byte_eq_ok.1 hbyte
      simp only [and_low7, and_high_eq_zero] at h
      by_cases hb : b.toNat < 128
      · rw [if_pos hb] at h
        obtain ⟨hout, rfl⟩ := pure_eq_ok.1 h
        obtain ⟨rfl, rfl⟩ := Prod.mk.inj hout
        refine ⟨b.toNat, [b], rfl, .last hb, by simp, ?_, ?_, ?_⟩
        · have hpos : 0 < 2 ^ (64 - (shift + 7)) := Nat.two_pow_pos _
          omega
        · rw [or_shiftLeft hvalue, mod_eq_of_lt hb]
        · rw [length_singleton, maxVarintBytes]
          omega
      · rw [if_neg hb] at h
        obtain ⟨m, bs, rfl, hspells, hlength, hm, rfl, rfl⟩ :=
          (ih (hnext b) (by omega)).1 h
        refine ⟨b.toNat - 128 + 128 * m, b :: bs, rfl, .more (by omega) hspells, ?_, ?_, ?_, ?_⟩
        · rw [length_cons]
          omega
        · have hlt := b.toNat_lt
          omega
        · rw [or_shiftLeft hvalue, pow_add]
          have hlow : b.toNat % 128 = b.toNat - 128 := by
            have hlt := b.toNat_lt
            omega
          rw [hlow]
          ring
        · rw [length_cons]
          omega
    · rintro ⟨m, bs, rfl, hspells, hlength, hm, rfl, rfl⟩
      cases hspells with
      | @last b hb =>
        refine ⟨b.toNat, c', rfl, ?_⟩
        simp only [and_low7, and_high_eq_zero]
        rw [if_pos hb, or_shiftLeft hvalue, mod_eq_of_lt hb]
        refine pure_eq_ok.2 ⟨?_, rfl⟩
        rw [length_singleton, maxVarintBytes]
        congr 1
        omega
      | @more b m bs hb hrest =>
        refine ⟨b.toNat, bs ++ c', rfl, ?_⟩
        simp only [and_low7, and_high_eq_zero]
        have hlow : b.toNat % 128 = b.toNat - 128 := by
          have hlt := b.toNat_lt
          omega
        rw [if_neg (by omega), ih (hnext b) (by omega), or_shiftLeft hvalue, hlow]
        refine ⟨m, bs, rfl, hrest, ?_, ?_, ?_, ?_⟩
        · rw [length_cons] at hlength
          omega
        · omega
        · rw [pow_add]
          ring
        · rw [length_cons]
          omega

theorem spelledVarint_eq_ok {w : ℕ} :
    spelledVarint c = .ok ((n, w), c') ↔ ∃ bs, c = bs ++ c' ∧ Varint n bs ∧ w = bs.length := by
  unfold spelledVarint
  rw [spelledFrom_eq_ok one_pos rfl]
  constructor
  · rintro ⟨m, bs, rfl, hspells, hlength, hm, rfl, rfl⟩
    rw [pow_zero, one_mul, zero_add]
    exact ⟨bs, rfl, ⟨hspells, hlength, hm⟩, rfl⟩
  · rintro ⟨bs, rfl, hvarint, rfl⟩
    refine ⟨n, bs, rfl, hvarint.spells, hvarint.width, hvarint.bound, ?_, rfl⟩
    rw [pow_zero, one_mul, zero_add]

theorem varint_eq_ok : varint c = .ok (n, c') ↔ ∃ bs, c = bs ++ c' ∧ Varint n bs := by
  unfold varint
  rw [bind_eq_ok]
  constructor
  · rintro ⟨⟨n', w⟩, c₁, hspelled, h⟩
    obtain ⟨rfl, rfl⟩ := pure_eq_ok.1 h
    obtain ⟨bs, rfl, hvarint, -⟩ := spelledVarint_eq_ok.1 hspelled
    exact ⟨bs, rfl, hvarint⟩
  · rintro ⟨bs, rfl, hvarint⟩
    exact ⟨(n, bs.length), c', spelledVarint_eq_ok.2 ⟨bs, rfl, hvarint, rfl⟩, rfl⟩

theorem uint32_eq_ok : uint32 c = .ok (n, c') ↔ ∃ bs, c = bs ++ c' ∧ Uint32 n bs := by
  unfold uint32
  rw [bind_eq_ok]
  constructor
  · rintro ⟨⟨n', w⟩, c₁, hspelled, h⟩
    obtain ⟨hbound, h⟩ := check_eq_ok.1 h
    obtain ⟨rfl, rfl⟩ := pure_eq_ok.1 h
    obtain ⟨bs, rfl, hvarint, rfl⟩ := spelledVarint_eq_ok.1 hspelled
    have hwidth : ¬bs.length > 5 := fun hw => hbound (.inl hw)
    have hmax : ¬n' > 2 ^ 32 - 1 := fun hn => hbound (.inr hn)
    exact ⟨bs, rfl, ⟨hvarint.spells, by omega, by omega⟩⟩
  · rintro ⟨bs, rfl, huint⟩
    have hwidth := huint.width
    have hbound := huint.bound
    refine ⟨(n, bs.length), c', spelledVarint_eq_ok.2
      ⟨bs, rfl, ⟨huint.spells, by omega, by omega⟩, rfl⟩, check_eq_ok.2 ⟨?_, rfl⟩⟩
    rintro (hw | hn)
    · exact absurd hwidth (not_le.2 hw)
    · have hmax : n > 2 ^ 32 - 1 := hn
      omega

/-- The number that an `int32` field's varint is read as, when its spelling is one of the two. -/
def int32Of (value width : ℕ) : Option ℤ :=
  if value ≤ maxInt32 ∧ width ≤ maxUint32VarintBytes then some value
  else if value ≥ minSignExtendedInt32 then some (value - 2 ^ 64)
  else none

theorem asInt64_of_high (h : n ≥ minSignExtendedInt32) (hn : n < 2 ^ 64) :
    asInt64 n = n - 2 ^ 64 := by
  have hlow : n ≥ 2 ^ 64 - 2 ^ 31 := h
  unfold asInt64
  rw [mod_eq_of_lt hn, if_neg (by omega)]

theorem int32_eq_ok {z : ℤ} :
    int32 c = .ok (z, c') ↔ ∃ n bs, c = bs ++ c' ∧ Varint n bs ∧ int32Of n bs.length = some z := by
  unfold int32
  rw [bind_eq_ok]
  constructor
  · rintro ⟨⟨n, w⟩, c₁, hspelled, h⟩
    obtain ⟨bs, rfl, hvarint, rfl⟩ := spelledVarint_eq_ok.1 hspelled
    dsimp only at h
    unfold int32Of
    split_ifs at h with hsmall hlarge
    · obtain ⟨rfl, rfl⟩ := pure_eq_ok.1 h
      exact ⟨n, bs, rfl, hvarint, if_pos hsmall⟩
    · obtain ⟨rfl, rfl⟩ := pure_eq_ok.1 h
      refine ⟨n, bs, rfl, hvarint, ?_⟩
      rw [if_neg hsmall, if_pos hlarge, asInt64_of_high hlarge hvarint.bound]
    · exact absurd h not_throw_eq_ok
  · rintro ⟨n, bs, rfl, hvarint, hz⟩
    refine ⟨(n, bs.length), c', spelledVarint_eq_ok.2 ⟨bs, rfl, hvarint, rfl⟩, ?_⟩
    unfold int32Of at hz
    dsimp only
    split_ifs at hz ⊢ with hsmall hlarge
    · exact pure_eq_ok.2 ⟨Option.some.inj hz, rfl⟩
    · exact pure_eq_ok.2 ⟨(asInt64_of_high hlarge hvarint.bound).trans (Option.some.inj hz), rfl⟩

/-! ## Bodies -/

/-- What code reads of a field is what `decode` makes of its body. -/
structure Reads {α : Type} (x : Reader α) (wireType : ℕ) (decode : Body → Option α) : Prop where
  typed : ∀ body a, decode body = some a → body.wireType = wireType
  eq_ok : ∀ c a c', x c = .ok (a, c') ↔
    ∃ body bs, c = bs ++ c' ∧ body.Writes bs ∧ decode body = some a

def bytesOf : Body → Option Bytes
  | .bytes bs => some bs
  | _ => none

def natOf : Body → Option ℕ
  | .varint n _ => some n
  | _ => none

def intOf : Body → Option ℤ
  | .varint n width => int32Of n width
  | _ => none

variable {body : Body} {bs : Bytes}

theorem bytesOf_eq_some : bytesOf body = some bs ↔ body = .bytes bs := by
  cases body <;> simp [bytesOf]

theorem natOf_typed (h : natOf body = some n) : body.wireType = 0 := by
  cases body with
  | varint => rfl
  | _ => cases h

theorem intOf_typed {z : ℤ} (h : intOf body = some z) : body.wireType = 0 := by
  cases body with
  | varint => rfl
  | _ => cases h

theorem sized_reads : Reads sized 2 bytesOf := by
  refine ⟨fun body bs h => by rw [bytesOf_eq_some.1 h]; rfl, fun c bs c' => ?_⟩
  unfold sized
  rw [bind_eq_ok]
  constructor
  · rintro ⟨n, c₁, hlength, h⟩
    obtain ⟨size, rfl, hsize⟩ := uint32_eq_ok.1 hlength
    obtain ⟨rfl, rfl⟩ := slice_eq_ok.1 h
    exact ⟨.bytes bs, size ++ bs, (append_assoc _ _ _).symm, .bytes hsize, rfl⟩
  · rintro ⟨body, whole, rfl, hwrites, hbytes⟩
    obtain rfl := bytesOf_eq_some.1 hbytes
    cases hwrites with
    | @bytes _ size hsize =>
      rw [append_assoc]
      exact ⟨_, _, uint32_eq_ok.2 ⟨size, rfl, hsize⟩, slice_eq_ok.2 ⟨rfl, rfl⟩⟩

theorem varint_reads : Reads varint 0 natOf := by
  refine ⟨fun body n => natOf_typed, fun c n c' => ?_⟩
  rw [varint_eq_ok]
  constructor
  · rintro ⟨bs, rfl, hvarint⟩
    exact ⟨.varint n bs.length, bs, rfl, .varint hvarint, rfl⟩
  · rintro ⟨body, bs, rfl, hwrites, hn⟩
    cases hwrites with
    | varint hvarint =>
      cases hn
      exact ⟨bs, rfl, hvarint⟩
    | _ => cases hn

theorem int32_reads : Reads int32 0 intOf := by
  refine ⟨fun body z => intOf_typed, fun c z c' => ?_⟩
  rw [int32_eq_ok]
  constructor
  · rintro ⟨n, bs, rfl, hvarint, hz⟩
    exact ⟨.varint n bs.length, bs, rfl, .varint hvarint, hz⟩
  · rintro ⟨body, bs, rfl, hwrites, hz⟩
    cases hwrites with
    | varint hvarint => exact ⟨_, bs, rfl, hvarint, hz⟩
    | _ => cases hz

variable {α : Type} {wireType : ℕ} {decode : Body → Option α}

/-- Code that goes on with what was read. -/
theorem Reads.bind {β : Type} {x : Reader α} (hx : Reads x wireType decode) {f : α → Reader β}
    {g : α → Option β} (hf : ∀ a c b c', f a c = .ok (b, c') ↔ c = c' ∧ g a = some b) :
    Reads (x >>= f) wireType fun body => decode body >>= g := by
  refine ⟨fun body b h => ?_, fun c b c' => ?_⟩
  · obtain ⟨a, ha, -⟩ := Option.bind_eq_some_iff.1 h
    exact hx.typed body a ha
  rw [bind_eq_ok]
  constructor
  · rintro ⟨a, c₁, ha, hb⟩
    obtain ⟨rfl, hg⟩ := (hf a c₁ b c').1 hb
    obtain ⟨body, bs, rfl, hwrites, ha⟩ := (hx.eq_ok _ _ _).1 ha
    exact ⟨body, bs, rfl, hwrites, Option.bind_eq_some_iff.2 ⟨a, ha, hg⟩⟩
  · rintro ⟨body, bs, rfl, hwrites, hb⟩
    obtain ⟨a, ha, hb⟩ := Option.bind_eq_some_iff.1 hb
    exact ⟨a, c', (hx.eq_ok _ _ _).2 ⟨body, bs, rfl, hwrites, ha⟩, (hf _ _ _ _).2 ⟨rfl, hb⟩⟩

theorem resolve_reads (table : ℤ → Option α) (message : String) :
    Reads (resolve table message) 0 fun body => intOf body >>= table := by
  refine int32_reads.bind fun z c a c' => ?_
  cases htable : table z with
  | none =>
    constructor
    · intro h
      cases h
    · rintro ⟨-, h⟩
      cases h
  | some resolved =>
    refine pure_eq_ok.trans ?_
    rw [Option.some.injEq]
    exact And.comm

/-- Code that takes a value or throws, where the cursor is. -/
theorem guarded_eq_ok {p : Prop} [Decidable p] {e : Thrown} {a b : α} :
    (if p then throw e else return a : Reader α) c = .ok (b, c') ↔
      c = c' ∧ (if p then none else some a) = some b := by
  by_cases h : p
  · rw [if_pos h, if_pos h]
    constructor
    · intro h
      cases h
    · rintro ⟨-, h⟩
      cases h
  · rw [if_neg h, if_neg h, Option.some.injEq]
    exact pure_eq_ok.trans And.comm

def countOf (body : Body) : Option ℤ := intOf body >>= fun z => if z < 0 then none else some z

theorem count_reads : Reads (int32 >>= nonNegative) 0 countOf :=
  int32_reads.bind fun _ _ _ _ => guarded_eq_ok

def labelOf (nfc : Utf16 → Utf16) (body : Body) : Option Utf16 :=
  bytesOf body >>= fun bs =>
    if bs.length > maxLabelBytes then none else some (cleanLabel nfc (Utf8.decode bs))

theorem label_reads (nfc : Utf16 → Utf16) : Reads (sized >>= decodeLabel nfc) 2 (labelOf nfc) :=
  sized_reads.bind fun _ _ _ _ => guarded_eq_ok

/-- What is skipped is one body, of a type that is no group's. -/
theorem skipField_eq_ok :
    skipField wireType c = .ok ((), c') ↔
      ∃ (body : Body) (bs : Bytes), c = bs ++ c' ∧ body.wireType = wireType ∧ body.Writes bs := by
  constructor
  · intro h
    unfold skipField at h
    split at h
    · obtain ⟨n, c₁, hn, h⟩ := bind_eq_ok.1 h
      obtain ⟨-, rfl⟩ := pure_eq_ok.1 h
      obtain ⟨body, bs, hc, hwrites, hn⟩ := (varint_reads.eq_ok _ _ _).1 hn
      exact ⟨body, bs, hc, varint_reads.typed body n hn, hwrites⟩
    · obtain ⟨bs, c₁, hbs, h⟩ := bind_eq_ok.1 h
      obtain ⟨-, rfl⟩ := pure_eq_ok.1 h
      obtain ⟨hc, hlength⟩ := slice_eq_ok.1 hbs
      exact ⟨.fixed64 bs, bs, hc, rfl, .fixed64 hlength⟩
    · obtain ⟨n, c₁, hn, h⟩ := bind_eq_ok.1 h
      obtain ⟨-, rfl⟩ := pure_eq_ok.1 h
      obtain ⟨body, bs, hc, hwrites, hn⟩ := (sized_reads.eq_ok _ _ _).1 hn
      exact ⟨body, bs, hc, sized_reads.typed body n hn, hwrites⟩
    · obtain ⟨bs, c₁, hbs, h⟩ := bind_eq_ok.1 h
      obtain ⟨-, rfl⟩ := pure_eq_ok.1 h
      obtain ⟨hc, hlength⟩ := slice_eq_ok.1 hbs
      exact ⟨.fixed32 bs, bs, hc, rfl, .fixed32 hlength⟩
    · exact absurd h not_throw_eq_ok
  · rintro ⟨body, bs, rfl, rfl, hwrites⟩
    cases hwrites with
    | varint hvarint =>
      exact bind_eq_ok.2
        ⟨_, c', (varint_reads.eq_ok _ _ _).2 ⟨_, _, rfl, .varint hvarint, rfl⟩, rfl⟩
    | fixed64 hlength => exact bind_eq_ok.2 ⟨bs, c', slice_eq_ok.2 ⟨rfl, hlength⟩, rfl⟩
    | bytes hsize =>
      exact bind_eq_ok.2
        ⟨_, c', (sized_reads.eq_ok _ _ _).2 ⟨_, _, rfl, .bytes hsize, rfl⟩, rfl⟩
    | fixed32 hlength => exact bind_eq_ok.2 ⟨bs, c', slice_eq_ok.2 ⟨rfl, hlength⟩, rfl⟩

/-! ## Messages -/

/-- What code reads of a message's fields is what `take` makes of them, one by one. -/
def Visits {σ : Type} (visit : ℕ → ℕ → σ → Reader σ) (take : σ → Field → Option σ) : Prop :=
  ∀ number wireType read c read' c', visit number wireType read c = .ok (read', c') ↔
    ∃ (body : Body) (bs : Bytes), c = bs ++ c' ∧ body.wireType = wireType ∧ body.Writes bs ∧
      take read ⟨number, body⟩ = some read'

theorem advanced_eq_ok {before : Cursor} :
    advanced before c = .ok ((), c') ↔ c = c' ∧ c.length < before.length := by
  unfold advanced
  by_cases h : c.length ≥ before.length
  · rw [if_pos h]
    constructor
    · intro h
      cases h
    · rintro ⟨-, hlt⟩
      omega
  · rw [if_neg h, ok.injEq, Prod.mk.injEq]
    exact ⟨fun hc => ⟨hc.2, by omega⟩, fun hc => ⟨rfl, hc.1⟩⟩

theorem tag_parts {number wireType tag : ℕ} (h : wireType < 8) :
    tag = 8 * number + wireType ↔ tag >>> 3 = number ∧ tag &&& 0x07 = wireType := by
  rw [shiftRight_eq_div_pow, show (0x07 : ℕ) = 2 ^ 3 - 1 from rfl,
    and_two_pow_sub_one_eq_mod]
  omega

/-- A message is read when its fields are, and there are no more than it may have. -/
theorem eachField_eq_ok {σ : Type} {visit : ℕ → ℕ → σ → Reader σ} {take : σ → Field → Option σ}
    (hvisit : Visits visit take) {left : ℕ} {read read' : σ} {c c' : Cursor} :
    eachField visit left read c = .ok (read', c') ↔ c' = [] ∧ ∃ fs, Message fs c ∧
      fs.length ≤ left ∧ fs.foldlM take read = some read' := by
  induction left generalizing read c with
  | zero =>
    cases c with
    | nil =>
      rw [eachField, ok.injEq, Prod.mk.injEq]
      constructor
      · rintro ⟨rfl, rfl⟩
        exact ⟨rfl, [], .nil, le_rfl, rfl⟩
      · rintro ⟨rfl, fs, -, hlength, hfold⟩
        obtain rfl := length_eq_zero_iff.1 (le_zero.1 hlength)
        exact ⟨Option.some.inj hfold, rfl⟩
    | cons b rest =>
      constructor
      · intro h
        cases h
      · rintro ⟨-, fs, hmessage, hlength, -⟩
        obtain rfl := length_eq_zero_iff.1 (le_zero.1 hlength)
        cases hmessage
  | succ left ih =>
    cases c with
    | nil =>
      rw [eachField, ok.injEq, Prod.mk.injEq]
      constructor
      · rintro ⟨rfl, rfl⟩
        exact ⟨rfl, [], .nil, zero_le _, rfl⟩
      · rintro ⟨rfl, fs, hmessage, -, hfold⟩
        obtain rfl := hmessage.unique .nil
        exact ⟨Option.some.inj hfold, rfl⟩
    | cons b rest =>
      rw [eachField, bind_eq_ok]
      constructor
      · rintro ⟨tag, c₁, htag, h⟩
        obtain ⟨hnumber, h⟩ := check_eq_ok.1 h
        obtain ⟨read₁, c₂, hread, h⟩ := bind_eq_ok.1 h
        obtain ⟨_, c₃, hadvanced, h⟩ := bind_eq_ok.1 h
        obtain ⟨rfl, -⟩ := advanced_eq_ok.1 hadvanced
        obtain ⟨rfl, fs, hmessage, hlength, hfold⟩ := ih.1 h
        obtain ⟨tagBytes, hc, htag⟩ := uint32_eq_ok.1 htag
        obtain ⟨body, bs, rfl, htype, hwrites, htake⟩ := (hvisit _ _ _ _ _ _).1 hread
        have hfield : Field.Writes ⟨tag >>> 3, body⟩ (tagBytes ++ bs) := by
          refine .mk (pos_of_ne_zero hnumber) ?_ hwrites
          rwa [← (tag_parts body.wireType_lt).2 ⟨rfl, htype.symm⟩]
        refine ⟨rfl, ⟨tag >>> 3, body⟩ :: fs, ?_, succ_le_succ hlength, ?_⟩
        · rw [hc, ← append_assoc]
          exact .cons hfield hmessage
        · rw [foldlM_cons, htake]
          exact hfold
      · rintro ⟨rfl, fs, hmessage, hlength, hfold⟩
        generalize hwhole : b :: rest = whole at hmessage
        cases hmessage with
        | nil => cases hwhole
        | @cons f fs bs tail hfield hmessage =>
          rw [foldlM_cons] at hfold
          obtain ⟨read₁, htake, hrest⟩ := Option.bind_eq_some_iff.1 hfold
          have hpos := hfield.length_pos
          cases hfield with
          | @mk number body tagBytes bs hnumber htag hwrites =>
            have hparts := (@tag_parts number _ _ body.wireType_lt).1 rfl
            refine ⟨_, _, uint32_eq_ok.2 ⟨tagBytes, append_assoc _ _ _, htag⟩,
              check_eq_ok.2 ⟨?_, bind_eq_ok.2 ⟨read₁, tail, (hvisit _ _ _ _ _ _).2 ?_,
                bind_eq_ok.2 ⟨(), tail, advanced_eq_ok.2 ⟨rfl, ?_⟩, ih.2 ?_⟩⟩⟩⟩
            · rw [hparts.1]
              exact hnumber.ne'
            · rw [hparts.1, hparts.2]
              exact ⟨body, bs, rfl, rfl, hwrites, htake⟩
            · rw [length_append]
              omega
            · exact ⟨rfl, fs, hmessage, le_of_succ_le_succ hlength, hrest⟩

/-! ## The fields of an account -/

/-- The bodies of the fields of a number. -/
def bodies (fs : List Field) (number : ℕ) : List Body :=
  (fs.filter fun f => f.number = number).map (·.body)

/-- A field that a message has once at most. -/
def slot {α : Type} (number : ℕ) (decode : Body → Option α) (seen : Option α) (f : Field) :
    Option (Option α) :=
  if f.number = number then
    if seen.isSome then none else (decode f.body).map some
  else some seen

theorem bodies_cons (f : Field) (fs : List Field) (number : ℕ) :
    bodies (f :: fs) number =
      if f.number = number then f.body :: bodies fs number else bodies fs number := by
  unfold bodies
  by_cases h : f.number = number
  · rw [if_pos h, filter_cons_of_pos (by simpa using h)]
    rfl
  · rw [if_neg h, filter_cons_of_neg (by simpa using h)]

variable {number : ℕ} {fs : List Field}

/-- What a walk has of a field that is there once at most is what is there. -/
theorem foldlM_slot {seen value : Option α} :
    fs.foldlM (slot number decode) seen = some value ↔
      seen.toList.map some ++ (bodies fs number).map decode = value.toList.map some := by
  induction fs generalizing seen with
  | nil =>
    cases seen <;> cases value <;> simp [bodies]
  | cons f fs ih =>
    rw [foldlM_cons, bodies_cons, slot]
    by_cases h : f.number = number
    · rw [if_pos h, if_pos h]
      cases seen with
      | some a => cases value <;> simp
      | none =>
        cases hdecode : decode f.body with
        | none => cases value <;> simp [hdecode]
        | some a =>
          rw [Option.isSome_none, if_neg Bool.false_ne_true, Option.map_some]
          refine (@ih (some a)).trans ?_
          rw [map_cons, hdecode]
          rfl
    · rw [if_neg h, if_neg h]
      exact ih

/-- An account's fields as the wire has them. -/
def takeOtpParameter (nfc : Utf16 → Utf16) (read : OtpFields) (f : Field) : Option OtpFields := do
  let secret ← slot 1 bytesOf read.secret f
  let name ← slot 2 (labelOf nfc) read.name f
  let issuer ← slot 3 (labelOf nfc) read.issuer f
  let algorithm ← slot 4 (fun body => intOf body >>= algorithms) read.algorithm f
  let digits ← slot 5 (fun body => intOf body >>= digitCounts) read.digits f
  let type ← slot 6 (fun body => intOf body >>= otpTypes) read.type f
  let counter ← slot 7 (fun body => (natOf body).map decimal) read.counter f
  return { secret, name, issuer, algorithm, digits, type, counter }

variable {σ : Type} {read' : σ}

/-- Code that reads a scalar once, and keeps what it makes of it. -/
theorem scalar_eq_ok {β : Type} {x : Reader α} {expected : ℕ} (number : ℕ)
    (hx : Reads x expected decode) (g : α → β) {seen : Option β} (keep : Option β → σ) :
    (do
      if wireType ≠ expected ∨ seen.isSome then throw malformed
      let a ← x
      return keep (some (g a)) : Reader σ) c = .ok (read', c') ↔
      ∃ (body : Body) (bs : Bytes), c = bs ++ c' ∧ body.wireType = wireType ∧ body.Writes bs ∧
        (slot number (fun body => (decode body).map g) seen ⟨number, body⟩).map keep =
          some read' := by
  rw [check_eq_ok, bind_eq_ok]
  constructor
  · rintro ⟨hcheck, a, c₁, ha, h⟩
    obtain ⟨rfl, rfl⟩ := pure_eq_ok.1 h
    obtain ⟨body, bs, rfl, hwrites, ha⟩ := (hx.eq_ok _ _ _).1 ha
    rw [not_or, not_not] at hcheck
    refine ⟨body, bs, rfl, (hx.typed _ _ ha).trans hcheck.1.symm, hwrites, ?_⟩
    rw [slot, if_pos rfl, if_neg hcheck.2, ha]
    rfl
  · rintro ⟨body, bs, rfl, rfl, hwrites, hslot⟩
    rw [slot, if_pos rfl] at hslot
    split_ifs at hslot with hseen
    · cases hslot
    · rw [Option.map_map, Option.map_map] at hslot
      obtain ⟨a, ha, rfl⟩ := Option.map_eq_some_iff.1 hslot
      refine ⟨?_, a, c', (hx.eq_ok _ _ _).2 ⟨body, bs, rfl, hwrites, ha⟩, rfl⟩
      rintro (htype | hsome)
      · exact htype (hx.typed _ _ ha)
      · exact hseen hsome

theorem slot_of_ne {seen : Option α} {f : Field} (h : f.number ≠ number) :
    slot number decode seen f = some seen := if_neg h

theorem skipped_eq_ok (wireType : ℕ) (read : σ) :
    (do
      skipField wireType
      return read : Reader σ) c = .ok (read', c') ↔
      ∃ (body : Body) (bs : Bytes), c = bs ++ c' ∧ body.wireType = wireType ∧ body.Writes bs ∧
        read = read' := by
  rw [bind_eq_ok]
  constructor
  · rintro ⟨_, c₁, hskip, h⟩
    obtain ⟨rfl, rfl⟩ := pure_eq_ok.1 h
    obtain ⟨body, bs, hc, htype, hwrites⟩ := skipField_eq_ok.1 hskip
    exact ⟨body, bs, hc, htype, hwrites, rfl⟩
  · rintro ⟨body, bs, hc, htype, hwrites, rfl⟩
    exact ⟨(), c', skipField_eq_ok.2 ⟨body, bs, hc, htype, hwrites⟩, rfl⟩

theorem visitOtpParameter_visits (nfc : Utf16 → Utf16) :
    Visits (visitOtpParameter nfc) (takeOtpParameter nfc) := by
  intro number wireType read c read' c'
  unfold visitOtpParameter
  split
  · refine (scalar_eq_ok 1 sized_reads id fun secret => { read with secret }).trans ?_
    simp [takeOtpParameter, slot_of_ne, Option.map_eq_some_iff, Option.bind_eq_some_iff]
  · simp only [← bind_assoc]
    refine (scalar_eq_ok 2 (label_reads nfc) id fun name => { read with name }).trans ?_
    simp [takeOtpParameter, slot_of_ne, Option.map_eq_some_iff, Option.bind_eq_some_iff]
  · simp only [← bind_assoc]
    refine (scalar_eq_ok 3 (label_reads nfc) id fun issuer => { read with issuer }).trans ?_
    simp [takeOtpParameter, slot_of_ne, Option.map_eq_some_iff, Option.bind_eq_some_iff]
  · refine (scalar_eq_ok 4 (resolve_reads _ _) id fun algorithm => { read with algorithm }).trans ?_
    simp [takeOtpParameter, slot_of_ne, Option.map_eq_some_iff, Option.bind_eq_some_iff]
  · refine (scalar_eq_ok 5 (resolve_reads _ _) id fun digits => { read with digits }).trans ?_
    simp [takeOtpParameter, slot_of_ne, Option.map_eq_some_iff, Option.bind_eq_some_iff]
  · refine (scalar_eq_ok 6 (resolve_reads _ _) id fun type => { read with type }).trans ?_
    simp [takeOtpParameter, slot_of_ne, Option.map_eq_some_iff, Option.bind_eq_some_iff]
  · refine (scalar_eq_ok 7 varint_reads decimal fun counter => { read with counter }).trans ?_
    simp [takeOtpParameter, slot_of_ne, Option.map_eq_some_iff, Option.bind_eq_some_iff]
  · rename_i h1 h2 h3 h4 h5 h6 h7
    have htake (body : Body) : takeOtpParameter nfc read ⟨number, body⟩ = some read := by
      unfold takeOtpParameter
      rw [slot_of_ne h1, slot_of_ne h2, slot_of_ne h3, slot_of_ne h4, slot_of_ne h5, slot_of_ne h6,
        slot_of_ne h7]
      rfl
    simp only [skipped_eq_ok, htake, Option.some.injEq]

/-- What the fields of an account are found to be. -/
structure IsAccount (nfc : Utf16 → Utf16) (fs : List Field) (read : OtpFields) : Prop where
  secret : (bodies fs 1).map bytesOf = read.secret.toList.map some
  name : (bodies fs 2).map (labelOf nfc) = read.name.toList.map some
  issuer : (bodies fs 3).map (labelOf nfc) = read.issuer.toList.map some
  algorithm : (bodies fs 4).map (fun body => intOf body >>= algorithms) =
    read.algorithm.toList.map some
  digits : (bodies fs 5).map (fun body => intOf body >>= digitCounts) = read.digits.toList.map some
  type : (bodies fs 6).map (fun body => intOf body >>= otpTypes) = read.type.toList.map some
  counter : (bodies fs 7).map (fun body => (natOf body).map decimal) = read.counter.toList.map some

variable {nfc : Utf16 → Utf16}

/-- The slots of a walk's record are walked each by itself. -/
theorem foldlM_takeOtpParameter {read read' : OtpFields} :
    fs.foldlM (takeOtpParameter nfc) read = some read' ↔
      fs.foldlM (slot 1 bytesOf) read.secret = some read'.secret ∧
      fs.foldlM (slot 2 (labelOf nfc)) read.name = some read'.name ∧
      fs.foldlM (slot 3 (labelOf nfc)) read.issuer = some read'.issuer ∧
      fs.foldlM (slot 4 fun body => intOf body >>= algorithms) read.algorithm =
        some read'.algorithm ∧
      fs.foldlM (slot 5 fun body => intOf body >>= digitCounts) read.digits = some read'.digits ∧
      fs.foldlM (slot 6 fun body => intOf body >>= otpTypes) read.type = some read'.type ∧
      fs.foldlM (slot 7 fun body => (natOf body).map decimal) read.counter =
        some read'.counter := by
  induction fs generalizing read with
  | nil =>
    obtain ⟨secret, name, issuer, algorithm, digits, type, counter⟩ := read
    obtain ⟨secret', name', issuer', algorithm', digits', type', counter'⟩ := read'
    simp
  | cons f fs ih =>
    simp only [foldlM_cons, takeOtpParameter, Option.bind_eq_bind, Option.bind_assoc,
      Option.bind_eq_some_iff, Option.pure_def, Option.bind_some, ih]
    constructor
    · rintro ⟨secret, h1, name, h2, issuer, h3, algorithm, h4, digits, h5, type, h6, counter, h7,
        hs1, hs2, hs3, hs4, hs5, hs6, hs7⟩
      exact ⟨⟨_, h1, hs1⟩, ⟨_, h2, hs2⟩, ⟨_, h3, hs3⟩, ⟨_, h4, hs4⟩, ⟨_, h5, hs5⟩, ⟨_, h6, hs6⟩,
        ⟨_, h7, hs7⟩⟩
    · rintro ⟨⟨_, h1, hs1⟩, ⟨_, h2, hs2⟩, ⟨_, h3, hs3⟩, ⟨_, h4, hs4⟩, ⟨_, h5, hs5⟩, ⟨_, h6, hs6⟩,
        ⟨_, h7, hs7⟩⟩
      exact ⟨_, h1, _, h2, _, h3, _, h4, _, h5, _, h6, _, h7, hs1, hs2, hs3, hs4, hs5, hs6, hs7⟩

theorem isAccount_iff {read : OtpFields} :
    fs.foldlM (takeOtpParameter nfc) .empty = some read ↔ IsAccount nfc fs read := by
  simp only [foldlM_takeOtpParameter, foldlM_slot]
  constructor
  all_goals
    rintro ⟨h1, h2, h3, h4, h5, h6, h7⟩
    exact ⟨h1, h2, h3, h4, h5, h6, h7⟩

/-- The bytes of an account of an export. -/
inductive Account (nfc : Utf16 → Utf16) : Body → MigrationEntry → Prop
  | mk {bs : Bytes} {fs : List Field} {read : OtpFields} {secret : Bytes} :
    Message fs bs → fs.length ≤ maxFieldsPerMessage → IsAccount nfc fs read →
    read.secret = some secret → minSecretBytes ≤ secret.length → secret.length ≤ maxSecretBytes →
    Account nfc (.bytes bs) (entryOf read secret)

theorem readOtpParameters_eq_ok {entry : MigrationEntry} :
    readOtpParameters nfc bs = .ok entry ↔ Account nfc (.bytes bs) entry := by
  unfold readOtpParameters
  constructor
  · intro h
    obtain ⟨⟨read, c⟩, hfields, h⟩ := bind_ok h
    obtain ⟨rfl, fs, hmessage, hlength, hfold⟩ :=
      (eachField_eq_ok (visitOtpParameter_visits nfc)).1 hfields
    dsimp only at h
    cases hsecret : read.secret with
    | none =>
      rw [hsecret] at h
      cases h
    | some secret =>
      rw [hsecret] at h
      obtain ⟨hmin, h⟩ := guard_ok h
      obtain ⟨hmax, h⟩ := guard_ok h
      cases h
      exact .mk hmessage hlength (isAccount_iff.1 hfold) hsecret (Nat.le_of_not_lt hmin)
        (Nat.le_of_not_lt hmax)
  · rintro ⟨hmessage, hlength, haccount, hsecret, hmin, hmax⟩
    have hfields := (eachField_eq_ok (visitOtpParameter_visits nfc)).2
      ⟨rfl, _, hmessage, hlength, isAccount_iff.2 haccount⟩
    rw [hfields]
    simp only [bind, Except.bind, hsecret, if_neg (not_lt.2 hmin), if_neg (not_lt.2 hmax)]
    rfl

/-! ## The fields of a payload -/

/-- A field of which the last one counts. -/
def settle (number : ℕ) (decode : Body → Option ℤ) (seen : ℤ) (f : Field) : Option ℤ :=
  if f.number = number then decode f.body else some seen

/-- All the fields of a number can be read, and the last one has the value; nothing is zero. -/
def Latest (fs : List Field) (number : ℕ) (decode : Body → Option ℤ) (value : ℤ) : Prop :=
  ∃ values : List ℤ, (bodies fs number).map decode = values.map some ∧ value = values.getLastD 0

theorem foldlM_settle {decode : Body → Option ℤ} {seen value : ℤ} :
    fs.foldlM (settle number decode) seen = some value ↔
      ∃ values : List ℤ, (bodies fs number).map decode = values.map some ∧
        value = values.getLastD seen := by
  induction fs generalizing seen with
  | nil =>
    constructor
    · intro h
      exact ⟨[], rfl, (Option.some.inj h).symm⟩
    · rintro ⟨values, hvalues, rfl⟩
      obtain rfl := map_eq_nil_iff.1 hvalues.symm
      rfl
  | cons f fs ih =>
    rw [foldlM_cons, bodies_cons, settle]
    by_cases h : f.number = number
    · rw [if_pos h, if_pos h]
      constructor
      · intro hfold
        obtain ⟨z, hz, hfold⟩ := Option.bind_eq_some_iff.1 hfold
        obtain ⟨values, hvalues, rfl⟩ := ih.1 hfold
        refine ⟨z :: values, ?_, getLastD_cons.symm⟩
        rw [map_cons, hz, hvalues]
        rfl
      · rintro ⟨values, hvalues, rfl⟩
        cases values with
        | nil => cases hvalues
        | cons z values =>
          rw [map_cons, map_cons] at hvalues
          obtain ⟨hz, hvalues⟩ := cons.inj hvalues
          rw [hz]
          exact ih.2 ⟨values, hvalues, getLastD_cons⟩
    · rw [if_neg h, if_neg h]
      exact ih

def accountOf (nfc : Utf16 → Utf16) (body : Body) : Option MigrationEntry :=
  bytesOf body >>= fun bs => (readOtpParameters nfc bs).toOption

theorem accountOf_eq_some {entry : MigrationEntry} :
    accountOf nfc body = some entry ↔ Account nfc body entry := by
  constructor
  · intro h
    obtain ⟨bs, hbs, hentry⟩ := Option.bind_eq_some_iff.1 h
    rw [bytesOf_eq_some.1 hbs, ← readOtpParameters_eq_ok]
    cases hread : readOtpParameters nfc bs with
    | error e =>
      rw [hread] at hentry
      cases hentry
    | ok entry' =>
      rw [hread] at hentry
      rw [Option.some.inj hentry]
  · intro h
    cases hbody : body with
    | bytes bs =>
      rw [hbody, ← readOtpParameters_eq_ok] at h
      show (readOtpParameters nfc bs).toOption = _
      rw [h]
      rfl
    | _ =>
      rw [hbody] at h
      cases h

variable {x : Except Thrown α}

theorem lift_eq_ok {a : α} :
    (liftM x : Reader α) c = .ok (a, c') ↔ c = c' ∧ x.toOption = some a := by
  cases x with
  | error e =>
    constructor
    · intro h
      cases h
    · rintro ⟨-, h⟩
      cases h
  | ok b =>
    refine pure_eq_ok.trans (And.comm.trans (and_congr_right fun _ => ?_))
    exact (Option.some.injEq b a).symm.to_iff

theorem account_reads (nfc : Utf16 → Utf16) :
    Reads (sized >>= fun bs => liftM (readOtpParameters nfc bs)) 2 (accountOf nfc) :=
  sized_reads.bind fun _ _ _ _ => lift_eq_ok

/-- An account more, when there may be one. -/
def gather (nfc : Utf16 → Utf16) (entries : List MigrationEntry) (f : Field) :
    Option (List MigrationEntry) :=
  if f.number = 1 then
    if entries.length ≥ maxOtpParameters then none
    else (accountOf nfc f.body).map fun entry => entries ++ [entry]
  else some entries

theorem foldlM_gather {entries entries' : List MigrationEntry}
    (h : entries.length ≤ maxOtpParameters) :
    fs.foldlM (gather nfc) entries = some entries' ↔
      ∃ more, entries' = entries ++ more ∧ List.Forall₂ (Account nfc) (bodies fs 1) more ∧
        entries'.length ≤ maxOtpParameters := by
  induction fs generalizing entries with
  | nil =>
    constructor
    · intro hfold
      cases hfold
      exact ⟨[], (append_nil _).symm, .nil, h⟩
    · rintro ⟨more, rfl, hmore, -⟩
      cases hmore
      rw [append_nil]
      rfl
  | cons f fs ih =>
    rw [foldlM_cons, bodies_cons, gather]
    by_cases hf : f.number = 1
    · rw [if_pos hf, if_pos hf]
      by_cases hfull : entries.length ≥ maxOtpParameters
      · rw [if_pos hfull]
        constructor
        · intro hfold
          cases hfold
        · rintro ⟨more, rfl, hmore, hlength⟩
          cases hmore
          rw [length_append, length_cons] at hlength
          omega
      · rw [if_neg hfull]
        have hroom (entry : MigrationEntry) : (entries ++ [entry]).length ≤ maxOtpParameters := by
          rw [length_append, length_singleton]
          omega
        constructor
        · intro hfold
          obtain ⟨entries₁, hentries, hfold⟩ := Option.bind_eq_some_iff.1 hfold
          obtain ⟨entry, hentry, rfl⟩ := Option.map_eq_some_iff.1 hentries
          obtain ⟨more, rfl, hmore, hlength⟩ := (ih (hroom entry)).1 hfold
          exact ⟨entry :: more, append_assoc _ _ _, .cons (accountOf_eq_some.1 hentry) hmore,
            hlength⟩
        · rintro ⟨more, rfl, hmore, hlength⟩
          cases hmore with
          | @cons _ entry _ more hentry hmore =>
            rw [accountOf_eq_some.2 hentry]
            exact (ih (hroom entry)).2
              ⟨more, (append_assoc entries [entry] more).symm, hmore, hlength⟩
    · rw [if_neg hf, if_neg hf]
      exact ih h

/-- A payload's fields as the wire has them. -/
def takePayload (nfc : Utf16 → Utf16) (read : PayloadFields) (f : Field) : Option PayloadFields := do
  let entries ← gather nfc read.entries f
  let version ← settle 2 countOf read.version f
  let batchSize ← settle 3 countOf read.batchSize f
  let batchIndex ← settle 4 countOf read.batchIndex f
  let batchId ← settle 5 intOf read.batchId f
  return { entries, version, batchSize, batchIndex, batchId }

/-- Code that reads a number, the last one counting. -/
theorem number_eq_ok {x : Reader ℤ} {expected : ℕ} {decode : Body → Option ℤ} (number : ℕ)
    (hx : Reads x expected decode) (seen : ℤ) (keep : ℤ → σ) :
    (do
      if wireType ≠ expected then throw malformed
      let a ← x
      return keep a : Reader σ) c = .ok (read', c') ↔
      ∃ (body : Body) (bs : Bytes), c = bs ++ c' ∧ body.wireType = wireType ∧ body.Writes bs ∧
        (settle number decode seen ⟨number, body⟩).map keep = some read' := by
  rw [check_eq_ok, bind_eq_ok, not_not]
  constructor
  · rintro ⟨rfl, a, c₁, ha, h⟩
    obtain ⟨rfl, rfl⟩ := pure_eq_ok.1 h
    obtain ⟨body, bs, rfl, hwrites, ha⟩ := (hx.eq_ok _ _ _).1 ha
    refine ⟨body, bs, rfl, hx.typed _ _ ha, hwrites, ?_⟩
    rw [settle, if_pos rfl, ha]
    rfl
  · rintro ⟨body, bs, rfl, rfl, hwrites, hsettle⟩
    rw [settle, if_pos rfl] at hsettle
    obtain ⟨a, ha, rfl⟩ := Option.map_eq_some_iff.1 hsettle
    exact ⟨hx.typed _ _ ha, a, c', (hx.eq_ok _ _ _).2 ⟨body, bs, rfl, hwrites, ha⟩, rfl⟩

theorem settle_of_ne {decode : Body → Option ℤ} {seen : ℤ} {f : Field} (h : f.number ≠ number) :
    settle number decode seen f = some seen := if_neg h

theorem gather_of_ne {entries : List MigrationEntry} {f : Field} (h : f.number ≠ 1) :
    gather nfc entries f = some entries := if_neg h

theorem visitPayload_visits (nfc : Utf16 → Utf16) : Visits (visitPayload nfc) (takePayload nfc) := by
  intro number wireType read c read' c'
  unfold visitPayload
  split
  · rw [check_eq_ok, check_eq_ok, not_not]
    have htake (body : Body) : takePayload nfc read ⟨1, body⟩ =
        (if read.entries.length ≥ maxOtpParameters then none
        else (accountOf nfc body).map fun entry => read.entries ++ [entry]).map
          fun entries => { read with entries } := by
      unfold takePayload
      rw [settle_of_ne (by simp), settle_of_ne (by simp), settle_of_ne (by simp),
        settle_of_ne (by simp), gather, if_pos rfl]
      split
      · rfl
      · cases accountOf nfc body <;> rfl
    simp only [htake]
    constructor
    · rintro ⟨rfl, hroom, h⟩
      rw [← bind_assoc, bind_eq_ok] at h
      obtain ⟨entry, c₁, hentry, h⟩ := h
      obtain ⟨rfl, rfl⟩ := pure_eq_ok.1 h
      obtain ⟨body, bs, rfl, hwrites, hentry⟩ := ((account_reads nfc).eq_ok _ _ _).1 hentry
      refine ⟨body, bs, rfl, (account_reads nfc).typed _ _ hentry, hwrites, ?_⟩
      rw [if_neg hroom, hentry]
      rfl
    · rintro ⟨body, bs, rfl, rfl, hwrites, h⟩
      split_ifs at h with hroom
      · cases h
      · cases hentry : accountOf nfc body with
        | none =>
          rw [hentry] at h
          cases h
        | some entry =>
          rw [hentry] at h
          cases h
          refine ⟨(account_reads nfc).typed _ _ hentry, hroom, ?_⟩
          rw [← bind_assoc, bind_eq_ok]
          exact ⟨entry, c', ((account_reads nfc).eq_ok _ _ _).2 ⟨body, bs, rfl, hwrites, hentry⟩,
            rfl⟩
  · refine (number_eq_ok 2 count_reads read.version fun version => { read with version }).trans ?_
    simp [takePayload, gather_of_ne, settle_of_ne, Option.map_eq_some_iff, Option.bind_eq_some_iff]
  · refine (number_eq_ok 3 count_reads read.batchSize fun batchSize =>
      { read with batchSize }).trans ?_
    simp [takePayload, gather_of_ne, settle_of_ne, Option.map_eq_some_iff, Option.bind_eq_some_iff]
  · refine (number_eq_ok 4 count_reads read.batchIndex fun batchIndex =>
      { read with batchIndex }).trans ?_
    simp [takePayload, gather_of_ne, settle_of_ne, Option.map_eq_some_iff, Option.bind_eq_some_iff]
  · refine (number_eq_ok 5 int32_reads read.batchId fun batchId => { read with batchId }).trans ?_
    simp [takePayload, gather_of_ne, settle_of_ne, Option.map_eq_some_iff, Option.bind_eq_some_iff]
  · rename_i h1 h2 h3 h4 h5
    have htake (body : Body) : takePayload nfc read ⟨number, body⟩ = some read := by
      unfold takePayload
      rw [gather_of_ne h1, settle_of_ne h2, settle_of_ne h3, settle_of_ne h4, settle_of_ne h5]
      rfl
    simp only [skipped_eq_ok, htake, Option.some.injEq]

theorem foldlM_takePayload {read read' : PayloadFields} :
    fs.foldlM (takePayload nfc) read = some read' ↔
      fs.foldlM (gather nfc) read.entries = some read'.entries ∧
      fs.foldlM (settle 2 countOf) read.version = some read'.version ∧
      fs.foldlM (settle 3 countOf) read.batchSize = some read'.batchSize ∧
      fs.foldlM (settle 4 countOf) read.batchIndex = some read'.batchIndex ∧
      fs.foldlM (settle 5 intOf) read.batchId = some read'.batchId := by
  induction fs generalizing read with
  | nil =>
    obtain ⟨entries, version, batchSize, batchIndex, batchId⟩ := read
    obtain ⟨entries', version', batchSize', batchIndex', batchId'⟩ := read'
    simp
  | cons f fs ih =>
    simp only [foldlM_cons, takePayload, Option.bind_eq_bind, Option.bind_assoc,
      Option.bind_eq_some_iff, Option.pure_def, Option.bind_some, ih]
    constructor
    · rintro ⟨entries, h1, version, h2, batchSize, h3, batchIndex, h4, batchId, h5, hs1, hs2, hs3,
        hs4, hs5⟩
      exact ⟨⟨_, h1, hs1⟩, ⟨_, h2, hs2⟩, ⟨_, h3, hs3⟩, ⟨_, h4, hs4⟩, ⟨_, h5, hs5⟩⟩
    · rintro ⟨⟨_, h1, hs1⟩, ⟨_, h2, hs2⟩, ⟨_, h3, hs3⟩, ⟨_, h4, hs4⟩, ⟨_, h5, hs5⟩⟩
      exact ⟨_, h1, _, h2, _, h3, _, h4, _, h5, hs1, hs2, hs3, hs4, hs5⟩

/-! ## Exports -/

/-- The fields of one part of an export, and what it says. -/
structure IsExport (nfc : Utf16 → Utf16) (fs : List Field) (payload : MigrationPayload) : Prop where
  entries : List.Forall₂ (Account nfc) (bodies fs 1) payload.entries
  version : Latest fs 2 countOf payload.version
  batchSize : ∃ size, Latest fs 3 countOf size ∧ payload.batchSize = if size = 0 then 1 else size
  batchIndex : Latest fs 4 countOf payload.batchIndex
  batchId : Latest fs 5 intOf payload.batchId
  nonempty : payload.entries ≠ []
  entriesBound : payload.entries.length ≤ maxOtpParameters
  sizeBound : payload.batchSize ≤ maxBatchSize
  indexBound : payload.batchIndex < payload.batchSize

theorem caught_ok {a : α} : caught x = .ok a ↔ x = .ok a := by
  cases x with
  | ok b => rfl
  | error e => cases e <;> simp [caught]

theorem readMigrationPayload_eq_ok {payload : MigrationPayload} :
    readMigrationPayload nfc bs = .ok payload ↔ bs.length ≤ maxMigrationPayloadBytes ∧
      ∃ fs, Message fs bs ∧ fs.length ≤ maxFieldsPerMessage ∧ IsExport nfc fs payload := by
  unfold readMigrationPayload
  constructor
  · intro h
    obtain ⟨hbytes, h⟩ := guard_ok h
    obtain ⟨⟨read, c⟩, hfields, h⟩ := bind_ok h
    obtain ⟨-, fs, hmessage, hlength, hfold⟩ :=
      (eachField_eq_ok (visitPayload_visits nfc)).1 (caught_ok.1 hfields)
    obtain ⟨hentries, hversion, hsize, hindex, hid⟩ := foldlM_takePayload.1 hfold
    obtain ⟨more, hmore, haccounts, hfew⟩ := (foldlM_gather (zero_le _)).1 hentries
    obtain ⟨hnonempty, h⟩ := guard_ok h
    obtain ⟨hbatch, h⟩ := guard_ok h
    cases h
    rw [not_or, not_lt, not_le] at hbatch
    refine ⟨Nat.le_of_not_lt hbytes, fs, hmessage, hlength, ⟨?_, foldlM_settle.1 hversion,
      ⟨_, foldlM_settle.1 hsize, rfl⟩, foldlM_settle.1 hindex, foldlM_settle.1 hid, ?_, hfew,
      hbatch.1, hbatch.2⟩⟩
    · obtain rfl : read.entries = more := hmore
      exact haccounts
    · exact fun hnil => hnonempty (length_eq_zero_iff.2 hnil)
  · rintro ⟨hbytes, fs, hmessage, hlength, hexport⟩
    obtain ⟨size, hsize, hbatchSize⟩ := hexport.batchSize
    have hfold : fs.foldlM (takePayload nfc) .empty =
        some ⟨payload.entries, payload.version, size, payload.batchIndex, payload.batchId⟩ :=
      foldlM_takePayload.2 ⟨(foldlM_gather (zero_le _)).2 ⟨_, rfl, hexport.entries,
        hexport.entriesBound⟩, foldlM_settle.2 hexport.version, foldlM_settle.2 hsize,
        foldlM_settle.2 hexport.batchIndex, foldlM_settle.2 hexport.batchId⟩
    have hfields := caught_ok.2
      ((eachField_eq_ok (visitPayload_visits nfc)).2 ⟨rfl, fs, hmessage, hlength, hfold⟩)
    have hsome : ¬payload.entries.length = 0 :=
      fun hzero => hexport.nonempty (length_eq_zero_iff.1 hzero)
    have hbatch : ¬(payload.batchSize > maxBatchSize ∨ payload.batchIndex ≥ payload.batchSize) := by
      rw [not_or, not_lt, not_le]
      exact ⟨hexport.sizeBound, hexport.indexBound⟩
    rw [if_neg (not_lt.2 hbytes), hfields]
    simp only [bind, Except.bind, if_neg hsome, ← hbatchSize, if_neg hbatch]
    rfl

theorem caught_ne (x : Except Thrown α) : caught x ≠ .error .rangeError := by
  cases x with
  | ok a => exact nofun
  | error e => cases e <;> exact nofun

theorem guard_ne {c : Prop} [Decidable c] {e e' : Thrown} (he : e ≠ e') (hx : x ≠ .error e') :
    (do
      if c then error e
      x) ≠ .error e' := by
  by_cases hc : c
  · rw [if_pos hc]
    exact fun h => he (error.inj h)
  · rw [if_neg hc]
    exact hx

theorem bind_ne {β : Type} {f : α → Except Thrown β} {e : Thrown} (hx : x ≠ .error e)
    (hf : ∀ a, f a ≠ .error e) : x >>= f ≠ .error e := by
  cases x with
  | ok a => exact hf a
  | error e' => exact fun h => hx (congrArg _ (error.inj h))

/-- Bytes that are not accepted are refused with an error of the reader's own. -/
theorem readMigrationPayload_error (h : ∀ payload, readMigrationPayload nfc bs ≠ .ok payload) :
    ∃ error, readMigrationPayload nfc bs = .error (.migration error) := by
  have hne : readMigrationPayload nfc bs ≠ .error .rangeError :=
    guard_ne nofun (bind_ne (caught_ne _) fun out => guard_ne nofun (guard_ne nofun nofun))
  cases hread : readMigrationPayload nfc bs with
  | ok payload => exact absurd hread (h payload)
  | error e =>
    cases e with
    | migration error => exact ⟨error, rfl⟩
    | rangeError => exact absurd hread hne

end HVault.Totp
