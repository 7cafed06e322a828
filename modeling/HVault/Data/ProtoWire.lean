import Mathlib.Algebra.GroupWithZero.Nat
import Mathlib.Data.List.Basic

/-!
# The wire format of protocol buffers

A message is fields one after the other, a field is a tag and a body. Numbers are spelled seven bits
to a byte, lowest first, all but the last byte with their high bit set, and may be spelled with more
bytes than they need (`Spells`). Groups are left out.

Bytes hold one message at most (`Message.unique`), and a field is at least one byte.
-/

namespace ProtoWire

open List

/-- The bytes spell the number. -/
inductive Spells : ℕ → List UInt8 → Prop
  | last {b : UInt8} : b.toNat < 128 → Spells b.toNat [b]
  | more {b : UInt8} {n : ℕ} {bs : List UInt8} :
    128 ≤ b.toNat → Spells n bs → Spells (b.toNat - 128 + 128 * n) (b :: bs)

/-- A number of 64 bits, in at most ten bytes. -/
structure Varint (n : ℕ) (bs : List UInt8) : Prop where
  spells : Spells n bs
  width : bs.length ≤ 10
  bound : n < 2 ^ 64

/-- A tag or a length: 32 bits, in at most five bytes. -/
structure Uint32 (n : ℕ) (bs : List UInt8) : Prop where
  spells : Spells n bs
  width : bs.length ≤ 5
  bound : n < 2 ^ 32

/-- What a field holds; of a number also how many bytes spell it. -/
inductive Body
  | varint (value width : ℕ)
  | fixed64 (bs : List UInt8)
  | bytes (bs : List UInt8)
  | fixed32 (bs : List UInt8)
deriving DecidableEq

def Body.wireType : Body → ℕ
  | .varint _ _ => 0
  | .fixed64 _ => 1
  | .bytes _ => 2
  | .fixed32 _ => 5

/-- The bytes of a body. -/
inductive Body.Writes : Body → List UInt8 → Prop
  | varint {n : ℕ} {bs : List UInt8} : Varint n bs → Writes (.varint n bs.length) bs
  | fixed64 {bs : List UInt8} : bs.length = 8 → Writes (.fixed64 bs) bs
  | bytes {bs size : List UInt8} : Uint32 bs.length size → Writes (.bytes bs) (size ++ bs)
  | fixed32 {bs : List UInt8} : bs.length = 4 → Writes (.fixed32 bs) bs

structure Field where
  number : ℕ
  body : Body
deriving DecidableEq

/-- The bytes of a field. -/
inductive Field.Writes : Field → List UInt8 → Prop
  | mk {number : ℕ} {body : Body} {tag bs : List UInt8} : 0 < number →
    Uint32 (8 * number + body.wireType) tag → body.Writes bs → Writes ⟨number, body⟩ (tag ++ bs)

/-- The bytes of a message. -/
inductive Message : List Field → List UInt8 → Prop
  | nil : Message [] []
  | cons {f : Field} {fs : List Field} {bs rest : List UInt8} :
    f.Writes bs → Message fs rest → Message (f :: fs) (bs ++ rest)

/-! ## Numbers -/

variable {bs : List UInt8}

theorem Spells.ne_nil {n : ℕ} (h : Spells n bs) : bs ≠ [] := by
  cases h with
  | last | more => exact cons_ne_nil _ _

theorem Spells.length_pos {n : ℕ} (h : Spells n bs) : 0 < bs.length :=
  length_pos_of_ne_nil h.ne_nil

/-- The number that the bytes spell. -/
def spelled : List UInt8 → Option ℕ
  | [] => none
  | b :: bs =>
    if b.toNat < 128 then if bs = [] then some b.toNat else none
    else (spelled bs).map fun n => b.toNat - 128 + 128 * n

theorem spelled_eq_some {n : ℕ} : spelled bs = some n ↔ Spells n bs := by
  induction bs generalizing n with
  | nil =>
    constructor
    · intro h
      cases h
    · intro h
      cases h
  | cons b bs ih =>
    rw [spelled]
    constructor
    · intro h
      split_ifs at h with hb hend
      · cases h
        rw [hend]
        exact .last hb
      · obtain ⟨m, hm, rfl⟩ := Option.map_eq_some_iff.1 h
        exact .more (Nat.le_of_not_lt hb) (ih.1 hm)
    · intro h
      cases h with
      | last hb => rw [if_pos hb, if_pos rfl]
      | more hb hrest =>
        rw [if_neg (Nat.not_lt.2 hb), ih.2 hrest]
        rfl

instance (n : ℕ) (bs : List UInt8) : Decidable (Spells n bs) :=
  decidable_of_iff _ spelled_eq_some

variable {bs' rest rest' : List UInt8}

/-- A number that is spelled where others follow ends at the same byte. -/
theorem Spells.unique {n n' : ℕ} (h : Spells n bs) (h' : Spells n' bs')
    (heq : bs ++ rest = bs' ++ rest') : n = n' ∧ bs = bs' ∧ rest = rest' := by
  induction h generalizing n' bs' with
  | last hb =>
    cases h' with
    | last hb' =>
      obtain ⟨rfl, rfl⟩ := cons.inj heq
      exact ⟨rfl, rfl, rfl⟩
    | more hb' hrest =>
      obtain ⟨rfl, -⟩ := cons.inj heq
      omega
  | more hb hrest ih =>
    cases h' with
    | last hb' =>
      obtain ⟨rfl, -⟩ := cons.inj heq
      omega
    | more hb' hrest' =>
      obtain ⟨rfl, htail⟩ := cons.inj heq
      obtain ⟨rfl, rfl, rfl⟩ := ih hrest' htail
      exact ⟨rfl, rfl, rfl⟩

/-! ## Messages -/

theorem Body.Writes.unique {body body' : Body} (h : body.Writes bs) (h' : body'.Writes bs')
    (htype : body.wireType = body'.wireType) (heq : bs ++ rest = bs' ++ rest') :
    body = body' ∧ bs = bs' ∧ rest = rest' := by
  cases h with
  | varint hn =>
    cases h' with
    | varint hn' =>
      obtain ⟨rfl, rfl, rfl⟩ := hn.spells.unique hn'.spells heq
      exact ⟨rfl, rfl, rfl⟩
    | _ => cases htype
  | fixed64 hlength =>
    cases h' with
    | fixed64 hlength' =>
      obtain ⟨rfl, rfl⟩ := append_inj heq (hlength.trans hlength'.symm)
      exact ⟨rfl, rfl, rfl⟩
    | _ => cases htype
  | bytes hsize =>
    cases h' with
    | bytes hsize' =>
      rw [append_assoc, append_assoc] at heq
      obtain ⟨hlength, rfl, htail⟩ := hsize.spells.unique hsize'.spells heq
      obtain ⟨rfl, rfl⟩ := append_inj htail hlength
      exact ⟨rfl, rfl, rfl⟩
    | _ => cases htype
  | fixed32 hlength =>
    cases h' with
    | fixed32 hlength' =>
      obtain ⟨rfl, rfl⟩ := append_inj heq (hlength.trans hlength'.symm)
      exact ⟨rfl, rfl, rfl⟩
    | _ => cases htype

theorem Body.wireType_lt (body : Body) : body.wireType < 8 := by
  cases body <;> simp [Body.wireType]

theorem Field.Writes.unique {f f' : Field} (h : f.Writes bs) (h' : f'.Writes bs')
    (heq : bs ++ rest = bs' ++ rest') : f = f' ∧ bs = bs' ∧ rest = rest' := by
  cases h with
  | @mk number body _ _ _ htag hbody =>
    cases h' with
    | @mk number' body' _ _ _ htag' hbody' =>
      rw [append_assoc, append_assoc] at heq
      obtain ⟨hvalue, rfl, htail⟩ := htag.spells.unique htag'.spells heq
      have hlt : body.wireType < 8 := body.wireType_lt
      have hlt' : body'.wireType < 8 := body'.wireType_lt
      have hnumber : number = number' := by omega
      obtain ⟨rfl, rfl, rfl⟩ := hbody.unique hbody' (by omega) htail
      exact ⟨by rw [hnumber], rfl, rfl⟩

theorem Field.Writes.length_pos {f : Field} (h : f.Writes bs) : 0 < bs.length := by
  cases h with
  | mk _ htag _ =>
    have hpos := htag.spells.length_pos
    rw [length_append]
    omega

/-- Bytes are read as a message in one way. -/
theorem Message.unique {fs fs' : List Field} (h : Message fs bs) (h' : Message fs' bs) :
    fs = fs' := by
  induction h generalizing fs' with
  | nil =>
    generalize hnil : ([] : List UInt8) = bs at h'
    cases h' with
    | nil => rfl
    | cons hf _ =>
      have hlength := congrArg length hnil
      have hpos := hf.length_pos
      rw [length_nil, length_append] at hlength
      omega
  | @cons f fs bs rest hf _ ih =>
    generalize hwhole : bs ++ rest = whole at h'
    cases h' with
    | nil =>
      have hlength := congrArg length hwhole
      have hpos := hf.length_pos
      rw [length_nil, length_append] at hlength
      omega
    | cons hf' hrest' =>
      obtain ⟨rfl, -, rfl⟩ := hf.unique hf' hwhole
      rw [ih hrest']

end ProtoWire
