import Mathlib.Data.List.Basic
import Mathlib.Data.Set.Basic

/-!
# Authenticated encryption

A cipher that takes a key, a nonce, additional data and a plaintext, and what is assumed of it: what
was sealed opens as it was sealed and in no other way (`Aead.Ideal`), and nothing else opens under a
key that was kept (`Aead.Unforgeable`). Both are about the sealings that were made, and `table` has
them for any list of these.
-/

/-- What one call of the cipher seals. -/
@[ext] structure Sealing (Key : Type) where
  key : Key
  nonce : List UInt8
  additionalData : List UInt8
  plaintext : List UInt8
deriving DecidableEq

/-- The bytes of a tag. -/
def tagBytes : ℕ := 16

/-- A cipher: a ciphertext ends with its tag. -/
structure Aead (Key : Type) where
  encrypt : Sealing Key → List UInt8
  decrypt : (key : Key) → (nonce additionalData ciphertext : List UInt8) → Option (List UInt8)
  length_encrypt : ∀ s, (encrypt s).length = s.plaintext.length + tagBytes

namespace Aead

open List

variable {Key : Type}

/-- What was sealed opens under its own key, nonce and additional data only, as what it was. -/
def Ideal (aead : Aead Key) (made : Set (Sealing Key)) : Prop :=
  ∀ s ∈ made, ∀ key nonce additionalData plaintext,
    aead.decrypt key nonce additionalData (aead.encrypt s) = some plaintext →
      s = ⟨key, nonce, additionalData, plaintext⟩

/-- What opens under one of these keys was sealed. -/
def Unforgeable (aead : Aead Key) (keys : Set Key) (made : Set (Sealing Key)) : Prop :=
  ∀ key ∈ keys, ∀ nonce additionalData ciphertext plaintext,
    aead.decrypt key nonce additionalData ciphertext = some plaintext →
      ⟨key, nonce, additionalData, plaintext⟩ ∈ made ∧
        ciphertext = aead.encrypt ⟨key, nonce, additionalData, plaintext⟩

/-! ## A cipher for the sealings of a list -/

section Table

variable [DecidableEq Key]

/-- The tag of a sealing: its place in the list. -/
def tagOf (made : List (Sealing Key)) (s : Sealing Key) : List UInt8 :=
  List.replicate tagBytes (.ofNat (made.idxOf s))

/-- A cipher that knows what is sealed, and opens that. -/
def table (made : List (Sealing Key)) : Aead Key where
  encrypt s := s.plaintext ++ tagOf made s
  decrypt key nonce additionalData ciphertext :=
    let plaintext := ciphertext.take (ciphertext.length - tagBytes)
    let s : Sealing Key := ⟨key, nonce, additionalData, plaintext⟩
    if s ∈ made ∧ ciphertext = plaintext ++ tagOf made s then some plaintext else none
  length_encrypt s := by rw [List.length_append, tagOf, List.length_replicate]

variable {made : List (Sealing Key)}

theorem table_decrypt {key : Key} {nonce additionalData ciphertext plaintext : List UInt8}
    (h : (table made).decrypt key nonce additionalData ciphertext = some plaintext) :
    ⟨key, nonce, additionalData, plaintext⟩ ∈ made ∧
      ciphertext = (table made).encrypt ⟨key, nonce, additionalData, plaintext⟩ := by
  unfold table at h
  simp only at h
  split_ifs at h with hmade
  cases h
  exact hmade

/-- The table opens what it has made. -/
theorem table_decrypt_encrypt {s : Sealing Key} (h : s ∈ made) :
    (table made).decrypt s.key s.nonce s.additionalData ((table made).encrypt s) =
      some s.plaintext := by
  have hplain : ((table made).encrypt s).take (((table made).encrypt s).length - tagBytes) =
      s.plaintext := by
    rw [(table made).length_encrypt, Nat.add_sub_cancel]
    exact take_left
  show (if _ then _ else _) = _
  rw [hplain]
  exact if_pos ⟨h, rfl⟩

theorem table_unforgeable (made : List (Sealing Key)) (keys : Set Key) :
    (table made).Unforgeable keys {s | s ∈ made} :=
  fun _ _ _ _ _ _ h => table_decrypt h

theorem table_ideal (hshort : made.length ≤ 0x100) : (table made).Ideal {s | s ∈ made} := by
  intro s hs key nonce additionalData plaintext h
  obtain ⟨hmade, hbytes⟩ := table_decrypt h
  have hplace : made.idxOf s < made.length := idxOf_lt_length_of_mem hs
  have hplace' := idxOf_lt_length_of_mem hmade
  have htag := (append_inj' hbytes (by rw [tagOf, tagOf, length_replicate,
    length_replicate])).2
  have hfirst := (cons.inj htag).1
  have hidx : made.idxOf s = made.idxOf ⟨key, nonce, additionalData, plaintext⟩ := by
    have hsize : UInt8.size = 0x100 := rfl
    rw [← UInt8.toNat_ofNat_of_lt' (show made.idxOf s < UInt8.size by omega), hfirst,
      UInt8.toNat_ofNat_of_lt' (by omega)]
  exact (idxOf_inj hs).1 hidx

end Table

end Aead
