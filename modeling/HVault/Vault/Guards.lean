import HVault.Vault.Quota

/-!
# The vault-key guards of a write

What a handler asks of the account before it writes ciphertext, and again where the gap between
that and the write closes: that no rotation is in progress, that the caller names the account's
current vault-key generation, and that the account is there and not being erased.
-/

namespace HVault

open Interleave

variable {K : Type}

/-- The account's vault-key generation: absent means it never rotated. -/
def vaultKeyVersionOf (u : User) : ℕ := u.vaultKeyVersion.getD 0

/-- The verdict on the generation a request names. -/
def judgeVaultKeyVersion (current : ℕ) : Option ℕ → Except VaultError ℕ
  | none => if 0 < current then .error (.staleVaultKey current .unnamed) else .ok current
  | some supplied =>
    if current < supplied then .error (.staleVaultKey current .unreached)
    else if supplied ≠ current then .error (.staleVaultKey current .rotated)
    else .ok current

/-- The account, refused when it is gone or being erased. -/
def readTenantRow : Req K User := do
  let found ← .read .readAccount fun s => s.user.filter fun u => !u.deletionPending
  match found with
  | none => .raise .sessionInvalid
  | some u => pure u

/-- Refuses a write of new ciphertext while a rotation is in progress. -/
def assertVaultNotRotating : Req K Unit := do
  let u ← readTenantRow
  if u.rotationInProgress then .raise .rotationInProgress else pure ()

/-- Refuses a generation the account is not at. -/
def assertVaultKeyVersion (supplied : Option ℕ) : Req K ℕ := do
  let u ← readTenantRow
  .ofExcept (judgeVaultKeyVersion (vaultKeyVersionOf u) supplied)

/-- Both refusals from one read. -/
def assertVaultWritable (supplied : Option ℕ) : Req K Unit := do
  let u ← readTenantRow
  if u.rotationInProgress then .raise .rotationInProgress
  else do
    let _ ← .ofExcept (judgeVaultKeyVersion (vaultKeyVersionOf u) supplied)
    pure ()

/-- The check of a create after its insert: on a refusal the row is taken back before the refusal
is answered. -/
def confirmCreatedRow (quota : ℤ) (key : RowKey) (row : Row K) (supplied : Option ℕ) :
    Req K Unit :=
  (assertVaultWritable supplied).orElse fun refusal => do
    let accountLive := decide (refusal ≠ .sessionInvalid)
    -- a withdrawal that fails is logged and changes nothing of the answer
    let _ ← (withdrawCountedRow quota key row.createdAt accountLive).attempt
    .raise refusal

/-! ## They only read -/

theorem readsAt_readTenantRow : (readTenantRow : Req K User).ReadsAt .readAccount := by
  apply Prog.ReadsAt.bind Prog.readsAt_read
  intro found
  cases found with
  | none | some u => exact trivial

theorem readsAt_assertVaultNotRotating :
    (assertVaultNotRotating : Req K Unit).ReadsAt .readAccount := by
  apply readsAt_readTenantRow.bind
  intro u
  split
  · exact trivial
  · exact trivial

theorem readsAt_assertVaultKeyVersion (supplied : Option ℕ) :
    (assertVaultKeyVersion supplied : Req K ℕ).ReadsAt .readAccount :=
  readsAt_readTenantRow.bind fun _ => Prog.readsAt_ofExcept _

theorem readsAt_assertVaultWritable (supplied : Option ℕ) :
    (assertVaultWritable supplied : Req K Unit).ReadsAt .readAccount := by
  apply readsAt_readTenantRow.bind
  intro u
  split
  · exact trivial
  · exact (Prog.readsAt_ofExcept _).bind fun _ => trivial

end HVault
