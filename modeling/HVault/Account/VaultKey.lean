import HVault.Account.Credential

/-!
# Rotation of the vault key, as the account sees it

`bulkReEncrypt` replaces the vault key, or with `reseal` rewrites the vault under the same one. It
holds the exclusion lock, raises the fence that stops every other write to the vault, works on the
rows, and commits with a conditional write of the user document.

The rows themselves are not part of this store. Whether the payload names rows that exist, and
whether an attempt writes every row and names every row, is part of the request: nothing below
assumes anything about it.
-/

namespace HVault.Account

open Interleave Prog

/-- A rotation of the vault key, or a re-seal. -/
structure RotationRequest where
  authHash : String
  idempotencyKey : Option String
  newVaultKey : WrappedKey
  discardPendingVaultKey : Bool
  reseal : Bool
  vaultKeyVersion : Option ℕ
  /-- Whether the page understands the format of every field it carries. -/
  formatUnderstood : Bool
  /-- What the work on the rows comes to: the checks ahead of the fence, and each attempt. -/
  rowsFound : Bool
  rowsWritten : ℕ → Bool
  lockId : String
  lockedAt : ℤ
  attempts : ℕ

/-! ## The fence -/

namespace Store

/-- Raises the fence, and stores the key of an unfinished rotation if one is given. -/
def raiseFence (lockId : String) (pending : Option WrappedKey) (s : Store) : Store :=
  match s.updateUser (fun _ => true) fun u => { u with
      rotationInProgress := true
      pendingVaultKey := pending.orElse fun _ => u.pendingVaultKey } with
  | (none, _) => s
  | (some _, s') => { s' with history := { s'.history with raised := lockId :: s.history.raised } }

/-- Notes that a holder of the lock has lowered its fence. -/
def dropRaised (lockId : String) (s : Store) : Store :=
  { s with history := { s.history with raised := s.history.raised.filter (· ≠ lockId) } }

/-- Lifts the fence, and nothing else. -/
def lowerFence (lockId : String) (s : Store) : Store :=
  (s.updateUser (fun _ => true) fun u => { u with rotationInProgress := false }).2.dropRaised lockId

end Store

def lowerRotationFence (lockId : String) (taken : ℕ) : Req Unit :=
  .db (.lowerFence taken) fun s => ((), s.lowerFence lockId)

/-! ## The commit -/

namespace RotationRequest

variable (r : RotationRequest)

/-- The generation a re-seal names, which is the first when it names none. -/
def resealVersion : ℕ := r.vaultKeyVersion.getD 0

/-- The statement that commits. `lowers` says how often the lock had been taken, when the commit
lowers the fence as well. -/
def commitSite (provenWith : String) (since : ℕ) (lowers : Option ℕ) : Site :=
  if r.reseal then
    .commitReseal provenWith since r.newVaultKey.encryptedVaultKey r.resealVersion lowers
  else .commitRotation provenWith since lowers

/-- Whether the commit applies: a re-seal still finds its key and generation, a rotation the
credential it was proven with. -/
def commits (provenWith : String) (u : User) : Bool :=
  if r.reseal then
    decide (u.vaultKey.encryptedVaultKey = r.newVaultKey.encryptedVaultKey) &&
      decide (vaultKeyVersionOf u = r.resealVersion)
  else decide (u.authHash = provenWith)

/-- What the commit stores. A re-seal records its key alone; a rotation replaces the vault key,
moves the generation and drops the key of an unfinished rotation. -/
def committed (lowers : Bool) (u : User) : User :=
  let u := { u with
    rotationInProgress := u.rotationInProgress && !lowers
    lastRotationKey := r.idempotencyKey.orElse fun _ => u.lastRotationKey }
  if r.reseal then u
  else { u with
    vaultKey := r.newVaultKey
    vaultKeyVersion := some (vaultKeyVersionOf u + 1)
    pendingVaultKey := none }

/-- The refusal of a commit that did not apply. -/
def commitRefusal : AccountError := if r.reseal then .resealKeyMoved else .credentialMoved

/-- The conditional write that commits. -/
def commit (provenWith : String) (lowers : Bool) (s : Store) : Except AccountError Unit × Store :=
  match s.updateUser (r.commits provenWith) (r.committed lowers) with
  | (none, _) => (.error r.commitRefusal, s)
  | (some _, s') => (.ok (), if lowers then s'.dropRaised r.lockId else s')

/-- One run of the transaction: the rows and the commit, or nothing. -/
def rotateOnce (provenWith : String) (attempt : ℕ) (s : Store) : Except AccountError Unit × Store :=
  if r.rowsWritten attempt then r.commit provenWith false s
  else (.error .rotationRefused, s)

/-- The transaction, run again while it fails for a reason known to have undone it. -/
def rotateInTransaction (provenWith : String) (since : ℕ) : ℕ → Req (Except AccountError Unit)
  | 0 => .db (r.commitSite provenWith since none) (r.rotateOnce provenWith 0)
  | attempts + 1 =>
    (Prog.db (r.commitSite provenWith since none) (r.rotateOnce provenWith (attempts + 1))).orElse fun
      | .database true => rotateInTransaction provenWith since attempts
      | e => .raise e

end RotationRequest

/-! ## The two topologies -/

/-- Where the database has transactions, the fence is raised and lowered outside. A failure to lower
it is logged and does not hide how the transaction ended. -/
def rotateTransactional (r : RotationRequest) (provenWith : String) (since taken : ℕ) :
    Req Unit := do
  .db .raiseFence fun s => ((), s.raiseFence r.lockId none)
  Prog.andFinally
    (do
      let outcome ← r.rotateInTransaction provenWith since r.attempts
      .ofExcept outcome)
    (do
      let _ ← (lowerRotationFence r.lockId taken).attempt)

/-- The rows and the commit without a transaction. -/
def commitSequentially (r : RotationRequest) (provenWith : String) (since taken : ℕ) :
    Req Unit := do
  if r.rowsWritten 0 then do
    let outcome ← .db (r.commitSite provenWith since (some taken)) (r.commit provenWith true)
    .ofExcept outcome
  else do
    lowerRotationFence r.lockId taken
    .raise .rotationRefused

/-- Without transactions the new key is stored beside the old one before the first row is written,
and every failure lowers the fence. -/
def rotateSequential (r : RotationRequest) (provenWith : String) (since taken : ℕ) : Req Unit := do
  if r.rowsFound then do
    .db .raiseFence fun s =>
      ((), s.raiseFence r.lockId (if r.reseal then none else some r.newVaultKey))
    (commitSequentially r provenWith since taken).orElse fun e => do
      lowerRotationFence r.lockId taken
      .raise e
  else .raise .rotationRefused

/-! ## The request -/

/-- Whether this rotation is the one that committed last, read under the lock. -/
def alreadyRotated (r : RotationRequest) : Req Bool :=
  match r.idempotencyKey with
  | none => pure false
  | some key => .read .readRotationKey fun s =>
      decide (s.user.bind (·.lastRotationKey) = some key)

/-- The checks under the lock: the key a re-seal keeps, the generation, the account, and a rotation
left unfinished, which only one that adopts or abandons its key may follow. -/
def checkRotation (r : RotationRequest) : Req Unit := do
  let stored ← .read .readWrapper fun s => s.user.map (·.vaultKey)
  if r.reseal && decide (stored ≠ some r.newVaultKey) then .raise .resealKeyMoved
  else do
    let _ ← assertVaultKeyVersion r.vaultKeyVersion
    let found ← .read .reserveWrite (·.user.isSome)
    if found then do
      let pending ← .read .readPending fun s =>
        (s.user.bind (·.pendingVaultKey)).map (·.encryptedVaultKey)
      if pending.any (fun key => decide (key ≠ r.newVaultKey.encryptedVaultKey)) &&
          !r.discardPendingVaultKey then .raise .interruptedRotation
      else pure ()
    else .raise .userNotFound

/-- The part of a rotation that holds the lock, taken for the `taken`th time. -/
def rotateUnderLock (env : Deployment) (r : RotationRequest) (provenWith : String)
    (since taken : ℕ) : Req Unit := do
  let already ← alreadyRotated r
  if already then pure ()
  else do
    checkRotation r
    if env.supportsTransactions then rotateTransactional r provenWith since taken
    else rotateSequential r provenWith since taken

/-- A rotation whose proof was right, unless it has been made already. -/
def rotateProven (env : Deployment) (r : RotationRequest) (user : User) (since : ℕ) : Req Unit :=
  if r.idempotencyKey.isSome && decide (user.lastRotationKey = r.idempotencyKey) then pure ()
  else do
    let taken ← acquireVaultRotationLock r.lockId r.lockedAt
    (rotateUnderLock env r user.authHash since taken).andFinally (releaseVaultRotationLock r.lockId)

def bulkReEncrypt (env : Deployment) (r : RotationRequest) : Req Unit :=
  if r.formatUnderstood then withProof env r.authHash (rotateProven env r)
  else .raise .rotationRefused

/-! ## What a rotation does under its lock, statement by statement -/

/-- Whether a statement is one of the checks under the lock. -/
def Site.checksRotation : Site → Bool
  | .readRotationKey => true
  | .readWrapper => true
  | .readGeneration => true
  | .reserveWrite => true
  | .readPending => true
  | _ => false

/-- One statement of a rotation that holds the lock, taken for the `taken`th time. -/
inductive RotationEffect (r : RotationRequest) (provenWith : String) (since taken : ℕ) :
    Site → Store → Store → Prop
  | check (l : Site) (s : Store) (hl : l.checksRotation = true) :
      RotationEffect r provenWith since taken l s s
  | raise (s : Store) (pending : Option WrappedKey) :
      RotationEffect r provenWith since taken .raiseFence s (s.raiseFence r.lockId pending)
  | lower (s : Store) :
      RotationEffect r provenWith since taken (.lowerFence taken) s (s.lowerFence r.lockId)
  | transaction (s : Store) (attempt : ℕ) :
      RotationEffect r provenWith since taken (r.commitSite provenWith since none) s
        (r.rotateOnce provenWith attempt s).2
  | commit (s : Store) :
      RotationEffect r provenWith since taken (r.commitSite provenWith since (some taken)) s
        (r.commit provenWith true s).2

section Effects

variable {r : RotationRequest} {provenWith : String} {since taken : ℕ}

variable (r provenWith since taken) in
/-- The accesses of a part of the rotation. -/
abbrev RotationEach {α : Type} (p : Req α) : Prop :=
  p.Each (fun _ => True) (RotationEffect r provenWith since taken)

theorem each_rotationCheck {α : Type} {l : Site} {f : Store → α} (hl : l.checksRotation = true) :
    RotationEach r provenWith since taken (.read l f : Req α) :=
  each_read fun s _ => .check l s hl

theorem each_commitInTransaction (attempts : ℕ) :
    RotationEach r provenWith since taken (r.rotateInTransaction provenWith since attempts) := by
  induction attempts with
  | zero => exact each_db fun s _ => .transaction s 0
  | succ attempts ih =>
    refine .bind (Prog.Each.attempt (each_db fun s _ => .transaction s (attempts + 1)))
      fun outcome => ?_
    split
    · exact each_ret _
    · dsimp only
      split
      · exact ih
      · exact each_raise _

theorem each_lowerRotationFence :
    RotationEach r provenWith since taken (lowerRotationFence r.lockId taken) :=
  each_db fun s _ => .lower s

theorem each_rotateTransactional :
    RotationEach r provenWith since taken (rotateTransactional r provenWith since taken) := by
  refine .bind (each_db fun s _ => .raise s _) fun _ => ?_
  refine .bind (Prog.Each.attempt (.bind (each_commitInTransaction _)
    fun _ => each_ofExcept _)) fun outcome => ?_
  refine .bind (.bind each_lowerRotationFence.attempt fun _ => each_ret _) fun _ => ?_
  exact each_ofExcept outcome

theorem each_commitSequentially :
    RotationEach r provenWith since taken (commitSequentially r provenWith since taken) := by
  unfold commitSequentially
  split
  · exact .bind (each_db fun s _ => .commit s) fun _ => each_ofExcept _
  · exact .bind each_lowerRotationFence fun _ => each_raise _

theorem each_rotateSequential :
    RotationEach r provenWith since taken (rotateSequential r provenWith since taken) := by
  unfold rotateSequential
  split
  · refine .bind (each_db fun s _ => .raise s _) fun _ => ?_
    refine .bind each_commitSequentially.attempt fun outcome => ?_
    split
    · exact each_ret _
    · exact .bind each_lowerRotationFence fun _ => each_raise _
  · exact each_raise _

theorem each_checkRotation : RotationEach r provenWith since taken (checkRotation r) := by
  refine .bind (each_rotationCheck rfl) fun stored => ?_
  split
  · exact each_raise _
  · refine .bind (.bind (.bind (each_rotationCheck rfl) fun found => ?_)
      fun _ => each_ofExcept _) fun _ => ?_
    · split
      · exact each_raise _
      · exact each_ret _
    · refine .bind (each_rotationCheck rfl) fun found => ?_
      split
      · refine .bind (each_rotationCheck rfl) fun pending => ?_
        split
        · exact each_raise _
        · exact each_ret _
      · exact each_raise _

/-- **The part of a rotation that holds the lock** consists of the statements listed. -/
theorem each_rotateUnderLock (env : Deployment) :
    RotationEach r provenWith since taken (rotateUnderLock env r provenWith since taken) := by
  refine .bind ?_ fun already => ?_
  · unfold alreadyRotated
    split
    · exact each_ret _
    · exact each_rotationCheck rfl
  · split
    · exact each_ret _
    · refine .bind each_checkRotation fun _ => ?_
      split
      · exact each_rotateTransactional
      · exact each_rotateSequential

end Effects

/-- A commit changes nothing, or writes an account that meets its condition. -/
theorem RotationRequest.commit_cases (r : RotationRequest) (provenWith : String) (lowers : Bool)
    (s : Store) : (r.commit provenWith lowers s).2 = s ∨
      ∃ u, s.user = some u ∧ r.commits provenWith u = true ∧
        (r.commit provenWith lowers s).2 =
          if lowers then { s with user := some (r.committed true u) }.dropRaised r.lockId
          else { s with user := some (r.committed false u) } := by
  unfold commit
  rcases s.updateUser_cases (r.commits provenWith) (r.committed lowers) with
    heq | ⟨u, hu, hcommits, heq⟩
  · rw [heq]
    exact .inl rfl
  · rw [heq]
    refine .inr ⟨u, hu, hcommits, ?_⟩
    cases lowers with
    | false => rfl
    | true => rfl

/-- A transaction changes nothing, or commits. -/
theorem RotationRequest.rotateOnce_cases (r : RotationRequest) (provenWith : String) (attempt : ℕ)
    (s : Store) : (r.rotateOnce provenWith attempt s).2 = s ∨
      (r.rotateOnce provenWith attempt s).2 = (r.commit provenWith false s).2 := by
  unfold rotateOnce
  split
  · exact .inr rfl
  · exact .inl rfl

end HVault.Account
