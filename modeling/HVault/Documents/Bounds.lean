import Mathlib.Algebra.Order.Group.Int
import HVault.Documents.Budget

/-!
# The bounds of an account

What an open reads and what it may then spend are promises about rows other requests move at the
same time. A `Limits` weighs the rows; `Kept` says that the rows, and what the completions have in
hand, stay within the limit, and that every open may rely on what it has read. Both bounds of an
account, on its documents and on their bytes, are instances.
-/

namespace HVault.Documents.Budget

open Interleave Function Finmap

variable {ι : Type} {d : Deployment} {x x' : Phase} {l : Site} {s s' : Store}

/-! ## The two locks -/

theorem Event.initLock (h : Event d x l s x' s') :
    LockStep .init x.initLock l s x'.initLock s' := by
  have hrelease : ∀ lockId, (releaseStatement .rotation lockId s).locks .init = s.locks .init :=
    fun lockId => releaseStatement_locks_of_ne (by simp) lockId s
  cases h with
  | calm _ h => exact .kept h.init
  | tick _ | dropUpload _ _ | dropDocument _ _ => exact .kept rfl
  | updateDocument _ _ => exact .kept (congrFun (s.updateDocument_frame _ _ _).2.1 _)
  | readUpload _ => exact .kept rfl
  | writeLedger _ => exact .kept (congrFun (s.writeLedger_frame _ _).2.1 _)
  | lockInit h =>
    exact .acquired (Nat.lt_add_of_pos_right initLockTtl_pos) h
      (acquireStatement_free initLockTtl h)
  | progress _ | mint _ _ _ => exact .kept rfl
  | stage _ _ _ _ _ => exact .kept (congrFun (s.insertUpload_frame _ _).2.1 _)
  | unlockInit _ => exact .released rfl
  | lockRotation _ _ => exact .kept (acquireStatement_locks_of_ne (by simp) _ s)
  | quotaHolds _ | quotaExceeded _ | claim _ _ _ => exact .kept rfl
  | insert _ _ _ _ => exact .kept (congrFun (s.insertDocument_frame _ _).2.1 _)
  | unlockRotation _ hx _ =>
    have hinit : x.initLock = none := by
      cases x with
      | opening lockId stage => cases hx
      | _ => rfl
    rw [hinit]
    exact .kept (hrelease _)
  | turnAway _ => exact .kept (hrelease _)

theorem Event.rotationLock (h : Event d x l s x' s') :
    LockStep .rotation x.rotationLock l s x'.rotationLock s' := by
  cases h with
  | calm _ h => exact .kept h.rotation
  | tick _ | dropUpload _ _ | dropDocument _ _ => exact .kept rfl
  | updateDocument _ _ => exact .kept (congrFun (s.updateDocument_frame _ _ _).2.1 _)
  | readUpload _ => exact .kept rfl
  | writeLedger _ => exact .kept (congrFun (s.writeLedger_frame _ _).2.1 _)
  | lockInit h => exact .kept (acquireStatement_locks_of_ne (by simp) _ s)
  | progress _ | mint _ _ _ => exact .kept rfl
  | stage _ _ _ _ _ => exact .kept (congrFun (s.insertUpload_frame _ _).2.1 _)
  | unlockInit _ => exact .kept (releaseStatement_locks_of_ne (by simp) _ s)
  | lockRotation h _ =>
    exact .acquired (Nat.lt_add_of_pos_right vaultRotationLockTtl_pos) h
      (acquireStatement_free vaultRotationLockTtl h)
  | quotaHolds _ | quotaExceeded _ | claim _ _ _ => exact .kept rfl
  | insert _ _ _ _ => exact .kept (congrFun (s.insertDocument_frame _ _).2.1 _)
  | unlockRotation _ hx _ =>
    rw [hx]
    exact .released rfl
  | turnAway _ => exact .released rfl

/-! ## Weights -/

/-- When an open read the clock. -/
def Opening.now : Opening → Option ℕ
  | locked => none
  | timed now | counted now | admitted now | measured now _ | priced now _ | minted now _ _ =>
    some now

/-- What rows weigh against a limit, and what an open may rely on: `found` bounds the live rows,
`room` is what it may still add. -/
structure Limits (d : Deployment) where
  row : Upload → ℤ
  document : Document → ℤ
  limit : ℤ
  found : Opening → Option ℤ
  room : Opening → Option ℤ
  row_nonneg : ∀ upload, 0 ≤ row upload
  document_nonneg : ∀ doc, 0 ≤ document doc
  row_withPart : ∀ upload entry, row (upload.withPart entry) = row upload
  document_congr : ∀ doc doc', doc'.plaintextBytes = doc.plaintextBytes →
    document doc' = document doc
  row_staged : ∀ now body id vaultKeyVersion s3UploadId, ∃ m, room (.minted now body id) = some m ∧
    row (body.staged d now vaultKeyVersion id s3UploadId) ≤ m
  found_minted : ∀ now body id, found (.minted now body id) = found (.priced now body)
  room_minted : ∀ now body id, room (.minted now body id) = room (.priced now body)

namespace Limits

variable (B : Limits d)

/-- The staging rows that are live at `now`. -/
def live (now : ℕ) (s : Store) : ℤ :=
  s.uploads.tally fun _ upload => if now < upload.expiresAt then B.row upload else 0

/-- The document rows. -/
def stored (s : Store) : ℤ := s.documents.tally fun _ document => B.document document

/-- What is neither a staging row nor a document row. -/
def hand (x : Phase) : ℤ := x.inTransit.elim 0 fun transit => B.document transit.2

variable {B}

theorem row_live_nonneg (now : ℕ) (upload : Upload) :
    0 ≤ if now < upload.expiresAt then B.row upload else 0 := by
  split
  · exact B.row_nonneg upload
  · exact le_rfl

theorem live_anti {now now' : ℕ} (h : now ≤ now') (s : Store) : B.live now' s ≤ B.live now s := by
  apply tally_mono
  intro _ upload
  split
  · rename_i hlt
    rw [if_pos (h.trans_lt hlt)]
  · exact row_live_nonneg now upload

theorem hand_nonneg (x : Phase) : 0 ≤ B.hand x := by
  unfold hand
  cases x.inTransit with
  | none => exact le_rfl
  | some transit => exact B.document_nonneg transit.2

theorem hand_eq_zero (h : x.inTransit = none) : B.hand x = 0 := by rw [hand, h]; rfl

theorem live_eraseUpload (now : ℕ) (id : ObjectId) (s : Store) :
    B.live now (s.eraseUpload id) ≤ B.live now s :=
  tally_erase_le (fun _ => row_live_nonneg now) s.uploads id

theorem live_claim {now : ℕ} {id : ObjectId} {upload : Upload}
    (h : s.uploads.lookup id = some upload) (hlive : now < upload.expiresAt) :
    B.live now (s.eraseUpload id) = B.live now s - B.row upload := by
  show tally _ (s.uploads.erase id) = _
  rw [tally_erase _ h, if_pos hlive]
  rfl

theorem live_insert {now : ℕ} {id : ObjectId} {upload : Upload} (h : id ∉ s.uploads) :
    B.live now { s with uploads := s.uploads.insert id upload } ≤ B.live now s + B.row upload := by
  show tally _ (s.uploads.insert id upload) ≤ _
  rw [tally_insert_of_notMem _ h]
  apply add_le_add_right
  split
  · exact le_rfl
  · exact B.row_nonneg upload

theorem live_writeLedger (now : ℕ) (id : ObjectId) (entry : LedgerPart) (s : Store) :
    B.live now (s.writeLedger id entry).2 = B.live now s := by
  rcases s.writeLedger_cases id entry with h | ⟨upload, hupload, h⟩
  · rw [h]
  · rw [h]
    show tally _ (s.uploads.insert id _) = _
    rw [tally_insert_of_lookup _ hupload, B.row_withPart]
    exact sub_add_cancel _ _

theorem stored_insertDocument (id : ObjectId) (document : Document) (s : Store) :
    B.stored (s.insertDocument id document).2 ≤ B.stored s + B.document document := by
  rcases s.insertDocument_cases id document with h | ⟨hid, h⟩
  · rw [h]
    exact le_add_of_nonneg_right (B.document_nonneg document)
  · rw [h]
    exact (tally_insert_of_notMem _ hid).le

theorem stored_updateDocument {id : ObjectId} {filter : Document → Bool}
    {update : ℕ → Document → Document}
    (hupdate : ∀ now document, (update now document).plaintextBytes = document.plaintextBytes)
    (s : Store) : B.stored (s.updateDocument id filter update).2 = B.stored s := by
  rcases s.updateDocument_cases id filter update with h | ⟨document, hdocument, -, h⟩
  · rw [h]
  · rw [h]
    show tally _ (s.documents.insert id _) = _
    rw [tally_insert_of_lookup _ hdocument, B.document_congr _ _ (hupdate _ document)]
    exact sub_add_cancel _ _

theorem stored_eraseDocument (id : ObjectId) (s : Store) :
    B.stored (s.eraseDocument id) ≤ B.stored s :=
  tally_erase_le (fun _ => B.document_nonneg) s.documents id

end Limits

/-- A claim finds its staging row stored and live, and the row weighs what the document will. -/
def Limits.ClaimsLive (B : Limits d) (x : Phase) (l : Site) (s : Store) : Prop :=
  ∀ lockId id transfer, x = .admitted lockId id transfer →
    l = .claimUpload id ∧ id ∈ s.uploads ∨ l = .claimMultipart id → ∃ upload,
      s.uploads.lookup id = some upload ∧ s.clock < upload.expiresAt ∧
      ∀ document : Document, document.plaintextBytes = transfer.framing.plaintextBytes →
        B.document document ≤ B.row upload

/-- An event writes a staging row an open has paid for, or makes nothing weigh more. -/
theorem Event.weighs (B : Limits d) (h : Event d x l s x' s') (hclaim : B.ClaimsLive x l s) :
    (∃ lockId now body id vaultKeyVersion s3UploadId,
      x = .opening lockId (.minted now body id) ∧ x' = .opening lockId .locked ∧
      s' = (s.insertUpload id (body.staged d now vaultKeyVersion id s3UploadId)).2) ∨
    (∀ now, B.live now s' ≤ B.live now s) ∧ ∀ now ≤ s.clock,
      B.stored s' + B.live now s' + B.hand x' ≤ B.stored s + B.live now s + B.hand x := by
  -- most events leave the rows alone
  have hsame : ∀ {x' s'}, s'.uploads = s.uploads → s'.documents = s.documents →
      B.hand x' = B.hand x → (∀ now, B.live now s' ≤ B.live now s) ∧ ∀ now ≤ s.clock,
        B.stored s' + B.live now s' + B.hand x' ≤ B.stored s + B.live now s + B.hand x := by
    intro x' s' huploads hdocuments hhand
    have hlive : ∀ now, B.live now s' = B.live now s := fun now => by
      rw [Limits.live, huploads, Limits.live]
    have hstored : B.stored s' = B.stored s := by rw [Limits.stored, hdocuments, Limits.stored]
    refine ⟨fun now => (hlive now).le, fun now _ => ?_⟩
    rw [hlive now, hstored, hhand]
  cases h with
  | calm _ h => exact .inr (hsame h.uploads h.documents rfl)
  | tick _ => exact .inr (hsame rfl rfl rfl)
  | dropUpload id _ _ =>
    refine .inr ⟨fun now => Limits.live_eraseUpload now id s, fun now _ => ?_⟩
    have hle : B.live now (s.eraseUpload id) ≤ B.live now s := Limits.live_eraseUpload now id s
    have hstored : B.stored (s.eraseUpload id) = B.stored s := rfl
    omega
  | dropDocument id _ _ =>
    have hlive : ∀ now, B.live now (s.eraseDocument id) = B.live now s := fun _ => rfl
    refine .inr ⟨fun now => (hlive now).le, fun now _ => ?_⟩
    have hle : B.stored (s.eraseDocument id) ≤ B.stored s := Limits.stored_eraseDocument id s
    have := hlive now
    omega
  | @updateDocument _ id filter update _ hupdate =>
    have hlive : ∀ now, B.live now (s.updateDocument id filter update).2 = B.live now s :=
      fun now => by rw [Limits.live, (s.updateDocument_frame id filter update).1, Limits.live]
    refine .inr ⟨fun now => (hlive now).le, fun now _ => ?_⟩
    rw [hlive now, Limits.stored_updateDocument hupdate]
  | readUpload _ => exact .inr (hsame rfl rfl rfl)
  | @writeLedger _ _ id _ entry _ =>
    refine .inr ⟨fun now => (Limits.live_writeLedger now id entry s).le, fun now _ => ?_⟩
    have hstored : B.stored (s.writeLedger id entry).2 = B.stored s := by
      rw [Limits.stored, (s.writeLedger_frame id entry).1, Limits.stored]
    rw [Limits.live_writeLedger, hstored]
    exact le_rfl
  | lockInit _ =>
    obtain ⟨huploads, hdocuments, -, -⟩ := acquireStatement_rows .init initLockTtl s
    exact .inr (hsame huploads hdocuments rfl)
  | progress _ | mint _ _ _ => exact .inr (hsame rfl rfl rfl)
  | stage lockId now _ vaultKeyVersion s3UploadId =>
    exact .inl ⟨lockId, now, _, _, vaultKeyVersion, s3UploadId, rfl, rfl, rfl⟩
  | @unlockInit lockId _ _ _ =>
    obtain ⟨huploads, hdocuments, -, -⟩ := releaseStatement_rows .init lockId s
    exact .inr (hsame huploads hdocuments rfl)
  | lockRotation _ _ =>
    obtain ⟨huploads, hdocuments, -, -⟩ := acquireStatement_rows .rotation vaultRotationLockTtl s
    exact .inr (hsame huploads hdocuments rfl)
  | quotaHolds _ | quotaExceeded _ => exact .inr (hsame rfl rfl rfl)
  | @claim lockId id transfer _ _ document hl hd =>
    -- the row leaves the staging rows, and the document comes into the hand
    obtain ⟨upload, hupload, hlive, hweight⟩ := hclaim lockId id transfer rfl hl
    refine .inr ⟨fun now => Limits.live_eraseUpload now id s, fun now hnow => ?_⟩
    have herase : B.live now (s.eraseUpload id) = B.live now s - B.row upload :=
      Limits.live_claim hupload (hnow.trans_lt hlive)
    have hstored : B.stored (s.eraseUpload id) = B.stored s := rfl
    have hbefore : B.hand (.admitted lockId id transfer) = 0 := rfl
    have hafter : B.hand (.transit lockId id document) = B.document document := rfl
    have hle := hweight document hd
    omega
  | insert lockId id document _ =>
    have hlive : ∀ now, B.live now (s.insertDocument id document).2 = B.live now s :=
      fun now => by rw [Limits.live, (s.insertDocument_frame id document).1, Limits.live]
    refine .inr ⟨fun now => (hlive now).le, fun now _ => ?_⟩
    have hle : B.stored (s.insertDocument id document).2 ≤ B.stored s + B.document document :=
      Limits.stored_insertDocument id document s
    have hbefore : B.hand (.transit lockId id document) = B.document document := rfl
    have hafter : B.hand (.leaving lockId) = 0 := rfl
    have := hlive now
    omega
  | @unlockRotation _ lockId _ _ hx htransit =>
    obtain ⟨huploads, hdocuments, -, -⟩ := releaseStatement_rows .rotation lockId s
    exact .inr (hsame huploads hdocuments (Limits.hand_eq_zero htransit).symm)
  | @turnAway lockId _ _ =>
    obtain ⟨huploads, hdocuments, -, -⟩ := releaseStatement_rows .rotation lockId s
    exact .inr (hsame huploads hdocuments rfl)

theorem Event.clock_le (h : Event d x l s x' s') : s.clock ≤ s'.clock := by
  cases h with
  | calm _ h => exact h.clock.ge
  | tick milliseconds => exact Nat.le_add_right _ milliseconds
  | updateDocument _ _ => exact (s.updateDocument_frame _ _ _).2.2.1.ge
  | writeLedger _ => exact (s.writeLedger_frame _ _).2.2.1.ge
  | lockInit _ => exact (acquireStatement_rows .init initLockTtl s).2.2.1.ge
  | stage _ _ _ _ _ => exact (s.insertUpload_frame _ _).2.2.1.ge
  | unlockInit _ => exact (releaseStatement_rows .init _ s).2.2.1.ge
  | lockRotation _ _ => exact (acquireStatement_rows .rotation vaultRotationLockTtl s).2.2.1.ge
  | insert _ _ _ _ => exact (s.insertDocument_frame _ _).2.2.1.ge
  | unlockRotation _ _ _ | turnAway _ => exact (releaseStatement_rows .rotation _ s).2.2.1.ge
  | _ => exact le_rfl

/-- Only the passing of time moves the clock. -/
theorem Event.clock_eq (h : Event d x l s x' s') (hx : x ≠ .ticking) :
    s'.clock = s.clock ∧ x' ≠ .ticking := by
  cases h with
  | calm _ h => exact ⟨h.clock, hx⟩
  | tick _ _ => exact (hx rfl).elim
  | dropUpload _ _ _ | dropDocument _ _ _ => exact ⟨rfl, hx⟩
  | updateDocument _ _ => exact ⟨(s.updateDocument_frame _ _ _).2.2.1, nofun⟩
  | writeLedger _ => exact ⟨(s.writeLedger_frame _ _).2.2.1, nofun⟩
  | lockInit _ => exact ⟨(acquireStatement_rows .init initLockTtl s).2.2.1, nofun⟩
  | stage _ _ _ _ _ => exact ⟨(s.insertUpload_frame _ _).2.2.1, nofun⟩
  | unlockInit _ => exact ⟨(releaseStatement_rows .init _ s).2.2.1, nofun⟩
  | lockRotation _ _ =>
    exact ⟨(acquireStatement_rows .rotation vaultRotationLockTtl s).2.2.1, nofun⟩
  | insert _ _ _ _ => exact ⟨(s.insertDocument_frame _ _).2.2.1, nofun⟩
  | unlockRotation _ _ _ | turnAway _ => exact ⟨(releaseStatement_rows .rotation _ s).2.2.1, nofun⟩
  | _ => exact ⟨rfl, nofun⟩

/-- How an open comes to a stage. -/
theorem Event.opening {lockId : ℕ} {stage : Opening}
    (h : Event d x l s (.opening lockId stage) s') :
    stage = .locked ∨ x = .opening lockId stage ∨
      (∃ before, x = .opening lockId before ∧ OpenStep d l s before stage ∧ s' = s) ∨
      ∃ now body id, x = .opening lockId (.priced now body) ∧ stage = .minted now body id := by
  cases h with
  | lockInit _ | stage _ _ _ _ _ => exact .inl rfl
  | progress h => exact .inr (.inr (.inl ⟨_, rfl, h, rfl⟩))
  | mint _ now body => exact .inr (.inr (.inr ⟨now, body, _, rfl, rfl⟩))
  | _ => exact .inr (.inl rfl)

/-! ## Limits that are kept -/

namespace Limits

variable {B : Limits d} {n : ℤ}

/-- What an open may rely on, with `n` in hand of the completions. -/
structure Promise (B : Limits d) (s : Store) (n : ℤ) (stage : Opening) : Prop where
  past : ∀ now, stage.now = some now → now ≤ s.clock
  found : ∀ now m, stage.now = some now → B.found stage = some m → B.live now s ≤ m
  room : ∀ now m, stage.now = some now → B.room stage = some m →
    B.stored s + B.live now s + n + m ≤ B.limit

theorem promise_locked : B.Promise s n .locked := ⟨nofun, nofun, nofun⟩

/-- A promise outlives a step that makes nothing weigh more. -/
theorem Promise.mono {n' : ℤ} {stage : Opening} (h : B.Promise s n stage)
    (hclock : s.clock ≤ s'.clock) (hlive : ∀ now, B.live now s' ≤ B.live now s)
    (htotal : ∀ now ≤ s.clock, B.stored s' + B.live now s' + n' ≤ B.stored s + B.live now s + n) :
    B.Promise s' n' stage where
  past now hnow := (h.past now hnow).trans hclock
  found now m hnow hm := (hlive now).trans (h.found now m hnow hm)
  room now m hnow hm := by
    have hle := htotal now (h.past now hnow)
    have hroom := h.room now m hnow hm
    omega

theorem Promise.mint {now : ℕ} {body : InitDocumentUploadInput} {id : ObjectId}
    (h : B.Promise s n (.priced now body)) : B.Promise s n (.minted now body id) where
  past := h.past
  found now' m hnow hm := h.found now' m hnow ((B.found_minted now body id).symm.trans hm)
  room now' m hnow hm := h.room now' m hnow ((B.room_minted now body id).symm.trans hm)

/-- The rows are within the limit, and every open may rely on what it has read. -/
structure Kept (B : Limits d) (s : Store) (x : ι → Phase) (n : ℤ) : Prop where
  exclusive : Exclusive .init Phase.initLock s x
  carries : Carries B.hand x n
  within : B.stored s + B.live s.clock s + n ≤ B.limit
  promised : ∀ i lockId stage, x i = .opening lockId stage → B.Promise s n stage

theorem kept_start {requests : ι → Request} (huploads : s.uploads = ∅)
    (hdocuments : s.documents = ∅) (hlimit : 0 ≤ B.limit) :
    B.Kept s (fun i => start (requests i)) 0 where
  exclusive := by
    apply exclusive_start
    intro i
    rcases start_cases (requests i) with h | h
    · rw [h]
      rfl
    · rw [h]
      rfl
  carries := by
    apply carries_zero
    intro i
    rcases start_cases (requests i) with h | h
    · rw [h]
      rfl
    · rw [h]
      rfl
  within := by
    rw [stored, live, huploads, hdocuments, tally_empty, tally_empty]
    exact hlimit
  promised i lockId stage hi := by
    rcases start_cases (requests i) with h | h
    · exact nomatch h.symm.trans hi
    · exact nomatch h.symm.trans hi

/-- **Every event keeps a limit**, as long as the locks do not lapse, claims find their rows live,
and what an open reads is what the limit lets it rely on. -/
theorem Kept.step [DecidableEq ι] {x : ι → Phase} {i : ι} (h : B.Kept s x n)
    (he : Event d (x i) l s x' s') (hlock : LockHolds .init s l) (hclaim : B.ClaimsLive (x i) l s)
    (hread : ∀ lockId stage stage', x i = .opening lockId stage → OpenStep d l s stage stage' →
      B.Promise s n stage → B.Promise s n stage') :
    B.Kept s' (Function.update x i x') (n - B.hand (x i) + B.hand x') := by
  have hexclusive := h.exclusive.step hlock he.initLock
  have hcarries := h.carries.update i x'
  have hother : ∀ j, j ≠ i → update x i x' j = x j :=
    fun j hj => update_of_ne hj _ _
  rcases he.weighs B hclaim with ⟨lockId, now, body, id, vaultKeyVersion, s3UploadId, hi, hx', hs'⟩ |
    ⟨hlive, htotal⟩
  · -- an open spends what it was promised; nobody else is opening
    have hhand : n - B.hand (x i) + B.hand x' = n := by
      rw [hi, hx']
      exact (add_zero _).trans (sub_zero n)
    rw [hhand] at hcarries ⊢
    have hpromise := h.promised i lockId _ hi
    obtain ⟨m, hm, hrow⟩ := B.row_staged now body id vaultKeyVersion s3UploadId
    generalize body.staged d now vaultKeyVersion id s3UploadId = upload at hrow hs'
    have hroom := hpromise.room now m rfl hm
    have hnow : B.live s.clock s ≤ B.live now s := live_anti (hpromise.past now rfl) s
    refine ⟨hexclusive, hcarries, ?_, fun j lockId' stage hj => ?_⟩
    · rcases s.insertUpload_cases id upload with heq | ⟨hid, heq⟩
      · rw [hs', heq]
        exact h.within
      · rw [hs', heq]
        have hinsert : B.live s.clock { s with uploads := s.uploads.insert id upload }
            ≤ B.live s.clock s + B.row upload := live_insert hid
        have hwithin : B.stored s + B.live s.clock { s with
            uploads := s.uploads.insert id upload } + n ≤ B.limit := by omega
        exact hwithin
    · by_cases hji : j = i
      · subst hji
        rw [update_self, hx'] at hj
        cases hj
        exact promise_locked
      · rw [hother j hji] at hj
        refine (hji (h.exclusive.unique j i ?_ ?_)).elim
        · rw [hj]
          rfl
        · rw [hi]
          rfl
  · have htotal' : ∀ now ≤ s.clock, B.stored s' + B.live now s' + (n - B.hand (x i) + B.hand x')
        ≤ B.stored s + B.live now s + n := by
      intro now hnow
      have := htotal now hnow
      omega
    refine ⟨hexclusive, hcarries, ?_, fun j lockId stage hj => ?_⟩
    · have hle := htotal' s.clock le_rfl
      have hanti : B.live s'.clock s' ≤ B.live s.clock s' := live_anti he.clock_le s'
      have hwithin := h.within
      omega
    · have hmono : B.Promise s n stage →
          B.Promise s' (n - B.hand (x i) + B.hand x') stage :=
        fun hp => hp.mono he.clock_le hlive htotal'
      by_cases hji : j = i
      · subst hji
        rw [update_self] at hj
        rw [hj] at he
        rcases he.opening with rfl | hsame | ⟨before, hbefore, hstep, -⟩ | ⟨now, body, id, hbefore, rfl⟩
        · exact promise_locked
        · exact hmono (h.promised j lockId stage hsame)
        · exact hmono (hread lockId before stage hbefore hstep (h.promised j lockId _ hbefore))
        · exact hmono (h.promised j lockId _ hbefore).mint
      · rw [hother j hji] at hj
        exact hmono (h.promised j lockId stage hj)

end Limits

/-! ## Where the programs are -/

/-- What is in transit is inserted next. -/
theorem Event.transit_site {id : ObjectId} {document : Document} (h : Event d x l s x' s')
    (hx : x.inTransit = some (id, document)) : l = .insertDocument id := by
  cases h with
  | insert _ _ _ _ =>
    cases hx
    rfl
  | calm h _ | dropUpload _ _ h | dropDocument _ _ h | unlockRotation _ _ h =>
    rw [h] at hx
    cases hx
  | _ => exact nomatch hx

/-- Whether an access inserts a document row. -/
def isInsert : Site → Bool
  | .insertDocument _ => true
  | _ => false

/-- No completion stands between its claim and its insert. -/
def NoneInTransit (c : Config ι Store Site DocumentError Answer) : Prop :=
  ∀ i, ∀ l ∈ c.nextSite i, isInsert l = false

instance [Fintype ι] (c : Config ι Store Site DocumentError Answer) : Decidable (NoneInTransit c) :=
  inferInstanceAs (Decidable (∀ i, ∀ l ∈ c.nextSite i, isInsert l = false))

/-- The staging row is stored and has not expired. -/
def LiveUpload (s : Store) (id : ObjectId) : Prop :=
  ∃ upload ∈ s.uploads.lookup id, s.clock < upload.expiresAt

instance (s : Store) (id : ObjectId) : Decidable (LiveUpload s id) :=
  inferInstanceAs (Decidable (∃ upload ∈ s.uploads.lookup id, s.clock < upload.expiresAt))

/-- The staging row a claim takes; the claim of a multipart upload takes it without condition. -/
def claimed (s : Store) : Site → Option ObjectId
  | .claimUpload id => if id ∈ s.uploads then some id else none
  | .claimMultipart id => some id
  | _ => none

/-- A claim finds the staging row it takes stored, and not expired. -/
def ClaimsLive (s : Store) (l : Site) : Prop := ∀ id ∈ claimed s l, LiveUpload s id

instance (s : Store) (l : Site) : Decidable (ClaimsLive s l) :=
  inferInstanceAs (Decidable (∀ id ∈ claimed s l, LiveUpload s id))

theorem ClaimsLive.live {id : ObjectId} (h : ClaimsLive s l)
    (hl : l = .claimUpload id ∧ id ∈ s.uploads ∨ l = .claimMultipart id) : LiveUpload s id := by
  rcases hl with ⟨rfl, hid⟩ | rfl
  · exact h id (if_pos hid)
  · exact h id rfl

variable {requests : ι → Request} {c : Config ι Store Site DocumentError Answer} {x : ι → Phase}

/-- Every program of a configuration is in its phase. -/
abbrev InPhase (d : Deployment) (requests : ι → Request)
    (c : Config ι Store Site DocumentError Answer) (x : ι → Phase) : Prop :=
  c.In noFaults (Event d) (fun i => Ended (Completes (requests i)))
    (fun i => start (requests i)) x

theorem inTransit_eq_none (hin : InPhase d requests c x) (h : NoneInTransit c) (i : ι) :
    (x i).inTransit = none := by
  by_contra hne
  obtain ⟨⟨id, document⟩, hx⟩ := Option.ne_none_iff_exists'.1 hne
  have hstart : x i ≠ start (requests i) := by
    intro h
    rw [h] at hx
    rcases start_cases (requests i) with h | h
    · rw [h] at hx
      cases hx
    · rw [h] at hx
      exact nomatch hx
  obtain ⟨l, hl, _, _, he⟩ := hin.waiting hstart fun r hr => hne hr.1
  rw [he.transit_site hx] at hl
  exact nomatch h i _ hl

theorem obeys_admitted {i : ι} {p : Req Answer} (hp : (documentSystem d requests).admits i p) :
    p.Obeys noFaults (Event d) (Ended (Completes (requests i))) (start (requests i)) := by
  cases hp
  exact obeys_request (requests i)

end HVault.Documents.Budget
