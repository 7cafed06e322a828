import HVault.Documents.Count

/-!
# The byte quota of an account

The bytes of the documents never exceed the quota: a completion measures them under the exclusion
lock and inserts under the same acquisition. The bytes that are declared and not committed yet are
reserved as well, as long as no open measures while a completion stands between its claim and its
insert; a transfer then never finds the quota spent. What connects the two is the ledger: a document
weighs exactly what its transfer declared.
-/

namespace HVault.Documents.Budget

open Interleave List Function Finmap

variable {ι : Type} {d : Deployment} {x x' : Phase} {l : Site} {s s' : Store}

/-! ## Committed bytes -/

/-- The bytes a completion is about to commit. -/
def Phase.owes : Phase → Option ℕ
  | admitted _ _ transfer => some transfer.framing.plaintextBytes
  | transit _ _ document => some document.plaintextBytes
  | _ => none

theorem Phase.owes_locked {m : ℕ} (h : x.owes = some m) : x.rotationLock.isSome := by
  cases x with
  | admitted _ _ _ => rfl
  | transit _ _ _ => rfl
  | _ => cases h

/-- Bytes are committed by the insert of what was owed. -/
theorem Event.committedBytes (h : Event d x l s x' s') :
    committedBytesFor s' ≤ committedBytesFor s ∨ ∃ m, x.owes = some m ∧ x'.owes = none ∧
      committedBytesFor s' ≤ committedBytesFor s + m := by
  have hsame : ∀ {s' : Store}, s'.documents = s.documents →
      committedBytesFor s' ≤ committedBytesFor s := by
    intro s' hdocuments
    rw [committedBytesFor, hdocuments]
    exact le_rfl
  cases h with
  | calm _ h => exact .inl (hsame h.documents)
  | dropDocument id _ _ =>
    exact .inl (tally_erase_le (fun _ _ => Int.natCast_nonneg _) s.documents id)
  | @updateDocument _ id filter update _ hupdate =>
    left
    rcases s.updateDocument_cases id filter update with h | ⟨document, hdocument, -, h⟩
    · rw [h]
    · rw [h]
      show tally _ (s.documents.insert id _) ≤ _
      rw [tally_insert_of_lookup _ hdocument, hupdate]
      exact (sub_add_cancel _ _).le
  | writeLedger _ => exact .inl (hsame (s.writeLedger_frame _ _).1)
  | lockInit _ => exact .inl (hsame (acquireStatement_rows .init initLockTtl s).2.1)
  | stage _ _ _ _ _ => exact .inl (hsame (s.insertUpload_frame _ _).1)
  | unlockInit _ => exact .inl (hsame (releaseStatement_rows .init _ s).2.1)
  | lockRotation _ _ =>
    exact .inl (hsame (acquireStatement_rows .rotation vaultRotationLockTtl s).2.1)
  | insert lockId id document _ =>
    right
    refine ⟨document.plaintextBytes, rfl, rfl, ?_⟩
    rcases s.insertDocument_cases id document with h | ⟨hid, h⟩
    · rw [h]
      exact le_add_of_nonneg_right (Int.natCast_nonneg _)
    · rw [h]
      exact (tally_insert_of_notMem _ hid).le
  | unlockRotation _ _ _
  | turnAway _ => exact .inl (hsame (releaseStatement_rows .rotation _ s).2.1)
  | _ => exact .inl le_rfl

/-- What a completion owes, it has seen the quota hold. -/
theorem Event.owes {m : ℕ} (h : Event d x l s x' s') (hm : x'.owes = some m) :
    x.owes = some m ∨ s' = s ∧ committedBytesFor s + m ≤ d.storageQuotaBytes := by
  cases h with
  | quotaHolds h =>
    cases hm
    exact .inr ⟨rfl, h⟩
  | claim _ _ hd =>
    left
    rw [← hm]
    exact congrArg some hd.symm
  | calm _ _ | dropUpload _ _ _ | dropDocument _ _ _ => exact .inl hm
  | _ => cases hm

/-- The documents fit the quota, also after the completion that has seen it hold. -/
structure Spent (d : Deployment) (s : Store) (x : ι → Phase) : Prop where
  exclusive : Exclusive .rotation Phase.rotationLock s x
  committed : committedBytesFor s ≤ d.storageQuotaBytes
  owed : ∀ i m, (x i).owes = some m → committedBytesFor s + m ≤ d.storageQuotaBytes

theorem spent_start {requests : ι → Request} (hdocuments : s.documents = ∅) :
    Spent d s fun i => start (requests i) where
  exclusive := by
    apply exclusive_start
    intro i
    rcases start_cases (requests i) with h | h
    · rw [h]
      rfl
    · rw [h]
      rfl
  committed := by
    rw [committedBytesFor, hdocuments, tally_empty]
    exact Int.natCast_nonneg _
  owed i m h := by
    rcases start_cases (requests i) with hi | hi
    · rw [hi] at h
      cases h
    · rw [hi] at h
      exact nomatch h

theorem Spent.step [DecidableEq ι] {x : ι → Phase} {i : ι} (h : Spent d s x)
    (he : Event d (x i) l s x' s') (hlock : LockHolds .rotation s l) :
    Spent d s' (Function.update x i x') := by
  have hexclusive := h.exclusive.step hlock he.rotationLock
  rcases he.committedBytes with hle | ⟨m, hm, hx', hle⟩
  · refine ⟨hexclusive, hle.trans h.committed, fun j m hj => ?_⟩
    by_cases hji : j = i
    · subst hji
      rw [update_self] at hj
      rcases he.owes hj with howed | ⟨rfl, howed⟩
      · have := h.owed j m howed
        omega
      · exact howed
    · rw [update_of_ne hji] at hj
      have := h.owed j m hj
      omega
  · -- the one insert of the holder of the exclusion lock; nobody else owes anything
    refine ⟨hexclusive, hle.trans (h.owed i m hm), fun j m' hj => ?_⟩
    by_cases hji : j = i
    · subst hji
      rw [update_self, hx'] at hj
      cases hj
    · rw [update_of_ne hji] at hj
      exact (hji (h.exclusive.unique j i (Phase.owes_locked hj) (Phase.owes_locked hm))).elim

/-! ## What the transfers declare -/

/-- Where the staging rows after an event come from. -/
theorem Event.rows {id : ObjectId} {row : Upload} (h : Event d x l s x' s')
    (hrow : s'.uploads.lookup id = some row) :
    (∃ before, s.uploads.lookup id = some before ∧ row.blank = before.blank ∧
      (row = before ∨ ∃ upload entry, x = .reading id upload ∧
        upload.requiredBytes entry.partNumber = some entry.bytes ∧ row = before.withPart entry)) ∨
    ∃ lockId now body vaultKeyVersion s3UploadId, x = .opening lockId (.minted now body id) ∧
      x' = .opening lockId .locked ∧ row = body.staged d now vaultKeyVersion id s3UploadId := by
  have hsame : ∀ {s' : Store}, s'.uploads = s.uploads → s'.uploads.lookup id = some row →
      ∃ before, s.uploads.lookup id = some before ∧ row.blank = before.blank ∧
        (row = before ∨ ∃ upload entry, x = .reading id upload ∧
          upload.requiredBytes entry.partNumber = some entry.bytes ∧
          row = before.withPart entry) := by
    intro s' huploads hrow
    rw [huploads] at hrow
    exact ⟨row, hrow, rfl, .inl rfl⟩
  have herase : ∀ id', (s.eraseUpload id').uploads.lookup id = some row →
      s.uploads.lookup id = some row := by
    intro id' hrow
    have hne : id ≠ id' := by
      rintro rfl
      exact nomatch (lookup_erase _ _).symm.trans hrow
    exact (lookup_erase_ne hne).symm.trans hrow
  cases h with
  | calm _ h => exact .inl (hsame h.uploads hrow)
  | dropUpload id' _ _ => exact .inl (hsame rfl (herase id' hrow))
  | updateDocument _ _ => exact .inl (hsame (s.updateDocument_frame _ _ _).1 hrow)
  | @writeLedger _ _ id' upload entry hentry =>
    rcases s.writeLedger_cases id' entry with h | ⟨before, hbefore, h⟩
    · rw [h] at hrow
      exact .inl (hsame rfl hrow)
    · rw [h] at hrow
      by_cases hid : id = id'
      · subst hid
        have hwritten : some (before.withPart entry) = some row :=
          (lookup_insert _).symm.trans hrow
        cases hwritten
        exact .inl ⟨before, hbefore, rfl, .inr ⟨upload, entry, rfl, hentry, rfl⟩⟩
      · exact .inl (hsame rfl ((lookup_insert_of_ne _ hid).symm.trans hrow))
  | lockInit _ => exact .inl (hsame (acquireStatement_rows .init initLockTtl s).1 hrow)
  | @stage lockId now _ body id' _ vaultKeyVersion s3UploadId =>
    rcases s.insertUpload_cases id' (body.staged d now vaultKeyVersion id' s3UploadId) with
      h | ⟨hid, h⟩
    · rw [h] at hrow
      exact .inl (hsame rfl hrow)
    · rw [h] at hrow
      by_cases hid : id = id'
      · subst hid
        have hwritten : some (body.staged d now vaultKeyVersion id s3UploadId) = some row :=
          (lookup_insert _).symm.trans hrow
        cases hwritten
        exact .inr ⟨lockId, now, body, vaultKeyVersion, s3UploadId, rfl, rfl, rfl⟩
      · exact .inl (hsame rfl ((lookup_insert_of_ne _ hid).symm.trans hrow))
  | unlockInit _ => exact .inl (hsame (releaseStatement_rows .init _ s).1 hrow)
  | lockRotation _ _ =>
    exact .inl (hsame (acquireStatement_rows .rotation vaultRotationLockTtl s).1 hrow)
  | claim _ _ _ => exact .inl (hsame rfl (herase _ hrow))
  | insert _ _ _ _ => exact .inl (hsame (s.insertDocument_frame _ _).1 hrow)
  | unlockRotation _ _ _
  | turnAway _ => exact .inl (hsame (releaseStatement_rows .rotation _ s).1 hrow)
  | _ => exact .inl (hsame rfl hrow)

theorem Event.minted_le (h : Event d x l s x' s') : s.minted ≤ s'.minted := by
  cases h with
  | calm _ h => exact h.minted
  | updateDocument _ _ => exact (s.updateDocument_frame _ _ _).2.2.2.ge
  | writeLedger _ => exact (s.writeLedger_frame _ _).2.2.2.ge
  | lockInit _ => exact (acquireStatement_rows .init initLockTtl s).2.2.2
  | mint _ _ _ => exact Nat.le_succ _
  | stage _ _ _ _ _ => exact (s.insertUpload_frame _ _).2.2.2.ge
  | unlockInit _ => exact (releaseStatement_rows .init _ s).2.2.2.ge
  | lockRotation _ _ => exact (acquireStatement_rows .rotation vaultRotationLockTtl s).2.2.2
  | insert _ _ _ _ => exact (s.insertDocument_frame _ _).2.2.2.ge
  | unlockRotation _ _ _ | turnAway _ => exact (releaseStatement_rows .rotation _ s).2.2.2.ge
  | _ => exact le_rfl

/-- A staging row in hand was there already, or has just been read. -/
theorem Event.inHand {id : ObjectId} {upload : Upload} (h : Event d x l s x' s')
    (hx' : x'.inHand = some (id, upload)) :
    x.inHand = some (id, upload) ∨ s.uploads.lookup id = some upload ∧ s' = s := by
  cases h with
  | readUpload h =>
    cases hx'
    exact .inr ⟨h, rfl⟩
  | lockRotation _ _ | quotaHolds _ | calm _ _ | dropUpload _ _ _ | dropDocument _ _ _ =>
    exact .inl hx'
  | _ => cases hx'

/-- An id in the hand of an open was there already, or has just been minted. -/
theorem Event.minting {lockId now : ℕ} {body : InitDocumentUploadInput} {id : ObjectId}
    (h : Event d x l s (.opening lockId (.minted now body id)) s') :
    x = .opening lockId (.minted now body id) ∨
      id.counter = s.minted ∧ s'.minted = s.minted + 1 ∧ s'.uploads = s.uploads := by
  cases h with
  | mint _ _ _ => exact .inr ⟨rfl, rfl, rfl⟩
  | progress h => cases h
  | _ => exact .inl rfl

/-- The parts of a completion in hand are measured. -/
def Phase.Measures : Phase → Prop
  | excluded _ _ transfer | admitted _ _ transfer =>
    measureParts transfer.upload transfer.engine = .ok transfer.framing
  | _ => True

theorem Event.measures (h : Event d x l s x' s') (hx : x.Measures) : x'.Measures := by
  cases h with
  | lockRotation _ hm => exact hm
  | calm _ _ | dropUpload _ _ _ | dropDocument _ _ _ | quotaHolds _ => exact hx
  | _ => exact trivial

/-- Ids are minted once, and a staging row in hand declares what the stored one does. -/
structure Declared (s : Store) (x : ι → Phase) : Prop where
  exact : ∀ id row, s.uploads.lookup id = some row → row.Exact ∧ id.counter < s.minted
  hand : ∀ i id upload, (x i).inHand = some (id, upload) → upload.Exact ∧ id.counter < s.minted ∧
    ∀ row, s.uploads.lookup id = some row → row.blank = upload.blank
  fresh : ∀ i lockId now body id, x i = .opening lockId (.minted now body id) →
    id.counter < s.minted ∧ id ∉ s.uploads ∧ ∀ j upload, (x j).inHand ≠ some (id, upload)
  measured : ∀ i, (x i).Measures

theorem declared_start {requests : ι → Request} (huploads : s.uploads = ∅) :
    Declared s fun i => start (requests i) where
  exact id row hrow := by
    rw [huploads] at hrow
    cases hrow
  hand i id upload h := by
    rcases start_cases (requests i) with hi | hi
    · rw [hi] at h
      cases h
    · rw [hi] at h
      exact nomatch h
  fresh i lockId now body id h := by
    rcases start_cases (requests i) with hi | hi
    · rw [hi] at h
      cases h
    · rw [hi] at h
      exact nomatch h
  measured i := by
    rcases start_cases (requests i) with h | h
    · rw [h]
      trivial
    · rw [h]
      trivial

theorem staged_exact (body : InitDocumentUploadInput) (now vaultKeyVersion : ℕ) (id : ObjectId)
    (s3UploadId : Option ℕ) : (body.staged d now vaultKeyVersion id s3UploadId).Exact where
  positive := by
    show 0 < documentPlaintextChunkBytes
    decide
  consistent := body.consistent
  parts part hpart := nomatch hpart

theorem Declared.step [DecidableEq ι] {x : ι → Phase} {i : ι} (h : Declared s x)
    (hinit : Exclusive .init Phase.initLock s x) (he : Event d (x i) l s x' s') :
    Declared s' (Function.update x i x') := by
  have hminted := he.minted_le
  have hother : ∀ j, j ≠ i → update x i x' j = x j :=
    fun j hj => update_of_ne hj _ _
  -- only an id that nobody has in hand may come to name a new row
  have hrows : ∀ j id upload, (x j).inHand = some (id, upload) → ∀ row,
      s'.uploads.lookup id = some row → row.blank = upload.blank := by
    intro j id upload hj row hrow
    rcases he.rows hrow with ⟨before, hbefore, hblank, -⟩ | ⟨_, _, _, _, _, hi, -, -⟩
    · exact hblank.trans ((h.hand j id upload hj).2.2 before hbefore)
    · exact ((h.fresh i _ _ _ id hi).2.2 j upload hj).elim
  refine ⟨fun id row hrow => ?_, fun j id upload hj => ?_, fun j lockId now body id hj => ?_,
    fun j => ?_⟩
  · rcases he.rows hrow with ⟨before, hbefore, -, hwritten⟩ | ⟨_, _, _, _, _, hi, -, rfl⟩
    · obtain ⟨hexact, hcounter⟩ := h.exact id before hbefore
      refine ⟨?_, hcounter.trans_le hminted⟩
      rcases hwritten with rfl | ⟨upload, entry, hi, hentry, rfl⟩
      · exact hexact
      · have hblank := (h.hand i id upload (by rw [hi]; rfl)).2.2 before hbefore
        apply hexact.withPart
        rw [Upload.requiredBytes_congr hblank]
        exact hentry
    · exact ⟨staged_exact _ _ _ id _, (h.fresh i _ _ _ id hi).1.trans_le hminted⟩
  · by_cases hji : j = i
    · subst hji
      rw [update_self] at hj
      rcases he.inHand hj with hj | ⟨hread, rfl⟩
      · obtain ⟨hexact, hcounter, -⟩ := h.hand j id upload hj
        exact ⟨hexact, hcounter.trans_le hminted, hrows j id upload hj⟩
      · obtain ⟨hexact, hcounter⟩ := h.exact id upload hread
        refine ⟨hexact, hcounter, fun row hrow => ?_⟩
        rw [hread] at hrow
        cases hrow
        rfl
    · rw [hother j hji] at hj
      obtain ⟨hexact, hcounter, -⟩ := h.hand j id upload hj
      exact ⟨hexact, hcounter.trans_le hminted, hrows j id upload hj⟩
  · have hhand : id ∉ s.uploads → (∀ k upload, (x k).inHand ≠ some (id, upload)) →
        ∀ k upload, (update x i x' k).inHand ≠ some (id, upload) := by
      intro hid hnobody k upload hk
      by_cases hki : k = i
      · subst hki
        rw [update_self] at hk
        rcases he.inHand hk with hk | ⟨hread, -⟩
        · exact hnobody k upload hk
        · exact hid (mem_of_lookup_eq_some hread)
      · rw [hother k hki] at hk
        exact hnobody k upload hk
    have hkept : x j = .opening lockId (.minted now body id) → id.counter < s'.minted ∧
        id ∉ s'.uploads ∧ ∀ k upload, (update x i x' k).inHand ≠ some (id, upload) := by
      intro hx
      obtain ⟨hcounter, hid, hnobody⟩ := h.fresh j lockId now body id hx
      refine ⟨hcounter.trans_le hminted, fun hmem => ?_, hhand hid hnobody⟩
      obtain ⟨row, hrow⟩ := mem_iff.1 hmem
      rcases he.rows hrow with ⟨before, hbefore, -⟩ | ⟨_, _, _, _, _, hi, hx', -⟩
      · exact hid (mem_of_lookup_eq_some hbefore)
      · -- two opens at once
        have hji : j = i := hinit.unique j i (by rw [hx]; rfl) (by rw [hi]; rfl)
        subst hji
        rw [update_self, hx'] at hj
        cases hj
    by_cases hji : j = i
    · subst hji
      have hj' := hj
      rw [update_self] at hj'
      rw [hj'] at he
      rcases he.minting with hx | ⟨hcounter, hnext, huploads⟩
      · exact hkept hx
      · have hnew : ∀ id', id'.counter < s.minted → id' ≠ id := by
          rintro id' hlt rfl
          omega
        have hid : id ∉ s.uploads := by
          intro hmem
          obtain ⟨row, hrow⟩ := mem_iff.1 hmem
          exact hnew id (h.exact id row hrow).2 rfl
        refine ⟨by omega, huploads ▸ hid, hhand hid fun k upload hk => ?_⟩
        exact hnew id (h.hand k id upload hk).2.1 rfl
    · rw [hother j hji] at hj
      exact hkept hj
  · by_cases hji : j = i
    · subst hji
      rw [update_self]
      exact he.measures (h.measured j)
    · rw [hother j hji]
      exact h.measured j

/-! ## Reserved bytes -/

/-- A staging row weighs what it declares, a document row what it holds. -/
def byteLimits (d : Deployment) : Limits d where
  row upload := upload.declaredPlaintextBytes
  document document := document.plaintextBytes
  limit := d.storageQuotaBytes
  found
    | .measured _ inFlightBytes => some inFlightBytes
    | _ => none
  room
    | .priced _ body | .minted _ body _ => some body.declaredPlaintextBytes
    | _ => none
  row_nonneg _ := Int.natCast_nonneg _
  document_nonneg _ := Int.natCast_nonneg _
  row_withPart _ _ := rfl
  document_congr _ _ h := congrArg _ h
  row_staged _ body _ _ _ := ⟨body.declaredPlaintextBytes, rfl, le_rfl⟩
  found_minted _ _ _ := rfl
  room_minted _ _ _ := rfl

theorem byteLimits_live (now : ℕ) (s : Store) :
    (byteLimits d).live now s = inFlightBytesFor now s := rfl

theorem byteLimits_stored (s : Store) : (byteLimits d).stored s = committedBytesFor s := rfl

/-- What an open reads is what the limit lets it rely on, if nothing is in transit while it adds up
the documents. -/
theorem byteLimits_read {n : ℤ} {stage stage' : Opening} (h : OpenStep d l s stage stage')
    (hn : l = .committedBytes → n = 0) (hp : (byteLimits d).Promise s n stage) :
    (byteLimits d).Promise s n stage' := by
  cases h with
  | readClock _ _ =>
    refine ⟨fun now hnow => ?_, nofun, nofun⟩
    cases hnow
    exact le_rfl
  | countUploads _ | countDocuments _ => exact ⟨hp.past, nofun, nofun⟩
  | inFlightBytes now _ _ =>
    refine ⟨hp.past, fun now' m hnow hm => ?_, nofun⟩
    cases hnow
    cases hm
    exact le_rfl
  | @committedBytes now inFlightBytes body _ hquota =>
    refine ⟨hp.past, nofun, fun now' m hnow hm => ?_⟩
    cases hnow
    cases hm
    have hfound := hp.found now _ rfl rfl
    have hlimit : (byteLimits d).limit = d.storageQuotaBytes := rfl
    have hzero := hn rfl
    rw [byteLimits_live] at hfound ⊢
    rw [byteLimits_stored]
    omega

/-- A live staging row with a measured transfer in hand weighs what its document will. -/
theorem Declared.weight {x : ι → Phase} (h : Declared s x) {i : ι} {id : ObjectId}
    {transfer : Measured} (hhand : (x i).inHand = some (id, transfer.upload))
    (hm : measureParts transfer.upload transfer.engine = .ok transfer.framing) {row : Upload}
    (hrow : s.uploads.lookup id = some row) :
    transfer.framing.plaintextBytes = row.declaredPlaintextBytes := by
  obtain ⟨hexact, -, hblank⟩ := h.hand i id transfer.upload hhand
  have hdeclared : row.blank.declaredPlaintextBytes = transfer.upload.blank.declaredPlaintextBytes :=
    congrArg _ (hblank row hrow)
  exact (measureParts_plaintextBytes hexact hm).trans hdeclared.symm

/-- A transfer the quota has no room for. -/
def Phase.Refused : Phase → Prop
  | refused _ | turnedAway => True
  | _ => False

/-- A completion is refused by its own reading of the quota. -/
theorem Event.refused (h : Event d x l s x' s') (hx' : x'.Refused) :
    x.Refused ∨ ∃ lockId id transfer, x = .excluded lockId id transfer ∧ l = .remeasureQuota id ∧
      (d.storageQuotaBytes : ℤ) < committedBytesFor s + transfer.framing.plaintextBytes := by
  cases h with
  | quotaExceeded h => exact .inr ⟨_, _, _, rfl, rfl, h⟩
  | turnAway _ => exact .inl trivial
  | calm _ _ | dropUpload _ _ _ | dropDocument _ _ _ => exact .inl hx'
  | _ => exact hx'.elim

/-! ## The quota of every run -/

variable {requests : ι → Request} {c : Config ι Store Site DocumentError Answer}

/-- The two locks of the budgets do not lapse while they are held. -/
def LocksHold (c : Config ι Store Site DocumentError Answer) (_ : ι) (l : Site) : Prop :=
  LockHolds .init c.store l ∧ LockHolds .rotation c.store l

/-- The transfer a completion reads the quota for. -/
def remeasured : Site → Option ObjectId
  | .remeasureQuota id => some id
  | _ => none

/-- The locks hold, an open adds up the documents while no completion stands between its claim and
its insert, and a completion finds its staging row live when it reads the quota and when it claims
the row. -/
def BytesAtRest (c : Config ι Store Site DocumentError Answer) (i : ι) (l : Site) : Prop :=
  LocksHold c i l ∧ (l = .committedBytes → NoneInTransit c) ∧ ClaimsLive c.store l ∧
    ∀ id ∈ remeasured l, LiveUpload c.store id

instance (c : Config ι Store Site DocumentError Answer) (i : ι) (l : Site) :
    Decidable (LocksHold c i l) :=
  inferInstanceAs (Decidable (LockHolds .init c.store l ∧ LockHolds .rotation c.store l))

instance [Fintype ι] (c : Config ι Store Site DocumentError Answer) (i : ι) (l : Site) :
    Decidable (BytesAtRest c i l) :=
  inferInstanceAs (Decidable (LocksHold c i l ∧ (l = .committedBytes → NoneInTransit c) ∧
    ClaimsLive c.store l ∧ ∀ id ∈ remeasured l, LiveUpload c.store id))

/-- What holds of the reserved bytes. -/
structure Reserved (d : Deployment) (s : Store) (x : ι → Phase) : Prop where
  kept : ∃ n, (byteLimits d).Kept s x n
  declared : Declared s x
  admitted : ∀ i, ¬ (x i).Refused

variable [DecidableEq ι] {s₀ : Store}

theorem Reserved.step {x : ι → Phase} {i : ι} (h : Reserved d c.store x)
    (hin : InPhase d requests c x) (hok : BytesAtRest c i l) (he : Event d (x i) l c.store x' s') :
    Reserved d s' (Function.update x i x') := by
  obtain ⟨⟨n, hkept⟩, hdeclared, hadmitted⟩ := h
  obtain ⟨⟨hinit, -⟩, hrest, hclaims, hreads⟩ := hok
  refine ⟨⟨_, hkept.step he hinit ?_ ?_⟩, hdeclared.step hkept.exclusive he, fun j hj => ?_⟩
  · intro lockId id transfer hi hl
    obtain ⟨upload, hupload, hlive⟩ := hclaims.live hl
    refine ⟨upload, hupload, hlive, fun document hdocument => ?_⟩
    have hmeasures := hdeclared.measured i
    rw [hi] at hmeasures
    have hweight := hdeclared.weight (by rw [hi]; rfl) hmeasures hupload
    show (document.plaintextBytes : ℤ) ≤ upload.declaredPlaintextBytes
    rw [hdocument, hweight]
  · intro lockId stage stage' _ hstep hp
    refine byteLimits_read hstep (fun hl => ?_) hp
    apply hkept.carries.zero
    intro j
    exact Limits.hand_eq_zero (inTransit_eq_none hin (hrest hl) j)
  · by_cases hji : j = i
    · subst hji
      rw [update_self] at hj
      rcases he.refused hj with hx | ⟨lockId, id, transfer, hx, hl, hquota⟩
      · exact hadmitted j hx
      · -- its own reservation is part of what is within the quota
        obtain ⟨upload, hupload, hlive⟩ := hreads id (by rw [hl]; rfl)
        have hmeasures := hdeclared.measured j
        rw [hx] at hmeasures
        have hweight := hdeclared.weight (by rw [hx]; rfl) hmeasures hupload
        have hrow : (if c.store.clock < upload.expiresAt then
            (upload.declaredPlaintextBytes : ℤ) else 0) ≤ inFlightBytesFor c.store.clock c.store :=
          le_tally (fun _ => Limits.row_live_nonneg (B := byteLimits d) _) hupload
        rw [if_pos hlive] at hrow
        have hn : 0 ≤ n := hkept.carries.nonneg fun _ => Limits.hand_nonneg _
        have hwithin : committedBytesFor c.store + inFlightBytesFor c.store.clock c.store + n
            ≤ d.storageQuotaBytes := hkept.within
        omega
    · rw [update_of_ne hji] at hj
      exact hadmitted j hj

/-- **The byte quota.** The documents of an account never weigh more than its quota. In runs whose
opens add up at rest, neither do the documents and the live reservations together, and no completion
is told that the quota is spent. -/
theorem quota_holds (huploads : s₀.uploads = ∅) (hdocuments : s₀.documents = ∅) :
    (Reaches (documentSystem d requests) LocksHold (Config.start s₀) c →
      committedBytesFor c.store ≤ d.storageQuotaBytes) ∧
    (Reaches (documentSystem d requests) BytesAtRest (Config.start s₀) c →
      committedBytesFor c.store + inFlightBytesFor c.store.clock c.store ≤ d.storageQuotaBytes ∧
      ∀ i id body, requests i = .complete id body →
        c.resultOf i ≠ some (.error .quotaExceeded)) := by
  constructor
  · intro h
    have hphases : ∃ x, InPhase d requests c x ∧ Spent d c.store x :=
      h.phases (fun i p hp => obeys_admitted hp)
        (fun c x i l x' s' _ hspent hok he => hspent.step he hok.2) (spent_start hdocuments)
    obtain ⟨x, -, hspent⟩ := hphases
    exact hspent.committed
  · intro h
    have hstart : Reserved d s₀ fun i => start (requests i) := by
      refine ⟨⟨0, Limits.kept_start huploads hdocuments (Int.natCast_nonneg _)⟩,
        declared_start huploads, fun i => ?_⟩
      rcases start_cases (requests i) with h | h
      · rw [h]
        exact id
      · rw [h]
        exact id
    have hphases : ∃ x, InPhase d requests c x ∧ Reserved d c.store x :=
      h.phases (fun i p hp => obeys_admitted hp)
        (fun c x i l x' s' hin hreserved hok he => hreserved.step hin hok he) hstart
    obtain ⟨x, hin, ⟨n, hkept⟩, -, hadmitted⟩ := hphases
    constructor
    · have hn : 0 ≤ n := hkept.carries.nonneg fun _ => Limits.hand_nonneg _
      have hwithin : committedBytesFor c.store + inFlightBytesFor c.store.clock c.store + n
          ≤ d.storageQuotaBytes := hkept.within
      omega
    · intro i id body hi hresult
      have hended := (hin.ended hresult).2 (by rw [hi]; trivial) rfl
      apply hadmitted i
      rw [hended]
      trivial

/-! ## A run that keeps the quota, and one that does not -/

theorem quota_holds_alone :
    committedBytesFor (sixAndTenArrived.follow sixAlone).store ≤ 10 ∧
      committedBytesFor (sixAndTenArrived.follow sixAlone).store
        + inFlightBytesFor 0 (sixAndTenArrived.follow sixAlone).store ≤ 10 ∧
      (sixAndTenArrived.follow sixAlone).resultOf 2 ≠ some (.error .quotaExceeded) := by
  have hheld : sixAndTenArrived.Follows LocksHold sixAlone := by decide
  have hrest : sixAndTenArrived.Follows BytesAtRest sixAlone := by decide
  have hclock : (sixAndTenArrived.follow sixAlone).store.clock = 0 := by decide
  have hcommitted := (quota_holds rfl rfl).1 (reaches_sixAndTenArrived.follow _ hheld)
  obtain ⟨hwithin, hadmitted⟩ :=
    (quota_holds rfl rfl).2 (reaches_sixAndTenArrived.follow _ hrest)
  rw [hclock] at hwithin
  exact ⟨hcommitted, hwithin, hadmitted 2 ⟨0, 1⟩ smallCompletion rfl⟩

/-- No staging row has expired. -/
def NoneExpired (s : Store) : Prop := ∀ id ∈ s.uploads.keys, LiveUpload s id

instance (s : Store) : Decidable (NoneExpired s) :=
  inferInstanceAs (Decidable (∀ id ∈ s.uploads.keys, LiveUpload s id))

/-- The reservation of a file between its claim and its insert is seen by neither reading of an
open: the account is admitted more than its quota, and the file admitted last is destroyed. -/
theorem quota_holds_inTransit :
    ∃ c c', Reaches (documentSystem tenBytes sixAndTen)
        (fun c i l => LocksHold c i l ∧ NoneExpired c.store) (Config.start emptyAccount) c ∧
      10 < committedBytesFor c.store + inFlightBytesFor c.store.clock c.store ∧
      Reaches (documentSystem tenBytes sixAndTen)
        (fun c i l => LocksHold c i l ∧ NoneExpired c.store) c c' ∧
      c'.resultOf 5 = some (.error .quotaExceeded) ∧ ⟨0, 5⟩ ∉ c'.store.uploads ∧
      buildObjectKey ⟨0, 5⟩ ∉ c'.store.objects := by
  have hoverlap : sixAndTenArrived.Follows (fun c i l => LocksHold c i l ∧ NoneExpired c.store)
      openWhileInTransit := by decide
  have hrefused : (sixAndTenArrived.follow openWhileInTransit).Follows
      (fun c i l => LocksHold c i l ∧ NoneExpired c.store)
      (replicate 4 4 ++ replicate 12 5) := by decide
  refine ⟨sixAndTenArrived.follow openWhileInTransit,
    (sixAndTenArrived.follow openWhileInTransit).follow
      (replicate 4 4 ++ replicate 12 5),
    reaches_sixAndTenArrived.follow _ hoverlap, ?_, Reaches.refl.follow _ hrefused, ?_⟩
  · decide
  · exact ⟨Config.resultOf_of_errorOf (by decide), by decide, by decide⟩

end HVault.Documents.Budget
