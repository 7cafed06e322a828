import HVault.Documents.Bounds
import HVault.Documents.Solo

/-!
# The number of documents of an account

An account that starts empty never has more document rows and live staging rows together than the
limits of an open allow, provided no open counts while a completion stands between its claim and its
insert. Without that an account can be filled past the limit: the last section does so.
-/

namespace HVault.Documents.Budget

open Interleave Function Finmap

variable {ι : Type} {d : Deployment} {l : Site} {s s' : Store} {requests : ι → Request}
  {c : Config ι Store Site DocumentError Answer}

/-- Every row counts as one. -/
def documentLimits (d : Deployment) : Limits d where
  row _ := 1
  document _ := 1
  limit := maxDocumentsPerUser + maxConcurrentDocumentUploadsPerUser - 1
  found
    | .counted _ => some (maxConcurrentDocumentUploadsPerUser - 1)
    | _ => none
  room
    | .admitted _ | .measured _ _ | .priced _ _ | .minted _ _ _ => some 1
    | _ => none
  row_nonneg _ := zero_le_one
  document_nonneg _ := zero_le_one
  row_withPart _ _ := rfl
  document_congr _ _ _ := rfl
  row_staged _ _ _ _ _ := ⟨1, rfl, le_rfl⟩
  found_minted _ _ _ := rfl
  room_minted _ _ _ := rfl

/-- What an open reads is what the limit lets it rely on, if nothing is in transit while it counts
the documents. -/
theorem documentLimits_read {n : ℤ} {stage stage' : Opening} (h : OpenStep d l s stage stage')
    (hn : l = .countDocuments → n = 0) (hp : (documentLimits d).Promise s n stage) :
    (documentLimits d).Promise s n stage' := by
  cases h with
  | readClock _ _ =>
    refine ⟨fun now hnow => ?_, nofun, nofun⟩
    cases hnow
    exact le_rfl
  | @countUploads now _ hcount =>
    refine ⟨hp.past, fun now' m hnow hm => ?_, nofun⟩
    cases hnow
    cases hm
    have hlive : (documentLimits d).live now s = openUploadsFor now s := rfl
    omega
  | @countDocuments now _ hcount =>
    refine ⟨hp.past, nofun, fun now' m hnow hm => ?_⟩
    cases hnow
    cases hm
    have hfound := hp.found now _ rfl rfl
    have hstored : (documentLimits d).stored s = documentCountFor s := rfl
    have hlimit : (documentLimits d).limit
        = maxDocumentsPerUser + maxConcurrentDocumentUploadsPerUser - 1 := rfl
    have := hn rfl
    omega
  | inFlightBytes _ _ _ | committedBytes _ => exact ⟨hp.past, nofun, hp.room⟩

/-- The init lock does not lapse while it is held, an open counts the documents while no completion
stands between its claim and its insert, and claims find their rows live. -/
def CountsAtRest (c : Config ι Store Site DocumentError Answer) (_ : ι) (l : Site) : Prop :=
  LockHolds .init c.store l ∧ (l = .countDocuments → NoneInTransit c) ∧ ClaimsLive c.store l

instance [Fintype ι] (c : Config ι Store Site DocumentError Answer) (i : ι) (l : Site) :
    Decidable (CountsAtRest c i l) :=
  inferInstanceAs (Decidable (LockHolds .init c.store l ∧
    (l = .countDocuments → NoneInTransit c) ∧ ClaimsLive c.store l))

variable [DecidableEq ι] {s₀ : Store}

/-- **The documents of an account are bounded.** Started empty, an account never has more document
rows and live staging rows together than the two limits allow, and so never more documents than one
rotation carries. -/
theorem documents_bounded (huploads : s₀.uploads = ∅) (hdocuments : s₀.documents = ∅)
    (h : Reaches (documentSystem d requests) CountsAtRest (Config.start s₀) c) :
    documentCountFor c.store + openUploadsFor c.store.clock c.store
        ≤ maxDocumentsPerUser + maxConcurrentDocumentUploadsPerUser - 1 ∧
      documentCountFor c.store ≤ maxDocumentsPerRotation := by
  have hlimit : 0 ≤ (documentLimits d).limit := by
    show (0 : ℤ) ≤ maxDocumentsPerUser + maxConcurrentDocumentUploadsPerUser - 1
    decide
  have hphases : ∃ x, InPhase d requests c x ∧ ∃ n, (documentLimits d).Kept c.store x n := by
    refine h.phases (J := fun s x => ∃ n, (documentLimits d).Kept s x n)
      (fun i p hp => obeys_admitted hp) ?_ ⟨0, Limits.kept_start huploads hdocuments hlimit⟩
    intro c x i l x' s' hin ⟨n, hkept⟩ hok he
    refine ⟨_, hkept.step he hok.1 ?_ ?_⟩
    · intro lockId id transfer _ hl
      obtain ⟨upload, hupload, hlive⟩ := hok.2.2.live hl
      exact ⟨upload, hupload, hlive, fun _ _ => le_rfl⟩
    · intro lockId stage stage' _ hstep hp
      refine documentLimits_read hstep (fun hl => ?_) hp
      apply hkept.carries.zero
      intro j
      exact Limits.hand_eq_zero (inTransit_eq_none hin (hok.2.1 hl) j)
  obtain ⟨x, -, n, hkept⟩ := hphases
  have hn : 0 ≤ n := hkept.carries.nonneg fun i => Limits.hand_nonneg _
  have hwithin : documentCountFor c.store + openUploadsFor c.store.clock c.store + n
      ≤ maxDocumentsPerUser + maxConcurrentDocumentUploadsPerUser - 1 := hkept.within
  have hlive : 0 ≤ openUploadsFor c.store.clock c.store :=
    tally_nonneg (fun _ => Limits.row_live_nonneg (B := documentLimits d) _) _
  have hrotation : (maxDocumentsPerRotation : ℤ)
      = maxDocumentsPerUser + maxConcurrentDocumentUploadsPerUser := rfl
  constructor
  · omega
  · omega

/-- A file of six bytes is uploaded while one of ten is opened. -/
def sixAndTen : Fin 6 → Request
  | 0 => .init (smallFile 6 (by decide))
  | 1 => .part ⟨0, 1⟩ (smallPart 6)
  | 2 => .complete ⟨0, 1⟩ smallCompletion
  | 3 => .init (smallFile 10 (by decide))
  | 4 => .part ⟨0, 5⟩ (smallPart 10)
  | 5 => .complete ⟨0, 5⟩ smallCompletion

/-- All requests have arrived. -/
def sixAndTenArrived : Config (Fin 6) Store Site DocumentError Answer :=
  ⟨emptyAccount, fun i => some ((sixAndTen i).prog tenBytes)⟩

theorem reaches_sixAndTenArrived
    {ok : Config (Fin 6) Store Site DocumentError Answer → Fin 6 → Site → Prop} :
    Reaches (documentSystem tenBytes sixAndTen) ok (Config.start emptyAccount) sixAndTenArrived :=
  Reaches.gathered fun _ => rfl

/-- The first file is uploaded alone. -/
def sixAlone : List (Fin 6) := List.replicate 11 0 ++ List.replicate 4 1 ++ List.replicate 15 2

/-- The second open adds up while the first file is neither staged nor committed, and its own
completion comes after that of the first. -/
def openWhileInTransit : List (Fin 6) :=
  List.replicate 11 0 ++ List.replicate 4 1 ++ List.replicate 11 2 ++ List.replicate 11 3
    ++ List.replicate 4 2

theorem documents_bounded_alone :
    documentCountFor (sixAndTenArrived.follow sixAlone).store
        + openUploadsFor 0 (sixAndTenArrived.follow sixAlone).store ≤ 5002 ∧
      documentCountFor (sixAndTenArrived.follow sixAlone).store ≤ 5003 := by
  have hrest : sixAndTenArrived.Follows CountsAtRest sixAlone := by decide
  have hclock : (sixAndTenArrived.follow sixAlone).store.clock = 0 := by decide
  have hbounded := documents_bounded rfl rfl (reaches_sixAndTenArrived.follow _ hrest)
  rw [hclock] at hbounded
  exact hbounded

/-! ## An account that is overfull -/

/-- Where no request lets time pass, the init lock does not lapse. -/
theorem lockHolds_of_still (hstill : ∀ i, start (requests i) ≠ .ticking)
    (hfree : s₀.locks .init = none) (h : Reach (documentSystem d requests) (Config.start s₀) c)
    (l : Site) : LockHolds .init c.store l := by
  have hphases : ∃ x, InPhase d requests c x ∧
      (∀ lock, c.store.locks .init = some lock → c.store.clock < lock.expiresAt) ∧
        ∀ i, x i ≠ .ticking := by
    refine h.phases (J := fun s (x : ι → Phase) => (∀ lock, s.locks .init = some lock →
      s.clock < lock.expiresAt) ∧ ∀ i, x i ≠ .ticking) (fun i p hp => obeys_admitted hp) ?_
      ⟨fun lock hlock => ?_, hstill⟩
    · intro c x i l x' s' _ ⟨hlive, hx⟩ _ he
      obtain ⟨hclock, hx'⟩ := he.clock_eq (hx i)
      refine ⟨fun lock hlock => ?_, fun j => ?_⟩
      · rw [hclock]
        generalize hbefore : (x i).initLock = before
        generalize hafter : x'.initLock = after
        have hstep := he.initLock
        rw [hbefore, hafter] at hstep
        cases hstep with
        | acquired hexpires _ hs =>
          rw [hs] at hlock
          cases hlock
          exact hexpires
        | released hs =>
          rw [hs] at hlock
          unfold releaseStatement at hlock
          split at hlock
          · have hnone : update c.store.locks .init none .init = some lock := hlock
            rw [update_self] at hnone
            cases hnone
          · exact hlive lock hlock
        | kept hs =>
          rw [hs] at hlock
          exact hlive lock hlock
      · by_cases hji : j = i
        · subst hji
          rw [update_self]
          exact hx'
        · rw [update_of_ne hji]
          exact hx j
    · exact nomatch hfree.symm.trans hlock
  obtain ⟨-, -, hlive, -⟩ := hphases
  exact fun _ lock hlock => hlive lock hlock

/-- An empty file. -/
def emptyFile : InitDocumentUploadInput := smallFile 0 (by decide)

/-- The staging row of an empty file, opened at the start of time, once its part is stored. -/
def emptyRow (id : ObjectId) : Upload :=
  (emptyFile.staged tenBytes 0 0 id none).withPart ⟨1, none, 16⟩

/-- Its document. -/
def emptyTransfer (id : ObjectId) : Measured := ⟨emptyRow id, .object [⟨1, 16⟩], ⟨1, 16, 0⟩⟩

theorem checkPart_empty (id : ObjectId) :
    checkPart (emptyFile.staged tenBytes 0 0 id none) (smallPart 0) ⟨16, smallDigest⟩ = .ok () := by
  have hdigest : isPartDigest smallDigest = true := by decide
  have hrequired : (emptyFile.staged tenBytes 0 0 id none).requiredBytes 1 = some 16 := by
    show expectedPartSize 1 1 documentPlaintextChunkBytes (documentCiphertextBytesFor 0 1) = some 16
    decide
  unfold checkPart
  rw [if_neg (by exact Nat.lt_irrefl 1), if_neg (by exact not_not.2 rfl)]
  rw [show (smallPart 0).partNumber = 1 from rfl, hrequired]
  dsimp only
  rw [if_neg (by simp), if_neg (by simp [smallPart, hdigest]), if_neg (by simp [smallPart])]

theorem measureParts_empty (id : ObjectId) :
    measureParts (emptyRow id) (.object [⟨1, 16⟩]) = .ok ⟨1, 16, 0⟩ := by
  have hsame : measureParts (emptyRow id) (.object [⟨1, 16⟩])
      = measureParts (emptyRow ⟨0, 0⟩) (.object [⟨1, 16⟩]) := rfl
  rw [hsame]
  decide

/-- An account of empty files at the start of time: so many documents, so many open transfers and so
many ids minted. -/
structure Holds (n m : ℤ) (k : ℕ) (s : Store) : Prop where
  settled : s.Settled
  version : vaultKeyVersionOf s.account = 0
  clock : s.clock = 0
  documents : documentCountFor s = n
  uploads : openUploadsFor 0 s = m
  committed : committedBytesFor s = 0
  inFlight : inFlightBytesFor 0 s = 0
  minted : s.minted = k
  fresh : ∀ id, id ∈ s.uploads ∨ id ∈ s.documents → id.counter < k

section Overfull

variable {n m : ℤ} {k : ℕ} {id : ObjectId}

/-- The store after one more empty file is opened. -/
def openedEmpty (k : ℕ) (s : Store) : Store :=
  { s with
    uploads := s.uploads.insert ⟨0, k + 1⟩ (emptyFile.staged tenBytes 0 0 ⟨0, k + 1⟩ none)
    minted := k + 2 }

theorem Holds.openedEmpty (h : Holds n m k s) :
    Holds n (m + 1) (k + 2) (openedEmpty k s) := by
  have hid : (⟨0, k + 1⟩ : ObjectId) ∉ s.uploads := by
    intro hmem
    have hlt := h.fresh _ (.inl hmem)
    exact absurd hlt (by simp)
  refine ⟨h.settled, h.version, h.clock, h.documents, ?_, h.committed, ?_, rfl, ?_⟩
  · rw [← h.uploads]
    exact tally_insert_of_notMem _ hid
  · rw [← h.inFlight]
    exact (tally_insert_of_notMem _ hid).trans (add_zero _)
  · intro id hmem
    rcases hmem with hmem | hmem
    · rcases mem_insert.1 hmem with rfl | hmem
      · exact Nat.lt_succ_self _
      · exact (h.fresh id (.inl hmem)).trans (by omega)
    · exact (h.fresh id (.inr hmem)).trans (by omega)

theorem alone_openEmpty (h : Holds n m k s) (hlock : s.locks .init = none) (hn : n < 5000)
    (hm : m < 3) : ((Request.prog tenBytes (.init emptyFile)).alone s).2 = openedEmpty k s := by
  have hroom : HasRoom tenBytes s emptyFile := by
    refine ⟨?_, ?_, ?_⟩
    · rw [h.clock, h.uploads]
      exact hm
    · rw [h.documents]
      exact hn
    · rw [h.clock, h.committed, h.inFlight]
      decide
  have hfresh : (⟨s.clock, s.minted + 1⟩ : ObjectId) ∉ s.uploads := by
    intro hmem
    have hlt := h.fresh _ (.inl hmem)
    rw [h.minted] at hlt
    exact absurd hlt (by simp)
  have hopen := alone_initUpload h.settled hlock (Nat.zero_le _) hroom rfl rfl hfresh
  have hopened : { s with minted := s.minted + 1 }.opened tenBytes emptyFile = openedEmpty k s := by
    unfold Store.opened openedEmpty
    rw [h.version, h.minted, h.clock]
  unfold Request.prog
  rw [Prog.alone_bind_ok hopen]
  exact hopened

/-- The store after the part of an empty file is stored. -/
def filledEmpty (id : ObjectId) (s : Store) : Store :=
  { s with
    objects := s.objects.insert (buildObjectKey id) ⟨16, some 0⟩
    uploads := s.uploads.insert id (emptyRow id) }

theorem Holds.filledEmpty (h : Holds n m k s)
    (hrow : s.uploads.lookup id = some (emptyFile.staged tenBytes 0 0 id none)) :
    Holds n m k (filledEmpty id s) := by
  refine ⟨h.settled, h.version, h.clock, h.documents, ?_, h.committed, ?_, h.minted, ?_⟩
  · rw [← h.uploads]
    exact (tally_insert_of_lookup _ hrow).trans (sub_add_cancel _ _)
  · rw [← h.inFlight]
    exact (tally_insert_of_lookup _ hrow).trans (sub_add_cancel _ _)
  · intro id' hmem
    rcases hmem with hmem | hmem
    · rcases mem_insert.1 hmem with rfl | hmem
      · exact h.fresh _ (.inl (mem_of_lookup_eq_some hrow))
      · exact h.fresh id' (.inl hmem)
    · exact h.fresh id' (.inr hmem)

theorem alone_fillEmpty (h : Holds n m k s)
    (hrow : s.uploads.lookup id = some (emptyFile.staged tenBytes 0 0 id none)) :
    ((Request.prog tenBytes (.part id (smallPart 0))).alone s).2 = filledEmpty id s := by
  have hlive : s.clock < (emptyFile.staged tenBytes 0 0 id none).expiresAt := by
    rw [h.clock]
    show 0 < 0 + 86400000
    omega
  have hpart := alone_uploadPart (d := tenBytes) hrow hlive rfl rfl (checkPart_empty id)
  have hstamp : tenBytes.stamp s = some 0 := by
    rw [← h.clock]
    rfl
  unfold Request.prog
  have hsame : ∀ p : Req PartAnswer,
      ((p.bind fun answer => (.ret (.stored answer) : Req Answer)).alone s).2 = (p.alone s).2 := by
    intro p
    rw [Prog.alone_bind]
    rcases p.alone s with ⟨r, s'⟩
    cases r <;> rfl
  rw [hsame, hpart, hstamp]
  rfl

theorem complete_empty (h : Holds n m k s) (hrow : s.uploads.lookup id = some (emptyRow id))
    (hobject : s.objects.lookup (buildObjectKey id) = some ⟨16, some 0⟩)
    (hdocument : id ∉ s.documents) : Complete tenBytes s id (emptyTransfer id) smallCompletion where
  uncommitted := lookup_eq_none.2 hdocument
  stored := hrow
  live := by
    rw [h.clock]
    show 0 < 0 + 86400000
    omega
  parts := nofun
  one := rfl
  folder := rfl
  engine := ⟨⟨16, some 0⟩, hobject, rfl⟩
  measured := measureParts_empty id
  received := rfl
  max := Nat.zero_le _
  quota := by
    rw [h.committed]
    show (0 : ℤ) + (0 : ℕ) ≤ (10 : ℕ)
    decide
  version := h.version

/-- What is left of the completion of an empty file from its insert on. -/
def insertEmpty (k : ℕ) (id : ObjectId) : Req Answer :=
  (insertAndRelease id ((emptyTransfer id).document smallCompletion none) (k + 1) k).bind
    fun outcome => .ret (.completed outcome)

theorem goes_claimEmpty (h : Holds n m k s) (hlocks : s.locks = fun _ => none)
    (hcomplete : Complete tenBytes s id (emptyTransfer id) smallCompletion) :
    (Request.prog tenBytes (.complete id smallCompletion)).Goes s (insertEmpty k id)
      (s.claimedUnderLocks id) := by
  have hgoes := goes_completeUpload h.settled (by rw [hlocks]) (by rw [hlocks]) hcomplete
  rw [h.minted] at hgoes
  exact hgoes.bind _

theorem Holds.claimedEmpty (h : Holds n m k s) (hrow : s.uploads.lookup id = some (emptyRow id)) :
    Holds n (m - 1) (k + 2) (s.claimedUnderLocks id) := by
  refine ⟨h.settled, h.version, h.clock, h.documents, ?_, h.committed, ?_, ?_, fun id' hmem => ?_⟩
  · rw [← h.uploads]
    exact tally_erase _ hrow
  · rw [← h.inFlight]
    exact (tally_erase _ hrow).trans (sub_zero _)
  · rw [← h.minted]
    rfl
  · have hlt : id'.counter < k := by
      rcases hmem with hmem | hmem
      · exact h.fresh id' (.inl (mem_erase.1 hmem).2)
      · exact h.fresh id' (.inr hmem)
    omega

/-- The store after the document of an empty file is inserted and the locks are released. -/
def committedEmpty (id : ObjectId) (s : Store) : Store :=
  { s with
    documents := s.documents.insert id ((emptyTransfer id).document smallCompletion none)
    locks := Function.update (Function.update s.locks .rotation none) (.complete id) none }

theorem alone_insertEmpty (hsettled : s.Settled) (hid : id ∉ s.documents) {j e e' : ℕ}
    (hrotation : s.locks .rotation = some ⟨j + 1, e⟩)
    (hcomplete : s.locks (.complete id) = some ⟨j, e'⟩) :
    ((insertEmpty j id).alone s).2 = committedEmpty id s := by
  unfold insertEmpty
  rw [Prog.alone_bind_ok (alone_insertAndRelease hsettled hid hrotation hcomplete)]
  rfl

theorem Holds.committedEmpty (h : Holds n m k s) (hid : id ∉ s.documents) (hlt : id.counter < k) :
    Holds (n + 1) m k (committedEmpty id s) := by
  refine ⟨h.settled, h.version, h.clock, ?_, h.uploads, ?_, h.inFlight, h.minted, fun id' hmem => ?_⟩
  · rw [← h.documents]
    exact tally_insert_of_notMem _ hid
  · rw [← h.committed]
    exact (tally_insert_of_notMem _ hid).trans (add_zero _)
  · rcases hmem with hmem | hmem
    · exact h.fresh id' (.inl hmem)
    · rcases mem_insert.1 hmem with rfl | hmem
      · exact hlt
      · exact h.fresh id' (.inr hmem)

theorem locks_claimedEmpty (hlocks : s.locks = fun _ => none) (id : ObjectId) :
    (s.claimedUnderLocks id).locks .init = none ∧
      (s.claimedUnderLocks id).locks .rotation
        = some ⟨s.minted + 1, s.clock + vaultRotationLockTtl⟩ ∧
      (s.claimedUnderLocks id).locks (.complete id) = some ⟨s.minted, s.clock + completeLockTtl⟩ ∧
      update (update (s.claimedUnderLocks id).locks .rotation none)
        (.complete id) none = fun _ => none := by
  unfold Store.claimedUnderLocks Store.withLock Store.eraseUpload
  rw [hlocks]
  refine ⟨?_, ?_, ?_, ?_⟩
  · simp [update]
  · simp [update]
  · simp [update]
  · funext name
    by_cases hcomplete : name = .complete id
    · simp [update, hcomplete]
    · by_cases hrotation : name = .rotation <;> simp [update, hcomplete, hrotation]

/-- Empty files are opened, filled and completed one after the other; a fourth request of each
round opens one more. -/
def crowd : ℕ × Fin 4 → Request
  | (_, 0) => .init emptyFile
  | (k, 1) => .part ⟨0, 4 * k + 1⟩ (smallPart 0)
  | (k, 2) => .complete ⟨0, 4 * k + 1⟩ smallCompletion
  | (_, 3) => .init emptyFile

/-- A run of the crowd. -/
abbrev CrowdReach (c : Config (ℕ × Fin 4) Store Site DocumentError Answer) : Prop :=
  Reach (documentSystem tenBytes crowd) (Config.start emptyAccount) c

variable {c : Config (ℕ × Fin 4) Store Site DocumentError Answer} {i : ℕ × Fin 4}

/-- One more file is opened. -/
theorem CrowdReach.openEmpty (h : CrowdReach c) (hc : Holds n m k c.store)
    (hlock : c.store.locks .init = none) (hn : n < 5000) (hm : m < 3)
    (hi : c.threads i = none) (hrequest : crowd i = .init emptyFile) :
    ∃ q, CrowdReach ⟨openedEmpty k c.store, update c.threads i (some q)⟩ := by
  obtain ⟨q, hq⟩ := h.visit hi rfl
  rw [hrequest, alone_openEmpty hc hlock hn hm] at hq
  exact ⟨q, hq⟩

/-- The file opened last is filled, and its completion comes to its insert. -/
theorem CrowdReach.claimEmpty (h : CrowdReach c) {r : ℕ} (hc : Holds n m k c.store)
    (hrow : c.store.uploads.lookup ⟨0, 4 * r + 1⟩
      = some (emptyFile.staged tenBytes 0 0 ⟨0, 4 * r + 1⟩ none))
    (hid : ⟨0, 4 * r + 1⟩ ∉ c.store.documents) (hlocks : c.store.locks = fun _ => none)
    (h₁ : c.threads (r, 1) = none) (h₂ : c.threads (r, 2) = none) :
    ∃ q, CrowdReach ⟨(filledEmpty ⟨0, 4 * r + 1⟩ c.store).claimedUnderLocks ⟨0, 4 * r + 1⟩,
      update (update c.threads (r, 1) (some q)) (r, 2)
        (some (insertEmpty k ⟨0, 4 * r + 1⟩))⟩ := by
  obtain ⟨q, hq⟩ := h.visit (p := (crowd (r, 1)).prog tenBytes) h₁ rfl
  rw [show crowd (r, 1) = .part ⟨0, 4 * r + 1⟩ (smallPart 0) from rfl, alone_fillEmpty hc hrow] at hq
  have hfilled := hc.filledEmpty hrow
  have hwritten : (filledEmpty ⟨0, 4 * r + 1⟩ c.store).uploads.lookup ⟨0, 4 * r + 1⟩
      = some (emptyRow ⟨0, 4 * r + 1⟩) := lookup_insert _
  have hgoes := goes_claimEmpty hfilled hlocks
    (complete_empty hfilled hwritten (lookup_insert _) hid)
  have hjoin := Reaches.join hq (p := (crowd (r, 2)).prog tenBytes)
    ((update_of_ne (by simp) _ _).trans h₂) rfl
  have hrun := hjoin.trans (Reach.goes (update_self ..) hgoes)
  rw [Config.join, update_idem] at hrun
  exact ⟨q, hrun⟩

/-- The completion that has come to its insert ends. -/
theorem CrowdReach.insertEmpty (h : CrowdReach c) {r j e e' : ℕ}
    (hsettled : c.store.Settled) (hid : ⟨0, 4 * r + 1⟩ ∉ c.store.documents)
    (hrotation : c.store.locks .rotation = some ⟨j + 1, e⟩)
    (hcomplete : c.store.locks (.complete ⟨0, 4 * r + 1⟩) = some ⟨j, e'⟩)
    (hi : c.threads i = some (Budget.insertEmpty j ⟨0, 4 * r + 1⟩)) :
    ∃ q, CrowdReach ⟨committedEmpty ⟨0, 4 * r + 1⟩ c.store,
      update c.threads i (some q)⟩ := by
  obtain ⟨q, -, -, hrun⟩ := Reach.alone hi
  rw [alone_insertEmpty hsettled hid hrotation hcomplete] at hrun
  exact ⟨q, h.trans hrun⟩

/-- The first `k` files are uploaded, and no other request has arrived. -/
structure Uploaded (k : ℕ) (c : Config (ℕ × Fin 4) Store Site DocumentError Answer) : Prop where
  reach : CrowdReach c
  holds : Holds k 0 (4 * k) c.store
  locks : c.store.locks = fun _ => none
  threads : ∀ j r, k ≤ j ∨ r = 3 → c.threads (j, r) = none

theorem uploaded_zero : Uploaded 0 (Config.start emptyAccount) where
  reach := .refl
  holds := by
    refine ⟨⟨_, rfl, rfl, rfl⟩, rfl, rfl, by decide, by decide, by decide, by decide, rfl, ?_⟩
    intro id hid
    rcases hid with hid | hid
    · exact (notMem_empty hid).elim
    · exact (notMem_empty hid).elim
  locks := rfl
  threads _ _ _ := rfl

theorem Uploaded.next (h : Uploaded k c) (hk : k < 4999) : ∃ c', Uploaded (k + 1) c' := by
  have hnew : (⟨0, 4 * k + 1⟩ : ObjectId) ∉ c.store.documents := by
    intro hmem
    have hlt := h.holds.fresh _ (.inr hmem)
    exact absurd hlt (by simp)
  obtain ⟨q, hopen⟩ := h.reach.openEmpty h.holds (by rw [h.locks]) (by omega)
    (by omega) (h.threads k 0 (.inl le_rfl)) rfl
  have hopened := h.holds.openedEmpty
  obtain ⟨q', hclaim⟩ := CrowdReach.claimEmpty hopen hopened (lookup_insert _) hnew
    h.locks ((update_of_ne (by simp) _ _).trans (h.threads k 1 (.inl le_rfl)))
    ((update_of_ne (by simp) _ _).trans (h.threads k 2 (.inl le_rfl)))
  have hclaimed := (hopened.filledEmpty (lookup_insert _)).claimedEmpty
    (lookup_insert _)
  obtain ⟨-, hrotation, hcomplete, hreleased⟩ := locks_claimedEmpty
    (s := filledEmpty ⟨0, 4 * k + 1⟩ (openedEmpty (4 * k) c.store)) h.locks ⟨0, 4 * k + 1⟩
  obtain ⟨q'', hinsert⟩ := CrowdReach.insertEmpty hclaim hclaimed.settled hnew hrotation hcomplete
    (update_self ..)
  have hcommitted := hclaimed.committedEmpty hnew (by simp)
  refine ⟨_, hinsert, ?_, hreleased, fun j r hjr => ?_⟩
  · have hcount : ((k : ℤ) + 1) = ((k + 1 : ℕ) : ℤ) := by omega
    have hminted : 4 * k + 2 + 2 = 4 * (k + 1) := by omega
    rw [hcount, hminted, show (0 : ℤ) + 1 - 1 = 0 by omega] at hcommitted
    exact hcommitted
  · have hne : ∀ r' : Fin 4, r' ≠ 3 → (j, r) ≠ (k, r') := by
      rintro r' hr' heq
      cases heq
      rcases hjr with hle | rfl
      · omega
      · exact hr' rfl
    dsimp only
    rw [update_of_ne (hne 2 (by decide)), update_of_ne (hne 2 (by decide)),
      update_of_ne (hne 1 (by decide)), update_of_ne (hne 0 (by decide))]
    apply h.threads j r
    exact hjr.imp_left fun hle => by omega

theorem uploaded_all : ∀ k ≤ 4999, ∃ c, Uploaded k c
  | 0, _ => ⟨_, uploaded_zero⟩
  | k + 1, hk => by
    obtain ⟨c, hc⟩ := uploaded_all k (by omega)
    exact hc.next (by omega)

/-- With 4999 documents, three transfers are open. One of them is claimed; an open then counts two
transfers and 4999 documents, and the document is inserted after it. -/
theorem documents_bounded_inTransit :
    ∃ c, Reaches (documentSystem tenBytes crowd) (fun c _ l => LockHolds .init c.store l)
        (Config.start emptyAccount) c ∧
      ¬ (documentCountFor c.store + openUploadsFor c.store.clock c.store
        ≤ maxDocumentsPerUser + maxConcurrentDocumentUploadsPerUser - 1) := by
  obtain ⟨c, hc⟩ := uploaded_all 4999 le_rfl
  have hlock : c.store.locks .init = none := by rw [hc.locks]
  have hnew : (⟨0, 4 * 4999 + 1⟩ : ObjectId) ∉ c.store.documents := by
    intro hmem
    have hlt := hc.holds.fresh _ (.inr hmem)
    exact absurd hlt (by simp)
  -- three transfers are opened
  obtain ⟨q, h₁⟩ := hc.reach.openEmpty hc.holds hlock (by decide) (by decide)
    (hc.threads 4999 0 (.inl le_rfl)) rfl
  have hopened₁ := hc.holds.openedEmpty
  obtain ⟨q', h₂⟩ := CrowdReach.openEmpty (i := (0, 3)) h₁ hopened₁ hlock (by decide) (by decide)
    (by simp [hc.threads]) rfl
  have hopened₂ := hopened₁.openedEmpty
  obtain ⟨q'', h₃⟩ := CrowdReach.openEmpty (i := (1, 3)) h₂ hopened₂ hlock (by decide) (by decide)
    (by simp [hc.threads]) rfl
  have hopened₃ := hopened₂.openedEmpty
  -- the first of them is filled and claimed
  have hrow : (openedEmpty (4 * 4999 + 2 + 2) (openedEmpty (4 * 4999 + 2)
      (openedEmpty (4 * 4999) c.store))).uploads.lookup ⟨0, 4 * 4999 + 1⟩
        = some (emptyFile.staged tenBytes 0 0 ⟨0, 4 * 4999 + 1⟩ none) := by
    unfold openedEmpty
    rw [lookup_insert_of_ne _ (by decide), lookup_insert_of_ne _ (by decide),
      lookup_insert]
  obtain ⟨q₄, h₄⟩ := CrowdReach.claimEmpty h₃ hopened₃ hrow hnew hc.locks
    (by simp [hc.threads]) (by simp [hc.threads])
  have hclaimed := (hopened₃.filledEmpty hrow).claimedEmpty (lookup_insert _)
  obtain ⟨hinit, hrotation, hcomplete, -⟩ := locks_claimedEmpty
    (s := filledEmpty ⟨0, 4 * 4999 + 1⟩ (openedEmpty (4 * 4999 + 2 + 2) (openedEmpty (4 * 4999 + 2)
      (openedEmpty (4 * 4999) c.store)))) hc.locks ⟨0, 4 * 4999 + 1⟩
  -- a fourth is opened, and the document of the first comes after it
  obtain ⟨q₅, h₅⟩ := CrowdReach.openEmpty (i := (2, 3)) h₄ hclaimed hinit (by decide) (by decide)
    (by simp [hc.threads]) rfl
  have hopened₅ := hclaimed.openedEmpty
  obtain ⟨q₆, h₆⟩ := CrowdReach.insertEmpty (i := (4999, 2)) h₅ hopened₅.settled hnew hrotation
    hcomplete (by rfl)
  have hcommitted := hopened₅.committedEmpty hnew (by decide)
  refine ⟨_, (h₆.with_invariant fun c h => lockHolds_of_still ?_ rfl h).mono
    fun c i l hok => hok.2 l, ?_⟩
  · intro i
    unfold crowd
    split <;> exact nofun
  · rw [hcommitted.clock, hcommitted.documents, hcommitted.uploads]
    decide

end Overfull

end HVault.Documents.Budget
