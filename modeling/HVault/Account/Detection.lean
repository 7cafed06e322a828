import HVault.Account.Reuse

/-!
# Every reuse is recorded

Replays of spent values run beside each other: each deletes live rows, then claims its own row,
then sweeps its family, so that one may take the row of another. The record is written by the
replay whose claim removed a row. What makes a record certain is the order of the three: the first
spent row of a family to disappear is taken by a claim, and a claim that takes a row records it.
-/

namespace HVault.Account

open Interleave FirstMatch List Function Prog

/-- Every request replays a value that is spent. Identifiers are unique, and so are the digests of
values drawn at random. -/
structure Replays {ι : Type} (env : Deployment) (requests : ι → RefreshRequest) (s₀ : Store) :
    Prop where
  spent : ∀ i h, (requests i).presents env h → ∃ row ∈ s₀.tokens, row.tokenHash = h ∧
    row.usedAt.isSome = true
  hashes : (s₀.tokens.map (·.tokenHash)).Nodup
  ids : (s₀.tokens.map (·.id)).Nodup

/-- What the proof remembers of a run of replays: the row each has found, the row it has claimed
and not yet recorded, and the records written. -/
structure Hunt (ι : Type) where
  found : ι → Option RefreshToken
  owes : ι → Option RefreshToken
  written : List ReuseRecord

/-- A reuse in the family is recorded, or about to be. -/
def Hunt.Detected {ι : Type} (g : Hunt ι) (f : String) : Prop :=
  (∃ record ∈ g.written, record.familyId = f) ∨ ∃ j row, g.owes j = some row ∧ row.familyId = f

variable {ι : Type} {env : Deployment} {requests : ι → RefreshRequest} {s₀ : Store}

/-- Rows only disappear, what was taken is recorded once, and a family is complete or its reuse is
detected. -/
structure HuntInv (s₀ s : Store) (g : Hunt ι) : Prop where
  tokens : s.tokens.Sublist s₀.tokens
  records : s.reuseRecords = g.written ++ s₀.reuseRecords
  once : (g.written.map (·.replayed)).Nodup
  gone : ∀ record ∈ g.written, ∀ row ∈ s.tokens, row.tokenHash ≠ record.replayed
  owed_gone : ∀ j row, g.owes j = some row → ∀ row' ∈ s.tokens, row'.tokenHash ≠ row.tokenHash
  owed_new : ∀ j row, g.owes j = some row → ∀ record ∈ g.written, record.replayed ≠ row.tokenHash
  owed_once : ∀ j k row row', g.owes j = some row → g.owes k = some row' →
    row.tokenHash = row'.tokenHash → j = k
  kept : ∀ f, (∀ row ∈ s₀.tokens, row.familyId = f → row.usedAt.isSome = true → row ∈ s.tokens) ∨
    g.Detected f

/-- A step of `i` is its own affair, loses no detection, and a statement of the reuse branch is
about the row that `i` has found. -/
structure HuntStep (i : ι) (l : Option Site) (g g' : Hunt ι) : Prop where
  found : ∀ j, j ≠ i → g'.found j = g.found j
  owes : ∀ j, j ≠ i → g'.owes j = g.owes j
  still : ∀ row, g.found i = some row → g'.found i = some row
  detected : ∀ f, g.Detected f → g'.Detected f
  about : ∀ l' found, l = some l' → l'.reuseOf = some found → g'.found i = some found

variable (s₀) in
def huntProtocol : Protocol ι Store Site (Hunt ι) where
  inv s g := HuntInv s₀ s g
  guar i l _ g _ g' := HuntStep i l g g'

/-- Nothing found yet. -/
def Hunt.Unstarted (i : ι) (_ : Store) (g : Hunt ι) : Prop := g.found i = none ∧ g.owes i = none

/-- The row `i` has found, which it has not claimed. -/
def Hunt.Found (s₀ : Store) (i : ι) (row : RefreshToken) (_ : Store) (g : Hunt ι) : Prop :=
  g.found i = some row ∧ g.owes i = none ∧ row ∈ s₀.tokens ∧ row.usedAt.isSome = true

/-- The row `i` has claimed, which it has not recorded. -/
def Hunt.Owing (i : ι) (row : RefreshToken) (_ : Store) (g : Hunt ι) : Prop :=
  g.found i = some row ∧ g.owes i = some row

/-- The reuse that `i` has found is detected, and not by `i` any more. -/
def Hunt.Settled (i : ι) (row : RefreshToken) (_ : Store) (g : Hunt ι) : Prop :=
  g.found i = some row ∧ g.owes i = none ∧ g.Detected row.familyId

/-- A replay that ended owes nothing, and what it has found is detected. -/
def HuntPost (i : ι) (_ : Except AccountError String) (_ : Store) (g : Hunt ι) : Prop :=
  g.owes i = none ∧ ∀ row, g.found i = some row → g.Detected row.familyId

variable {s : Store} {a : Except AccountError String}

theorem Hunt.Unstarted.post {i : ι} {g : Hunt ι} (h : Hunt.Unstarted i s g) : HuntPost i a s g := by
  refine ⟨h.2, fun row hrow => ?_⟩
  rw [h.1] at hrow
  cases hrow

variable (i : ι)

theorem HuntStep.refl {l : Option Site} (g : Hunt ι)
    (h : ∀ l' found, l = some l' → l'.reuseOf = some found → g.found i = some found) :
    HuntStep i l g g :=
  ⟨fun _ _ => rfl, fun _ _ => rfl, fun _ hrow => hrow, fun _ hf => hf, h⟩

theorem stable_unstarted : (huntProtocol s₀).Stable i (Hunt.Unstarted i) :=
  fun _ hj _ _ _ _ _ _ hP hg _ =>
    ⟨(hg.found i hj.symm).trans hP.1, (hg.owes i hj.symm).trans hP.2⟩

variable (row : RefreshToken)

theorem stable_found : (huntProtocol s₀).Stable i (Hunt.Found s₀ i row) :=
  fun _ hj _ _ _ _ _ _ hP hg _ =>
    ⟨(hg.found i hj.symm).trans hP.1, (hg.owes i hj.symm).trans hP.2.1, hP.2.2⟩

theorem stable_owing : (huntProtocol s₀).Stable i (Hunt.Owing i row) :=
  fun _ hj _ _ _ _ _ _ hP hg _ =>
    ⟨(hg.found i hj.symm).trans hP.1, (hg.owes i hj.symm).trans hP.2⟩

theorem stable_settled : (huntProtocol s₀).Stable i (Hunt.Settled i row) :=
  fun _ hj _ _ _ _ _ _ hP hg _ =>
    ⟨(hg.found i hj.symm).trans hP.1, (hg.owes i hj.symm).trans hP.2.1, hg.detected _ hP.2.2⟩

theorem stable_huntPost (a : Except AccountError String) :
    (huntProtocol s₀).Stable i (HuntPost i a) := by
  intro j hj l s g s' g' _ hP hg _
  refine ⟨(hg.owes i hj.symm).trans hP.1, fun row hrow => ?_⟩
  rw [hg.found i hj.symm] at hrow
  exact hg.detected _ (hP.2 row hrow)

/-- Rows may go as long as the spent ones stay in every family whose reuse is not detected. -/
theorem HuntInv.shrink {s' : Store} {g : Hunt ι} (h : HuntInv s₀ s g)
    (htokens : s'.tokens.Sublist s.tokens) (hrecords : s'.reuseRecords = s.reuseRecords)
    (hkept : ∀ f, (∀ row ∈ s.tokens, row.familyId = f → row.usedAt.isSome = true →
      row ∈ s'.tokens) ∨ g.Detected f) : HuntInv s₀ s' g where
  tokens := htokens.trans h.tokens
  records := hrecords.trans h.records
  once := h.once
  gone record hrecord row hrow := h.gone record hrecord row (htokens.subset hrow)
  owed_gone j row hj row' hrow' := h.owed_gone j row hj row' (htokens.subset hrow')
  owed_new := h.owed_new
  owed_once := h.owed_once
  kept f := by
    rcases h.kept f with hall | hdetected
    · rcases hkept f with hstay | hdetected
      · exact .inl fun row hrow hf hused => hstay row (hall row hrow hf hused) hf hused
      · exact .inr hdetected
    · exact .inr hdetected

/-- What the ghost knows of other matters may change. -/
theorem HuntInv.of_found {g : Hunt ι} (h : HuntInv s₀ s g) (found : ι → Option RefreshToken) :
    HuntInv s₀ s { g with found } :=
  ⟨h.tokens, h.records, h.once, h.gone, h.owed_gone, h.owed_new, h.owed_once, h.kept⟩

/-! ### The rows of a replay -/

section Rows

variable {s s' : Store} {g : Hunt ι} {i : ι}

/-- A presented row that is still there is spent. -/
theorem Replays.spent_of_mem (hreplays : Replays env requests s₀) (hinv : HuntInv s₀ s g)
    {row : RefreshToken} (hrow : row ∈ s.tokens) (hpresents : (requests i).presents env row.tokenHash) :
    row.usedAt.isSome = true := by
  obtain ⟨spent, hspent, hhash, hused⟩ := hreplays.spent i _ hpresents
  have hsame := inj_on_of_nodup_map hreplays.hashes hspent (hinv.tokens.subset hrow) hhash
  rw [← hsame]
  exact hused

/-- Nothing can be claimed by a replay. -/
theorem Replays.unclaimable (hreplays : Replays env requests s₀) (hinv : HuntInv s₀ s g) {h : String}
    (hh : (requests i).presents env h) (t : ℤ) :
    ∀ row ∈ s.tokens, Store.claimable h t row = false := by
  intro row hrow
  by_contra hclaimable
  obtain ⟨hhash, hunused, -⟩ := Store.of_claimable (by simpa using hclaimable)
  have hused := hreplays.spent_of_mem hinv hrow (hhash.symm ▸ hh)
  rw [hunused] at hused
  cases hused

variable {found : RefreshToken}

theorem Replays.eq_of_id (hreplays : Replays env requests s₀) (hinv : HuntInv s₀ s g)
    {row : RefreshToken} (hfound : found ∈ s₀.tokens) (hrow : row ∈ s.tokens)
    (hid : row.id = found.id) : row = found :=
  inj_on_of_nodup_map hreplays.ids (hinv.tokens.subset hrow) hfound hid

/-- The claim of a replay that finds its row: from now on the row is owed a record. -/
theorem huntInv_claim [DecidableEq ι] (hreplays : Replays env requests s₀) (hinv : HuntInv s₀ s g)
    (hmem : found ∈ s.tokens) (howes : g.owes i = none) :
    HuntInv s₀ (s.deleteToken fun row => decide (row.id = found.id)).2
      { g with owes := Function.update g.owes i (some found) } := by
  have hfound := hinv.tokens.subset hmem
  have hsub : (s.deleteToken fun row => decide (row.id = found.id)).2.tokens.Sublist s.tokens :=
    eraseP_sublist
  have hids : (s.tokens.map (·.id)).Nodup := (hinv.tokens.map _).nodup hreplays.ids
  -- no other row carries the value
  have htaken : ∀ row ∈ (s.deleteToken fun row => decide (row.id = found.id)).2.tokens,
      row.tokenHash ≠ found.tokenHash := by
    intro row hrow hhash
    have hsame := inj_on_of_nodup_map hreplays.hashes
      (hinv.tokens.subset (hsub.subset hrow)) hfound hhash
    exact ne_of_mem_eraseP hids hrow (hsame ▸ rfl)
  have hothers : ∀ j row, update g.owes i (some found) j = some row →
      j = i ∧ row = found ∨ j ≠ i ∧ g.owes j = some row := by
    intro j row hj
    by_cases hji : j = i
    · rw [hji, update_self] at hj
      exact .inl ⟨hji, (Option.some.inj hj).symm⟩
    · rw [update_of_ne hji] at hj
      exact .inr ⟨hji, hj⟩
  constructor
  · exact hsub.trans hinv.tokens
  · exact hinv.records
  · exact hinv.once
  · exact fun record hrecord row hrow => hinv.gone record hrecord row (hsub.subset hrow)
  · intro j row hj row' hrow'
    rcases hothers j row hj with ⟨-, rfl⟩ | ⟨-, hj⟩
    · exact htaken row' hrow'
    · exact hinv.owed_gone j row hj row' (hsub.subset hrow')
  · intro j row hj record hrecord
    rcases hothers j row hj with ⟨-, rfl⟩ | ⟨-, hj⟩
    · exact (hinv.gone record hrecord row hmem).symm
    · exact hinv.owed_new j row hj record hrecord
  · intro j k row row' hj hk hhash
    rcases hothers j row hj with ⟨rfl, rfl⟩ | ⟨-, hother⟩
    · rcases hothers k row' hk with ⟨rfl, -⟩ | ⟨-, hother⟩
      · rfl
      · exact (hinv.owed_gone k row' hother row hmem hhash).elim
    · rcases hothers k row' hk with ⟨-, rfl⟩ | ⟨-, hother'⟩
      · exact (hinv.owed_gone j row hother row' hmem hhash.symm).elim
      · exact hinv.owed_once j k row row' hother hother' hhash
  · intro f
    by_cases hf : found.familyId = f
    · exact .inr (.inr ⟨i, found, update_self .., hf⟩)
    · rcases hinv.kept f with hall | ⟨record, hrecord⟩ | ⟨j, row, hj, hrow⟩
      · refine .inl fun row hrow hrowf hused => ?_
        have hne : row.id ≠ found.id := by
          intro hid
          exact hf (hreplays.eq_of_id hinv hfound (hall row hrow hrowf hused) hid ▸ hrowf)
        exact (mem_eraseP_of_neg (by simpa using hne)).2 (hall row hrow hrowf hused)
      · exact .inr (.inl ⟨record, hrecord⟩)
      · have hji : j ≠ i := by
          rintro rfl
          rw [howes] at hj
          cases hj
        exact .inr (.inr ⟨j, row, (update_of_ne hji ..).trans hj, hrow⟩)

/-- The record of a claimed row: it is owed no more. -/
theorem huntInv_record [DecidableEq ι] (hinv : HuntInv s₀ s g) (howes : g.owes i = some found)
    (live devices : ℕ) :
    let record : ReuseRecord :=
      ⟨found.familyId, live, devices, found.deviceInfo, found.tokenHash⟩
    HuntInv s₀ { s with reuseRecords := record :: s.reuseRecords }
        { g with owes := update g.owes i none, written := record :: g.written } ∧
      ∀ f, g.Detected f → Hunt.Detected
        { g with owes := update g.owes i none, written := record :: g.written } f := by
  intro record
  have hothers : ∀ j row, update g.owes i none j = some row →
      j ≠ i ∧ g.owes j = some row := by
    intro j row hj
    by_cases hji : j = i
    · rw [hji, update_self] at hj
      cases hj
    · rw [update_of_ne hji] at hj
      exact ⟨hji, hj⟩
  have hdetected : ∀ f, g.Detected f → Hunt.Detected
      { g with owes := update g.owes i none, written := record :: g.written } f := by
    intro f hf
    rcases hf with ⟨old, hold, hf⟩ | ⟨j, row, hj, hf⟩
    · exact .inl ⟨old, mem_cons_of_mem _ hold, hf⟩
    · by_cases hji : j = i
      · subst hji
        rw [howes] at hj
        cases hj
        exact .inl ⟨record, mem_cons_self, hf⟩
      · exact .inr ⟨j, row, (update_of_ne hji ..).trans hj, hf⟩
  refine ⟨?_, hdetected⟩
  constructor
  · exact hinv.tokens
  · exact congrArg (record :: ·) hinv.records
  · refine nodup_cons.2 ⟨fun hmem => ?_, hinv.once⟩
    obtain ⟨old, hold, hsame⟩ := mem_map.1 hmem
    exact hinv.owed_new i found howes old hold hsame
  · intro old hold row hrow
    rcases mem_cons.1 hold with rfl | hold
    · exact hinv.owed_gone i found howes row hrow
    · exact hinv.gone old hold row hrow
  · exact fun j row hj => hinv.owed_gone j row (hothers j row hj).2
  · intro j row hj old hold hsame
    obtain ⟨hji, hj⟩ := hothers j row hj
    rcases mem_cons.1 hold with rfl | hold
    · exact hji (hinv.owed_once j i row found hj howes hsame.symm)
    · exact hinv.owed_new j row hj old hold hsame
  · intro j k row row' hj hk
    exact hinv.owed_once j k row row' (hothers j row hj).2 (hothers k row' hk).2
  · intro f
    exact (hinv.kept f).imp id (hdetected f)

end Rows

/-! ### One replay -/

variable {faults : Site → AccountError → Bool → Prop} {i : ι} {g : Hunt ι} {s : Store}

variable (faults) in
/-- What fails is a read. -/
def ReadFaults : Prop :=
  ∀ l e b, faults l e b → l = .readClaimable ∨ l = .readRefusal ∨ l = .lookup

variable {found : RefreshToken}

theorem ReadFaults.sure (hfaults : ReadFaults faults) {l : Site} (hl : l.reuseOf = some found)
    (e : AccountError) (b : Bool) : ¬ faults l e b := by
  intro hf
  rcases hfaults l e b hf with rfl | rfl | rfl
  · cases hl
  · exact nomatch hl
  · cases hl

variable {h : String}

/-- A rotation of a replay finds nothing and changes nothing. -/
theorem huntRule (hreplays : Replays env requests s₀) (hh : (requests i).presents env h) :
    RotationRule (huntProtocol s₀) (fun _ _ _ _ => True) i env (requests i) h
      (Hunt.Unstarted i) (fun _ _ _ => False)
      (fun a s g => Hunt.Unstarted i s g ∧ ∀ rotation, a = .ok rotation →
        rotation = .nothingClaimed) where
  stable := stable_unstarted i
  stable_claimed _ := .const False
  stay hl _ _ _ := by
    refine .refl i _ fun l' found hl' hfound => ?_
    cases hl'
    rcases hl with rfl | rfl | rfl | rfl <;> cases hfound
  failed hP := ⟨hP, nofun⟩
  transaction {n s g} hinv hP _ := by
    have heq : rotateOnce env (requests i) h n s = (.nothingClaimed, s) := by
      unfold rotateOnce
      rcases s.claimToken_cases h ((requests i).claimedAt n) ((requests i).usedAt n) with
        ⟨heq, -⟩ | ⟨row, before, after, htokens, hrow, -⟩
      · rw [heq]
      · have hnone := hreplays.unclaimable hinv hh ((requests i).claimedAt n) row (by simp [htokens])
        rw [hrow] at hnone
        cases hnone
    rw [heq]
    refine ⟨g, hinv, .refl i g fun l' found hl' hfound => ?_, ⟨hP, fun rotation ha => ?_⟩,
      fun _ => ⟨hP, nofun⟩⟩
    · cases hl'
      exact nomatch hfound
    · cases ha
      rfl
  claim_none _ hP _ _ := ⟨hP, fun _ ha => by cases ha; rfl⟩
  claim_some {row before after s g} hinv _ _ htokens hrow := by
    have hnone := hreplays.unclaimable hinv hh ((requests i).claimedAt 0) row (by simp [htokens])
    rw [hrow] at hnone
    exact nomatch hnone
  successor _ hP _ := hP.elim
  unissued _ hP _ := hP.elim

/-- A statement of the reuse branch before the claim: rows may go, spent ones stay. -/
theorem safe_beforeClaim {α β : Type} {Q : Except AccountError α → Store → Hunt ι → Prop}
    (hfaults : ReadFaults faults) {l : Site} {f : Store → β × Store} {k : β → Req α}
    (hl : l.reuseOf = some found) (htokens : ∀ s, (f s).2.tokens.Sublist s.tokens)
    (hrecords : ∀ s, (f s).2.reuseRecords = s.reuseRecords)
    (hspent : ∀ s, ∀ row ∈ s.tokens, row.usedAt.isSome = true → row ∈ (f s).2.tokens)
    (hk : ∀ b s g, Hunt.Found s₀ i found s g →
      Safe (huntProtocol s₀) faults (fun _ _ _ _ => True) i Q (k b) s g)
    (hP : Hunt.Found s₀ i found s g) :
    Safe (huntProtocol s₀) faults (fun _ _ _ _ => True) i Q ((Prog.db l f).bind k) s g := by
  refine Safe.sure_bind (hfaults.sure hl) (stable_found i found) hP fun s g hinv hP _ => ?_
  refine ⟨g, hinv.shrink (htokens s) (hrecords s) fun _ => ?_, .refl i g ?_, hk _ _ _ hP⟩
  · exact .inl fun row hrow _ hused => hspent s row hrow hused
  · intro l' found' hl' hfound'
    cases hl'
    rw [hl] at hfound'
    exact hP.1.trans hfound'

variable (i) in
/-- How the detection of `found` ends. -/
def Detects (found : RefreshToken) (a : Except AccountError Unit) (s : Store) (g : Hunt ι) : Prop :=
  a = .ok () ∧ Hunt.Settled i found s g

/-- The record of a replay whose claim took its row. -/
theorem safe_record [DecidableEq ι] (hfaults : ReadFaults faults) (live devices : ℕ)
    (hP : Hunt.Owing i found s g) :
    Safe (huntProtocol s₀) faults (fun _ _ _ _ => True) i (Detects i found)
      (recordReuse found live devices true) s g := by
  refine Safe.attempt_db_bind _ (stable_owing i found) hP (fun s g hinv hP _ => ?_)
    (fun s g e _ _ _ hf => (hfaults.sure rfl e false hf).elim)
    fun s g e _ _ _ hf => (hfaults.sure rfl e true hf).elim
  obtain ⟨hinv', hdetected⟩ := huntInv_record hinv hP.2 live devices
  refine ⟨_, hinv', ⟨fun _ _ => rfl, fun j hj => update_of_ne hj _ _, fun _ hrow => hrow,
    hdetected, fun l' found' hl' hfound' => ?_⟩, rfl, hP.1, update_self .., ?_⟩
  · cases hl'
    exact hP.1.trans hfound'
  · exact .inl ⟨_, mem_cons_self, rfl⟩

/-- The claim of a replay: it takes its row, or somebody has detected the reuse. -/
theorem safe_claimReplayed [DecidableEq ι] (hreplays : Replays env requests s₀)
    (hfaults : ReadFaults faults) (live devices : ℕ) (hP : Hunt.Found s₀ i found s g) :
    Safe (huntProtocol s₀) faults (fun _ _ _ _ => True) i (Detects i found)
      ((Prog.db (.reuseClaim found) (Store.deleteToken fun row => decide (row.id = found.id))).bind
        fun detection => recordReuse found live devices detection) s g := by
  refine Safe.sure_bind (hfaults.sure rfl) (stable_found i found) hP fun s g hinv hP _ => ?_
  obtain ⟨hfound, howes, hmem₀, hused⟩ := hP
  have habout : ∀ l' found', some (Site.reuseClaim found) = some l' → l'.reuseOf = some found' →
      g.found i = some found' := by
    intro l' found' hl' hfound'
    cases hl'
    exact hfound.trans hfound'
  by_cases hmem : found ∈ s.tokens
  · have hany : (s.deleteToken fun row => decide (row.id = found.id)).1 = true :=
      any_eq_true.2 ⟨found, hmem, by simp⟩
    rw [hany]
    refine ⟨_, huntInv_claim hreplays hinv hmem howes, ⟨fun _ _ => rfl,
      fun j hj => update_of_ne hj _ _, fun _ hrow => hrow, fun f hf => ?_, habout⟩,
      safe_record hfaults live devices ⟨hfound, update_self ..⟩⟩
    rcases hf with hrecord | ⟨j, row, hj, hf⟩
    · exact .inl hrecord
    · have hji : j ≠ i := by
        rintro rfl
        rw [howes] at hj
        cases hj
      exact .inr ⟨j, row, (update_of_ne hji ..).trans hj, hf⟩
  · -- the row is gone, so its family is no longer complete
    have hdetected : g.Detected found.familyId := by
      rcases hinv.kept found.familyId with hall | hdetected
      · exact (hmem (hall found hmem₀ rfl hused)).elim
      · exact hdetected
    have hnone : ∀ row ∈ s.tokens, ¬ row.id = found.id := by
      intro row hrow hid
      exact hmem (hreplays.eq_of_id hinv hmem₀ hrow hid ▸ hrow)
    have hany : (s.deleteToken fun row => decide (row.id = found.id)).1 = false :=
      any_eq_false.2 fun row hrow => by simpa using hnone row hrow
    have hsame : (s.deleteToken fun row => decide (row.id = found.id)).2 = s := by
      show { s with tokens := _ } = s
      rw [eraseP_of_forall_not fun row hrow => by simpa using hnone row hrow]
    rw [hany, hsame]
    exact ⟨g, hinv, .refl i g habout, rfl, hfound, howes, hdetected⟩

theorem safe_detectReuse [DecidableEq ι] (hreplays : Replays env requests s₀)
    (hfaults : ReadFaults faults) (hP : Hunt.Found s₀ i found s g) :
    Safe (huntProtocol s₀) faults (fun _ _ _ _ => True) i (Detects i found) (detectReuse found)
      s g := by
  have hlive : ∀ s : Store, ∀ row ∈ s.tokens, row.usedAt.isSome = true →
      row ∈ (s.deleteTokens fun row =>
        decide (row.familyId = found.familyId) && row.usedAt.isNone).2.tokens := by
    intro s row hrow hused
    have hnone : row.usedAt.isNone = false := by
      cases h : row.usedAt with
      | none => simp [h] at hused
      | some t => rfl
    exact mem_filter.2 ⟨hrow, by simp [hnone]⟩
  refine safe_beforeClaim hfaults rfl (fun s => filter_sublist ..) (fun _ => rfl) hlive
    (fun live s g hP => ?_) hP
  refine safe_beforeClaim hfaults rfl (fun _ => .refl _) (fun _ => rfl) (fun _ _ hrow _ => hrow)
    (fun devices s g hP => ?_) hP
  refine safe_beforeClaim hfaults rfl (fun _ => .refl _) (fun _ => rfl) (fun _ _ hrow _ => hrow)
    (fun _ s g hP => ?_) hP
  refine safe_beforeClaim hfaults rfl (fun _ => .refl _) (fun _ => rfl) (fun _ _ hrow _ => hrow)
    (fun _ s g hP => ?_) hP
  exact safe_claimReplayed hreplays hfaults live devices hP

/-- The sweep after the claim: the family goes, whose reuse is detected. -/
theorem safe_sweep (hfaults : ReadFaults faults) (hP : Hunt.Settled i found s g) :
    Safe (huntProtocol s₀) faults (fun _ _ _ _ => True) i (HuntPost i)
      ((Prog.db (.reuseSweep found) (Store.sweepFamily found.familyId)).bind fun _ =>
        (.raise (.tokenReuseDetected found.familyId) : Req String)) s g := by
  refine Safe.sure_bind (hfaults.sure rfl) (stable_settled i found) hP fun s g hinv hP _ => ?_
  refine ⟨g, hinv.shrink (filter_sublist ..) rfl fun f => ?_, .refl i g ?_, hP.2.1, ?_⟩
  · by_cases hf : found.familyId = f
    · exact .inr (hf ▸ hP.2.2)
    · refine .inl fun row hrow hrowf _ => mem_filter.2 ⟨hrow, ?_⟩
      simpa [hrowf] using fun h : f = found.familyId => hf h.symm
  · intro l' found' hl' hfound'
    cases hl'
    exact hP.1.trans hfound'
  · intro row hrow
    rw [hP.1] at hrow
    cases hrow
    exact hP.2.2

theorem safe_classifyReplay [DecidableEq ι] (hreplays : Replays env requests s₀)
    (hfaults : ReadFaults faults) (hh : (requests i).presents env h) (hP : Hunt.Unstarted i s g) :
    Safe (huntProtocol s₀) faults (fun _ _ _ _ => True) i (HuntPost i)
      (classifyUnclaimed (requests i) h) s g := by
  have hstay : ∀ g : Hunt ι, HuntStep i (some .lookup) g g := by
    refine fun g => .refl i g fun l' found hl' hfound => ?_
    cases hl'
    cases hfound
  refine Safe.db_bind _ (stable_unstarted i) hP (fun s g hinv hP _ => ?_)
    (fun s g e hinv hP _ _ => ⟨g, hinv, hstay g, hP.post⟩)
    fun s g e hinv hP _ _ => ⟨g, hinv, hstay g, hP.post⟩
  split
  · exact ⟨g, hinv, hstay g, hP.post⟩
  · rename_i found hfind
    have hmem := mem_of_find?_eq_some hfind
    have hhash : found.tokenHash = h := by simpa using find?_some hfind
    have hused := hreplays.spent_of_mem hinv hmem (hhash.symm ▸ hh)
    split
    · rename_i hexpired
      rw [Option.isNone_iff_eq_none.1 hexpired.1] at hused
      cases hused
    · refine ⟨_, hinv.of_found (update g.found i (some found)), ?_, ?_⟩
      · refine ⟨fun j hj => update_of_ne hj _ _, fun _ _ => rfl, fun row hrow => ?_,
          fun f hf => hf, fun l' found' hl' hfound' => ?_⟩
        · rw [hP.1] at hrow
          cases hrow
        · cases hl'
          cases hfound'
      · have hfound : Hunt.Found s₀ i found s
            { g with found := update g.found i (some found) } :=
          ⟨update_self .., hP.2, hinv.tokens.subset hmem, hused⟩
        refine Safe.bind ((safe_detectReuse hreplays hfaults hfound).mono fun a s g ha => ?_)
        obtain ⟨rfl, hsettled⟩ := ha
        exact safe_sweep hfaults hsettled

theorem safe_replay [DecidableEq ι] (hreplays : Replays env requests s₀)
    (hfaults : ReadFaults faults) (hP : Hunt.Unstarted i s g) :
    Safe (huntProtocol s₀) faults (fun _ _ _ _ => True) i (HuntPost i) (refresh env (requests i))
      s g := by
  have hundone : ¬ faults .rotateTransaction (.database true) true := by
    intro hf
    rcases hfaults _ _ _ hf with hl | hl | hl
    · cases hl
    · exact nomatch hl
    · cases hl
  cases htoken : (requests i).token with
  | none =>
    unfold refresh
    rw [htoken]
    exact hP.post
  | some token =>
    rw [refresh_eq env (requests i) htoken]
    refine Safe.bind (((huntRule hreplays ⟨token, htoken, rfl⟩).safe hundone hP).mono ?_)
    intro a s g ha
    cases a with
    | error e => exact ha.1.post
    | ok rotation =>
      cases ha.2 rotation rfl
      exact safe_classifyReplay hreplays hfaults ⟨token, htoken, rfl⟩ ha.1

/-! ### A replay that fails before its claim -/

variable {r : RefreshRequest}

/-- What a statement other than a claim, a sweep or the deletion of an expired row does to the spent
rows: nothing. -/
theorem RefreshEffect.keeps_spent {l : Site} {s' : Store} (heffect : RefreshEffect env r h l s s')
    (hexpired : ∀ found, l ≠ .deleteExpired found) (hclaim : ∀ found, l ≠ .reuseClaim found)
    (hsweep : ∀ found, l ≠ .reuseSweep found) {row : RefreshToken} (hrow : row ∈ s.tokens)
    (hused : row.usedAt.isSome = true) : row ∈ s'.tokens := by
  have hclaimed : ∀ {row' : RefreshToken} {before after : List RefreshToken} {t t' : ℤ},
      s.tokens = before ++ row' :: after → Store.claimable h t row' = true →
      row ∈ before ++ { row' with usedAt := some t' } :: after := by
    intro row' before after t t' htokens hrow'
    rw [htokens] at hrow
    simp only [mem_append, mem_cons] at hrow ⊢
    rcases hrow with hmem | rfl | hmem
    · exact .inl hmem
    · rw [(Store.of_claimable hrow').2.1] at hused
      cases hused
    · exact .inr (.inr hmem)
  cases heffect with
  | same | proofs => exact hrow
  | claim =>
    rcases s.claimToken_cases h (r.claimedAt 0) (r.usedAt 0) with
      ⟨heq, -⟩ | ⟨row', before, after, htokens, hrow', heq⟩
    · rw [heq]
      exact hrow
    · rw [heq]
      exact hclaimed htokens hrow'
  | rotate _ attempt =>
    rcases rotateOnce_cases env r h attempt s with
      ⟨heq, -⟩ | heq | ⟨row', before, after, htokens, hrow', -, heq⟩
    · rw [heq]
      exact hrow
    · rw [heq]
      exact hrow
    · rw [heq]
      exact mem_append_left _ (hclaimed htokens hrow')
  | successor => exact mem_append_left _ hrow
  | expired _ found => exact (hexpired found rfl).elim
  | deleteLive =>
    have hnone : row.usedAt.isNone = false := by
      cases h : row.usedAt with
      | none => simp [h] at hused
      | some t => rfl
    exact mem_filter.2 ⟨hrow, by simp [hnone]⟩
  | revokeDevices | revokeProofs | revokeChallenges => exact hrow
  | claimReplayed _ found => exact (hclaim found rfl).elim
  | record => exact hrow
  | sweep _ found => exact (hsweep found rfl).elim

variable {ws : List (Site × Store × Store)}

/-- A detection that comes to its end has made its claim. -/
theorem own_detectReuse (hrun : Prog.Own faults (detectReuse found) ws (.ok ())) :
    ∃ w ∈ ws, w.1 = .reuseClaim found := by
  have hskip : ∀ {β : Type} {l : Site} {f : Store → β × Store} {k : β → Req Unit}
      {ws : List (Site × Store × Store)}, Prog.Own faults ((db l f).bind k) ws (.ok ()) →
      ∃ b s ws', ws = (l, s, (f s).2) :: ws' ∧ Prog.Own faults (k b) ws' (.ok ()) := by
    intro β l f k ws hrun
    rcases hrun.of_bind with ⟨ws₁, ws₂, b, rfl, hfirst, hrest⟩ | ⟨e, he, -⟩
    · rcases hfirst.of_db with ⟨s, rfl, -⟩ | ⟨e, _, -, he⟩
      · exact ⟨b, s, ws₂, rfl, hrest⟩
      · cases he
    · exact nomatch he
  obtain ⟨_, _, _, rfl, hdevices⟩ := hskip hrun
  obtain ⟨_, _, _, rfl, hproofs⟩ := hskip hdevices
  obtain ⟨_, _, _, rfl, hchallenges⟩ := hskip hproofs
  obtain ⟨_, _, _, rfl, hclaim⟩ := hskip hchallenges
  obtain ⟨_, _, _, rfl, -⟩ := hskip hclaim
  exact ⟨_, .tail _ (.tail _ (.tail _ (.tail _ (.head _)))), rfl⟩

/-- An access that leaves every spent row where it is. -/
def KeepsSpent (w : Site × Store × Store) : Prop :=
  ∀ row ∈ w.2.1.tokens, row.usedAt.isSome = true → row ∈ w.2.2.tokens

/-- A run without claims, sweeps and deletions of expired rows. -/
theorem own_keepsSpent {α : Type} {p : Req α} {A : Site → Prop} {a : Except AccountError α}
    (heach : p.Each (fun _ => True) fun l s s' => RefreshEffect env r h l s s' ∧ A l)
    (hA : ∀ l, A l → (∀ found, l ≠ .deleteExpired found) ∧ ∀ found, l ≠ .reuseSweep found)
    (hrun : Prog.Own faults p ws a) (hbefore : ∀ w ∈ ws, ∀ found, w.1 ≠ .reuseClaim found) :
    ∀ w ∈ ws, KeepsSpent w := by
  intro w hw row hrow hused
  obtain ⟨s₁, ⟨heffect, hl⟩, hs'⟩ := heach.own hrun (fun _ _ => trivial) hw
  rcases hs' with hs' | hs'
  · rw [hs']
    exact hrow
  · rw [hs']
    exact heffect.keeps_spent (hA _ hl).1 (hbefore w hw) (hA _ hl).2 hrow hused

/-- The classification of a replay that never reaches its claim. -/
theorem own_classify_keepsSpent (env : Deployment)
    (hreplay : ∀ w ∈ ws, ∀ row ∈ w.2.1.tokens, row.tokenHash = h → row.usedAt.isSome = true)
    (hbefore : ∀ w ∈ ws, ∀ found, w.1 ≠ .reuseClaim found)
    (hrun : Prog.Own faults (classifyUnclaimed r h) ws a) : ∀ w ∈ ws, KeepsSpent w := by
  have hread : ∀ {β : Type} {f : Store → β} {ws : List (Site × Store × Store)}
      {a : Except AccountError β}, Prog.Own faults (read .lookup f) ws a →
      ∀ w ∈ ws, KeepsSpent w := by
    intro β f ws a hown w hw row hrow _
    have heach : (read .lookup f : Req β).Each (fun _ => True) fun _ s s' => s' = s :=
      each_read fun _ _ => rfl
    obtain ⟨s₁, hs₁, hs'⟩ := heach.own hown (fun _ _ => trivial) hw
    rcases hs' with hs' | hs'
    · exact hs'.symm ▸ hrow
    · exact (hs'.trans hs₁).symm ▸ hrow
  have hdetects : ∀ found : RefreshToken, ∀ l : Site, l.reuseOf = some found ∧ l ≠ .reuseSweep found →
      (∀ found, l ≠ .deleteExpired found) ∧ ∀ found, l ≠ .reuseSweep found := by
    intro found l ⟨hl, hsweep⟩
    constructor
    · rintro _ rfl
      cases hl
    · rintro found' rfl
      cases hl
      exact hsweep rfl
  rcases hrun.of_bind with ⟨ws₁, ws₂, existing, rfl, hfirst, hrest⟩ | ⟨e, -, hfirst⟩
  · have hbefore₂ : ∀ w ∈ ws₂, ∀ found, w.1 ≠ .reuseClaim found :=
      fun w hw => hbefore w (mem_append_right _ hw)
    refine forall_mem_append.2 ⟨hread hfirst, ?_⟩
    rcases hfirst.of_db with ⟨s, rfl, hanswer⟩ | ⟨e, _, -, he⟩
    · have hfind : existing = s.tokens.find? fun row => decide (row.tokenHash = h) := by
        simpa using hanswer
      cases existing with
      | none =>
        cases hrest
        exact fun w hw => nomatch hw
      | some found =>
        have hmem := mem_of_find?_eq_some hfind.symm
        have hhash : found.tokenHash = h := by simpa using find?_some hfind.symm
        have hused := hreplay _ mem_cons_self found hmem hhash
        dsimp only at hrest
        split at hrest
        · rename_i hexpired
          rw [Option.isNone_iff_eq_none.1 hexpired.1] at hused
          cases hused
        · -- the sweep comes after the claim, which the run does not reach
          rcases hrest.of_bind with ⟨ws₃, ws₄, _, rfl, hdetect, -⟩ | ⟨e, -, hdetect⟩
          · obtain ⟨w, hw, hl⟩ := own_detectReuse hdetect
            exact (hbefore₂ w (mem_append_left _ hw) found hl).elim
          · have heach : (detectReuse found).Each (fun _ => True) fun l s s' =>
                RefreshEffect env r h l s s' ∧ l.reuseOf = some found ∧ l ≠ .reuseSweep found :=
              each_detectReuse found
            exact own_keepsSpent heach (hdetects found) hdetect hbefore₂
    · cases he
  · exact hread hfirst

/-- A replay that never reaches its claim leaves every spent row to the next one. -/
theorem own_replay_keepsSpent (hrun : Prog.Own faults (refresh env r) ws a)
    (hreplay : ∀ w ∈ ws, ∀ row ∈ w.2.1.tokens, r.presents env row.tokenHash →
      row.usedAt.isSome = true) (hbefore : ∀ w ∈ ws, ∀ found, w.1 ≠ .reuseClaim found) :
    ∀ w ∈ ws, KeepsSpent w := by
  cases htoken : r.token with
  | none =>
    unfold refresh at hrun
    rw [htoken] at hrun
    cases hrun
    exact fun w hw => nomatch hw
  | some token =>
    rw [refresh_eq env r htoken] at hrun
    have hrotates : ∀ l : Site, l.rotates = true ∧
        (env.supportsTransactions = true → l = .rotateTransaction) →
        (∀ found, l ≠ .deleteExpired found) ∧ ∀ found, l ≠ .reuseSweep found := by
      intro l ⟨hl, _⟩
      constructor
      · rintro found rfl
        cases hl
      · rintro found rfl
        exact nomatch hl
    have hproofs : ∀ l : Site, l = .readProof ∨ l = .extendProof →
        (∀ found, l ≠ .deleteExpired found) ∧ ∀ found, l ≠ .reuseSweep found := by
      intro l hl
      rcases hl with rfl | rfl
      all_goals exact ⟨nofun, nofun⟩
    rcases hrun.of_bind with ⟨ws₁, ws₂, rotation, rfl, hfirst, hrest⟩ | ⟨e, -, hfirst⟩
    · have hbefore₂ : ∀ w ∈ ws₂, ∀ found, w.1 ≠ .reuseClaim found :=
        fun w hw => hbefore w (mem_append_right _ hw)
      refine forall_mem_append.2 ⟨own_keepsSpent each_rotate hrotates hfirst fun w hw =>
        hbefore w (mem_append_left _ hw), ?_⟩
      cases rotation with
      | refused =>
        cases hrest
        exact fun w hw => nomatch hw
      | rotated => exact own_keepsSpent each_afterRotation_rotated hproofs hrest hbefore₂
      | nothingClaimed =>
        refine own_classify_keepsSpent env (fun w hw row hrow hhash => ?_) hbefore₂ hrest
        exact hreplay w (mem_append_right _ hw) row hrow ⟨token, htoken, hhash.symm⟩
    · exact own_keepsSpent each_rotate hrotates hfirst hbefore

/-! ### Every run of replays -/

theorem sound_replays [DecidableEq ι] (hreplays : Replays env requests s₀)
    (hfaults : ReadFaults faults) :
    Sound (refreshSystem env requests faults) (huntProtocol s₀) (fun _ _ _ _ => True)
      (fun _ _ _ => True) Hunt.Unstarted HuntPost := by
  refine ⟨fun i p hp s g _ hP => ?_, stable_unstarted, stable_huntPost,
    fun _ _ _ _ _ _ _ => trivial⟩
  have hp' : p = refresh env (requests i) := hp
  rw [hp']
  refine (safe_replay hreplays hfaults hP).mono fun a s g ha hinv => ?_
  exact ⟨g, hinv, .refl i g fun l' found hl' => (nomatch hl'), ha⟩

/-- Nothing has been found at the start. -/
def Hunt.none : Hunt ι := ⟨fun _ => .none, fun _ => .none, []⟩

theorem huntInv_start (s₀ : Store) : HuntInv s₀ s₀ (Hunt.none : Hunt ι) where
  tokens := .refl _
  records := rfl
  once := .nil
  gone _ hrecord := nomatch hrecord
  owed_gone _ _ hj := nomatch hj
  owed_new _ _ hj := nomatch hj
  owed_once _ _ _ _ hj := nomatch hj
  kept _ := .inl fun _ hrow _ _ => hrow

/-- When nothing is in flight, what was found is recorded. -/
theorem recorded_of_quiet [DecidableEq ι] (hS : Sound (refreshSystem env requests faults)
    (huntProtocol s₀) (fun _ _ _ _ => True) (fun _ _ _ => True) Hunt.Unstarted HuntPost)
    {c : Config ι Store Site AccountError String} (hat : hS.At c g) (hquiet : c.Quiet)
    (hfound : g.found i = some found) :
    ∃ record ∈ g.written, record.familyId = found.familyId := by
  have hpost : ∀ j, g.owes j = none ∧
      ∀ row, g.found j = some row → g.Detected row.familyId := by
    intro j
    have hknown := (hat.2 j).known
    cases hj : c.threads j with
    | none =>
      rw [hj] at hknown
      exact (Hunt.Unstarted.post (a := .error .tokenMissing) hknown : HuntPost j _ c.store g)
    | some p =>
      rw [hj] at hknown
      have hfinished : p.Finished := by
        by_contra hnot
        exact hquiet j ⟨p, hj, hnot⟩
      obtain ⟨a, ha⟩ := hfinished.result_eq
      exact hknown a ha
  rcases (hpost i).2 found hfound with hrecorded | ⟨j, row, hj, -⟩
  · exact hrecorded
  · rw [(hpost j).1] at hj
    cases hj

/-- **Every reuse is recorded.** In every run of replays of spent values in which no write fails,
no value is recorded twice; once nothing is in flight, the family of every replay that found its
row has a record; and a replay that does not reach its claim, whatever failed, leaves every spent
row where the next replay finds it. -/
theorem reuse_recorded [DecidableEq ι] (hreplays : Replays env requests s₀)
    (hfaults : ReadFaults faults) {c : Config ι Store Site AccountError String}
    (hrun : Reach (refreshSystem env requests faults) (Config.start s₀) c) :
    (∃ written, c.store.reuseRecords = written ++ s₀.reuseRecords ∧
      (written.map (·.replayed)).Nodup) ∧
    (∀ i l found c₁ c₂, CStep (refreshSystem env requests faults) c (some (i, l)) c₁ →
      l.reuseOf = some found → Reach (refreshSystem env requests faults) c₁ c₂ → c₂.Quiet →
      ∃ written, c₂.store.reuseRecords = written ++ s₀.reuseRecords ∧
        ∃ record ∈ written, record.familyId = found.familyId) ∧
    ∀ (anyFaults : Site → AccountError → Bool → Prop) (r : RefreshRequest) ws a,
      Prog.Own anyFaults (refresh env r) ws a →
      (∀ w ∈ ws, ∀ row ∈ w.2.1.tokens, r.presents env row.tokenHash → row.usedAt.isSome = true) →
      (∀ w ∈ ws, ∀ found, w.1 ≠ .reuseClaim found) → ∀ w ∈ ws, KeepsSpent w := by
  have hS := sound_replays (ι := ι) hreplays hfaults
  obtain ⟨g, hat⟩ := hS.reaches_start (huntInv_start s₀) (fun _ => ⟨rfl, rfl⟩) hrun
  refine ⟨⟨g.written, hat.1.records, hat.1.once⟩, fun i l found c₁ c₂ hstep hl hrest hquiet => ?_,
    fun _ _ _ _ hown hspent hbefore => own_replay_keepsSpent hown hspent hbefore⟩
  obtain ⟨g₁, g₂, hguar, hlast, hat₁⟩ := hS.run hat trivial hstep
  have hfound : g₂.found i = some found := by
    have hfound₁ := hguar.about l found rfl hl
    rcases hlast with rfl | hlast
    · exact hfound₁
    · exact hlast.still found hfound₁
  -- what a replay has found, it has found for good
  have hkeep : ∀ j l s g s' g', (huntProtocol s₀).guar j l s g s' g' →
      g.found i = some found → g'.found i = some found := by
    intro j l s g s' g' hg hfound
    by_cases hj : i = j
    · subst hj
      exact hg.still found hfound
    · exact (hg.found i hj).trans hfound
  obtain ⟨g₃, hat₃, hfound₃⟩ := hS.reaches hkeep hat₁ hfound hrest
  exact ⟨g₃.written, hat₃.1.records, recorded_of_quiet hS hat₃ hquiet hfound₃⟩

/-- Two replays of one value. -/
def twoReplays : System Bool Store Site AccountError String :=
  refreshSystem (plainDeployment false) (fun _ => presenting "spent" "other") fun _ _ _ => False

/-- Both have arrived. -/
def replaysArrived : Config Bool Store Site AccountError String :=
  ((Config.start stolenFamily).join false
    (refresh (plainDeployment false) (presenting "spent" "other"))).join true
    (refresh (plainDeployment false) (presenting "spent" "other"))

/-- The first finds its row; when both have ended there is one record. -/
theorem reuse_recorded_replay :
    ∃ c c₁ c₂ found, Reach twoReplays (Config.start stolenFamily) c ∧
      CStep twoReplays c (some (false, .reuseDeleteLive found)) c₁ ∧ Reach twoReplays c₁ c₂ ∧
      c₂.Quiet ∧ ∃ written, c₂.store.reuseRecords = written ++ stolenFamily.reuseRecords ∧
        ∃ record ∈ written, record.familyId = found.familyId := by
  have hreplays : Replays (plainDeployment false) (fun _ : Bool => presenting "spent" "other")
      stolenFamily := by
    refine ⟨fun i h hh => ?_, by decide, by decide⟩
    obtain ⟨token, htoken, rfl⟩ := hh
    cases htoken
    exact ⟨_, mem_cons_self, rfl, rfl⟩
  have harrived : Reach twoReplays (Config.start stolenFamily) replaysArrived :=
    (Reaches.refl.join rfl rfl).join rfl rfl
  have hbefore := Reach.follow harrived (replicate 3 false)
  have hstep : CStep twoReplays (replaysArrived.follow (replicate 3 false))
      (some (false, .reuseDeleteLive ⟨0, "spent", "family", somewhere, some 5, 100, none, "old"⟩))
      ((replaysArrived.follow (replicate 3 false)).advance false) := .advance rfl
  have hstart : Reach twoReplays ((replaysArrived.follow (replicate 3 false)).advance false)
      ((replaysArrived.follow (replicate 3 false)).advance false) := .refl
  have hrest := Reach.follow hstart (replicate 6 false ++ replicate 3 true)
  have hquiet : (((replaysArrived.follow (replicate 3 false)).advance false).follow
      (replicate 6 false ++ replicate 3 true)).Quiet := by
    intro i
    cases i with
    | false => exact Config.not_inFlight rfl
    | true => exact Config.not_inFlight rfl
  have hrecorded := (reuse_recorded hreplays (fun _ _ _ hf => hf.elim) hbefore).2.1 _ _ _ _ _ hstep
    rfl hrest hquiet
  exact ⟨_, _, _, _, hbefore, hstep, hrest, hquiet, hrecorded⟩

end HVault.Account
