import HVault.Account.Reuse

/-!
# Expired or reused

A refresh whose claim found nothing reads the row once more and decides: an unused row past its
expiry is answered as expired, any other row as a reuse. The claim wants `expiresAt` after its own
reading of the clock and the classification wants it before a later one, so a row that expires at
the very instant of both readings passes neither (`expiring_taken_for_reuse`). Away from that
instant only a used row is treated as one (`only_used_is_reuse`).
-/

namespace HVault.Account

open Interleave List Function

/-- Whether a statement may claim a row. -/
def Site.claims : Site → Bool
  | .rotateTransaction => true
  | .claimToken => true
  | _ => false

theorem Site.not_inserts {l : Site} {found : RefreshToken} (hl : l.reuseOf = some found) :
    ¬ l.inserts = true := by
  cases l <;> simp_all [Site.reuseOf, Site.inserts]

section Classification

variable {ι : Type} (env : Deployment) (requests : ι → RefreshRequest)

/-- The digest of the value that request `i` would issue. -/
def minted (i : ι) : String := env.hashToken (requests i).newRefreshTokenRaw

/-- A value is presented only after it was issued. -/
def PresentedIssued (i : ι) (l : Site) (s : Store) : Prop :=
  l.claims = true → ∀ j, (requests i).presents env (minted env requests j) →
    minted env requests j ∈ s.history.issued

/-- At its classification, no unused row of the presented value expires at that very instant. -/
def NotExpiringNow (i : ι) (l : Site) (s : Store) : Prop :=
  l = .lookup → ∀ row ∈ s.tokens, (requests i).presents env row.tokenHash → row.usedAt = none →
    row.expiresAt ≠ (requests i).classifiedAt

/-- The rows of a presented value, as its classification finds them. -/
def lookedUp (i : ι) (s : Store) : Option RefreshToken :=
  (requests i).token.bind fun token =>
    s.tokens.find? fun row => decide (row.tokenHash = env.hashToken token)

/-- What a step of `i` does to the rows and the issued values: a row is from before, with the same
expiry, or is the one `i` issues, which was never issued. -/
structure Carries (i : ι) (s s' : Store) : Prop where
  rows : ∀ row' ∈ s'.tokens, (∃ row ∈ s.tokens, row.tokenHash = row'.tokenHash ∧
      row.expiresAt = row'.expiresAt ∧ (row'.usedAt = none → row.usedAt = none)) ∨
    row'.tokenHash = minted env requests i ∧ minted env requests i ∉ s.history.issued
  issued : s'.history.issued = s.history.issued ∨
    s'.history.issued = minted env requests i :: s.history.issued

/-- What a statement of `i` may be, given the row its classification has found. -/
structure Classified (i : ι) (l : Site) (s : Store) (seen seen' : Option RefreshToken)
    (s' : Store) : Prop where
  reuse : ∀ found, l.reuseOf = some found →
    (requests i).presents env found.tokenHash ∧ found.usedAt.isSome = true
  found : l = .lookup → seen' = lookedUp env requests i s
  expired : ∀ row, seen = some row → row.usedAt = none →
    l = .deleteExpired row ∧
      (s' = s ∨ s' = (s.deleteToken fun row' => decide (row'.id = row.id)).2)

/-- The ghost remembers, for every request, the row its classification has found. -/
def classProtocol : Protocol ι Store Site (ι → Option RefreshToken) where
  inv _ _ := True
  guar i l s g s' g' := Carries env requests i s s' ∧ (∀ j, j ≠ i → g' j = g j) ∧
    (∀ row, g i = some row → g' i = some row) ∧
    ∀ l', l = some l' → Classified env requests i l' s (g i) (g' i) s'

/-- Before its rotation, `i` has issued nothing. -/
def Unissued (i : ι) (s : Store) (g : ι → Option RefreshToken) : Prop :=
  g i = none ∧ minted env requests i ∉ s.history.issued

/-- After a claim at `t` that found nothing, every unused row of `h` has expired, and none will be
inserted. -/
def NothingClaimable (i : ι) (h : String) (t : ℤ) (s : Store) (g : ι → Option RefreshToken) :
    Prop :=
  g i = none ∧ (∀ row ∈ s.tokens, row.tokenHash = h → row.usedAt = none → row.expiresAt ≤ t) ∧
    ∀ j, minted env requests j = h → h ∈ s.history.issued

/-- An unused row that was found is answered as expired, unless the database failed. -/
def ClassPost (i : ι) (a : Except AccountError String) (_ : Store)
    (g : ι → Option RefreshToken) : Prop :=
  ∀ row, g i = some row → row.usedAt = none →
    a = .error .tokenExpired ∨ ∃ transient, a = .error (.database transient)

variable {env requests}

theorem Carries.refl (i : ι) (s : Store) : Carries env requests i s s :=
  ⟨fun row hrow => .inl ⟨row, hrow, rfl, rfl, id⟩, .inl rfl⟩

theorem Carries.mem_issued {i : ι} {s s' : Store} (h : Carries env requests i s s') {x : String}
    (hx : x ∈ s.history.issued) : x ∈ s'.history.issued := by
  rcases h.issued with heq | heq
  · rw [heq]
    exact hx
  · rw [heq]
    exact mem_cons_of_mem _ hx

theorem RefreshEffect.carries {i : ι} {h : String} {l : Site} {s s' : Store}
    (heffect : RefreshEffect env (requests i) h l s s')
    (hnew : l.inserts = true → minted env requests i ∉ s.history.issued) :
    Carries env requests i s s' := by
  refine ⟨fun row' hrow' => ?_, heffect.issued.imp id And.right⟩
  rcases heffect.row_mem hrow' with ⟨row, hrow, -, hhash, -, hexpires, hused⟩ | ⟨hl, hhash, -⟩
  · exact .inl ⟨row, hrow, hhash, hexpires, fun hunused => (hused hunused).symm ▸ hunused⟩
  · exact .inr ⟨hhash, hnew hl⟩

theorem stable_unissued (hmint : Function.Injective (minted env requests)) (i : ι) :
    (classProtocol env requests).Stable i (Unissued env requests i) := by
  intro j hj l s g s' g' _ hP hg _
  refine ⟨(hg.2.1 i hj.symm).trans hP.1, fun hmem => ?_⟩
  rcases hg.1.issued with heq | heq
  · exact hP.2 (heq ▸ hmem)
  · rw [heq] at hmem
    rcases mem_cons.1 hmem with hsame | hmem
    · exact hj (hmint hsame.symm)
    · exact hP.2 hmem

theorem stable_seen (i : ι) (found : Option RefreshToken) :
    (classProtocol env requests).Stable i fun _ g => g i = found :=
  fun _ hj _ _ _ _ _ _ hP hg _ => (hg.2.1 i hj.symm).trans hP

/-- Nobody can bring an unexpired row of a value whose claim has failed. -/
theorem stable_nothingClaimable (i : ι) (h : String) (t : ℤ) :
    (classProtocol env requests).Stable i (NothingClaimable env requests i h t) := by
  intro j hj l s g s' g' _ hP hg _
  obtain ⟨hseen, hrows, hissued⟩ := hP
  refine ⟨(hg.2.1 i hj.symm).trans hseen, fun row' hrow' hhash hunused => ?_,
    fun k hk => hg.1.mem_issued (hissued k hk)⟩
  rcases hg.1.rows row' hrow' with ⟨row, hrow, hsame, hexpires, hused⟩ | ⟨hnew, hfresh⟩
  · rw [← hexpires]
    exact hrows row hrow (hsame.trans hhash) (hused hunused)
  · have hk : minted env requests j = h := hnew.symm.trans hhash
    exact (hfresh (hk ▸ hissued j hk)).elim

theorem stable_classPost (i : ι) (a : Except AccountError String) :
    (classProtocol env requests).Stable i (ClassPost i a) := by
  intro j hj l s g s' g' _ hP hg _ row hrow
  exact hP row ((hg.2.1 i hj.symm) ▸ hrow)

/-! ### One refresh -/

variable {faults : Site → AccountError → Bool → Prop} {i : ι} {h : String}
  {g : ι → Option RefreshToken}

variable (env requests) in
/-- What the condition of the run says at a statement of `i`. -/
def classPre (i : ι) (l : Site) (s : Store) (_ : ι → Option RefreshToken) : Prop :=
  PresentedIssued env requests i l s ∧ NotExpiringNow env requests i l s

/-- A statement before the classification. -/
theorem classGuar_of_unseen {l : Site} {s s' : Store} (hcarries : Carries env requests i s s')
    (hseen : g i = none) (hreuse : l.reuseOf = none) (hlookup : l ≠ .lookup) :
    (classProtocol env requests).guar i (some l) s g s' g := by
  refine ⟨hcarries, fun _ _ => rfl, fun row hrow => hrow, fun l' hl' => ?_⟩
  cases hl'
  refine ⟨fun found hfound => ?_, fun hl => (hlookup hl).elim, fun row hrow => ?_⟩
  · rw [hreuse] at hfound
    cases hfound
  · rw [hseen] at hrow
    cases hrow

/-- A claim that finds nothing leaves nothing claimable. -/
theorem nothingClaimable_of_claim {l : Site} {s : Store} {t : ℤ} (hseen : g i = none)
    (hpre : classPre env requests i l s g) (hl : l.claims = true)
    (hh : (requests i).presents env h)
    (hnone : ∀ row ∈ s.tokens, Store.claimable h t row = false) :
    NothingClaimable env requests i h t s g := by
  refine ⟨hseen, fun row hrow hhash hunused => ?_, fun j hj => ?_⟩
  · have hrow' := hnone row hrow
    simp only [Store.claimable, hhash, hunused, decide_true, Option.isNone_none, Bool.true_and,
      decide_eq_false_iff_not] at hrow'
    exact Int.not_lt.1 hrow'
  · have hissued := hpre.1 hl j (hj.symm ▸ hh)
    exact hj ▸ hissued

variable (env requests) in
/-- How a rotation ends: nothing was found to classify yet, and if nothing was claimed nothing can
be. -/
def RotationEnd (i : ι) (h : String) (a : Except AccountError Rotation) (s : Store)
    (g : ι → Option RefreshToken) : Prop :=
  g i = none ∧ (a = .ok .nothingClaimed →
    ∃ n, NothingClaimable env requests i h ((requests i).claimedAt n) s g)

/-- The statements of a rotation, one by one. -/
theorem classRule (hmint : Function.Injective (minted env requests))
    (hh : (requests i).presents env h) :
    RotationRule (classProtocol env requests) (classPre env requests) i env (requests i) h
      (Unissued env requests i) (fun _ => Unissued env requests i)
      (RotationEnd env requests i h) where
  stable := stable_unissued hmint i
  stable_claimed _ := stable_unissued hmint i
  stay hl _ hP _ := by
    refine classGuar_of_unseen (.refl i _) hP.1 ?_ ?_
    · rcases hl with rfl | rfl | rfl | rfl <;> rfl
    · rcases hl with rfl | rfl | rfl | rfl <;> exact nofun
  failed hP := ⟨hP.1, nofun⟩
  transaction {n s g} _ hP hpre := by
    have heffect : RefreshEffect env (requests i) h .rotateTransaction s
        (rotateOnce env (requests i) h n s).2 := .rotate s n
    refine ⟨g, trivial, ?_, ⟨hP.1, fun ha => ⟨n, ?_⟩⟩, fun _ => ⟨hP.1, nofun⟩⟩
    · exact classGuar_of_unseen (heffect.carries fun _ => hP.2) hP.1 rfl nofun
    · rcases rotateOnce_cases env (requests i) h n s with
        ⟨heq, hnone⟩ | heq | ⟨_, _, _, -, -, -, heq⟩
      · rw [heq]
        exact nothingClaimable_of_claim hP.1 hpre rfl hh hnone
      · rw [heq] at ha
        cases ha
      · rw [heq] at ha
        exact nomatch ha
  claim_none _ hP hpre hnone :=
    ⟨hP.1, fun _ => ⟨0, nothingClaimable_of_claim hP.1 hpre rfl hh hnone⟩⟩
  claim_some {row before after s g} _ hP _ htokens hrow := by
    have hcarries : Carries env requests i s { s with
        tokens := before ++ { row with usedAt := some ((requests i).usedAt 0) } :: after } := by
      refine ⟨fun row' hrow' => .inl ?_, .inl rfl⟩
      simp only [mem_append, mem_cons] at hrow'
      rcases hrow' with hmem | rfl | hmem
      · exact ⟨row', by simp [htokens, hmem], rfl, rfl, id⟩
      · exact ⟨row, by simp [htokens], rfl, rfl, nofun⟩
      · exact ⟨row', by simp [htokens, hmem], rfl, rfl, id⟩
    exact ⟨g, trivial, classGuar_of_unseen hcarries hP.1 rfl nofun, hP,
      fun _ => ⟨hP.1, nofun⟩⟩
  successor {row s g} _ hP _ := by
    have heffect : RefreshEffect env (requests i) h (.createSuccessor row) s
        (createSuccessor env (requests i) ((requests i).rotatedAt 0) row s) := .successor s row
    have hcarries := heffect.carries fun _ => hP.2
    exact ⟨g, trivial, classGuar_of_unseen hcarries hP.1 rfl nofun,
      ⟨hP.1, nofun⟩, ⟨hP.1, nofun⟩⟩
  unissued {row s g} _ hP _ := ⟨g, trivial,
    classGuar_of_unseen (.refl i _) hP.1 rfl nofun, hP.1, nofun⟩

/-- A row that was used is answered by the statements of the reuse branch. -/
theorem safe_endReused (env : Deployment) (requests : ι → RefreshRequest)
    {found : RefreshToken} (hpresents : (requests i).presents env found.tokenHash)
    (hused : found.usedAt.isSome = true) {s : Store} (hseen : g i = some found) :
    Safe (classProtocol env requests) faults (classPre env requests) i (ClassPost i)
      (endReusedFamily found) s g := by
  have heach : (endReusedFamily found : Req String).Each (fun _ => True) fun l s s' =>
      RefreshEffect env (requests i) "" l s s' ∧ l.reuseOf = some found := each_endReusedFamily found
  have hkeeps : Keeps (classProtocol env requests) faults (classPre env requests) i
      (fun _ g => g i = some found) (fun _ => True) (endReusedFamily found : Req String) := by
    refine heach.keeps (stable_seen i (some found)) (fun _ _ _ => trivial) ?_
    intro l s g s₁ s' _ hseen _ ⟨heffect, hreuse⟩ hs'
    have hcarries : Carries env requests i s s' := by
      rcases hs' with rfl | rfl
      · exact .refl i _
      · exact heffect.carries fun hl => (Site.not_inserts hreuse hl).elim
    refine ⟨g, trivial, ⟨hcarries, fun _ _ => rfl, fun row hrow => hrow, fun l' hl' => ?_⟩, hseen⟩
    cases hl'
    refine ⟨fun found' hfound' => ?_, fun hl => ?_, fun row hrow hunused => ?_⟩
    · rw [hreuse] at hfound'
      cases hfound'
      exact ⟨hpresents, hused⟩
    · rw [hl] at hreuse
      cases hreuse
    · rw [hseen] at hrow
      cases hrow
      rw [hunused] at hused
      cases hused
  refine (hkeeps s g hseen).mono fun a s g hg row hrow hunused => ?_
  rw [hg.1] at hrow
  cases hrow
  rw [hunused] at hused
  exact nomatch hused

/-- An expired row is deleted and nothing else is. -/
theorem safe_answerExpired (env : Deployment) (requests : ι → RefreshRequest)
    (hfaults : DatabaseFaults faults) {found : RefreshToken} {s : Store}
    (hseen : g i = some found) :
    Safe (classProtocol env requests) faults (classPre env requests) i (ClassPost i)
      ((Prog.db (.deleteExpired found) (Store.deleteToken fun row =>
        decide (row.id = found.id))).bind fun _ => (.raise .tokenExpired : Req String)) s g := by
  have hguar : ∀ {s s' : Store} {g : ι → Option RefreshToken}, g i = some found →
      s' = s ∨ s' = (s.deleteToken fun row => decide (row.id = found.id)).2 →
      (classProtocol env requests).guar i (some (.deleteExpired found)) s g s' g := by
    intro s s' g hseen hs'
    refine ⟨?_, fun _ _ => rfl, fun row hrow => hrow, fun l' hl' => ?_⟩
    · rcases hs' with rfl | rfl
      · exact .refl i _
      · exact ⟨fun row hrow => .inl ⟨row, mem_of_mem_eraseP hrow, rfl, rfl, id⟩, .inl rfl⟩
    · cases hl'
      refine ⟨nofun, nofun, fun row hrow _ => ?_⟩
      rw [hseen] at hrow
      cases hrow
      exact ⟨rfl, hs'⟩
  have hfailed : ∀ {e : AccountError} {b : Bool} {s : Store} {g : ι → Option RefreshToken},
      faults (.deleteExpired found) e b → ClassPost i (.error e) s g := by
    intro e b s g hf row hrow hunused
    obtain ⟨transient, rfl⟩ := hfaults _ _ _ hf
    exact .inr ⟨transient, rfl⟩
  refine Safe.db_bind _ (stable_seen i (some found)) hseen (fun s g _ hseen _ => ?_)
    (fun s g e _ hseen _ hf => ?_) fun s g e _ hseen _ hf => ?_
  · exact ⟨g, trivial, hguar hseen (.inr rfl), fun _ _ _ => .inl rfl⟩
  · exact ⟨g, trivial, hguar hseen (.inl rfl), hfailed hf⟩
  · exact ⟨g, trivial, hguar hseen (.inr rfl), hfailed hf⟩

/-- The row found is classified as what it is. -/
theorem safe_classify (env : Deployment) (requests : ι → RefreshRequest)
    (hclock : ∀ n, (requests i).claimedAt n ≤ (requests i).classifiedAt)
    (hfaults : DatabaseFaults faults) {token : String} (htoken : (requests i).token = some token)
    {n : ℕ} {s : Store}
    (hP : NothingClaimable env requests i (env.hashToken token) ((requests i).claimedAt n) s g) :
    Safe (classProtocol env requests) faults (classPre env requests) i (ClassPost i)
      (classifyUnclaimed (requests i) (env.hashToken token)) s g := by
  classical
  have hlooked : ∀ s : Store, lookedUp env requests i s =
      s.tokens.find? fun row => decide (row.tokenHash = env.hashToken token) := by
    intro s
    simp [lookedUp, htoken]
  -- the ghost remembers the row, whether the answer arrives or not
  have hguar : ∀ {s : Store} {g : ι → Option RefreshToken}, g i = none →
      (classProtocol env requests).guar i (some .lookup) s g s
        (update g i (lookedUp env requests i s)) := by
    intro s g hseen
    refine ⟨.refl i s, fun j hj => update_of_ne hj _ _, fun row hrow => ?_,
      fun l' hl' => ?_⟩
    · rw [hseen] at hrow
      cases hrow
    · cases hl'
      refine ⟨nofun, fun _ => update_self .., ?_⟩
      intro row hrow
      rw [hseen] at hrow
      exact nomatch hrow
  have hfailed : ∀ {e : AccountError} {b : Bool} {s : Store} {g : ι → Option RefreshToken},
      faults .lookup e b → ClassPost i (.error e) s g := by
    intro e b s g hf row hrow hunused
    obtain ⟨transient, rfl⟩ := hfaults _ _ _ hf
    exact .inr ⟨transient, rfl⟩
  refine Safe.db_bind _ (stable_nothingClaimable i _ _) hP (fun s g _ hP hpre => ?_)
    (fun s g e _ hP _ hf => ⟨_, trivial, hguar hP.1, hfailed hf⟩)
    fun s g e _ hP _ hf => ⟨_, trivial, hguar hP.1, hfailed hf⟩
  refine ⟨_, trivial, hguar hP.1, ?_⟩
  have hseen : update g i (lookedUp env requests i s) i = lookedUp env requests i s :=
    update_self ..
  revert hseen
  rw [hlooked]
  generalize update g i _ = g'
  intro hseen
  dsimp only
  split
  · rename_i hfind
    refine fun row hrow _ => ?_
    rw [hseen, hfind] at hrow
    cases hrow
  · rename_i found hfind
    rw [hfind] at hseen
    have hmem := mem_of_find?_eq_some hfind
    have hhash : found.tokenHash = env.hashToken token := by
      simpa using find?_some hfind
    split
    · exact safe_answerExpired env requests hfaults hseen
    · rename_i hnot
      refine safe_endReused env requests ⟨token, htoken, hhash.symm⟩ ?_ hseen
      by_contra hunused
      have hunused : found.usedAt = none := by simpa using hunused
      -- the claim found it expired by then, and it does not expire just now
      have hclaimed := hP.2.1 found hmem hhash hunused
      have hne := hpre.2 rfl found hmem ⟨token, htoken, hhash.symm⟩ hunused
      have hlater := hclock n
      exact hnot ⟨by simp [hunused], by omega⟩

/-- A refresh is safe. -/
theorem safe_refresh_classified (hmint : Function.Injective (minted env requests))
    (hclock : ∀ n, (requests i).claimedAt n ≤ (requests i).classifiedAt)
    (hfaults : DatabaseFaults faults)
    (hundone : ¬ faults .rotateTransaction (.database true) true) {s : Store}
    (hP : Unissued env requests i s g) :
    Safe (classProtocol env requests) faults (classPre env requests) i (ClassPost i)
      (refresh env (requests i)) s g := by
  have hunseen : ∀ {a : Except AccountError String} {s : Store} {g : ι → Option RefreshToken},
      g i = none → ClassPost i a s g := by
    intro a s g hseen row hrow
    rw [hseen] at hrow
    cases hrow
  cases htoken : (requests i).token with
  | none =>
    unfold refresh
    rw [htoken]
    exact hunseen hP.1
  | some token =>
    rw [refresh_eq env (requests i) htoken]
    refine Safe.bind (((classRule hmint ⟨token, htoken, rfl⟩).safe hundone hP).mono fun a s g ha => ?_)
    cases a with
    | error e => exact hunseen ha.1
    | ok rotation =>
      cases rotation with
      | refused => exact hunseen ha.1
      | nothingClaimed =>
        obtain ⟨n, hnothing⟩ := ha.2 rfl
        exact safe_classify env requests hclock hfaults htoken hnothing
      | rotated =>
        have hkeeps : Keeps (classProtocol env requests) faults (classPre env requests) i
            (fun _ g => g i = none) (fun _ => True)
            (afterRotation env (requests i) (env.hashToken token) .rotated) := by
          refine each_afterRotation_rotated.keeps (stable_seen i none) (fun _ _ _ => trivial) ?_
          intro l s g s₁ s' _ hseen _ ⟨heffect, hl⟩ hs'
          have hcarries : Carries env requests i s s' := by
            rcases hs' with rfl | rfl
            · exact .refl i _
            · exact heffect.carries fun hinserts => by rcases hl with rfl | rfl <;> cases hinserts
          refine ⟨g, trivial, classGuar_of_unseen hcarries hseen ?_ ?_, hseen⟩
          · rcases hl with rfl | rfl <;> rfl
          · rcases hl with rfl | rfl <;> exact nofun
        exact (hkeeps s g ha.1).mono fun a s g hg => hunseen hg.1

/-! ### Every run -/

variable (env requests) in
/-- The condition of a run: values are presented after they were issued, and no unused row expires
at the very instant its presentation is classified. -/
def Classifiable (c : Config ι Store Site AccountError String) (i : ι) (l : Site) : Prop :=
  PresentedIssued env requests i l c.store ∧ NotExpiringNow env requests i l c.store

variable (env requests faults) in
/-- From `c` on, `i` deletes the expired row, does nothing else, and answers that it has expired,
unless the database failed. -/
def AnswersExpired [DecidableEq ι] (c : Config ι Store Site AccountError String) (i : ι) (row : RefreshToken) :
    Prop :=
  ∀ c₁, Reaches (refreshSystem env requests faults) (Classifiable env requests) c c₁ →
    (∀ a, c₁.resultOf i = some a →
      a = .error .tokenExpired ∨ ∃ transient, a = .error (.database transient)) ∧
    ∀ l c₂, Classifiable env requests c₁ i l →
      CStep (refreshSystem env requests faults) c₁ (some (i, l)) c₂ →
      l = .deleteExpired row ∧ (c₂.store = c₁.store ∨
        c₂.store = (c₁.store.deleteToken fun row' => decide (row'.id = row.id)).2)

theorem sound_classification (hmint : Function.Injective (minted env requests))
    (hclock : ∀ i n, (requests i).claimedAt n ≤ (requests i).classifiedAt)
    (hfaults : DatabaseFaults faults)
    (hundone : ¬ faults .rotateTransaction (.database true) true) :
    Sound (refreshSystem env requests faults) (classProtocol env requests)
      (classPre env requests) (Classifiable env requests) (Unissued env requests) ClassPost := by
  refine ⟨fun i p hp s g _ hP => ?_, stable_unissued hmint, stable_classPost,
    fun c i l g _ _ hok => hok⟩
  have hp' : p = refresh env (requests i) := hp
  rw [hp']
  refine (safe_refresh_classified hmint (hclock i) hfaults hundone hP).mono ?_
  intro a s g ha _
  exact ⟨g, trivial, ⟨.refl i s, fun _ _ => rfl, fun row hrow => hrow, nofun⟩, ha⟩

/-- **Only reuse is treated as reuse.** In every run in which no unused row expires at the instant
its presentation is classified, the statements of the reuse branch are made for a presented row
that was used; a presented row that was not is answered as expired, and its deletion is all that
follows. -/
theorem only_used_is_reuse [DecidableEq ι] (hmint : Function.Injective (minted env requests))
    (hclock : ∀ i n, (requests i).claimedAt n ≤ (requests i).classifiedAt)
    (hfaults : DatabaseFaults faults)
    (hundone : ¬ faults .rotateTransaction (.database true) true) {s₀ : Store}
    (h₀ : ∀ i, minted env requests i ∉ s₀.history.issued)
    {c c' : Config ι Store Site AccountError String} {l : Site}
    (hrun : Reaches (refreshSystem env requests faults) (Classifiable env requests)
      (Config.start s₀) c)
    (hok : Classifiable env requests c i l)
    (hstep : CStep (refreshSystem env requests faults) c (some (i, l)) c') :
    (∀ found, l.reuseOf = some found →
      (requests i).presents env found.tokenHash ∧ found.usedAt.isSome = true) ∧
    (l = .lookup → ∀ row, lookedUp env requests i c.store = some row → row.usedAt = none →
      AnswersExpired env requests faults c' i row) := by
  have hS := sound_classification hmint hclock hfaults hundone
  have hPre : ∀ i, Unissued env requests i s₀ fun _ => none := fun i => ⟨rfl, h₀ i⟩
  obtain ⟨g, hat⟩ := hS.reaches_start trivial hPre hrun
  obtain ⟨g', g'', hguar, hlast, hat'⟩ := hS.run hat hok hstep
  have hclass := hguar.2.2.2 l rfl
  refine ⟨hclass.reuse, fun hl row hrow hunused c₁ hrun₁ => ?_⟩
  have hseen' : g' i = some row := (hclass.found hl).trans hrow
  have hseen : g'' i = some row := by
    rcases hlast with rfl | hlast
    · exact hseen'
    · exact hlast.2.2.1 row hseen'
  -- what `i` has found stays with it to the end of its run
  have hkeep : ∀ j l s g s' g', (classProtocol env requests).guar j l s g s' g' →
      g i = some row → g' i = some row := by
    intro j l s g s' g' hg hseen
    by_cases hj : i = j
    · subst hj
      exact hg.2.2.1 row hseen
    · exact (hg.2.1 i hj).trans hseen
  obtain ⟨g₁, hat₁, hseen₁⟩ := hS.reaches hkeep hat' hseen hrun₁
  constructor
  · intro a ha
    obtain ⟨p, hp, hresult⟩ := Option.bind_eq_some_iff.1 ha
    have hknown := (hat₁.2 i).known
    rw [hp] at hknown
    exact hknown a hresult row hseen₁ hunused
  · intro l₁ c₂ hok₁ hstep₁
    obtain ⟨g₂, -, hguar₁, -, -⟩ := hS.run hat₁ hok₁ hstep₁
    exact (hguar₁.2.2.2 l₁ rfl).expired row hseen₁ hunused

end Classification

/-! ### A row that expires at ten -/

/-- A family with one row, never used, and a trusted device. -/
def unusedFamily (expiresAt : ℤ) : Store :=
  { plainStore (plainUser []) with
    tokens := [⟨0, "live", "family", somewhere, none, expiresAt, none, "old"⟩]
    trustedDevices := [⟨1, "device", somewhere, 100, none, "old"⟩]
    nextId := 2 }

/-- Presented at the instant at which it expires, a row that was never used is answered as a reuse
and costs the account its trusted device. -/
theorem expiring_taken_for_reuse :
    ∃ c, Reach (refreshSystem (plainDeployment false) (fun _ : Unit => presenting "live" "next")
        fun _ _ _ => False) (Config.start (unusedFamily 10)) c ∧
      c.resultOf () = some (.error (.tokenReuseDetected "family")) ∧
      (∀ row ∈ (unusedFamily 10).tokens, row.usedAt = none) ∧
      (unusedFamily 10).trustedDevices ≠ [] ∧ c.store.trustedDevices = [] := by
  have harrived := Reaches.opened (refreshSystem (plainDeployment false)
    (fun _ : Unit => presenting "live" "next") fun _ _ _ => False) (fun _ _ _ => True)
    (unusedFamily 10) (i := ()) rfl
  refine ⟨_, Reach.follow harrived (replicate 9 ()), rfl, ?_⟩
  decide

/-- Presented a moment after it expired, the row is answered as expired. -/
theorem only_used_is_reuse_expired :
    ∃ c c', Reaches (refreshSystem (plainDeployment false)
        (fun _ : Unit => presenting "live" "next") fun _ _ _ => False)
        (Classifiable (plainDeployment false) fun _ : Unit => presenting "live" "next")
        (Config.start (unusedFamily 9)) c ∧
      CStep (refreshSystem (plainDeployment false) (fun _ : Unit => presenting "live" "next")
        fun _ _ _ => False) c (some ((), .lookup)) c' ∧
      ∃ row, c.store.tokens = [row] ∧ AnswersExpired (plainDeployment false)
        (fun _ : Unit => presenting "live" "next") (fun _ _ _ => False) c' () row := by
  have hunissued : minted (plainDeployment false) (fun _ : Unit => presenting "live" "next") ()
      ∉ ["live"] := by decide
  -- the value presented is the row's, which nobody in the run issues
  have hpresented : ∀ l s, PresentedIssued (plainDeployment false)
      (fun _ : Unit => presenting "live" "next") () l s := by
    intro l s _ j hj
    obtain ⟨token, htoken, hhash⟩ := hj
    cases htoken
    exact (hunissued (hhash ▸ mem_singleton_self "live")).elim
  have h₀ := Reaches.opened (refreshSystem (plainDeployment false)
    (fun _ : Unit => presenting "live" "next") fun _ _ _ => False)
    (Classifiable (plainDeployment false) fun _ : Unit => presenting "live" "next")
    (unusedFamily 9) (i := ()) rfl
  have h₁ := h₀.advance rfl ⟨hpresented _ _, nofun⟩
  have h₂ := h₁.advance (i := ()) rfl ⟨hpresented _ _, fun hl => nomatch hl⟩
  have hnot : NotExpiringNow (plainDeployment false) (fun _ : Unit => presenting "live" "next") ()
      .lookup (unusedFamily 9) := by
    intro _ row hrow _ _
    cases mem_singleton.1 hrow
    decide
  have hlaw := only_used_is_reuse (fun _ _ _ => rfl) (fun _ _ => Int.le_refl _)
    (fun _ _ _ hf => hf.elim) id (fun _ => not_mem_nil) h₂ ⟨hpresented _ _, hnot⟩
    (.advance rfl)
  exact ⟨_, _, h₂, .advance rfl, _, rfl, hlaw.2 rfl _ rfl rfl⟩

end HVault.Account
