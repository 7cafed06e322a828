import HVault.Folders.Requests

/-!
# Folder requests keep the folder cap

The folder requests go through the counted operations, so the accounting protocol covers them: on
an account whose counters start exact and within their caps there are never more folders than
`maxFoldersPerUser`, however the requests interleave. That is the room the cycle check needs.
-/

namespace HVault

open Interleave Option Finmap Prog Safe Store

variable {K ι : Type}

/-- No access fails. -/
abbrev noFaults : Site → VaultError → Bool → Prop := fun _ _ _ => False

theorem admits_noFaults (quota : ℤ) : (capTerms quota : Terms ι).Admits noFaults :=
  ⟨fun _ _ h => h.elim, fun h => (h trivial).elim⟩

section Tidy

variable [Fintype ι] {α β : Type} {quota : ℤ} {i : ι} {s s' : Store K} {g : Ledger ι}

variable (quota i) in
/-- Started owing nothing, the program ends owing nothing, and keeps the books. -/
def Tidy (p : Req K α) : Prop :=
  ∀ s g, g.owed i = 0 → Keeps (capTerms quota) noFaults i (Clear i) p s g

theorem tidy_ret (a : α) : Tidy quota i (.ret a : Req K α) := fun _ _ h => h

theorem tidy_raise (e : VaultError) : Tidy quota i (.raise e : Req K α) := fun _ _ h => h

theorem Tidy.bind {p : Req K β} {h : β → Req K α} (hp : Tidy quota i p)
    (hh : ∀ b, Tidy quota i (h b)) : Tidy quota i (p.bind h) := by
  intro s g howed
  refine Safe.bind ((hp s g howed).mono fun r s g hr => ?_)
  cases r with
  | ok b => exact hh b s g hr
  | error e => exact hr

theorem Tidy.attempt {p : Req K α} (hp : Tidy quota i p) : Tidy quota i p.attempt :=
  fun s g howed => Safe.attempt ((hp s g howed).mono fun _ _ _ hr => hr)

theorem Tidy.orElse {p : Req K α} {h : VaultError → Req K α} (hp : Tidy quota i p)
    (hh : ∀ e, Tidy quota i (h e)) : Tidy quota i (p.orElse h) := by
  apply hp.attempt.bind
  intro r
  cases r with
  | ok a => exact tidy_ret a
  | error e => exact hh e

theorem tidy_ofExcept (r : Except VaultError α) : Tidy quota i (ofExcept r : Req K α) := by
  cases r with
  | ok a => exact tidy_ret a
  | error e => exact tidy_raise e

theorem tidy_readsAt {p : Req K α} {site : Site} (hp : p.ReadsAt site)
    (hsite : site ≠ .recountRead) : Tidy quota i p := by
  intro s g howed
  refine readsAt hp (fun _ g => g.owed i = 0) (stable_owed 0) howed (fun s g _ _ => ?_)
    fun _ _ _ h => h
  exact Within.same (by simpa using hsite)

theorem tidy_read {site : Site} (hsite : site ≠ .recountRead) (f : Store K → α) :
    Tidy quota i (read site f : Req K α) := tidy_readsAt readsAt_read hsite

/-! ## Statements that move no counter -/

/-- Rows may change in what the counters do not count. -/
theorem Books.rewriteRows (hb : Books (capTerms quota) s g) (huser : s'.user = s.user)
    (htotals : ∀ p, p ≠ .vaultBytes → storedTotals s'.rows p = storedTotals s.rows p)
    (he : Evolves (capTerms quota : Terms ι).Neutral s s') : Books (capTerms quota) s' g := by
  have hcounter : ∀ p, s'.counter p = s.counter p := fun p => by
    rw [counter, huser]
    rfl
  exact { hb with
    live := huser ▸ hb.live
    exact := fun hstrict p n hp hn => by
      have hne : p ≠ .vaultBytes := hp
      rw [htotals p hne]
      exact hb.exact hstrict p n hp ((hcounter p).symm.trans hn)
    missing := fun p hp => hb.missing p ((hcounter p).symm.trans hp)
    installed := fun h p hp => hb.installed h p ((hcounter p).symm.trans hp)
    capped := fun hc hstrict p n hne hn =>
      hb.capped hc hstrict p n hne ((hcounter p).symm.trans hn)
    dated := hb.dated.evolves he
    stamped := fun h => h.elim }

omit [Fintype ι] in
theorem within_rewriteRows {l : Site} (hl : l ≠ .recountRead) (huser : s'.user = s.user)
    (he : Evolves (capTerms quota : Terms ι).Neutral s s') :
    Within (capTerms quota) i (some l) s g s' g where
  owed _ _ := rfl
  holds _ _ := rfl
  calm _ _ := rfl
  calmed := id
  evolves := he
  counters p hp := by
    rw [counter, huser] at hp
    exact hp
  totals h := h.elim
  epoch := by
    rw [epoch, epoch, huser]
  busy hi hh := by
    rw [hi] at hh
    cases hh
  reserve _ p n hn := by
    rw [counter, huser] at hn
    exact .inl hn
  install h := h.elim
  recountRead hl' := (hl (some.inj hl')).elim
  recountWrite h := h.elim

omit [Fintype ι] in
/-- Writing placement fields into many rows moves no row counter. -/
theorem storedTotals_updateRows {filter : RowKey → Row K → Bool} {update : ℕ → Row K → Row K}
    (s : Store K) {p : CounterPath} (hp : p ≠ .vaultBytes) :
    storedTotals (s.updateRows filter update).rows p = storedTotals s.rows p := by
  rw [storedTotals_apply, storedTotals_apply]
  show tally _ (mapVal _ s.rows) = _
  rw [tally_mapVal]
  refine tally_congr _ fun key row _ => ?_
  exact rowWeight_of_ne key _ _ hp

omit [Fintype ι] in
theorem evolves_updateRows {filter : RowKey → Row K → Bool} (update : ℕ → CountedUpdate K)
    (s : Store K) : Evolves (capTerms quota : Terms ι).Neutral s
      (s.updateRows filter fun now row => row.placed (update now) now) := by
  refine ⟨le_rfl, fun key row' hrow' => .inl ?_⟩
  have hlookup := lookup_mapVal
    (fun key row => if filter key row then row.placed (update s.clock) s.clock else row)
    s.rows key
  obtain ⟨row, hrow, rfl⟩ := map_eq_some_iff.1 (hlookup.symm.trans hrow')
  refine ⟨row, hrow, ?_⟩
  split
  · exact ⟨rfl, .inr ⟨rfl, .inr fun h => h.elim⟩⟩
  · exact .refl key row

theorem Books.updateRows (hb : Books (capTerms quota) s g) (filter : RowKey → Row K → Bool)
    (update : ℕ → CountedUpdate K) :
    Books (capTerms quota) (s.updateRows filter fun now row => row.placed (update now) now) g :=
  hb.rewriteRows rfl (fun _ hp => storedTotals_updateRows s hp) (evolves_updateRows update s)

omit [Fintype ι] in
theorem Evolves.trans {s'' : Store K}
    (h : Evolves (capTerms quota : Terms ι).Neutral s s')
    (h' : Evolves (capTerms quota : Terms ι).Neutral s' s'') :
    Evolves (capTerms quota : Terms ι).Neutral s s'' := by
  refine ⟨h.1.trans h'.1, fun key row'' hrow'' => ?_⟩
  rcases h'.2 key row'' hrow'' with ⟨row', hrow', hcreated', hstep'⟩ | ⟨t, ht, hle, hlt⟩
  · rcases h.2 key row' hrow' with ⟨row, hrow, hcreated, hstep⟩ | ⟨t, ht, hle, hlt⟩
    · refine .inl ⟨row, hrow, hcreated'.trans hcreated, ?_⟩
      -- the version has moved on in one of the two steps, or in neither
      rcases hstep with hlt | ⟨heq, -⟩
      · rcases hstep' with hlt' | ⟨heq', -⟩
        · exact .inl (hlt.trans hlt')
        · exact .inl (by rw [heq']; exact hlt)
      · rcases hstep' with hlt' | ⟨heq', -⟩
        · exact .inl (by rw [← heq]; exact hlt')
        · exact .inr ⟨heq'.trans heq, .inr fun h => h.elim⟩
    · exact .inr ⟨t, hcreated'.trans ht, hle, hlt.trans_le h'.1⟩
  · exact .inr ⟨t, ht, h.1.trans hle, hlt⟩

/-! ## The counted operations -/

variable [DecidableEq ι]

theorem tidy_createCountedRow {key : RowKey} {fields : Field → Option Bson} {sealedUnder : K} :
    Tidy quota i (createCountedRow quota key fields sealedUnder) := fun _ _ howed =>
  safe_createCountedRow (admits_noFaults quota) (.inr trivial)
    (fun _ => trivial) (fun h => h.elim) howed

theorem tidy_updateCountedRow {key : RowKey} {update : CountedUpdate K} {beforeWrite : Req K Unit}
    (hreads : beforeWrite.ReadsAt .readAccount) :
    Tidy quota i (updateCountedRow quota key update beforeWrite) := fun _ _ howed =>
  safe_updateCountedRow (admits_noFaults quota) (.inr trivial)
    (fun _ => trivial) (fun h => h.elim) hreads (fun _ => trivial) howed

theorem safe_reserveNothing (howed : g.owed i = 0)
    {Q : Except VaultError Reservation → Store K → Ledger ι → Prop}
    (hok : ∀ s g, Holding anyRows i 0 s g → Q (.ok (bytesOnly 0)) s g)
    (herror : ∀ e s g, g.owed i = 0 → Q (.error e) s g) :
    Keeps (capTerms quota) noFaults i Q (reserveVaultWrite quota (bytesOnly 0)) s g := by
  refine safe_reserveVaultWrite (admits_noFaults quota) steady_anyRows
    (.inr trivial) (fun _ => trivial) (fun h => h.elim) ⟨trivial, howed⟩ (fun s g hs => ?_)
    fun e s g hs => herror e s g hs.2
  exact hok s g ⟨trivial, hs.2.1.trans bytesOnly_zero, hs.2.2⟩

/-- What a removal took away is settled. -/
theorem safe_settleFolder {key : RowKey} {gone : Option (Row K)}
    (hs : Holding anyRows i (gone.elim 0 fun row => rowWeight key row) s g)
    {Q : Except VaultError Unit → Store K → Ledger ι → Prop}
    (hQ : ∀ s g, g.owed i = 0 → Q (.ok ()) s g) :
    Keeps (capTerms quota) noFaults i Q
      (settleVaultWrite (bytesOnly 0) (removedCounts key gone)) s g := by
  refine safe_settleVaultWrite (admits_noFaults quota) steady_anyRows
    ⟨trivial, hs.2.1.trans ?_⟩ fun s g hs => hQ s g hs.2
  funext p
  have hzero : (bytesOnly 0 p : ℤ) = 0 := congrFun bytesOnly_zero p
  rw [hzero, zero_sub, removedCounts]
  cases gone with
  | none => exact neg_zero.symm
  | some row => exact (neg_neg _).symm

/-! ## Removals -/

omit [DecidableEq ι] in
/-- Writes of placement fields alone, between what owes nothing. -/
theorem safe_updateRows {l : Site} (hl : l ≠ .recountRead) {filter : RowKey → Row K → Bool}
    (update : ℕ → CountedUpdate K) {P : Ledger ι → Prop}
    (hst : (bookkeeping (K := K) (capTerms quota)).Stable i fun _ g => P g) (hP : P g)
    {Q : Except VaultError Unit → Store K → Ledger ι → Prop} (hQ : ∀ s g, P g → Q (.ok ()) s g) :
    Keeps (capTerms quota) noFaults i Q (db l fun s : Store K =>
      ((), s.updateRows filter fun now row => row.placed (update now) now)) s g := by
  refine access _ hst hP fun s g hb hP _ r s' ho => ?_
  cases ho with
  | applied =>
    exact ⟨g, hb.updateRows filter update, within_rewriteRows hl rfl (evolves_updateRows update s),
      hQ _ _ hP⟩
  | refused h | lost h => exact h.elim

/-- A statement that takes one row away and otherwise writes placement fields alone. -/
theorem Books.removeRow (hb : Books (capTerms quota) s g) (hholds : g.holds i = true) {key : RowKey}
    {row : Row K} {l : Site}
    (hl : l ≠ .reserve ∧ l ≠ .installCounters ∧ l ≠ .recountRead ∧ l ≠ .recountWrite)
    (he : Evolves (capTerms quota : Terms ι).Neutral s s') (huser : s'.user = s.user)
    (htotals : ∀ p, p ≠ .vaultBytes →
      storedTotals s'.rows p = storedTotals s.rows p - rowWeight key row p) :
    Books (capTerms quota) s' (g.owe i (g.owed i + rowWeight key row) true) ∧
      Within (capTerms quota) i (some l) s g s' (g.owe i (g.owed i + rowWeight key row) true) := by
  have hcounter : ∀ p, s'.counter p = (s.counter p).map (· + (0 : Counts) p) := fun p => by
    simp [counter, huser]
  have hepoch : s.epoch ≤ s'.epoch := by rw [epoch, epoch, huser]
  have hlive : s'.user.isSome := huser ▸ hb.live
  constructor
  · apply hb.balance (e := -rowWeight key row) hlive hcounter
    · intro p hp
      have hne : p ≠ .vaultBytes := hp
      rw [htotals p hne, Pi.neg_apply, sub_eq_add_neg]
    · intro p _
      simp
    · intro p hp
      exact add_nonneg (hb.nonneg i p hp) (rowWeight_nonneg key row p)
    · intro h
      cases h
    · intro _ p hp
      rw [hb.missing p hp i] at hholds
      cases hholds
    · intro h
      exact h.elim
    · intro p n _ _ hle
      simpa using hle
    · exact he
    · intro h
      exact h.elim
  · apply Within.balance hcounter he
    · intro h
      exact h.elim
    · exact hepoch
    · intro h
      rw [hholds] at h
      cases h
    · intro h
      exact (hl.1 (some.inj h)).elim
    · simpa using hl.2

omit [Fintype ι] [DecidableEq ι] in
theorem evolves_rehomedContents (folderId : ℕ) (parentId : Option ℕ) (action : FolderRemovalAction)
    (s : Store K) :
    Evolves (capTerms quota : Terms ι).Neutral s (rehomedContents folderId parentId action s) := by
  refine Evolves.trans ?_ (evolves_updateRows (fun _ => setOrUnset .parentId _) _)
  cases action with
  | delete => exact evolves_updateRows (fun now => setOrUnset .deletedAt (some (.date now))) s
  | move => exact evolves_updateRows (fun _ => setOrUnset .folderId _) s

theorem user_rehomedContents (folderId : ℕ) (parentId : Option ℕ) (action : FolderRemovalAction)
    (s : Store K) : (rehomedContents folderId parentId action s).user = s.user := by
  cases action with
  | delete => rfl
  | move => rfl

omit [Fintype ι] [DecidableEq ι] in
theorem storedTotals_rehomedContents (folderId : ℕ) (parentId : Option ℕ)
    (action : FolderRemovalAction) (s : Store K) {p : CounterPath} (hp : p ≠ .vaultBytes) :
    storedTotals (rehomedContents folderId parentId action s).rows p = storedTotals s.rows p := by
  rw [rehomedContents, rehomeFolders, storedTotals_updateRows _ hp]
  cases action with
  | delete | move => exact storedTotals_updateRows s hp

omit [DecidableEq ι] in
theorem safe_rehomeFolderContents {folderId : ℕ} {parentId : Option ℕ}
    {action : FolderRemovalAction} {x : Counts} (hs : Holding anyRows i x s g)
    {Q : Except VaultError Unit → Store K → Ledger ι → Prop}
    (hQ : ∀ s g, Holding anyRows i x s g → Q (.ok ()) s g) :
    Keeps (capTerms quota) noFaults i Q
      (rehomeFolderContents folderId parentId action : Req K Unit) s g := by
  have hst : (bookkeeping (K := K) (capTerms quota)).Stable i
      fun _ g => g.owed i = x ∧ g.holds i = true := (stable_owed x).and (stable_holds true)
  have hfolders : ∀ (s : Store K) (g : Ledger ι), g.owed i = x ∧ g.holds i = true →
      Keeps (capTerms quota) noFaults i Q (db (.rehomeFolders folderId parentId)
        fun s : Store K => ((), rehomeFolders folderId parentId s)) s g := fun s g hP =>
    safe_updateRows (by simp) (fun _ => setOrUnset .parentId _) hst hP
      fun s g hP => hQ s g ⟨trivial, hP⟩
  refine bind ?_
  cases action with
  | delete =>
    exact safe_updateRows (by simp) (fun now => setOrUnset .deletedAt (some (.date now)))
      hst hs.2 fun s g hP => hfolders s g hP
  | move =>
    exact safe_updateRows (by simp) (fun _ => setOrUnset .folderId _) hst hs.2
      fun s g hP => hfolders s g hP

omit [DecidableEq ι] in
theorem tidy_sweepOrphanedFolderReferences (folderId : ℕ) :
    Tidy quota i (sweepOrphanedFolderReferences folderId : Req K Unit) := by
  refine Tidy.bind (Tidy.attempt fun s g howed => ?_) fun _ => tidy_ret ()
  exact safe_updateRows (by simp) (fun _ => setOrUnset .folderId none) (stable_owed 0)
    howed fun _ _ h => h

/-- What a removal has come to owe once it took `gone` away. -/
abbrev OwingGone (i : ι) (key : RowKey) (gone : Option (Row K)) (s : Store K) (g : Ledger ι) :
    Prop := Holding anyRows i (gone.elim 0 fun row => rowWeight key row) s g

/-- What the transaction of a delete does, found or not. -/
theorem Books.removeFolder (hb : Books (capTerms quota) s g) (hs : Holding anyRows i 0 s g)
    (folderId : ℕ) (parentId : Option ℕ) (action : FolderRemovalAction) :
    let r := (rehomedContents folderId parentId action s).deleteRow ⟨.folder, folderId⟩ fun _ => true
    ∃ g', Books (capTerms quota) r.2 g' ∧
      Within (capTerms quota) i (some (.removeFolder folderId parentId)) s g r.2 g' ∧
      OwingGone i ⟨.folder, folderId⟩ r.1 r.2 g' := by
  intro r
  have he : Evolves (capTerms quota : Terms ι).Neutral s (rehomedContents folderId parentId action s) :=
    evolves_rehomedContents folderId parentId action s
  have huser := user_rehomedContents folderId parentId action s
  rcases (rehomedContents folderId parentId action s).deleteRow_cases ⟨.folder, folderId⟩
    (fun _ => true) with ⟨heq, -⟩ | ⟨row, hrow, -, heq⟩
  · have hr : r = (none, rehomedContents folderId parentId action s) := heq
    rw [hr]
    refine ⟨g, hb.rewriteRows huser (fun p hp => ?_) he, within_rewriteRows (by simp) huser he, hs⟩
    exact storedTotals_rehomedContents folderId parentId action s hp
  · have hr : r = (some row, { rehomedContents folderId parentId action s with
      rows := (rehomedContents folderId parentId action s).rows.erase ⟨.folder, folderId⟩ }) := heq
    have htotals : ∀ p, p ≠ .vaultBytes →
        storedTotals ((rehomedContents folderId parentId action s).rows.erase ⟨.folder, folderId⟩) p
          = storedTotals s.rows p - rowWeight ⟨.folder, folderId⟩ row p := by
      intro p hp
      rw [storedTotals_erase hrow, Pi.sub_apply,
        storedTotals_rehomedContents folderId parentId action s hp]
    rw [hr]
    obtain ⟨hb', hw⟩ := hb.removeRow hs.2.2 (l := .removeFolder folderId parentId) (by simp)
      (he.trans .erase) huser htotals
    exact ⟨_, hb', hw, trivial, by rw [owed_owe, hs.2.1, zero_add]; rfl, holds_owe⟩

theorem safe_removeRehomed (transactions : Bool) {folderId : ℕ} {parentId : Option ℕ}
    {action : FolderRemovalAction} (hs : Holding anyRows i 0 s g)
    {Q : Except VaultError (Option (Row K)) → Store K → Ledger ι → Prop}
    (hok : ∀ gone s g, OwingGone i ⟨.folder, folderId⟩ gone s g → Q (.ok gone) s g)
    (herror : ∀ e s g, g.owed i = 0 → Q (.error e) s g) :
    Keeps (capTerms quota) noFaults i Q
      (removeRehomed transactions folderId parentId action) s g := by
  cases transactions with
  | true =>
    refine access _ (steady_anyRows.holding 0) hs fun s g hb hs _ r s' ho => ?_
    cases ho with
    | applied =>
      obtain ⟨g', hb', hw, hs'⟩ := hb.removeFolder hs folderId parentId action
      exact ⟨g', hb', hw, hok _ _ _ hs'⟩
    | refused h | lost h => exact h.elim
  | false =>
    refine bind (safe_rehomeFolderContents hs fun s g hs => ?_)
    refine safe_deleteCountedRow (admits_noFaults quota) hs
      (fun row s g hs => hok (some row) s g ?_) (fun s g hs => hok none s g hs)
      fun e s g hs => herror e s g hs.2.1
    rw [zero_add] at hs
    exact hs

theorem tidy_deleteFolder (transactions : Bool) (folderId : ℕ) (action : FolderRemovalAction) :
    Tidy quota i (deleteFolder quota transactions folderId action : Req K (FolderAnswer K)) := by
  apply Tidy.bind (tidy_read (by simp) _)
  intro found
  cases found with
  | none => exact tidy_raise _
  | some folder =>
    intro s g howed
    refine bind (safe_reserveNothing howed (fun s g hs => ?_) fun e s g h => h)
    refine bind (safe_removeRehomed transactions hs (fun gone s g hs => ?_) fun e s g h => h)
    refine bind (safe_settleFolder hs fun s g howed => ?_)
    exact (tidy_sweepOrphanedFolderReferences folderId).bind (fun _ => tidy_ret _) s g howed

/-- What the transaction of a claim does, matched or not. -/
theorem Books.claimFolder (hb : Books (capTerms quota) s g) (hs : Holding anyRows i 0 s g)
    {folderId : ℕ} {row : Row K} (hrow : s.rows.lookup ⟨.folder, folderId⟩ = some row) :
    let s' := rehomedContents folderId row.parentId .move
      { s with rows := s.rows.erase ⟨.folder, folderId⟩ }
    ∃ g', Books (capTerms quota) s' g' ∧
      Within (capTerms quota) i (some (.claimFolder folderId)) s g s' g' ∧
      OwingGone i ⟨.folder, folderId⟩ (some row) s' g' := by
  intro s'
  have he : Evolves (capTerms quota : Terms ι).Neutral s s' :=
    Evolves.trans .erase (evolves_rehomedContents folderId row.parentId .move _)
  have htotals : ∀ p, p ≠ .vaultBytes →
      storedTotals s'.rows p = storedTotals s.rows p - rowWeight ⟨.folder, folderId⟩ row p := by
    intro p hp
    rw [storedTotals_rehomedContents folderId row.parentId .move _ hp, storedTotals_erase hrow,
      Pi.sub_apply]
  obtain ⟨hb', hw⟩ := hb.removeRow hs.2.2 (l := .claimFolder folderId) (by simp) he rfl htotals
  exact ⟨_, hb', hw, trivial, by rw [owed_owe, hs.2.1, zero_add]; rfl, holds_owe⟩

theorem safe_claimFolder (transactions : Bool) {folderId : ℕ} {readPin : Row K → Bool}
    (hs : Holding anyRows i 0 s g)
    {Q : Except VaultError (Option (Row K) × Except VaultError Unit) → Store K → Ledger ι → Prop}
    (hok : ∀ gone ended s g, OwingGone i ⟨.folder, folderId⟩ gone s g → Q (.ok (gone, ended)) s g)
    (herror : ∀ e s g, Holding anyRows i 0 s g → Q (.error e) s g) :
    Keeps (capTerms quota) noFaults i Q (claimFolder transactions folderId readPin) s g := by
  cases transactions with
  | true =>
    refine access _ (steady_anyRows.holding 0) hs fun s g hb hs _ r s' ho => ?_
    cases ho with
    | applied =>
      rcases s.deleteRow_cases ⟨.folder, folderId⟩ readPin with ⟨heq, -⟩ | ⟨row, hrow, -, heq⟩
      · rw [heq]
        exact ⟨g, hb, Within.same (by simp), hok none _ s g hs⟩
      · rw [heq]
        obtain ⟨g', hb', hw, hs'⟩ := hb.claimFolder hs hrow
        exact ⟨g', hb', hw, hok (some row) _ _ _ hs'⟩
    | refused h | lost h => exact h.elim
  | false =>
    refine bind (safe_deleteCountedRow (admits_noFaults quota) hs
      (fun row s g hs => ?_) (fun s g hs => hok none _ s g hs) herror)
    rw [zero_add] at hs
    have hmove : Keeps (capTerms quota) noFaults i
        (fun r s g => r = .ok () ∧ Holding anyRows i (rowWeight ⟨.folder, folderId⟩ row) s g)
        (rehomeFolderContents folderId row.parentId .move : Req K Unit) s g :=
      safe_rehomeFolderContents hs fun s g hs => ⟨rfl, hs⟩
    refine bind (attempt (hmove.mono fun r s g hr => ?_))
    exact hok (some row) r s g hr.2

theorem tidy_removeFolderIfUnchanged (transactions : Bool) (folderId : ℕ)
    (readPin : Row K → Bool) :
    Tidy quota i (removeFolderIfUnchanged quota transactions folderId readPin) := by
  -- whatever the claim came to, what it removed is settled and the rest only sweeps
  have hrest : ∀ claim s g, OwingGone i ⟨.folder, folderId⟩ (claimOutcome claim).1 s g →
      Keeps (capTerms quota) noFaults i (Clear i) (do
        let outcome := claimOutcome claim
        settleVaultWrite (bytesOnly 0) (removedCounts ⟨.folder, folderId⟩ outcome.1)
        .ofExcept outcome.2
        if outcome.1.isSome then do
          sweepOrphanedFolderReferences folderId
          pure (.removed true)
        else pure (.removed false) : Req K (FolderAnswer K)) s g := by
    intro claim s g hs
    refine bind (safe_settleFolder hs fun s g howed => ?_)
    refine (tidy_ofExcept _).bind (fun _ => ?_) s g howed
    split
    · exact (tidy_sweepOrphanedFolderReferences folderId).bind fun _ => tidy_ret _
    · exact tidy_ret _
  intro s g howed
  refine bind (safe_reserveNothing howed (fun s g hs => ?_) fun e s g h => h)
  refine bind (attempt (safe_claimFolder transactions hs (fun gone ended s g hs => ?_)
    fun e s g hs => ?_))
  · exact hrest (.ok (gone, ended)) s g hs
  · exact hrest (.error e) s g hs

/-! ## Creates and updates -/

theorem tidy_withdrawCountedRow {key : RowKey} {createdAt : Option ℕ} (accountLive : Bool) :
    Tidy quota i (withdrawCountedRow quota key createdAt accountLive : Req K Bool) :=
  fun _ _ howed => safe_withdrawCountedRow (admits_noFaults quota)
    (.inr trivial) (fun _ => trivial) (fun h => h.elim) (fun _ => ⟨not_false, trivial⟩) howed

theorem tidy_confirmCreatedRow (key : RowKey) (row : Row K) (supplied : Option ℕ) :
    Tidy quota i (confirmCreatedRow quota key row supplied) := by
  apply Tidy.orElse (tidy_readsAt (readsAt_assertVaultWritable supplied) (by simp))
  intro refusal
  exact (tidy_withdrawCountedRow _).attempt.bind fun _ => tidy_raise refusal

omit [DecidableEq ι] in
theorem tidy_guards (supplied : Option ℕ) {p : Req K α} (hp : Tidy quota i p) :
    Tidy quota i (assertVaultNotRotating.bind fun _ =>
      (assertVaultKeyVersion supplied).bind fun _ => p) := by
  apply Tidy.bind (tidy_readsAt readsAt_assertVaultNotRotating (by simp))
  intro _
  exact (tidy_readsAt (readsAt_assertVaultKeyVersion supplied) (by simp)).bind fun _ => hp

omit [DecidableEq ι] in
theorem tidy_whenNamed {parentId : Option ℕ} {check : ℕ → Req K Unit}
    (hcheck : ∀ p, Tidy quota i (check p)) : Tidy quota i (whenNamed parentId check) := by
  cases parentId with
  | none => exact tidy_ret ()
  | some p => exact hcheck p

omit [DecidableEq ι] in
theorem tidy_assertParentExists (parentId : ℕ) :
    Tidy quota i (assertParentExists parentId : Req K Unit) := by
  apply Tidy.bind (tidy_read (by simp) _)
  intro parentExists
  split
  · exact tidy_ret ()
  · exact tidy_raise _

omit [DecidableEq ι] in
theorem tidy_validateFolderDepth (parentId : ℕ) :
    Tidy quota i (validateFolderDepth parentId : Req K Unit) := by
  apply Tidy.bind (tidy_read (by simp) _)
  intro chain
  split
  · exact tidy_raise _
  · exact tidy_ret ()

theorem tidy_createFolder (userId : ℕ) (body : CreateFolderInput K) :
    Tidy quota i (createFolder quota userId body) := by
  apply tidy_guards
  apply Tidy.bind (tidy_whenNamed fun p => ?_)
  · intro _
    apply Tidy.bind (tidy_createCountedRow.orElse fun e => tidy_raise _)
    intro folder
    exact (tidy_confirmCreatedRow _ folder _).bind fun _ => tidy_ret _
  · exact (tidy_assertParentExists p).bind fun _ => tidy_validateFolderDepth p

omit [DecidableEq ι] in
theorem tidy_checkReparent (id parentId : ℕ) :
    Tidy quota i (checkReparent id parentId : Req K Unit) := by
  unfold checkReparent
  split
  · exact tidy_raise _
  · apply Tidy.bind (tidy_assertParentExists parentId)
    intro _
    apply Tidy.bind (tidy_read (by simp) _)
    intro chain
    apply Tidy.bind (tidy_read (by simp) _)
    intro subtreeHeight
    split
    · exact tidy_raise _
    · split
      · exact tidy_raise _
      · exact tidy_ret ()

omit [Fintype ι] [DecidableEq ι] in
/-- Writing placement fields into one row moves no row counter. -/
theorem evolves_place {key : RowKey} {row : Row K} (hrow : s.rows.lookup key = some row)
    (update : CountedUpdate K) (now : ℕ) : Evolves (capTerms quota : Terms ι).Neutral s
      { s with rows := s.rows.insert key (row.placed update now) } :=
  .replace hrow ⟨rfl, .inr ⟨rfl, .inr fun h => h.elim⟩⟩

omit [DecidableEq ι] in
theorem tidy_checkCommittedParent (id : ℕ) :
    Tidy quota i (checkCommittedParent id : Req K Unit) := by
  apply Tidy.bind (tidy_read (by simp) _)
  intro cyclic
  split
  · refine Tidy.bind (fun s g howed => ?_) fun _ => tidy_raise _
    refine access _ (stable_owed 0) howed fun s g hb howed _ r s' ho => ?_
    cases ho with
    | applied =>
      rcases s.updateRow_cases ⟨.folder, id⟩ (fun _ => true)
        (fun now row => row.placed (setOrUnset .parentId none) now) with
        ⟨heq, -⟩ | ⟨row, hrow, -, heq⟩
      · rw [heq]
        exact ⟨g, hb, Within.same (by simp), howed⟩
      · rw [heq]
        have he : Evolves (capTerms quota : Terms ι).Neutral s
            { s with
              rows := s.rows.insert ⟨.folder, id⟩
                (row.placed (setOrUnset .parentId none) s.clock) } :=
          evolves_place hrow (setOrUnset .parentId none) s.clock
        refine ⟨g, hb.rewriteRows rfl (fun p hp => ?_) he, within_rewriteRows (by simp) rfl he, howed⟩
        rw [storedTotals_replace hrow, Pi.add_apply, Pi.sub_apply, rowWeight_of_ne _ (row.placed _ _) row hp,
          sub_add_cancel]
    | refused h | lost h => exact h.elim
  · exact tidy_ret ()

theorem tidy_updateFolder (id : ℕ) (body : UpdateFolderInput K) :
    Tidy quota i (updateFolder quota id body) := by
  apply tidy_guards
  apply Tidy.bind (tidy_whenNamed (tidy_checkReparent id))
  intro _
  apply Tidy.bind (tidy_updateCountedRow (readsAt_assertVaultWritable _))
  intro updated
  cases updated with
  | none => exact tidy_raise _
  | some folder =>
    exact (tidy_whenNamed fun _ => tidy_checkCommittedParent id).bind fun _ => tidy_ret _

/-- **Every folder request keeps the books.** -/
theorem tidy_prog (transactions : Bool) (r : FolderRequest K) :
    Tidy quota i (r.prog quota transactions) := by
  cases r with
  | create userId body => exact tidy_createFolder userId body
  | update id body => exact tidy_updateFolder id body
  | delete folderId action => exact tidy_deleteFolder transactions folderId action
  | removeIfUnchanged folderId readPin =>
    exact tidy_removeFolderIfUnchanged transactions folderId readPin

end Tidy

/-! ## The cap -/

/-- An account as the quota keeps it: every row counter installed, at or below its cap, and not
below what is stored; and no row created after now. -/
structure WithinCaps (s : Store K) : Prop where
  counted : ∀ p, ∃ n, s.counter p = some n ∧
    (p ≠ .vaultBytes → storedTotals s.rows p ≤ n ∧ n ≤ ceiling 0 p)
  dated : Dated s

/-- A folder request that has ended owes nothing. -/
def EndedTidy (i : ι) (_ : Except VaultError (FolderAnswer K)) (_ : Store K) (g : Ledger ι) :
    Prop := g.owed i = 0

/-- The ledger of an account whose counters run ahead of its rows by `lost`. -/
def Ledger.ahead (lost : Counts) : Ledger ι where
  owed _ := 0
  holds _ := false
  calm _ := false
  lost := lost

theorem books_ahead [Fintype ι] {quota : ℤ} {s : Store K} (h : WithinCaps s) :
    Books (capTerms quota) s (Ledger.ahead s.gap : Ledger ι) where
  live := by
    obtain ⟨n, hn, -⟩ := h.counted .items
    cases hu : s.user with
    | some _ => rfl
    | none => simp [counter, hu] at hn
  exact := by
    intro _ p n _ hn
    simp only [Ledger.ahead, gap, hn, getD_some, Pi.zero_apply,
      Finset.sum_const_zero]
    omega
  lost := by
    intro p hp
    have hne : p ≠ .vaultBytes := hp
    obtain ⟨n, hn, hbounds⟩ := h.counted p
    have hle := (hbounds hne).1
    simp only [Ledger.ahead, gap, hn, getD_some]
    omega
  kept h := (h trivial).elim
  missing _ _ _ := rfl
  nonneg _ _ _ := le_rfl
  idle _ _ := rfl
  passive _ h := h.elim
  installed := by
    intro _ p hp
    obtain ⟨n, hn, -⟩ := h.counted p
    rw [hp] at hn
    cases hn
  capped := by
    intro _ _ p n hne hn
    obtain ⟨m, hm, hbounds⟩ := h.counted p
    have hnm : n = m := some.inj (hn.symm.trans hm)
    have hle := (hbounds hne).2
    have hceiling : ceiling (capTerms quota : Terms ι).quota p = ceiling 0 p := by
      cases p with
      | vaultBytes => exact (hne rfl).elim
      | items => rfl
      | folders => rfl
    rw [hceiling, hnm]
    exact hle
  dated := h.dated
  stamped h := h.elim

/-- **There are never more folders than the cap**, however the folder requests interleave. -/
theorem folders_capped [Fintype ι] [DecidableEq ι] {quota : ℤ} {transactions : Bool}
    {requests : ι → FolderRequest K} {s₀ : Store K} (h₀ : WithinCaps s₀)
    {c : Config ι (Store K) Site VaultError (FolderAnswer K)}
    (h : Reach (folderSystem quota transactions requests) (Config.start s₀) c) :
    rowCount .folder c.store.rows ≤ maxFoldersPerUser := by
  have hsound : Sound (folderSystem quota transactions requests) (bookkeeping (capTerms quota))
      (ReadsQuiet (capTerms quota)) (fun _ _ _ => True) (fun i _ g => g.owed i = 0) EndedTidy := {
    safe := by
      rintro i p rfl s g - howed
      refine (tidy_prog transactions (requests i) s g howed).mono fun r s g hr hb => ?_
      refine ⟨g, hb, ?_, hr⟩
      exact { owed := fun _ _ => rfl
              holds := fun _ _ => rfl
              calm := fun _ _ => rfl
              calmed := id
              evolves := .refl s
              counters := fun _ => id
              totals := fun h => h.elim
              epoch := le_rfl
              busy := fun hi hh => absurd (hi.symm.trans hh) Bool.false_ne_true
              reserve := fun _ _ _ hn => .inl hn
              install := fun h => h.elim
              recountRead := nofun
              recountWrite := fun h => h.elim }
    stable_pre := fun i => stable_owed 0
    stable_post := fun i _ => stable_owed 0
    side := fun _ _ _ _ _ _ _ _ h => h.elim }
  obtain ⟨g, hb, -⟩ := hsound.reaches_start (books_ahead h₀) (fun _ => rfl) h
  have hle := hb.rowCount_le .folder
  have hceiling : ceiling quota (rowCounter .folder) = (maxFoldersPerUser : ℤ) := rfl
  omega

end HVault
