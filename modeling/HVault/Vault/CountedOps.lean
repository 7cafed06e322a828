import HVault.Vault.Bookkeeping

/-!
# The requests of the quota code, and that they keep the books

`VaultOp` lists the requests: the counted operations, the install and the recount. Each is
shown to follow the accounting protocol, the ones that write rows through one lemma for each
row statement, and `sound_vaultSystem` puts them together.
-/

namespace HVault

open Interleave Bool Finmap Safe Within

variable {K : Type}

/-! ## Requests -/

/-- A request of the quota code. `beforeWrite` is what a pinned update checks between its
measure and its reservation: reads of the account. -/
inductive VaultOp (K : Type) : Type 1 where
  | create (key : RowKey) (fields : Field → Option Bson) (sealedUnder : K)
  | update (key : RowKey) (change : CountedUpdate K) (beforeWrite : Req K Unit)
      (reads : beforeWrite.ReadsAt .readAccount)
  | permanentDelete (id : ℕ)
  | emptyTrash (startTime : ℤ) (rounds : ℕ)
  | withdraw (key : RowKey) (createdAt : Option ℕ) (accountLive : Bool)
  | install
  | recount (quietSince : ℕ)

/-- The program of a request. -/
def VaultOp.prog (quota : ℤ) : VaultOp K → Req K Unit
  | create key fields sealedUnder => do
    let _ ← createCountedRow quota key fields sealedUnder
  | update key change beforeWrite _ => do
    let _ ← updateCountedRow quota key change beforeWrite
  | permanentDelete id => HVault.permanentDelete quota id
  | emptyTrash startTime rounds => HVault.emptyTrash quota startTime rounds
  | withdraw key createdAt accountLive => do
    let _ ← withdrawCountedRow quota key createdAt accountLive
  | install => installVaultCounters
  | recount quietSince => do
    let _ ← recountVaultQuotas quietSince

/-- The requests that reserve before they touch a row. -/
def VaultOp.Counted : VaultOp K → Prop
  | update key change _ _ => writesCountedField key.kind change
  | withdraw _ _ accountLive => accountLive = true
  | install => False
  | recount _ => False
  | _ => True

/-- The request writes placement fields alone, of the row at `key`. -/
def VaultOp.Places (key : RowKey) : VaultOp K → Prop
  | update k change _ _ => k = key ∧ ¬ writesCountedField key.kind change
  | _ => False

/-- The requests that only count. -/
def VaultOp.Passive : VaultOp K → Prop
  | install => True
  | recount _ => True
  | _ => False

/-- The request withdraws a row of an account that is gone or being erased: it settles nothing. -/
def VaultOp.Unsettling : VaultOp K → Prop
  | withdraw _ _ accountLive => accountLive = false
  | _ => False

instance : (op : VaultOp K) → Decidable op.Unsettling
  | .withdraw _ _ accountLive => inferInstanceAs (Decidable (accountLive = false))
  | .create .. | .update .. | .permanentDelete _ | .emptyTrash .. | .install | .recount _ =>
    .isFalse id

/-- The request would remove a row of `s` and settle nothing for it. -/
def VaultOp.Strands (s : Store K) : VaultOp K → Prop
  | withdraw key createdAt accountLive => accountLive = false ∧
      ∃ row, s.rows.lookup key = some row ∧ row.createdAt = createdAt
  | _ => False

variable {ι : Type}

/-- The system of one account: request `i` is `ops i`. -/
def vaultSystem (quota : ℤ) (faults : Site → VaultError → Bool → Prop) (ops : ι → VaultOp K) :
    System ι (Store K) Site VaultError Unit where
  admits i p := p = (ops i).prog quota
  faults := faults

/-! ## The row statements -/

section Specs

variable [Fintype ι] {T : Terms ι} {faults : Site → VaultError → Bool → Prop} {i : ι}
  {F : Store K → Prop} {s s' : Store K} {g : Ledger ι} {x e : Counts} {l : Option Site}
  {key : RowKey} {row row' : Row K}

/-- The request owes nothing. -/
def Clear {α : Type} (i : ι) (_ : Except VaultError α) (_ : Store K) (g : Ledger ι) : Prop :=
  g.owed i = 0

/-- Nothing said of the rows. -/
def anyRows (_ : Store K) : Prop := True

omit [Fintype ι] in
theorem steady_anyRows : T.Steady (anyRows (K := K)) := fun _ _ _ _ => trivial

variable {update : CountedUpdate K}

omit [Fintype ι] in
theorem steady_pinned {measure : RowMeasure} :
    T.Steady (Pinned key measure.version measure.createdAt
      fun row => T.exactBytes → Measures key.kind row measure update) := by
  intro s s' he hp
  refine hp.evolves he fun row row' hv hc hm hneutral hT => ?_
  obtain ⟨hu, hfields⟩ := hneutral hT
  obtain ⟨mv, mc, mb, mu, mf⟩ := hm hT
  refine ⟨mv.trans hv.symm, mc.trans hc.symm, ?_, mu.trans hu.symm, fun f hf => ?_⟩
  · rw [mb, countedBytes_congr hv hc hu hfields]
  · rw [mf f hf, hfields f (countedFieldsOf_subset _ _ hf)]

variable [DecidableEq ι]

/-- A request that holds writes rows: what it owes makes up for what the totals gained. -/
theorem Books.writeRows (hb : Books T s g) (hholds : g.holds i = true) (huser : s'.user = s.user)
    (he : Evolves T.Neutral s s')
    (htotals : ∀ p, T.Tracks p → storedTotals s'.rows p = storedTotals s.rows p + e p)
    (howed : ∀ p, T.Tracks p → x p = g.owed i p - e p) (hnonneg : ∀ p, T.Tracks p → 0 ≤ x p)
    (hstamped : T.exactBytes → ∀ key row, T.placed key → s'.rows.lookup key = some row →
      row.updatedAt.isSome)
    (hl : l = some .writeRow ∨ l = some .insertRow ∨ l = some .deleteRow) :
    Books T s' (g.owe i x true) ∧ Within T i l s g s' (g.owe i x true) := by
  have hcounter : ∀ p, s'.counter p = (s.counter p).map (· + (0 : Counts) p) := fun p => by
    simp [Store.counter, huser]
  have hepoch : s'.epoch = s.epoch := by simp [Store.epoch, huser]
  have hinstalled : ∀ p, s.counter p ≠ none := fun p hp =>
    absurd ((hb.missing p hp i).symm.trans hholds) false_ne_true
  refine ⟨hb.balance (huser ▸ hb.live) hcounter htotals (fun p hp => ?_) hnonneg (by simp)
    (fun _ => hinstalled) (fun h => ?_) (fun p n _ _ hle => by simpa using hle) he hstamped,
    Within.balance hcounter he (fun _ => .inl hholds) hepoch.ge (fun h _ => ?_) (fun h => ?_) ?_⟩
  · rw [howed p hp]
    simp
  · rw [hb.passive i h] at hholds
    cases hholds
  · rw [h] at hholds
    cases hholds
  · rcases hl with rfl | rfl | rfl <;> simp at h
  · rcases hl with rfl | rfl | rfl <;> simp

omit [DecidableEq ι] in
theorem Books.stamped_replace (hb : Books T s g) (hu : row'.updatedAt.isSome)
    (hT : T.exactBytes) : ∀ k r, T.placed k → (s.rows.insert key row').lookup k = some r →
      r.updatedAt.isSome := by
  intro k r hk hr
  by_cases hkey : k = key
  · subst hkey
    rw [lookup_insert] at hr
    cases hr
    exact hu
  · rw [lookup_insert_of_ne _ hkey] at hr
    exact hb.stamped hT k r hk hr

omit [DecidableEq ι] in
theorem Books.stamped_erase (hb : Books T s g) (hT : T.exactBytes) :
    ∀ k r, T.placed k → (s.rows.erase key).lookup k = some r → r.updatedAt.isSome := by
  intro k r hk hr
  by_cases hkey : k = key
  · subst hkey
    rw [lookup_erase] at hr
    cases hr
  · rw [lookup_erase_ne hkey] at hr
    exact hb.stamped hT k r hk hr

/-! ## Update -/

/-- The growth a pinned update reserves covers what it writes. -/
theorem predictedGrowth_ge (kind : Kind) (measure : RowMeasure) (update : CountedUpdate K) :
    deltaOfPinnedUpdate kind measure update ≤ predictedGrowth kind measure update :=
  Int.self_le_toNat _

/-- The pinned write of an update: the difference to the reservation is left owing. -/
theorem Books.writePinned (hb : Books T s g) {measure : RowMeasure}
    (hs : Holding (Pinned key measure.version measure.createdAt
      fun row => T.exactBytes → Measures key.kind row measure update) i
      (fun p => bytesOnly (predictedGrowth key.kind measure update) p) s g)
    (hrow : s.rows.lookup key = some row) (hpin : versionPin measure row) (now : ℕ) :
    let x : Counts := fun p => bytesOnly (predictedGrowth key.kind measure update) p
      - bytesDelta (countedBytes key.kind (row.written update now) - measure.counted) p
    Books T { s with rows := s.rows.insert key (row.written update now) } (g.owe i x true) ∧
      Within T i (some .writeRow) s g
        { s with rows := s.rows.insert key (row.written update now) } (g.owe i x true) := by
  intro x
  obtain ⟨hpinned, howed, hholds⟩ := hs
  have hmeasures := hpinned.holds hrow hpin.1 hpin.2
  have hexact : T.exactBytes →
      (countedBytes key.kind (row.written update now) : ℤ) - measure.counted
        = deltaOfPinnedUpdate key.kind measure update ∧
      measure.counted = countedBytes key.kind row := fun hT => by
    have hcounted := (hmeasures hT).2.2.1
    rw [countedBytes_written (hmeasures hT) now, hcounted]
    exact ⟨by omega, rfl⟩
  refine hb.writeRows (e := rowWeight key (row.written update now) - rowWeight key row) hholds rfl
    (.replace hrow (succeeds_written key update now row)) (fun p _ => ?_) (fun p hp => ?_)
    (fun p hp => ?_) (hb.stamped_replace rfl) (.inl rfl)
  · rw [storedTotals_replace hrow]
    simp only [Pi.add_apply, Pi.sub_apply]
    omega
  · rw [howed]
    cases p with
    | vaultBytes =>
      simp only [x, bytesDelta, rowWeight, Pi.sub_apply, (hexact (hp rfl)).2]
    | items | folders => simp [x, bytesDelta, bytesOnly, rowWeight]
  · cases p with
    | vaultBytes =>
      have hge := predictedGrowth_ge key.kind measure update
      simp only [x, bytesDelta, bytesOnly, (hexact (hp rfl)).1]
      omega
    | items | folders => simp [x, bytesDelta, bytesOnly]

/-- A row write that was not applied: a definite failure releases, any other gives up. -/
theorem safe_refusedWrite {α : Type} (hf : T.Admits faults) (hb : Books T s g) {site : Site}
    (hsite : site = .writeRow ∨ site = .insertRow) {reservation : Reservation} {error : VaultError}
    (herror : faults site error false) (howed : g.owed i = fun p => (reservation p : ℤ)) :
    ∃ g', Books T s g' ∧ Within T i (some site) s g s g' ∧ Keeps T faults i (Clear i)
      (releaseOnDefiniteFailure reservation error : Req K α) s g' := by
  have hsame : Within T i (some site) s g s g :=
    same (by rcases hsite with rfl | rfl <;> simp)
  unfold releaseOnDefiniteFailure
  by_cases hdefinite : isDefiniteWriteFailure error = true
  · rw [if_pos hdefinite]
    refine ⟨g, hb, hsame, ?_⟩
    refine bind (safe_releaseVaultWrite hf steady_anyRows ⟨trivial, howed⟩ fun s g hs => ?_)
    exact hs.2
  · rw [if_neg hdefinite]
    have hlossy : T.lossy := by
      by_contra h
      exact hdefinite ((hf.firm h).definite _ _ _ hsite herror)
    exact ⟨_, hb.forgiveAll hlossy, hsame.forgive 0, owed_forgive⟩

/-- A row write that may have been applied is not released: its reservation is given up. -/
theorem safe_lostWrite {α : Type} (hf : T.Admits faults) {g' : Ledger ι} (hb : Books T s' g')
    (hw : Within T i l s g s' g') {site : Site} {reservation : Reservation} {error : VaultError}
    (herror : faults site error true) :
    ∃ g', Books T s' g' ∧ Within T i l s g s' g' ∧ Keeps T faults i (Clear i)
      (releaseOnDefiniteFailure reservation error : Req K α) s' g' := by
  have hlossy : T.lossy := by
    by_contra h
    exact (hf.firm h).unapplied _ _ herror
  unfold releaseOnDefiniteFailure
  rw [if_neg (by rw [hf.truthful _ _ herror]; simp)]
  exact ⟨_, hb.forgiveAll hlossy, hw.forgive 0, owed_forgive⟩

theorem safe_updateAttempts (hf : T.Admits faults) (hT : T.exactBytes ∧ ¬ T.lossy ∨ T.installed)
    (hci : T.capped → T.installed) (hi : ¬ T.passive i) {beforeWrite : Req K Unit}
    (hreads : beforeWrite.ReadsAt .readAccount) (n : ℕ) (first : Option RowMeasure)
    (howed : g.owed i = 0) :
    Keeps T faults i (Clear i) (updateAttempts T.quota key update beforeWrite n first) s g := by
  induction n generalizing first s g with
  | zero => exact howed
  | succ n ih =>
    refine read_bind _ (stable_owed 0) howed (fun s g _ _ _ => same (by simp))
      (fun s g hb howed => ?_) fun s g e _ howed => howed
    cases hrow : s.rows.lookup key with
    | none => exact howed
    | some row =>
      simp only [Option.map_some]
      split
      swap
      · exact howed
      -- what the pin will match is the row measured here
      set measure := measureImage key.kind row update with hmeasure
      have hpinned : Pinned key measure.version measure.createdAt
          (fun row => T.exactBytes → Measures key.kind row measure update) s :=
        .of_lookup hb.dated hrow fun _ => measures_measureImage Finset.Subset.rfl
      refine bind (readsAt hreads _ (steady_pinned.owing 0) ⟨hpinned, howed⟩
        (fun s g _ _ => same (by simp)) fun r s g hs => ?_)
      cases r with
      | error e => exact hs.2
      | ok _ =>
        refine bind (safe_reserveVaultWrite hf steady_pinned hT hci hi hs (fun s g hs => ?_)
          fun e s g hs => hs.2)
        refine attempt_db_bind _ (steady_pinned.holding _) hs (fun s g hb hs _ => ?_)
          (fun s g e hb hs _ he => safe_refusedWrite hf hb (.inl rfl) he hs.2.1)
          fun s g e hb hs _ he => ?_
        · rcases s.updateRow_cases key (fun row => decide (versionPin measure row))
              (fun now row => row.written update now) with ⟨heq, -⟩ | ⟨row, hrow, hpin, heq⟩
          · rw [heq]
            refine ⟨g, hb, same (by simp), ?_⟩
            refine bind (safe_releaseVaultWrite hf steady_anyRows ⟨trivial, hs.2.1⟩
              fun s g hs => ?_)
            exact ih _ hs.2
          · rw [heq]
            obtain ⟨hb', hw⟩ := hb.writePinned hs hrow (of_decide_eq_true hpin) s.clock
            refine ⟨_, hb', hw, ?_⟩
            refine bind (safe_settleVaultWrite hf steady_anyRows ⟨trivial, owed_owe⟩
              fun s g hs => ?_)
            exact hs.2
        · rcases s.updateRow_cases key (fun row => decide (versionPin measure row))
              (fun now row => row.written update now) with ⟨heq, -⟩ | ⟨row, hrow, hpin, heq⟩
          · rw [heq]
            exact safe_lostWrite hf hb (same (by simp)) he
          · rw [heq]
            obtain ⟨hb', hw⟩ := hb.writePinned hs hrow (of_decide_eq_true hpin) s.clock
            exact safe_lostWrite hf hb' hw he

/-- A write of placement fields alone. -/
theorem Books.place (hb : Books T s g) (hw : ¬ writesCountedField key.kind update)
    (hplaced : T.placed key) (hrow : s.rows.lookup key = some row) (now : ℕ) :
    Books T { s with rows := s.rows.insert key (row.placed update now) }
        (g.owe i (g.owed i) (g.holds i)) ∧
      Within T i (some .placeRow) s g
        { s with rows := s.rows.insert key (row.placed update now) }
        (g.owe i (g.owed i) (g.holds i)) := by
  have hstamp : T.exactBytes → row.updatedAt.isSome := fun hT => hb.stamped hT key row hplaced hrow
  have hsize : T.exactBytes →
      countedBytes key.kind (row.placed update now) = countedBytes key.kind row :=
    fun hT => countedBytes_placed hw (hstamp hT) now
  have he : Evolves T.Neutral s { s with rows := s.rows.insert key (row.placed update now) } :=
    .replace hrow ⟨rfl, .inr ⟨rfl, .inr fun hT =>
      ⟨by rw [hstamp hT]; rfl, fields_placed hw now⟩⟩⟩
  have hcounter : ∀ p, ({ s with rows := s.rows.insert key (row.placed update now) } :
      Store K).counter p = (s.counter p).map (· + (0 : Counts) p) := fun p => by
    simp [Store.counter]
  refine ⟨hb.balance (e := 0) hb.live hcounter (fun p hp => ?_) (fun p _ => by simp)
    (fun p hp => hb.nonneg i p hp) (hb.idle i) (fun h p hp => ?_) (hb.passive i)
    (fun p n _ _ hle => by simpa using hle) he (hb.stamped_replace rfl),
    Within.balance hcounter he (fun hT => .inr fun kind => kindTotals_replace hrow (hsize hT) kind)
      le_rfl (fun h h' => absurd (h.symm.trans h') false_ne_true) (by simp) (by simp)⟩
  · rw [storedTotals_replace hrow]
    cases p with
    | vaultBytes => simp [rowWeight, hsize (hp rfl)]
    | items | folders => simp [rowWeight]
  · exact absurd ((hb.missing p hp i).symm.trans h) false_ne_true

/-- **A pinned update, or a write of placement fields, keeps the books.** -/
theorem safe_updateCountedRow (hf : T.Admits faults) (hT : T.exactBytes ∧ ¬ T.lossy ∨ T.installed)
    (hci : T.capped → T.installed) (hi : ¬ T.passive i) {beforeWrite : Req K Unit}
    (hreads : beforeWrite.ReadsAt .readAccount)
    (hplaced : ¬ writesCountedField key.kind update → T.placed key) (howed : g.owed i = 0) :
    Keeps T faults i (Clear i) (updateCountedRow T.quota key update beforeWrite) s g := by
  unfold updateCountedRow
  by_cases hw : writesCountedField key.kind update
  · rw [if_pos hw]
    exact safe_updateAttempts hf hT hci hi hreads _ _ howed
  · rw [if_neg hw]
    refine access _ (stable_owed 0) howed fun s g hb howed _ r s' ho => ?_
    have hplace : ∃ g', Books T (s.updateRow key (fun _ => true)
        fun now row => row.placed update now).2 g' ∧
        Within T i (some .placeRow) s g (s.updateRow key (fun _ => true)
          fun now row => row.placed update now).2 g' ∧ g'.owed i = 0 := by
      rcases s.updateRow_cases key (fun _ => true) (fun now row => row.placed update now)
        with ⟨heq, -⟩ | ⟨row, hrow, -, heq⟩
      · rw [heq]
        exact ⟨g, hb, same (by simp), howed⟩
      · rw [heq]
        obtain ⟨hb', hwithin⟩ := hb.place hw (hplaced hw) hrow s.clock
        exact ⟨_, hb', hwithin, owed_owe.trans howed⟩
    cases ho with
    | applied => exact hplace
    | refused _ => exact ⟨g, hb, same (by simp), howed⟩
    | lost _ => exact hplace

/-! ## Create -/

omit [Fintype ι] [DecidableEq ι] in
theorem oneRowOf_eq_rowWeight (key : RowKey) (row : Row K) (p : CounterPath) :
    (oneRowOf key.kind (countedBytes key.kind row) p : ℤ) = rowWeight key row p := by
  cases p <;> simp [oneRowOf, rowWeight]

/-- The insert of a create: the prediction is what is stored, so nothing is left owing. -/
theorem Books.insertRow (hb : Books T s g) {fields : Field → Option Bson} {sealedUnder : K}
    (hs : Holding anyRows i (fun p => oneRowOf key.kind (countedBytesOfNew key.kind fields) p) s g)
    (hfree : key ∉ s.rows) :
    let row := Row.created fields sealedUnder s.clock
    Books T { s with rows := s.rows.insert key row, clock := s.clock + 1 } (g.owe i 0 true) ∧
      Within T i (some .insertRow) s g
        { s with rows := s.rows.insert key row, clock := s.clock + 1 } (g.owe i 0 true) := by
  intro row
  have hexact : countedBytesOfNew key.kind fields = countedBytes key.kind row := rfl
  refine hb.writeRows hs.2.2 rfl (.insert rfl)
    (fun p _ => congrFun (storedTotals_insert hfree) p) (fun p _ => ?_) (fun p _ => le_rfl)
    (hb.stamped_replace rfl) (.inr (.inl rfl))
  simp only [hs.2.1, hexact, oneRowOf_eq_rowWeight, Pi.zero_apply, sub_self]

/-- **A create keeps the books.** -/
theorem safe_createCountedRow (hf : T.Admits faults) (hT : T.exactBytes ∧ ¬ T.lossy ∨ T.installed)
    (hci : T.capped → T.installed) (hi : ¬ T.passive i) {fields : Field → Option Bson}
    {sealedUnder : K} (howed : g.owed i = 0) :
    Keeps T faults i (Clear i) (createCountedRow T.quota key fields sealedUnder) s g := by
  refine bind (safe_reserveVaultWrite hf steady_anyRows hT hci hi ⟨trivial, howed⟩
    (fun s g hs => ?_) fun e s g hs => hs.2)
  refine attempt_db_bind _ (steady_anyRows.holding _) hs (fun s g hb hs _ => ?_)
    (fun s g e hb hs _ he => safe_refusedWrite hf hb (.inr rfl) he hs.2.1)
    fun s g e hb hs _ he => ?_
  · rcases s.insertRow_cases key fields sealedUnder with ⟨heq, -⟩ | ⟨hfree, heq⟩
    · rw [heq]
      refine ⟨g, hb, same (by simp), ?_⟩
      refine bind (safe_releaseVaultWrite hf steady_anyRows ⟨trivial, hs.2.1⟩ fun s g hs => ?_)
      exact hs.2
    · rw [heq]
      obtain ⟨hb', hw⟩ := hb.insertRow hs hfree
      refine ⟨_, hb', hw, ?_⟩
      refine bind (safe_settleVaultWrite hf steady_anyRows ⟨trivial, ?_⟩ fun s g hs => hs.2)
      rw [owed_owe, countedBytes_created]
      funext p
      exact (sub_self _).symm
  · rcases s.insertRow_cases key fields sealedUnder with ⟨heq, -⟩ | ⟨hfree, heq⟩
    · rw [heq]
      exact safe_lostWrite hf hb (same (by simp)) he
    · rw [heq]
      obtain ⟨hb', hw⟩ := hb.insertRow hs hfree
      exact safe_lostWrite hf hb' hw he

/-! ## Deletes -/

/-- A request that holds deletes a row: it comes to owe the row's weight. -/
theorem Books.deleteRow (hb : Books T s g) (hholds : g.holds i = true)
    (hrow : s.rows.lookup key = some row) :
    Books T { s with rows := s.rows.erase key } (g.owe i (g.owed i + rowWeight key row) true) ∧
      Within T i (some .deleteRow) s g { s with rows := s.rows.erase key }
        (g.owe i (g.owed i + rowWeight key row) true) := by
  refine hb.writeRows (e := -rowWeight key row) hholds rfl .erase (fun p _ => ?_)
    (fun p _ => by simp) (fun p hp => ?_) hb.stamped_erase (.inr (.inr rfl))
  · rw [storedTotals_erase hrow]
    simp only [Pi.sub_apply, Pi.neg_apply]
    omega
  · exact add_nonneg (hb.nonneg i p hp) (rowWeight_nonneg key row p)

variable {filter : Row K → Bool}

/-- The delete of one row, for any program that goes on with what it removed. -/
theorem safe_deleteCountedRow (hf : T.Admits faults)
    {Q : Except VaultError (Option (Row K)) → Store K → Ledger ι → Prop}
    (hs : Holding anyRows i x s g)
    (hsome : ∀ row s g, Holding anyRows i (x + rowWeight key row) s g → Q (.ok (some row)) s g)
    (hnone : ∀ s g, Holding anyRows i x s g → Q (.ok none) s g)
    (herror : ∀ e s g, Holding anyRows i x s g → Q (.error e) s g) :
    Keeps T faults i Q (deleteCountedRow key filter) s g := by
  refine access _ (steady_anyRows.holding x) hs fun s g hb hs _ r s' ho => ?_
  cases ho with
  | applied =>
    rcases s.deleteRow_cases key filter with ⟨heq, -⟩ | ⟨row, hrow, -, heq⟩
    · rw [heq]
      exact ⟨g, hb, same (by simp), hnone s g hs⟩
    · rw [heq]
      obtain ⟨hb', hw⟩ := hb.deleteRow hs.2.2 hrow
      exact ⟨_, hb', hw, hsome row _ _ ⟨trivial, by rw [owed_owe, hs.2.1], holds_owe⟩⟩
  | refused _ => exact ⟨g, hb, same (by simp), herror _ s g hs⟩
  | lost he =>
    rcases s.deleteRow_cases key filter with ⟨heq, -⟩ | ⟨row, hrow, -, heq⟩
    · rw [heq]
      exact ⟨g, hb, same (by simp), herror _ s g hs⟩
    · -- the row may be gone without the caller knowing: its weight is given up
      have hlossy : T.lossy := by
        by_contra h
        exact (hf.firm h).unapplied _ _ he
      rw [heq]
      obtain ⟨hb', hw⟩ := hb.deleteRow hs.2.2 hrow
      refine ⟨_, hb'.forgive hlossy (fun p hp => ?_) fun h => ?_, hw.forgive x,
        herror _ _ _ ⟨trivial, owed_forgive, holds_owe (x := g.owed i + rowWeight key row)⟩⟩
      · have hx := hb.nonneg i p hp
        have hweight := rowWeight_nonneg key row p
        rw [owed_owe, hs.2.1]
        rw [hs.2.1] at hx
        exact ⟨hx, le_add_of_nonneg_right hweight⟩
      · rw [holds_owe] at h
        cases h

omit [Fintype ι] [DecidableEq ι] in
/-- A reservation of nothing. -/
theorem bytesOnly_zero : (fun p => (bytesOnly 0 p : ℤ)) = 0 := by
  funext p
  cases p <;> rfl

/-- A delete settles what it has removed. -/
theorem safe_settleRemoved (hf : T.Admits faults) {removed : Counts}
    {Q : Except VaultError Unit → Store K → Ledger ι → Prop}
    (hs : Holding anyRows i ((fun p => (bytesOnly 0 p : ℤ)) + removed) s g)
    (hQ : ∀ s g, g.owed i = 0 → Q (.ok ()) s g) :
    Keeps T faults i Q (settleVaultWrite (bytesOnly 0) fun p => -removed p) s g := by
  refine safe_settleVaultWrite hf steady_anyRows ⟨trivial, hs.2.1.trans ?_⟩ fun s g hs => hQ s g hs.2
  funext p
  simp

/-- **A permanent delete keeps the books.** -/
theorem safe_permanentDelete (hf : T.Admits faults) (hT : T.exactBytes ∧ ¬ T.lossy ∨ T.installed)
    (hci : T.capped → T.installed) (hi : ¬ T.passive i) {id : ℕ} (howed : g.owed i = 0) :
    Keeps T faults i (Clear i) (permanentDelete T.quota id : Req K Unit) s g := by
  refine bind (safe_reserveVaultWrite hf steady_anyRows hT hci hi ⟨trivial, howed⟩
    (fun s g hs => ?_) fun e s g hs => hs.2)
  refine bind (safe_deleteCountedRow hf hs (fun row s g hs => ?_) (fun s g hs => ?_)
    fun e s g hs => hs.2.1.trans bytesOnly_zero)
  · -- the weight of a row is not to be computed here
    generalize (⟨.item, id⟩ : RowKey) = key at *
    exact safe_settleRemoved hf hs fun s g howed => howed
  · exact hs.2.1.trans bytesOnly_zero

omit [DecidableEq ι] in
/-- A delete by a request that holds nothing: what it takes away is not settled. -/
theorem Books.deleteUnsettled (hb : Books T s g) (hbytes : ¬ T.exactBytes) (hlossy : T.lossy)
    (hrow : s.rows.lookup key = some row) :
    Books T { s with rows := s.rows.erase key } { g with lost := g.lost + rowWeight key row } ∧
      Within T i (some .deleteRow) s g { s with rows := s.rows.erase key }
        { g with lost := g.lost + rowWeight key row } := by
  have he : Evolves T.Neutral s { s with rows := s.rows.erase key } := .erase
  constructor
  · exact { hb with
      exact := fun hstrict p n hp hn => by
        have hn' := hb.exact hstrict p n hp hn
        rw [storedTotals_erase hrow, hn']
        simp only [Pi.sub_apply, Pi.add_apply]
        omega
      lost := fun p hp => add_nonneg (hb.lost p hp) (rowWeight_nonneg key row p)
      kept := fun h => (h hlossy).elim
      dated := hb.dated.evolves he
      stamped := fun h => (hbytes h).elim }
  · have hw : Within T i (some .deleteRow) s g s g := .same (by simp)
    exact ⟨hw.owed, hw.holds, hw.calm, hw.calmed, he, hw.counters, fun h => (hbytes h).elim,
      hw.epoch, hw.busy, nofun, nofun, nofun, nofun⟩

/-- **A withdrawal keeps the books**, those of an account that is gone only where bytes are not
counted and losses are. -/
theorem safe_withdrawCountedRow (hf : T.Admits faults) (hT : T.exactBytes ∧ ¬ T.lossy ∨ T.installed)
    (hci : T.capped → T.installed) (hi : ¬ T.passive i) {createdAt : Option ℕ} {accountLive : Bool}
    (hgone : accountLive = false → ¬ T.exactBytes ∧ T.lossy) (howed : g.owed i = 0) :
    Keeps T faults i (Clear i) (withdrawCountedRow T.quota key createdAt accountLive : Req K Bool)
      s g := by
  cases accountLive with
  | true =>
    refine bind (safe_reserveVaultWrite hf steady_anyRows hT hci hi ⟨trivial, howed⟩
      (fun s g hs => ?_) fun e s g hs => hs.2)
    refine bind (safe_deleteCountedRow hf hs (fun row s g hs => ?_) (fun s g hs => ?_)
      fun e s g hs => hs.2.1.trans bytesOnly_zero)
    · refine bind (safe_settleRemoved hf hs fun s g howed => ?_)
      exact howed
    · refine bind (safe_releaseVaultWrite hf steady_anyRows ⟨trivial, hs.2.1⟩ fun s g hs => ?_)
      exact hs.2
  | false =>
    obtain ⟨hbytes, hlossy⟩ := hgone rfl
    refine db_bind _ (stable_owed 0) howed (fun s g hb howed _ => ?_)
      (fun s g e hb howed _ _ => ⟨g, hb, same (by simp), howed⟩)
      fun s g e hb howed _ _ => ?_
    all_goals
      rcases s.deleteRow_cases key (fun row => decide (row.createdAt = createdAt)) with
        ⟨heq, -⟩ | ⟨row, hrow, -, heq⟩
      · rw [heq]
        exact ⟨g, hb, same (by simp), howed⟩
      · rw [heq]
        obtain ⟨hb', hw⟩ := hb.deleteUnsettled hbytes hlossy hrow
        exact ⟨_, hb', hw, howed⟩

/-- The walk over one batch owes what it has tallied. -/
theorem safe_deleteBatch (hf : T.Admits faults) (ids : List ℕ) (tally : Counts)
    (hs : Holding anyRows i tally s g) :
    Keeps T faults i (fun r s g => ∃ t, r = .ok t ∧ Holding anyRows i t.1 s g)
      (deleteBatch filter ids tally) s g := by
  induction ids generalizing tally s g with
  | nil => exact ⟨_, rfl, hs⟩
  | cons id ids ih =>
    refine bind (attempt (safe_deleteCountedRow hf hs (fun row s g hs => ?_)
      (fun s g hs => ?_) fun e s g hs => ?_))
    · exact ih _ hs
    · exact ih tally hs
    · exact ⟨_, rfl, hs⟩

theorem safe_deleteCountedItems (hf : T.Admits faults) {ids : Option (Finset ℕ)} (rounds : ℕ)
    (after : Option ℕ) (tally : Counts) (hs : Holding anyRows i tally s g) :
    Keeps T faults i (fun r s g => ∃ t, r = .ok t ∧ Holding anyRows i t.1 s g)
      (deleteCountedItems filter ids rounds after tally) s g := by
  induction rounds generalizing after tally s g with
  | zero => exact ⟨_, rfl, hs⟩
  | succ n ih =>
    refine attempt_db_bind _ (steady_anyRows.holding tally) hs (fun s g hb hs _ => ?_)
      (fun s g e hb hs _ _ => ?_) fun s g e hb hs _ _ => ?_
    · refine ⟨g, hb, same (by simp), ?_⟩
      refine bind ((safe_deleteBatch hf _ tally hs).mono fun r s g hr => ?_)
      obtain ⟨⟨walked, stopped⟩, rfl, hs⟩ := hr
      cases stopped with
      | some error => exact ⟨_, rfl, hs⟩
      | none =>
        dsimp only
        split
        · exact ⟨_, rfl, hs⟩
        · exact ih _ walked hs
    all_goals exact ⟨g, hb, same (by simp), _, rfl, hs⟩

/-- **Emptying the trash keeps the books.** -/
theorem safe_emptyTrash (hf : T.Admits faults) (hT : T.exactBytes ∧ ¬ T.lossy ∨ T.installed)
    (hci : T.capped → T.installed) (hi : ¬ T.passive i) {startTime : ℤ} {rounds : ℕ}
    (howed : g.owed i = 0) :
    Keeps T faults i (Clear i) (emptyTrash T.quota startTime rounds : Req K Unit) s g := by
  refine bind (safe_reserveVaultWrite hf steady_anyRows hT hci hi ⟨trivial, howed⟩
    (fun s g hs => ?_) fun e s g hs => hs.2)
  have hs : Holding anyRows i 0 s g := ⟨trivial, hs.2.1.trans bytesOnly_zero, hs.2.2⟩
  refine bind ((safe_deleteCountedItems hf rounds none 0 hs).mono fun r s g hr => ?_)
  obtain ⟨⟨purged, stopped⟩, rfl, hs⟩ := hr
  have hremoved : Holding anyRows i ((fun p => (bytesOnly 0 p : ℤ)) + purged) s g :=
    ⟨trivial, by rw [bytesOnly_zero, zero_add]; exact hs.2.1, hs.2.2⟩
  refine bind (safe_settleRemoved hf hremoved fun s g howed => ?_)
  cases stopped with
  | some error | none => exact howed

/-! ## The recount -/

omit [DecidableEq ι] in
/-- An access that changes neither the rows nor the counters. -/
theorem Books.touch (hb : Books T s g) {u u' : User} (hu : s.user = some u)
    (hcounters : u'.counters = u.counters) : Books T { s with user := some u' } g := by
  have hcounter : ∀ p, ({ s with user := some u' } : Store K).counter p = s.counter p := fun p => by
    simp [Store.counter, hu, hcounters]
  exact {
    live := rfl
    exact := fun hstrict p n hp hn => hb.exact hstrict p n hp ((hcounter p).symm.trans hn)
    missing := fun p hp => hb.missing p ((hcounter p).symm.trans hp)
    lost := hb.lost
    kept := hb.kept
    nonneg := hb.nonneg
    idle := hb.idle
    passive := hb.passive
    installed := fun hT p hp => hb.installed hT p ((hcounter p).symm.trans hp)
    capped := fun hT hstrict p n hne hn =>
      hb.capped hT hstrict p n hne ((hcounter p).symm.trans hn)
    dated := hb.dated
    stamped := hb.stamped }

/-- What a recount knows after its read: since it found nobody holding (if it did), nobody can
have come to hold without moving the epoch it read. -/
def Watching (T : Terms ι) (i : ι) (epoch : ℕ) (s : Store K) (g : Ledger ι) : Prop :=
  g.owed i = 0 ∧ epoch ≤ s.epoch ∧ (T.strict → g.calm i = true) ∧
    (g.calm i = true → s.epoch = epoch → ∀ j, g.holds j = false)

omit [DecidableEq ι] in
theorem stable_watching (epoch : ℕ) : (bookkeeping (K := K) T).Stable i (Watching T i epoch) := by
  intro j hj l s g s' g' _ ⟨howed, hle, hstrict, hquiet⟩ hw _
  have hcalm := hw.calm i hj.symm
  refine ⟨(hw.owed i hj.symm).trans howed, hle.trans hw.epoch, fun h => hcalm.trans (hstrict h),
    fun hc heq k => ?_⟩
  have hepoch : s.epoch = epoch := le_antisymm (heq ▸ hw.epoch) hle
  have hnone := hquiet (hcalm.symm.trans hc) hepoch
  by_cases hk : k = j
  · subst hk
    by_contra hh
    have := hw.busy (hnone k) (by simpa using hh)
    omega
  · exact (hw.holds k hk).trans (hnone k)

omit [DecidableEq ι] in
/-- Nobody touches a row before the epoch the recount read moves. -/
theorem window_watching (hT : T.exactBytes) (epoch : ℕ) :
    Window (K := K) T i (Watching T i epoch) fun s g => g.calm i = true ∧ s.epoch = epoch := by
  intro j hj l s g s' g' _ ⟨_, hle, _, hquiet⟩ hw ⟨hc, heq⟩
  have hc' : g.calm i = true := (hw.calm i hj.symm).symm.trans hc
  have hepoch : s.epoch = epoch := le_antisymm (heq ▸ hw.epoch) hle
  refine ⟨⟨hc', hepoch⟩, ?_⟩
  rcases hw.totals hT with hh | hk
  · rw [hquiet hc' hepoch j] at hh
    cases hh
  · exact hk

/-- The ledger after the recount `i` has read: it records whether nobody held. -/
def Ledger.watch (g : Ledger ι) (i : ι) : Ledger ι :=
  { g with calm := Function.update g.calm i (decide (∀ j, g.holds j = false)) }

theorem calm_watch : (g.watch i).calm i = true ↔ ∀ j, g.holds j = false := by
  simp [Ledger.watch]

theorem within_recountRead (hcalm : g.calm i = false) :
    Within T i (some .recountRead) s g s (g.watch i) where
  owed _ _ := rfl
  holds _ _ := rfl
  calm j hj := Function.update_of_ne hj ..
  calmed h := nomatch hcalm.symm.trans h
  evolves := .refl s
  counters _ := id
  totals _ := .inr fun _ => rfl
  epoch := le_rfl
  busy h h' := nomatch h.symm.trans h'
  reserve hl := by simp at hl
  install _ hl := by simp at hl
  recountRead _ h := calm_watch.2 h
  recountWrite _ hl := by simp at hl

omit [Fintype ι] [DecidableEq ι] in
/-- An access to the user document that leaves the counters and the epoch. -/
theorem Within.touch {u u' : User} (hu : s.user = some u) (hcounters : u'.counters = u.counters)
    (hepoch : u'.quotaEpoch = u.quotaEpoch) :
    Within T i (some .recountDefer) s g { s with user := some u' } g where
  owed _ _ := rfl
  holds _ _ := rfl
  calm _ _ := rfl
  calmed := id
  evolves := .of_rows_eq rfl rfl
  counters p hp := by simpa [Store.counter, hu, hcounters] using hp
  totals _ := .inr fun _ => rfl
  epoch := by simp [Store.epoch, hu, hepoch]
  busy h h' := nomatch h.symm.trans h'
  reserve hl := by simp at hl
  install _ hl := by simp at hl
  recountRead hl := by simp at hl
  recountWrite _ hl := by simp at hl

omit [DecidableEq ι] in
/-- Putting a recount off changes no counter. -/
theorem safe_recountDefer (hf : DefiniteFaults faults) (howed : g.owed i = 0) :
    Keeps T faults i (Clear i) (do
      let _ ← (Prog.db .recountDefer fun s : Store K => s.updateUser (fun _ => true) fun u =>
        { u with quotaRecountedAt := some s.clock }).attempt
      pure false) s g := by
  refine attempt_db_bind _ (stable_owed 0) howed (fun s g hb howed _ => ?_)
    (fun s g e hb howed _ _ => ⟨g, hb, same (by simp), howed⟩)
    fun s g e _ _ _ he => (hf.unapplied _ _ he).elim
  rcases s.updateUser_cases (fun _ => true) (fun u => { u with quotaRecountedAt := some s.clock })
    with ⟨heq, -⟩ | ⟨u, hu, -, heq⟩
  · rw [heq]
    exact ⟨g, hb, same (by simp), howed⟩
  · rw [heq]
    exact ⟨g, hb.touch hu rfl, touch hu rfl rfl, howed⟩

omit [Fintype ι] [DecidableEq ι] in
theorem recountCandidate_cases (quietSince : ℕ) (s : Store K) :
    recountCandidate quietSince s = none ∨ ∃ u, s.user = some u ∧
      recountCandidate quietSince s = some (u.quotaEpoch, u.vaultBytesWrittenAt) := by
  cases hu : s.user with
  | none => exact .inl (by simp [recountCandidate, hu])
  | some u =>
    simp only [recountCandidate, hu, Option.bind_some]
    split
    · exact .inr ⟨u, rfl, rfl⟩
    · exact .inl rfl

/-- **A recount keeps the books.** -/
theorem safe_recountVaultQuotas (hf : DefiniteFaults faults) (hT : T.exactBytes)
    (hfirm : ¬ T.lossy) (hci : T.capped → T.installed) (hi : T.passive i) {quietSince : ℕ} (howed : g.owed i = 0)
    (hcalm : g.calm i = false) :
    Keeps T faults i (Clear i) (recountVaultQuotas quietSince : Req K Bool) s g := by
  refine db_bind _ ((stable_owed 0).and (stable_calm false)) ⟨howed, hcalm⟩
    (fun s g hb ⟨howed, hcalm⟩ hpre => ?_) (fun s g e hb ⟨howed, hcalm⟩ _ _ => ?_)
    fun s g e _ _ _ he => (hf.unapplied _ _ he).elim
  · refine ⟨g.watch i, { hb with }, within_recountRead hcalm, ?_⟩
    rcases recountCandidate_cases quietSince s with hnone | ⟨u, hu, hsome⟩
    · rw [hnone]
      exact howed
    · rw [hsome]
      have hepoch : s.epoch = u.quotaEpoch.getD 0 := by simp [Store.epoch, hu]
      have hs : Watching T i (u.quotaEpoch.getD 0) s (g.watch i) := by
        refine ⟨howed, hepoch.ge, fun hstrict => calm_watch.2 (hpre hstrict hi rfl), fun hc _ j => ?_⟩
        exact calm_watch.1 hc j
      have hC := window_watching (K := K) (i := i) hT (u.quotaEpoch.getD 0)
      refine bind (attempt (bind (safe_storedVaultTotals hC (stable_watching _) hs
        (fun totals s g hs htotals => ?_) fun e s g hs => ?_)))
      · have hst := hC.stable (stable_watching _) (fun rows => totals = storedTotals rows)
          fun rows rows' hk h => by
            rw [h, ← totalsOf_kindTotals rows', ← totalsOf_kindTotals rows, hk, hk]
        refine access _ hst ⟨hs, htotals⟩ fun s g hb hboth _ r s' ho => ?_
        obtain ⟨hs, htotals⟩ := hboth
        cases ho with
        | applied =>
          rcases s.updateUser_cases
              (fun v => decide (v.quotaEpoch = u.quotaEpoch)
                && decide (v.vaultBytesWrittenAt = u.vaultBytesWrittenAt))
              (fun v => { v with
                counters := fun p => some (totals p)
                quotaRecountedAt := some s.clock
                quotaEpoch := some (v.quotaEpoch.getD 0 + 1) })
            with ⟨heq, -⟩ | ⟨v, hv, hsame, heq⟩
          · rw [recountStatement, heq]
            exact ⟨g, hb, same (by simp), hs.1⟩
          · have hsame' : v.quotaEpoch = u.quotaEpoch := by
              simp only [and_eq_true, decide_eq_true_eq] at hsame
              exact hsame.1
            have hnow : s.epoch = u.quotaEpoch.getD 0 := by simp [Store.epoch, hv, hsame']
            rw [recountStatement, heq]
            refine ⟨g, hb.rewrite hfirm hci fun p => ⟨totals p, rfl, fun hstrict => .inr ?_⟩,
              rewrite hv (by simp) rfl (by simp) (by simp) fun _ _ hc p => ?_, hs.1⟩
            · have hc := hs.2.2.1 hstrict
              exact ⟨congrFun (htotals ⟨hc, hnow⟩) p, fun j => hb.idle j (hs.2.2.2 hc hnow j)⟩
            · rw [htotals ⟨hc, hnow⟩]
        | refused _ =>
          exact ⟨g, hb, same (by simp), safe_recountDefer hf hs.1⟩
        | lost he => exact (hf.unapplied _ _ he).elim
      · exact safe_recountDefer hf hs.1
  · exact ⟨g.watch i, { hb with }, within_recountRead hcalm, howed⟩

end Specs

end HVault
