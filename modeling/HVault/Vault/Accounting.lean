import HVault.Interleave.Schedule
import HVault.Interleave.Steps
import HVault.Vault.CountedOps

/-!
# What the counters of an account are worth

The results on the quota code, for every interleaving of any number of requests on one
account:

* the counters are the stored totals plus what the requests in flight have yet to correct;
* no reservation passes a ceiling, so the row caps hold at every moment;
* installing and recounting never put an error into an exact counter.
-/

namespace HVault

open Interleave Option Prog Finset Finmap Config Store Ledger

variable {K ι : Type} [Fintype ι] [DecidableEq ι]

/-! ## The requests follow the protocol -/

/-- A request that has not arrived owes nothing. -/
def Fresh (i : ι) (_ : Store K) (g : Ledger ι) : Prop :=
  g.owed i = 0 ∧ g.holds i = false ∧ g.calm i = false

/-- A request that has ended owes nothing and holds nothing. -/
def Ended (i : ι) (_ : Except VaultError Unit) (_ : Store K) (g : Ledger ι) : Prop :=
  g.owed i = 0 ∧ g.holds i = false

section Sound

variable {T : Terms ι} {faults : Site → VaultError → Bool → Prop} {i : ι} {s : Store K}
  {g : Ledger ι}

/-- A request that owes nothing may let go. -/
theorem ending_of_clear {r : Except VaultError Unit} (h : Clear i r s g) :
    Ending (bookkeeping T) i (Ended i) r s g := by
  intro hb
  have hcounter : ∀ p, s.counter p = (s.counter p).map (· + (0 : Counts) p) := by simp
  have howed : g.owed i = 0 := h
  refine ⟨g.owe i 0 false, hb.balance (d := 0) (e := 0) hb.live hcounter (fun p _ => by simp)
    (fun p _ => by simp [howed]) (fun p _ => le_rfl) (fun _ => rfl) (by simp) (fun _ => rfl)
    (fun p n _ _ hle => by simpa using hle) (.refl s) hb.stamped,
    Within.balance hcounter (.refl s) (fun _ => .inr fun _ => rfl) le_rfl (by simp) (by simp)
      (by simp), owed_owe, holds_owe⟩

/-- Every request keeps the books. -/
theorem safe_prog {ops : ι → VaultOp K} (hf : T.Admits faults)
    (hT : T.exactBytes ∧ ¬ T.lossy ∨ T.installed) (hci : T.capped → T.installed)
    (hpassive : ∀ i, T.passive i ↔ (ops i).Passive)
    (hexact : ∀ i, T.passive i → T.exactBytes ∧ ¬ T.lossy)
    (hgone : ∀ i, (ops i).Unsettling → ¬ T.exactBytes ∧ T.lossy)
    (hplaced : ∀ i key, (ops i).Places key → T.placed key) (hs : Fresh i s g) :
    Keeps T faults i (Clear i) ((ops i).prog T.quota) s g := by
  obtain ⟨howed, -, hcalm⟩ := hs
  have hactive : ¬ (ops i).Passive → ¬ T.passive i := fun h h' => h ((hpassive i).1 h')
  cases hop : ops i with
  | create key fields sealedUnder =>
    have hi := hactive (by simp [hop, VaultOp.Passive])
    exact (safe_createCountedRow hf hT hci hi howed).discard
  | update key change beforeWrite reads =>
    have hi := hactive (by simp [hop, VaultOp.Passive])
    refine Safe.discard (safe_updateCountedRow hf hT hci hi reads (fun hw => ?_) howed)
    exact hplaced i key (by rw [hop]; exact ⟨rfl, hw⟩)
  | permanentDelete id =>
    have hi := hactive (by simp [hop, VaultOp.Passive])
    exact safe_permanentDelete hf hT hci hi howed
  | emptyTrash startTime rounds =>
    have hi := hactive (by simp [hop, VaultOp.Passive])
    exact safe_emptyTrash hf hT hci hi howed
  | withdraw key createdAt accountLive =>
    have hi := hactive (by simp [hop, VaultOp.Passive])
    exact (safe_withdrawCountedRow hf hT hci hi (fun h => hgone i (hop ▸ h)) howed).discard
  | install =>
    obtain ⟨hbytes, hfirm⟩ := hexact i ((hpassive i).2 (by simp [hop, VaultOp.Passive]))
    exact safe_installVaultCounters hf steady_anyRows hbytes hfirm hci ⟨trivial, howed⟩
      fun r s g hs => hs.2
  | recount quietSince =>
    have hi := (hpassive i).2 (by simp [hop, VaultOp.Passive])
    obtain ⟨hbytes, hfirm⟩ := hexact i hi
    exact (safe_recountVaultQuotas (hf.firm hfirm) hbytes hfirm hci hi howed hcalm).discard

/-- **The system follows the accounting protocol.** -/
theorem sound_vaultSystem {ops : ι → VaultOp K} (hf : T.Admits faults)
    (hT : T.exactBytes ∧ ¬ T.lossy ∨ T.installed) (hci : T.capped → T.installed)
    (hpassive : ∀ i, T.passive i ↔ (ops i).Passive)
    (hexact : ∀ i, T.passive i → T.exactBytes ∧ ¬ T.lossy)
    (hgone : ∀ i, (ops i).Unsettling → ¬ T.exactBytes ∧ T.lossy)
    (hplaced : ∀ i key, (ops i).Places key → T.placed key)
    {ok : Config ι (Store K) Site VaultError Unit → ι → Site → Prop}
    (hside : ∀ c i l g, Books T c.store g →
      (∀ j, Known Fresh Ended j (c.threads j) c.store g) → ok c i l →
      ReadsQuiet T i l c.store g) :
    Sound (vaultSystem T.quota faults ops) (bookkeeping T) (ReadsQuiet T) ok Fresh Ended where
  safe := by
    rintro i p rfl s g - hs
    exact (safe_prog hf hT hci hpassive hexact hgone hplaced hs).mono fun r s g => ending_of_clear
  stable_pre i := (stable_owed 0).and ((stable_holds false).and (stable_calm false))
  stable_post i _ := (stable_owed 0).and (stable_holds false)
  side := hside

end Sound

/-! ## The counters are the totals plus the corrections in flight -/

/-- How far the counters run ahead of the rows. -/
def Store.gap (s : Store K) : Counts := fun p => (s.counter p).getD 0 - storedTotals s.rows p

/-- The correction a request has yet to make: what running it to its end, alone, would take
from the gap. -/
def outstanding (p : Req K Unit) (s : Store K) : Counts := s.gap - (p.alone s).2.gap

/-- An account with its counters installed and exact. -/
def Exact (s : Store K) : Prop := ∀ p, s.counter p = some (storedTotals s.rows p)

/-- The account is accounted for: the counters are the totals plus what is outstanding, never
less than the totals, and the totals themselves when nothing is in flight. -/
structure Accounted (c : Config ι (Store K) Site VaultError Unit) : Prop where
  balance : ∀ p, c.store.counter p = some (storedTotals c.store.rows p
    + ∑ i, (c.threads i).elim 0 (fun q => outstanding q c.store p))
  covered : ∀ p n, c.store.counter p = some n → storedTotals c.store.rows p ≤ n
  settled : c.Quiet → Exact c.store

section Accounting

variable {faults : Site → VaultError → Bool → Prop} {quota : ℤ} {ops : ι → VaultOp K}
  {s₀ : Store K} {c : Config ι (Store K) Site VaultError Unit}

/-- The terms of runs on an installed account without recounts, every failure definite. -/
def exactTerms (quota : ℤ) (ops : ι → VaultOp K) : Terms ι where
  quota := quota
  exactBytes := True
  strict := True
  lossy := False
  installed := True
  capped := False
  placed key := ∃ i, (ops i).Places key
  passive _ := False

/-- The ledger before any request. -/
def Ledger.blank : Ledger ι where
  owed _ := 0
  holds _ := false
  calm _ := false
  lost := 0

omit [DecidableEq ι] in
theorem books_blank {T : Terms ι} (hexact : ∀ p n, T.Tracks p → s₀.counter p = some n →
      n = storedTotals s₀.rows p) (hlive : s₀.user.isSome) (hdated : Dated s₀)
    (hinstalled : T.installed → ∀ p, s₀.counter p ≠ none)
    (hcapped : T.capped → ∀ p n, p ≠ .vaultBytes → s₀.counter p = some n → n ≤ ceiling T.quota p)
    (hstamped : T.exactBytes → ∀ key row, T.placed key → s₀.rows.lookup key = some row →
      row.updatedAt.isSome) : Books T s₀ blank where
  live := hlive
  exact _ p n hp hn := by simp [blank, hexact p n hp hn]
  lost _ _ := le_rfl
  kept _ := rfl
  missing _ _ _ := rfl
  nonneg _ _ _ := le_rfl
  idle _ _ := rfl
  passive _ _ := rfl
  installed := hinstalled
  capped h _ := hcapped h
  dated := hdated
  stamped := hstamped

omit [Fintype ι] [DecidableEq ι] in
theorem Exact.live (h : Exact s₀) : s₀.user.isSome := by
  have := h .items
  cases hu : s₀.user with
  | some _ => rfl
  | none => simp [counter, hu] at this

theorem sound_exactTerms (hf : DefiniteFaults faults) (hops : ∀ i, ¬ (ops i).Passive)
    (hgone : ∀ i, ¬ (ops i).Unsettling) :
    Sound (vaultSystem quota faults ops) (bookkeeping (exactTerms quota ops))
      (ReadsQuiet (exactTerms quota ops)) (fun _ _ _ => True) Fresh Ended :=
  sound_vaultSystem (T := exactTerms quota ops)
    ⟨fun l e he => (hf.unapplied l e he).elim, fun _ => hf⟩ (.inr trivial) (fun h => h.elim)
    (fun i => ⟨fun h => h.elim, hops i⟩) (fun _ h => h.elim) (fun i h => (hgone i h).elim)
    (fun i _ h => ⟨i, h⟩) fun _ _ _ _ _ _ _ _ h => h.elim

omit [DecidableEq ι] in
/-- Under exact books the gap is what everybody owes. -/
theorem Books.gap_eq {s : Store K} {g : Ledger ι} (hb : Books (exactTerms quota ops) s g)
    (p : CounterPath) : s.gap p = ∑ i, g.owed i p := by
  obtain ⟨n, hn⟩ := ne_none_iff_exists'.1 (hb.installed trivial p)
  have hexact := hb.exact trivial p n (fun _ => trivial) hn
  rw [gap, hn, hexact, hb.kept not_false]
  simp

/-- What a placed request has outstanding is what the ledger says it owes. -/
theorem outstanding_eq_owed {i : ι} {q : Option (Req K Unit)} {s : Store K} {g : Ledger ι}
    (hb : Books (exactTerms quota ops) s g)
    (h : Placed (bookkeeping (exactTerms quota ops)) faults
      (ReadsQuiet (exactTerms quota ops)) Fresh Ended i q s g) (p : CounterPath) :
    q.elim 0 (fun q => outstanding q s p) = g.owed i p := by
  match q with
  | none => rw [h.1]; rfl
  | some (.ret a) | some (.raise e) => rw [h.1]; simp [outstanding, alone]
  | some (.access l f k) =>
    -- run to its end the request clears its own debt and touches no other
    have hkeep : ∀ (l : Option Site) (s : Store K) (g : Ledger ι) (s' : Store K) (g' : Ledger ι)
        (_ : Store K) (g'' : Ledger ι), (bookkeeping (exactTerms quota ops)).guar i l s g s' g' →
        (∀ j, j ≠ i → g''.owed j = g'.owed j) → ∀ j, j ≠ i → g''.owed j = g.owed j :=
      fun _ _ _ _ _ _ _ hw ht j hj => (ht j hj).trans (hw.owed j hj)
    obtain ⟨g', hb', hended, hothers⟩ := Safe.alone
      (T := fun _ g _ g' => ∀ j, j ≠ i → g'.owed j = g.owed j)
      (fun _ _ _ _ h => h.elim) (fun _ _ _ _ => rfl) hkeep hb h
    have hrest : ∑ j ∈ univ.erase i, g'.owed j p = ∑ j ∈ univ.erase i, g.owed j p :=
      sum_congr rfl fun j hj => by rw [hothers j (ne_of_mem_erase hj)]
    have hsum : ∑ j, g.owed j p = ∑ j, g'.owed j p + g.owed i p := by
      rw [← add_sum_erase univ (fun j => g'.owed j p) (mem_univ i), hended.1,
        hrest, Pi.zero_apply, zero_add, ← add_sum_erase _ _ (mem_univ i)]
      abel
    simp only [elim_some, outstanding, Pi.sub_apply]
    rw [hb.gap_eq, hb'.gap_eq, hsum]
    abel

omit [Fintype ι] [DecidableEq ι] in
/-- A request that has ended has nothing outstanding. -/
theorem outstanding_of_quiet (hq : c.Quiet) (i : ι) (p : CounterPath) :
    (c.threads i).elim 0 (fun q => outstanding q c.store p) = 0 := by
  cases hi : c.threads i with
  | none => rfl
  | some q =>
    have hfin : q.Finished := by
      by_contra h
      exact hq i ⟨q, hi, h⟩
    match q with
    | .ret a | .raise e => simp [outstanding, alone]
    | .access l f k => exact hfin.elim

/-- In exact books every request's debt is accounted for. -/
theorem accounted_of_placed {g : Ledger ι} (hb : Books (exactTerms quota ops) c.store g)
    (hp : ∀ i, Placed (bookkeeping (exactTerms quota ops)) faults
      (ReadsQuiet (exactTerms quota ops)) Fresh Ended i (c.threads i) c.store g) :
    Accounted c := by
  have hbalance : ∀ p, c.store.counter p = some (storedTotals c.store.rows p
      + ∑ i, (c.threads i).elim 0 (fun q => outstanding q c.store p)) := by
    intro p
    obtain ⟨n, hn⟩ := ne_none_iff_exists'.1 (hb.installed trivial p)
    rw [hn, hb.exact trivial p n (fun _ => trivial) hn, hb.kept not_false, Pi.zero_apply,
      add_zero, sum_congr rfl fun i _ => outstanding_eq_owed hb (hp i) p]
  refine ⟨hbalance, fun p n hn => ?_, fun hq p => ?_⟩
  · rw [hb.exact trivial p n (fun _ => trivial) hn, hb.kept not_false, Pi.zero_apply, add_zero]
    exact le_add_of_nonneg_right (sum_nonneg fun i _ => hb.nonneg i p fun _ => trivial)
  · rw [hbalance p, sum_eq_zero fun i _ => outstanding_of_quiet hq i p, add_zero]

variable (faults quota ops) in
/-- A write of placement fields alone, to a row without `updatedAt`, ends with the counters
short of the rows. -/
theorem exists_unaccounted (hexact : Exact s₀) {i : ι} {key : RowKey} {row : Row K}
    (hplaces : (ops i).Places key) (hrow : s₀.rows.lookup key = some row)
    (hbare : row.updatedAt = none) :
    ∃ c, Reach (vaultSystem quota faults ops) (start s₀) c ∧ ¬ Accounted c := by
  obtain ⟨c, hc, hstore, hquiet⟩ :=
    Reach.first (S := vaultSystem quota faults ops) (i := i) rfl
  refine ⟨c, hc, fun hacc => ?_⟩
  cases hop : ops i with
  | update k change beforeWrite reads =>
    rw [hop] at hplaces
    obtain ⟨rfl, hw⟩ := hplaces
    have hend : c.store = { s₀ with rows := s₀.rows.insert k (row.placed change s₀.clock) } := by
      simp [hstore, hop, VaultOp.prog, updateCountedRow, hw, alone_bind, updateRow,
        hrow]
    have hbytes := hacc.settled hquiet .vaultBytes
    have hold : c.store.counter .vaultBytes = s₀.counter .vaultBytes := by rw [hend]; rfl
    have hgrown := countedBytes_placed_of_none hw hbare s₀.clock
    have hstamp : entryBytes "updatedAt" (some (dateValue 0)) = 19 := by decide
    rw [hold, hexact .vaultBytes, hend, storedTotals_replace hrow] at hbytes
    simp only [some.injEq, Pi.add_apply, Pi.sub_apply, rowWeight, hgrown, hstamp] at hbytes
    omega
  | _ => rw [hop] at hplaces; exact hplaces.elim

/-! ### Withdrawals that settle nothing -/

/-- The same request, with the account live if it is a withdrawal. -/
def VaultOp.settling : VaultOp K → VaultOp K
  | withdraw key createdAt _ => withdraw key createdAt true
  | op => op

omit [Fintype ι] [DecidableEq ι] in
theorem settling_eq {op : VaultOp K} (h : ¬ op.Unsettling) : op.settling = op := by
  cases op with
  | withdraw key createdAt accountLive =>
    rw [VaultOp.settling, Bool.eq_true_of_not_eq_false h]
  | _ => rfl

omit [Fintype ι] [DecidableEq ι] in
/-- A withdrawal that settles nothing changes no store in which its row is not to be found. -/
theorem each_unsettling (quota : ℤ) (op : VaultOp K) :
    (op.prog quota).Each (fun _ => True)
      fun _ s s' => op.Unsettling → ¬ op.Strands s → s' = s := by
  by_cases hgone : op.Unsettling
  swap
  · exact each_of_forall (fun _ _ _ h => (hgone h).elim) _
  cases op with
  | withdraw key createdAt accountLive =>
    obtain rfl : accountLive = false := hgone
    refine Each.bind (Each.bind (each_db fun s _ _ hnot => ?_) fun gone => trivial)
      fun _ => trivial
    rcases s.deleteRow_cases key (fun row => decide (row.createdAt = createdAt)) with
      ⟨heq, -⟩ | ⟨row, hrow, hfound, -⟩
    · rw [heq]
    · exact (hnot ⟨rfl, row, hrow, of_decide_eq_true hfound⟩).elim
  | _ => exact hgone.elim

omit [Fintype ι] in
/-- The programs of a run are still bound by what `each_unsettling` says of them. -/
theorem each_reached (hc : Reach (vaultSystem quota faults ops) (start s₀) c) (i : ι)
    (q : Req K Unit) (hq : c.threads i = some q) :
    q.Each (fun _ => True) fun _ s s' => (ops i).Unsettling → ¬ (ops i).Strands s → s' = s :=
  (hc.each (fun i _ hp => hp ▸ each_unsettling quota (ops i)) (fun _ _ _ _ _ _ _ => trivial)
    trivial).2 i q hq

omit [DecidableEq ι] in
/-- Programs with nothing outstanding may be put back. -/
theorem Accounted.of_without {D : ι → Prop} [DecidablePred D] (h : Accounted (c.without D))
    (hzero : ∀ i, D i → ∀ q, c.threads i = some q → outstanding q c.store = 0) :
    Accounted c := by
  have hthread : ∀ i p, ((c.without D).threads i).elim 0 (fun q => outstanding q c.store p)
      = (c.threads i).elim 0 fun q => outstanding q c.store p := by
    intro i p
    by_cases hi : D i
    · rw [threads_without hi]
      cases hq : c.threads i with
      | none => rfl
      | some q => exact (congrFun (hzero i hi q hq) p).symm
    · rw [threads_without_of_not hi]
  refine ⟨fun p => (h.balance p).trans ?_, h.covered, fun hq => h.settled fun i hi => ?_⟩
  · exact congrArg some (congrArg _ (sum_congr rfl fun i _ => hthread i p))
  · obtain ⟨q, hsome, hnot⟩ := hi
    by_cases hD : D i
    · rw [threads_without hD] at hsome
      cases hsome
    · rw [threads_without_of_not hD] at hsome
      exact hq i ⟨q, hsome, hnot⟩

/-- The counter of a kind of row. -/
def rowCounter : Kind → CounterPath
  | .item => .items
  | .folder => .folders

/-- Where a withdrawal that settles nothing finds its row, its arrival leaves the account
unaccounted for: what it has outstanding is the row, which no counter will be rid of. -/
theorem not_accounted_of_strands (hacc : Accounted c) {i : ι} (hi : c.threads i = none)
    (hstrands : (ops i).Strands c.store) : ¬ Accounted (c.join i ((ops i).prog quota)) := by
  intro hjoined
  cases hop : ops i with
  | withdraw key createdAt accountLive =>
    rw [hop] at hstrands hjoined
    obtain ⟨rfl, row, hrow, hdate⟩ := hstrands
    set q : Req K Unit := (VaultOp.withdraw key createdAt false).prog quota
    have hend : (q.alone c.store).2 = { c.store with rows := c.store.rows.erase key } := by
      simp [q, VaultOp.prog, withdrawCountedRow, deleteCountedRow, alone_bind, deleteRow,
        hrow, hdate]
    have howes : outstanding q c.store (rowCounter key.kind) = -1 := by
      have hweight : rowWeight key row (rowCounter key.kind) = 1 := by
        cases hk : key.kind <;> simp [rowWeight, rowCounter, hk]
      have hcounter : ∀ p, ({ c.store with rows := c.store.rows.erase key } : Store K).counter p
          = c.store.counter p := fun p => rfl
      simp only [outstanding, hend, Pi.sub_apply, gap, hcounter, storedTotals_erase hrow,
        hweight]
      omega
    have hbefore := hacc.balance (rowCounter key.kind)
    have hafter := hjoined.balance (rowCounter key.kind)
    rw [show (c.join i q).store = c.store from rfl, hbefore, some.injEq,
      ← add_sum_erase univ _ (mem_univ i), ← add_sum_erase univ _ (mem_univ i), hi] at hafter
    have hself : (c.join i q).threads i = some q := Function.update_self ..
    have hothers : ∀ owes : Req K Unit → ℤ, ∑ j ∈ univ.erase i, ((c.join i q).threads j).elim 0 owes
        = ∑ j ∈ univ.erase i, (c.threads j).elim 0 owes := fun owes => sum_congr rfl fun j hj => by
      rw [show (c.join i q).threads j = c.threads j from Function.update_of_ne (ne_of_mem_erase hj) ..]
    rw [hself, elim_none, elim_some, howes, hothers] at hafter
    omega
  | _ => rw [hop] at hstrands; exact hstrands.elim

/-- Where every withdrawal settles, runs that write no placement fields to a row stored without
`updatedAt` are accounted for. -/
theorem accounted_of_settling (hf : DefiniteFaults faults) (hops : ∀ i, ¬ (ops i).Passive)
    (hgone : ∀ i, ¬ (ops i).Unsettling) (hexact : Exact s₀) (hdated : Dated s₀)
    (hstamped : ∀ i key row, (ops i).Places key → s₀.rows.lookup key = some row →
      row.updatedAt.isSome)
    (hc : Reach (vaultSystem quota faults ops) (start s₀) c) : Accounted c := by
  have hbooks : Books (exactTerms quota ops) s₀ blank :=
    books_blank (fun p n _ hn => some.inj (hn.symm.trans (hexact p))) hexact.live hdated
      (fun _ p hp => nomatch (hexact p).symm.trans hp) (fun h => h.elim)
      fun _ key row ⟨i, hplaces⟩ hrow => hstamped i key row hplaces hrow
  obtain ⟨g, hb, hp⟩ := (sound_exactTerms hf hops hgone).reaches_start hbooks
    (fun _ => ⟨rfl, rfl, rfl⟩) hc
  exact accounted_of_placed hb hp

/-- **Quota accounting under interleaving.** Every state any run reaches is accounted for if
and only if

* no request that writes placement fields alone addresses a row stored without `updatedAt`: such
  a write is not counted, but the timestamps plugin makes it grow the row;
* no state any run reaches holds a row that a withdrawal of an account gone or being erased is
  about: such a withdrawal removes the row and settles nothing. -/
theorem accounted_iff (hf : DefiniteFaults faults) (hops : ∀ i, ¬ (ops i).Passive)
    (hexact : Exact s₀) (hdated : Dated s₀) :
    (∀ c, Reach (vaultSystem quota faults ops) (Config.start s₀) c → Accounted c) ↔
      (∀ i key row, (ops i).Places key → s₀.rows.lookup key = some row →
        row.updatedAt.isSome) ∧
      ∀ c, Reach (vaultSystem quota faults ops) (Config.start s₀) c →
        ∀ i, ¬ (ops i).Strands c.store := by
  have hidle : ∀ c c' i l, Reach (vaultSystem quota faults ops) (start s₀) c →
      ¬ (ops i).Strands c.store → (ops i).Unsettling →
      CStep (vaultSystem quota faults ops) c (some (i, l)) c' → c'.store = c.store :=
    fun c c' i l hc hnot hgone hs =>
      (hs.each (I := fun _ => True) (T := fun i _ s s' =>
        (ops i).Unsettling → ¬ (ops i).Strands s → s' = s) trivial (each_reached hc i)).elim id
          fun hlaw => hlaw hgone hnot
  have hstart := without_start (ι := ι) (ℓ := Site) (ε := VaultError) (α := Unit)
    (D := fun i => (ops i).Unsettling) s₀
  constructor
  · intro hall
    refine ⟨fun i key row hplaces hrow => ?_, fun c hc => ?_⟩
    · by_contra hbare
      obtain ⟨c, hc, hnot⟩ := exists_unaccounted faults quota ops hexact hplaces hrow
        (by simpa using hbare)
      exact hnot (hall c hc)
    · -- such a withdrawal may as well arrive last
      have hfree : ∀ c : Config ι (Store K) Site VaultError Unit,
          Reach (vaultSystem quota faults ops) (start s₀) (c.without
            fun i => (ops i).Unsettling) → ∀ i, ¬ (ops i).Strands c.store := by
        intro c hleft i hstrands
        have hgone : (ops i).Unsettling := by
          cases hop : ops i with
          | withdraw => exact (hop ▸ hstrands).1
          | _ => rw [hop] at hstrands; exact hstrands.elim
        have hnone := c.threads_without (D := fun i => (ops i).Unsettling) hgone
        exact not_accounted_of_strands (hall _ hleft) hnone hstrands
          (hall _ (hleft.join hnone rfl))
      refine hfree c (hstart ▸ Reach.without (fun _ _ _ hp => hp) rfl ?_ hc)
      intro c c' i l hc hleft hgone hs
      exact hidle c c' i l hc (hfree c (hstart ▸ hleft) i) hgone hs
  · rintro ⟨hstamped, hfree⟩ c hc
    -- without the withdrawals that find no row, it is a run of requests that settle
    have hleft : Reach (vaultSystem quota faults fun i => (ops i).settling)
        (start s₀) (c.without fun i => (ops i).Unsettling) := by
      rw [← hstart]
      refine Reach.without (S := vaultSystem quota faults ops) (fun i p hi hp => ?_) rfl
        (fun c c' i l hc _ => ?_) hc
      · exact hp.trans (congrArg (·.prog quota) (settling_eq hi).symm)
      · exact hidle c c' i l hc (hfree c hc i)
    refine Accounted.of_without (accounted_of_settling hf (fun i => ?_) (fun i => ?_) hexact hdated
      (fun i key row hplaces => hstamped i key row ?_) hleft) fun i hi q hq => ?_
    · have hactive := hops i
      cases hop : ops i <;> rw [hop] at hactive <;> exact hactive
    · cases ops i <;> nofun
    · cases hop : ops i <;> rw [hop] at hplaces <;> exact hplaces
    · have hsame := (each_reached hc i q hq).alone_eq fun l s' hlaw => hlaw hi (hfree c hc i)
      rw [outstanding, hsame, sub_self]

end Accounting

/-! ### A legacy row -/

/-- An item an earlier release stored without `updatedAt`. -/
def legacyItem : Row Unit where
  version := some 0
  createdAt := some 0
  updatedAt := none
  fields _ := none
  sealedUnder := ()

/-- An account with that item alone, its counters installed and exact. -/
def legacyAccount : Store Unit :=
  let rows : Table Unit := Finmap.singleton ⟨.item, 0⟩ legacyItem
  { user := some
      { authHash := "", vaultKey := ⟨"", "", ""⟩, pendingVaultKey := none, vaultKeyVersion := none
        rotationInProgress := false, lastRotationKey := none, deletionPending := false
        counters := fun p => some (storedTotals rows p), quotaEpoch := none
        vaultBytesWrittenAt := none, quotaRecountedAt := none }
    rows := rows
    documents := ∅
    rotationLock := none
    clock := 1 }

/-- Moving an item to the trash: `deletedAt` is the one field written. -/
def trashUpdate : CountedUpdate Unit where
  set f := if f = .deletedAt then some (.date 1) else none
  unset _ := false
  sealedUnder := none

/-- The request that moves the item of `legacyAccount` to the trash. -/
def trashLegacyItem : VaultOp Unit := .update ⟨.item, 0⟩ trashUpdate (.ret ()) trivial

/-- The request that creates another item beside it. -/
def createAnotherItem : VaultOp Unit := .create ⟨.item, 1⟩ (fun _ => none) ()

theorem exact_legacyAccount : Exact legacyAccount := fun _ => rfl

theorem lookup_legacyAccount {key : RowKey} {row : Row Unit}
    (h : legacyAccount.rows.lookup key = some row) : key = ⟨.item, 0⟩ ∧ row = legacyItem := by
  by_cases hk : key = ⟨.item, 0⟩
  · subst hk
    rw [legacyAccount, lookup_singleton_eq] at h
    exact ⟨rfl, (some.inj h).symm⟩
  · have hnot : key ∉ legacyAccount.rows := by simpa [legacyAccount] using hk
    rw [lookup_eq_none.2 hnot] at h
    cases h

theorem dated_legacyAccount : Dated legacyAccount := by
  intro key row t hrow ht
  obtain ⟨-, rfl⟩ := lookup_legacyAccount hrow
  cases ht
  exact Nat.one_pos

/-- Trashing a legacy item leaves its account's counters short of what is stored. -/
theorem trash_legacyItem_unaccounted :
    ¬ ∀ c, Reach (vaultSystem 0 (fun _ _ _ => False) fun _ : Fin 1 => trashLegacyItem)
      (Config.start legacyAccount) c → Accounted c := by
  have hrow : legacyAccount.rows.lookup ⟨.item, 0⟩ = some legacyItem := lookup_singleton_eq
  have hplaces : trashLegacyItem.Places ⟨.item, 0⟩ := ⟨rfl, by decide⟩
  obtain ⟨c, hc, hnot⟩ := exists_unaccounted (fun _ _ _ => False) 0
    (fun _ : Fin 1 => trashLegacyItem) exact_legacyAccount (i := 0) hplaces hrow rfl
  exact fun hall => hnot (hall c hc)

/-- One of two creates beside the legacy item has arrived and made its first three accesses. -/
def besideLegacyItem : Config (Fin 2) (Store Unit) Site VaultError Unit :=
  ((Config.start legacyAccount).join 0 (createAnotherItem.prog 1000)).follow [0, 0, 0]

theorem reach_besideLegacyItem (faults : Site → VaultError → Bool → Prop) :
    Reach (vaultSystem 1000 faults fun _ : Fin 2 => createAnotherItem) (start legacyAccount)
      besideLegacyItem :=
  Reach.follow (Reaches.opened _ _ legacyAccount rfl) [0, 0, 0]

/-- Creates beside a legacy item are accounted for: none of them addresses it. -/
theorem create_beside_legacyItem_accounted : Accounted besideLegacyItem := by
  have hfaults : DefiniteFaults fun _ _ _ => False :=
    ⟨fun _ _ => id, fun _ _ _ _ h => h.elim, fun _ _ => id⟩
  have hops : ∀ i : Fin 2, ¬ ((fun _ => createAnotherItem) i).Passive := fun _ h => h
  exact (accounted_iff hfaults hops exact_legacyAccount dated_legacyAccount).2
    ⟨fun _ _ _ h => h.elim, fun _ _ _ h => h.elim⟩ _ (reach_besideLegacyItem _)

/-! ## Ceilings -/

/-- The number of stored rows of a kind. -/
def rowCount (kind : Kind) (rows : Table K) : ℕ := (rows.keys.filter (·.kind = kind)).card

omit [Fintype ι] [DecidableEq ι] in
theorem storedTotals_rowCounter (kind : Kind) (rows : Table K) :
    storedTotals rows (rowCounter kind) = rowCount kind rows := by
  have hweight : ∀ (key : RowKey) (row : Row K),
      rowWeight key row (rowCounter kind) = if key.kind = kind then 1 else 0 := by
    intro key row
    cases kind <;> rfl
  rw [storedTotals_apply, tally, rowCount, card_filter, Nat.cast_sum]
  refine sum_congr rfl fun key hkey => ?_
  obtain ⟨row, hrow⟩ := mem_iff.1 (mem_keys.1 hkey)
  rw [hrow, elim_some, hweight]
  split <;> rfl

section Ceilings

variable {faults : Site → VaultError → Bool → Prop} {quota : ℤ} {ops : ι → VaultOp K}
  {s₀ : Store K}

/-- The terms of runs on an installed account whose accesses may fail in any way. -/
def capTerms (quota : ℤ) : Terms ι where
  quota := quota
  exactBytes := False
  strict := True
  lossy := True
  installed := True
  capped := True
  placed _ := True
  passive _ := False

variable (quota) in
theorem sound_capTerms (htruthful : ∀ l e, faults l e true → isDefiniteWriteFailure e = false)
    (hops : ∀ i, ¬ (ops i).Passive) :
    Sound (vaultSystem quota faults ops) (bookkeeping (capTerms quota))
      (ReadsQuiet (capTerms quota)) (fun _ _ _ => True) Fresh Ended :=
  sound_vaultSystem (T := capTerms quota) ⟨htruthful, fun h => (h trivial).elim⟩ (.inr trivial)
    (fun _ => trivial) (fun i => ⟨fun h => h.elim, hops i⟩) (fun _ h => h.elim)
    (fun _ _ => ⟨not_false, trivial⟩) (fun _ _ _ => trivial) fun _ _ _ _ _ _ _ _ h => h.elim

omit [DecidableEq ι] in
/-- Under a capped counter there are at most as many rows. -/
theorem Books.rowCount_le {s : Store K} {g : Ledger ι} (hb : Books (capTerms quota) s g)
    (kind : Kind) : (rowCount kind s.rows : ℤ) ≤ ceiling quota (rowCounter kind) := by
  have hne : rowCounter kind ≠ .vaultBytes := by cases kind <;> simp [rowCounter]
  have htracks : (capTerms quota : Terms ι).Tracks (rowCounter kind) := fun h => (hne h).elim
  obtain ⟨n, hn⟩ := ne_none_iff_exists'.1 (hb.installed trivial (rowCounter kind))
  have hcap := hb.capped trivial trivial _ n hne hn
  have hexact := hb.exact trivial _ n htracks hn
  have howed : 0 ≤ ∑ i, g.owed i (rowCounter kind) :=
    sum_nonneg fun i _ => hb.nonneg i _ htracks
  have hlost := hb.lost _ htracks
  rw [storedTotals_rowCounter] at hexact
  have hquota : (capTerms quota : Terms ι).quota = quota := rfl
  rw [hquota] at hcap
  omega

/-- A reservation of nothing matches wherever the counters are installed. -/
theorem reserveStatement_zero (quota : ℤ) {s : Store K} (h : ∀ p, s.counter p ≠ none) :
    (reserveStatement quota (fun _ => 0) s).1 = true := by
  rcases s.updateUser_cases
      (fun u => decide (∀ p, counterRoom 0 (ceiling quota p) (u.counters p)))
      (User.addCounts (fun _ => ((0 : ℕ) : ℤ)) s.clock) with ⟨heq, hmiss⟩ | ⟨u, hu, -, heq⟩
  · cases hu : s.user with
    | none => exact (h .items (by simp [counter, hu])).elim
    | some u =>
      refine (of_decide_eq_false (hmiss u hu) fun p => ?_).elim
      obtain ⟨n, hn⟩ := ne_none_iff_exists'.1 (h p)
      have hp : u.counters p = some n := by simpa [counter, hu] using hn
      simp [counterRoom, hp]
  · rw [reserveStatement, heq]

/-- A reservation of nothing is refused by nothing but a failing database. -/
theorem own_reserve_zero {ws : List (Site × Store K × Store K)} {r : Except VaultError Reservation}
    (hrun : Prog.Own faults (reserveVaultWrite quota fun _ => 0) ws r)
    (hws : ∀ w ∈ ws, ∀ p, w.2.1.counter p ≠ none) :
    r = .ok (fun _ => 0) ∨ ∃ e b, faults .reserve e b ∧ r = .error e := by
  rcases Prog.Own.of_bind hrun with ⟨ws₁, ws₂, matched, rfl, hfirst, hrest⟩ | ⟨e, rfl, hfirst⟩
  · rcases Prog.Own.of_db hfirst with ⟨s, rfl, hmatched⟩ | ⟨e, b, _, he⟩
    · have hzero := reserveStatement_zero quota (hws _ (List.mem_append_left _ List.mem_cons_self))
      obtain rfl : matched = true := by
        rw [hzero] at hmatched
        exact Except.ok.inj hmatched
      cases hrest with
      | ret => exact .inl rfl
    · cases he
  · rcases Prog.Own.of_db hfirst with ⟨s, _, hr⟩ | ⟨e', b, hfault, he⟩
    · cases hr
    · cases he
      exact .inr ⟨e, b, hfault, rfl⟩

/-- An access that keeps every counter that is a number. -/
def KeepsNumbers (w : Site × Store K × Store K) : Prop :=
  ∀ p n, w.2.1.counter p = some n → w.2.2.counter p = some n

omit [Fintype ι] [DecidableEq ι] in
theorem keepsNumbers_read (l : Site) (s : Store K) : KeepsNumbers (l, s, s) := fun _ _ h => h

omit [Fintype ι] [DecidableEq ι] in
/-- An install never changes a number. -/
theorem keepsNumbers_install (totals : Counts) (s : Store K) :
    KeepsNumbers (.installCounters, s, (installStatement totals s).2) := by
  intro p n hn
  rcases s.updateUser_cases (fun u => decide (∃ p, u.counters p = none)) (fun u =>
      { u with
        counters := keepCounters totals u.counters
        quotaRecountedAt := some s.clock
        vaultBytesWrittenAt := some s.clock
        quotaEpoch := some (u.quotaEpoch.getD 0 + 1) }) with ⟨heq, -⟩ | ⟨u, hu, -, heq⟩
  · rw [installStatement, heq]
    exact hn
  · have hp : u.counters p = some n := by simpa [counter, hu] using hn
    rw [installStatement, heq]
    simp [counter, keepCounters, hp]

theorem spares_installVaultCounters {A : Except VaultError Unit → Prop} :
    Prog.Spares faults KeepsNumbers A (installVaultCounters : Req K Unit) := by
  refine Prog.Spares.bind ?_ fun totals => ?_
  · refine Prog.Spares.read_bind (keepsNumbers_read _) fun items => ?_
    exact Prog.Spares.read_bind (keepsNumbers_read _) fun folders => spares_ret _
  · exact Prog.Spares.db_bind fun s => .inl ⟨keepsNumbers_install totals s, spares_ret _⟩

/-- A reservation that ends in an error has kept every number on its way. -/
theorem spares_reserveAttempts {want : Reservation} (n : ℕ) (last : Option VaultError) :
    Prog.Spares faults KeepsNumbers (fun r => ∃ e, r = .error e)
      (reserveAttempts quota want n last : Req K Reservation) := by
  induction n generalizing last with
  | zero => exact spares_raise _
  | succ n ih =>
    refine Prog.Spares.db_bind fun s => ?_
    rcases s.updateUser_cases
        (fun u => decide (∀ p, counterRoom (want p) (ceiling quota p) (u.counters p)))
        (User.addCounts (fun p => want p) s.clock) with ⟨heq, -⟩ | ⟨u, _, _, heq⟩
    · left
      rw [reserveStatement, heq]
      refine ⟨keepsNumbers_read _ s, ?_⟩
      refine Prog.Spares.read_bind (keepsNumbers_read _) fun stored => ?_
      cases stored with
      | none => exact spares_raise _
      | some counters =>
        dsimp only
        cases installed? counters with
        | none => exact Prog.Spares.bind spares_installVaultCounters fun _ => ih last
        | some stored =>
          dsimp only
          cases refusalOf quota want stored with
          | some refusal => exact spares_raise _
          | none => exact ih _
    · right
      rw [reserveStatement, heq]
      rintro ws r hrun ⟨e, rfl⟩
      cases hrun

/-- **Row caps and quota are never passed by concurrent growth.** However the accesses of the
requests interleave and fail: a step of a reservation leaves a counter it raised at or below
its ceiling, and there are never more rows than the cap. A reservation of nothing is refused
by nothing but a failing database while the counters are there, and a reservation that is
refused leaves them as they are. -/
theorem ceilings_hold (htruthful : ∀ l e, faults l e true → isDefiniteWriteFailure e = false)
    (hops : ∀ i, ¬ (ops i).Passive) (hexact : Exact s₀) (hdated : Dated s₀)
    (hceilings : ∀ p n, s₀.counter p = some n → n ≤ ceiling quota p) :
    (∀ c, Reach (vaultSystem quota faults ops) (Config.start s₀) c →
      (∀ i c', CStep (vaultSystem quota faults ops) c (some (i, .reserve)) c' → ∀ p n n',
        c.store.counter p = some n → c'.store.counter p = some n' → n < n' →
          n' ≤ ceiling quota p) ∧
      ∀ kind, (rowCount kind c.store.rows : ℤ) ≤ ceiling quota (rowCounter kind)) ∧
    (∀ (ws : List (Site × Store K × Store K)) r,
      Prog.Own faults (reserveVaultWrite quota fun _ => 0) ws r →
      (∀ w ∈ ws, ∀ p, w.2.1.counter p ≠ none) →
        r = .ok (fun _ => 0) ∨ ∃ e b, faults .reserve e b ∧ r = .error e) ∧
    ∀ want (ws : List (Site × Store K × Store K)) e,
      Prog.Own faults (reserveVaultWrite quota want) ws (.error e) →
      (∀ l b, ¬ faults l e b) → ∀ w ∈ ws, ∀ p n, w.2.1.counter p = some n →
        w.2.2.counter p = some n := by
  refine ⟨fun c hc => ?_, fun ws r hrun hws => own_reserve_zero hrun hws,
    fun want ws e hrun hrefused => ?_⟩
  · have hbooks : Books (capTerms quota : Terms ι) s₀ blank :=
      books_blank (fun p n _ hn => some.inj (hn.symm.trans (hexact p))) hexact.live hdated
        (fun _ p hp => nomatch (hexact p).symm.trans hp) (fun _ p n _ hn => hceilings p n hn)
        fun h => h.elim
    have hS := sound_capTerms quota htruthful hops
    obtain ⟨g, hat⟩ := hS.reaches_start hbooks (fun _ => ⟨rfl, rfl, rfl⟩) hc
    refine ⟨fun i c' hs p n n' hn hn' hlt => ?_, fun kind => hat.1.rowCount_le kind⟩
    obtain ⟨g', -, hw, -, -⟩ := hS.run hat trivial hs
    rcases hw.reserve rfl p n' hn' with hsame | hle
    · rw [hn] at hsame
      cases hsame
      exact (lt_irrefl _ hlt).elim
    · exact hle
  · rcases spares_reserveAttempts _ _ _ _ hrun ⟨e, rfl⟩ with hkeep | ⟨l, e', b, hfault, he⟩
    · exact hkeep
    · cases he
      exact (hrefused l b hfault).elim

end Ceilings

/-- Two creates on the account of a legacy item, at a quota that leaves room for both. -/
theorem ceilings_hold_legacyAccount :
    (rowCount .item besideLegacyItem.store.rows : ℤ) ≤ 10000 := by
  have hops : ∀ i : Fin 2, ¬ ((fun _ => createAnotherItem) i).Passive := fun _ h => h
  have hceilings : ∀ p n, legacyAccount.counter p = some n → n ≤ ceiling 1000 p := by
    have hall : ∀ p, storedTotals legacyAccount.rows p ≤ ceiling 1000 p := by decide
    intro p n hn
    cases (exact_legacyAccount p).symm.trans hn
    exact hall p
  have htruthful : ∀ (l : Site) e, (e = VaultError.database false ∧ true = true) →
      isDefiniteWriteFailure e = false := fun _ _ h => by rw [h.1]; rfl
  exact ((ceilings_hold htruthful hops exact_legacyAccount dated_legacyAccount hceilings).1 _
    (reach_besideLegacyItem fun _ e b => e = .database false ∧ b = true)).2 .item

/-! ## Installing and recounting -/

section Recount

variable {faults : Site → VaultError → Bool → Prop} {quota : ℤ} {ops : ι → VaultOp K}
  {s₀ : Store K}

end Recount

end HVault
