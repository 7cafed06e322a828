import HVault.Vault.Books

/-!
# The counted operations keep the books

One specification for each program of the quota code: started while the request owes nothing,
it ends owing nothing, and every access in between stays within the accounting protocol. The
programs that run inside others (`reserveVaultWrite`, `settleVaultWrite`) have a
specification their callers use; no caller looks into them.
-/

namespace HVault

open Interleave Option Within

variable {K : Type} {ι : Type} {α : Type}

/-! ## Failures -/

/-- Accesses that apply or fail definitely. Nothing in a settle can be refused: it adds
numbers to numbers, with no unique index, validator or cast in its way. -/
structure DefiniteFaults (faults : Site → VaultError → Bool → Prop) : Prop where
  unapplied : ∀ l e, ¬ faults l e true
  definite : ∀ l e b, l = .writeRow ∨ l = .insertRow → faults l e b →
    isDefiniteWriteFailure e = true
  settles : ∀ e b, ¬ faults .settle e b

/-- The failures the terms allow: an error that names a definite failure tells the truth, and
unless losses are tolerated every failure is definite. -/
structure Terms.Admits (T : Terms ι) (faults : Site → VaultError → Bool → Prop) : Prop where
  truthful : ∀ l e, faults l e true → isDefiniteWriteFailure e = false
  firm : ¬ T.lossy → DefiniteFaults faults

/-- The side condition of strict runs: a recount reads while nobody holds. -/
def ReadsQuiet (T : Terms ι) (i : ι) (l : Site) (_ : Store K) (g : Ledger ι) : Prop :=
  T.strict → T.passive i → l = .recountRead → ∀ j, g.holds j = false

/-- `p` keeps the books and ends in `Q`. -/
abbrev Keeps [Fintype ι] (T : Terms ι) (faults : Site → VaultError → Bool → Prop) (i : ι)
    (Q : Except VaultError α → Store K → Ledger ι → Prop) (p : Req K α) (s : Store K)
    (g : Ledger ι) : Prop :=
  Safe (bookkeeping T) faults (ReadsQuiet T) i Q p s g

/-- `F` holds and `i` owes `x`. -/
def Owing (F : Store K → Prop) (i : ι) (x : Counts) (s : Store K) (g : Ledger ι) : Prop :=
  F s ∧ g.owed i = x

/-- `F` holds, and `i` owes `x` under a reservation. -/
def Holding (F : Store K → Prop) (i : ι) (x : Counts) (s : Store K) (g : Ledger ι) : Prop :=
  F s ∧ g.owed i = x ∧ g.holds i = true

section Specs

variable [Fintype ι] {T : Terms ι} {faults : Site → VaultError → Bool → Prop} {i : ι}
  {F : Store K → Prop} {s : Store K} {g : Ledger ι} {u : User} {x d : Counts} {h : Bool}
  {l : Option Site}

theorem Terms.Steady.owing (hF : T.Steady F) (x : Counts) :
    (bookkeeping T).Stable i (Owing F i x) := hF.stable.and (stable_owed x)

theorem Terms.Steady.holding (hF : T.Steady F) (x : Counts) :
    (bookkeeping T).Stable i (Holding F i x) :=
  hF.stable.and ((stable_owed x).and (stable_holds true))

omit [Fintype ι] in
theorem Terms.Steady.user (hF : T.Steady F) (hf : F s) (u : Option User) :
    F { s with user := u } := hF s _ (.of_rows_eq rfl rfl) hf

/-! ## Adding to the counters -/

theorem counter_addCounts (hu : s.user = some u) (now : ℕ) (p : CounterPath) :
    ({ s with user := some (u.addCounts d now) } : Store K).counter p
      = (s.counter p).map (· + d p) := by
  simp [Store.counter, User.addCounts, hu]

theorem epoch_addCounts (hu : s.user = some u) (now : ℕ) :
    ({ s with user := some (u.addCounts d now) } : Store K).epoch = s.epoch + 1 := by
  simp [Store.epoch, User.addCounts, hu]

variable [DecidableEq ι]

/-- Adding to the counters what the request comes to owe. -/
theorem Books.addCounts (hb : Books T s g) (hu : s.user = some u) (now : ℕ)
    (howed : ∀ p, x p = g.owed i p + d p) (hnonneg : ∀ p, T.Tracks p → 0 ≤ x p)
    (hidle : h = false → x = 0) (hheld : h = true → ∀ p, s.counter p ≠ none)
    (hpassive : T.passive i → h = false)
    (hcap : ∀ p n, p ≠ .vaultBytes → s.counter p = some n → n ≤ ceiling T.quota p →
      n + d p ≤ ceiling T.quota p)
    (hreserve : l = some .reserve → ∀ p n, s.counter p = some n →
      d p = 0 ∨ n + d p ≤ ceiling T.quota p)
    (hl : l ≠ some .installCounters ∧ l ≠ some .recountRead ∧ l ≠ some .recountWrite) :
    Books T { s with user := some (u.addCounts d now) } (g.owe i x h) ∧
      Within T i l s g { s with user := some (u.addCounts d now) } (g.owe i x h) := by
  have hcounter := fun p => counter_addCounts (d := d) hu now p
  have hepoch := epoch_addCounts (s := s) (d := d) hu now
  have he : Evolves T.Neutral s { s with user := some (u.addCounts d now) } :=
    .of_rows_eq rfl rfl
  refine ⟨?_, ?_⟩
  · exact hb.balance rfl hcounter (fun p _ => (add_zero _).symm)
      (fun p _ => by rw [howed p]; simp) hnonneg hidle hheld hpassive hcap he hb.stamped
  · refine Within.balance hcounter he (fun _ => .inr fun _ => rfl) (by omega)
      (fun _ _ => by omega) (fun hl' p n hn => ?_) hl
    rw [hcounter p, map_eq_some_iff] at hn
    obtain ⟨m, hm, rfl⟩ := hn
    rcases hreserve hl' p m hm with h0 | hle
    · exact .inl (by simpa [h0] using hm)
    · exact .inr hle

/-- A reservation that matched. -/
theorem Books.reserve (hb : Books T s g) (hu : s.user = some u) (howed : g.owed i = 0)
    (hi : ¬ T.passive i) {want : Reservation}
    (hroom : ∀ p, counterRoom (want p) (ceiling T.quota p) (u.counters p) = true) (now : ℕ) :
    Books T { s with user := some (u.addCounts (fun p => want p) now) }
        (g.owe i (fun p => want p) true) ∧
      Within T i (some .reserve) s g { s with user := some (u.addCounts (fun p => want p) now) }
        (g.owe i (fun p => want p) true) := by
  -- a counter has room, so it is there and what it gets keeps it below its ceiling
  have hroom' : ∀ p, ∃ n, s.counter p = some n ∧
      (want p = 0 ∨ n + want p ≤ ceiling T.quota p) := by
    intro p
    have hp := hroom p
    cases hc : u.counters p with
    | none => simp [counterRoom, hc] at hp
    | some n =>
      refine ⟨n, by simp [Store.counter, hu, hc], ?_⟩
      simp only [counterRoom, hc, Bool.or_eq_true, decide_eq_true_eq] at hp
      omega
  have hbound : ∀ p n, s.counter p = some n →
      (want p : ℤ) = 0 ∨ n + want p ≤ ceiling T.quota p := by
    intro p n hn
    obtain ⟨m, hm, hle⟩ := hroom' p
    rw [hm] at hn
    cases hn
    exact hle.imp_left fun h => by exact_mod_cast h
  refine hb.addCounts hu now (fun p => by rw [howed]; simp) (fun p _ => Int.natCast_nonneg _)
    nofun (fun _ p hp => ?_) (fun h => (hi h).elim) (fun p n _ hn hle => ?_)
    (fun _ p n hn => hbound p n hn) (by simp)
  · obtain ⟨n, hn, -⟩ := hroom' p
    rw [hn] at hp
    cases hp
  · rcases hbound p n hn with h0 | hle'
    · rw [h0]
      simpa using hle
    · exact hle'

/-- A settle that pays what is owed. -/
theorem Books.settle (hb : Books T s g) (hu : s.user = some u) (howed : ∀ p, d p = -g.owed i p)
    (now : ℕ) :
    Books T { s with user := some (u.addCounts d now) } (g.owe i 0 (g.holds i)) ∧
      Within T i (some .settle) s g { s with user := some (u.addCounts d now) }
        (g.owe i 0 (g.holds i)) := by
  refine hb.addCounts hu now (fun p => by rw [howed p]; simp) (fun p _ => le_rfl) (fun _ => rfl)
    (fun hh p hp => ?_) (hb.passive i) (fun p n hp _ hle => ?_) (fun hl => by simp at hl)
    (by simp)
  · rw [hb.missing p hp i] at hh
    cases hh
  · have h0 := hb.nonneg i p fun h => (hp h).elim
    rw [howed p]
    omega

/-! ## Reserving and settling -/

omit [DecidableEq ι] in
/-- A counter a request has moved is installed. -/
theorem Books.counter_of_owed (hb : Books T s g) {p : CounterPath} (hp : g.owed i p ≠ 0) :
    (s.counter p).isSome := by
  cases hc : s.counter p with
  | some n => rfl
  | none =>
    have := hb.idle i (hb.missing p hc i)
    rw [this] at hp
    exact (hp rfl).elim

/-- The statement of a settle finds its counters, and leaves nothing owing. -/
theorem Books.settleStatement (hb : Books T s g) (hF : T.Steady F)
    (hs : Owing F i x s g) (hd : ∀ p, d p = -x p) :
    ∃ g', Books T (addCountsStatement d s).2 g' ∧
      Within T i (some .settle) s g (addCountsStatement d s).2 g' ∧
      Owing F i 0 (addCountsStatement d s).2 g' := by
  have howed : ∀ p, d p = -g.owed i p := fun p => by rw [hs.2, hd p]
  rcases s.updateUser_cases (fun u => decide (∀ p, d p ≠ 0 → (u.counters p).isSome))
    (User.addCounts d s.clock) with ⟨_, hmiss⟩ | ⟨u, hu, -, heq⟩
  · -- the filter cannot miss: every counter the delta moves is one the request has moved
    obtain ⟨u, hu⟩ := isSome_iff_exists.1 hb.live
    refine (of_decide_eq_false (hmiss u hu) fun p hp => ?_).elim
    have := hb.counter_of_owed (i := i) (p := p) (by have := howed p; omega)
    simpa [Store.counter, hu] using this
  · obtain ⟨hb', hw⟩ := hb.settle hu howed s.clock
    unfold addCountsStatement
    rw [heq]
    exact ⟨_, hb', hw, hF.user hs.1 _, owed_owe⟩

variable {Q : Except VaultError Unit → Store K → Ledger ι → Prop}

/-- **Settling** pays what the request owes, or gives it up. -/
theorem safe_settleVaultWrite (hf : T.Admits faults) (hF : T.Steady F) {reservation : Reservation}
    {actual : Counts} (hs : Owing F i (fun p => reservation p - actual p) s g)
    (hQ : ∀ s g, Owing F i 0 s g → Q (.ok ()) s g) :
    Keeps T faults i Q (settleVaultWrite reservation actual) s g := by
  unfold settleVaultWrite addVaultCounts
  by_cases hzero : ∀ p, actual p - (reservation p : ℤ) = 0
  · rw [if_pos hzero]
    refine hQ s g ⟨hs.1, hs.2.trans ?_⟩
    funext p
    have := hzero p
    simp only [Pi.zero_apply]
    omega
  · rw [if_neg hzero]
    refine Safe.attempt_db_bind _ (hF.owing _) hs ?_ ?_ ?_
    · intro s g hb hs _
      obtain ⟨g', hb', hw, hs'⟩ := hb.settleStatement hF hs
        (d := fun p => actual p - (reservation p : ℤ)) fun p => by omega
      exact ⟨g', hb', hw, hQ _ _ hs'⟩
    · intro s g e hb hs _ he
      have hlossy : T.lossy := by
        by_contra h
        exact (hf.firm h).settles e _ he
      exact ⟨_, hb.forgiveAll hlossy, (same (by simp)).forgive 0,
        hQ _ _ ⟨hs.1, owed_forgive⟩⟩
    · intro s g e hb hs _ _
      obtain ⟨g', hb', hw, hs'⟩ := hb.settleStatement hF hs
        (d := fun p => actual p - (reservation p : ℤ)) fun p => by omega
      exact ⟨g', hb', hw, hQ _ _ hs'⟩

theorem safe_releaseVaultWrite (hf : T.Admits faults) (hF : T.Steady F)
    {reservation : Reservation} (hs : Owing F i (fun p => reservation p) s g)
    (hQ : ∀ s g, Owing F i 0 s g → Q (.ok ()) s g) :
    Keeps T faults i Q (releaseVaultWrite reservation) s g :=
  safe_settleVaultWrite hf hF ⟨hs.1, by rw [hs.2]; simp⟩ hQ

/-! ## Measuring and installing -/

/-- While `C` lasts nobody changes the totals: `C` after a step of another request means that
it held before and that the totals have not moved. -/
def Window (T : Terms ι) (i : ι) (P C : Store K → Ledger ι → Prop) : Prop :=
  ∀ j, j ≠ i → ∀ l s g s' g', Books T s g → P s g → Within T j l s g s' g' → C s' g' →
    C s g ∧ ∀ kind, kindTotals kind s'.rows = kindTotals kind s.rows

omit [DecidableEq ι] in
theorem Window.stable {P C : Store K → Ledger ι → Prop} (hC : Window T i P C)
    (hP : (bookkeeping T).Stable i P) (M : Table K → Prop)
    (hM : ∀ rows rows' : Table K, (∀ kind, kindTotals kind rows' = kindTotals kind rows) →
      M rows → M rows') :
    (bookkeeping T).Stable i fun s g => P s g ∧ (C s g → M s.rows) := by
  intro j hj l s g s' g' hb hp hw hb'
  refine ⟨hP j hj l s g s' g' hb hp.1 hw hb', fun hc => ?_⟩
  obtain ⟨hc', hsame⟩ := hC j hj l s g s' g' hb hp.1 hw hc
  exact hM _ _ hsame (hp.2 hc')

omit [DecidableEq ι] in
/-- The totals a request measures are exact for as long as the window of the measure lasts. -/
theorem safe_storedVaultTotals {P C : Store K → Ledger ι → Prop} (hC : Window T i P C)
    (hP : (bookkeeping T).Stable i P) {Q : Except VaultError Counts → Store K → Ledger ι → Prop}
    (hs : P s g)
    (hok : ∀ totals s g, P s g → (C s g → totals = storedTotals s.rows) → Q (.ok totals) s g)
    (herror : ∀ e s g, P s g → Q (.error e) s g) :
    Keeps T faults i Q storedVaultTotals s g := by
  have hsame : ∀ l : Site, l ≠ .recountRead → ∀ (s : Store K) (g : Ledger ι),
      (bookkeeping T).guar i (some l) s g s g := fun l hl s g => same (by simpa using hl)
  refine Safe.read_bind P hP hs (fun s g _ _ _ => hsame _ (by simp) s g) (fun s g _ hs => ?_)
    fun s g e _ hs => herror e s g hs
  have hst := hC.stable hP (fun rows => kindTotals .item s.rows = kindTotals .item rows)
    fun rows rows' hk h => h.trans (hk _).symm
  refine Safe.read_bind _ hst ⟨hs, fun _ => rfl⟩ (fun s g _ _ _ => hsame _ (by simp) s g)
    (fun s' g' _ hs' => ?_) fun s g e _ hs => herror e s g hs.1
  refine hok _ s' g' hs'.1 fun hc => ?_
  rw [hs'.2 hc]
  exact totalsOf_kindTotals s'.rows

omit [DecidableEq ι] in
/-- Nobody touches a row while a counter is missing. -/
theorem window_missing (hT : T.exactBytes) (P : Store K → Ledger ι → Prop) :
    Window T i P fun s _ => ∃ p, s.counter p = none := by
  intro j _ l s g s' g' hb _ hw ⟨p, hp⟩
  have hp' := hw.counters p hp
  refine ⟨⟨p, hp'⟩, ?_⟩
  rcases hw.totals hT with hh | hk
  · rw [hb.missing p hp' j] at hh
    cases hh
  · exact hk

omit [DecidableEq ι] in
/-- Writing every counter afresh keeps the books, when each keeps its number or, with nobody
owing anything, gets the stored total. -/
theorem Books.rewrite (hb : Books T s g) (hfirm : ¬ T.lossy) (hci : T.capped → T.installed)
    {u' : User}
    (hcounter : ∀ p, ∃ n, u'.counters p = some n ∧ (T.strict →
      s.counter p = some n ∨ n = storedTotals s.rows p ∧ ∀ j, g.owed j = 0)) :
    Books T { s with user := some u' } g where
  live := rfl
  exact := by
    intro hstrict p n htracks hn
    obtain ⟨n', hn', hcase⟩ := hcounter p
    obtain rfl : n' = n := some.inj (hn'.symm.trans hn)
    rcases hcase hstrict with hold | ⟨htotal, hzero⟩
    · exact hb.exact hstrict p n' htracks hold
    · rw [htotal, Finset.sum_eq_zero fun j _ => by rw [hzero j, Pi.zero_apply], hb.kept hfirm,
        Pi.zero_apply, add_zero, add_zero]
  lost := hb.lost
  kept := hb.kept
  missing := by
    intro p hp
    obtain ⟨n, hn, -⟩ := hcounter p
    exact nomatch hn.symm.trans hp
  nonneg := hb.nonneg
  idle := hb.idle
  passive := hb.passive
  installed := by
    intro _ p hp
    obtain ⟨n, hn, -⟩ := hcounter p
    exact nomatch hn.symm.trans hp
  capped := by
    intro hcapped hstrict p n hne hn
    obtain ⟨n', hn', hcase⟩ := hcounter p
    obtain rfl : n' = n := some.inj (hn'.symm.trans hn)
    rcases hcase hstrict with hold | ⟨htotal, hzero⟩
    · exact hb.capped hcapped hstrict p n' hne hold
    · obtain ⟨m, hm⟩ := ne_none_iff_exists'.1 (hb.installed (hci hcapped) p)
      have hle := hb.capped hcapped hstrict p m hne hm
      have hm' := hb.exact hstrict p m (fun h => (hne h).elim) hm
      rw [Finset.sum_eq_zero fun j _ => by rw [hzero j, Pi.zero_apply], hb.kept hfirm,
        Pi.zero_apply] at hm'
      omega
  dated := hb.dated
  stamped := hb.stamped

omit [Fintype ι] [DecidableEq ι] in
/-- The guarantee of an access that writes every counter afresh. -/
theorem Within.rewrite {u' : User} (hu : s.user = some u) (hcounter : ∀ p, u'.counters p ≠ none)
    (hepoch : u'.quotaEpoch = some (u.quotaEpoch.getD 0 + 1))
    (hl : l ≠ some .reserve ∧ l ≠ some .recountRead)
    (hinstall : T.exactBytes → l = some .installCounters →
      ∀ p, u'.counters p = some ((s.counter p).getD (storedTotals s.rows p)))
    (hrecount : T.exactBytes → l = some .recountWrite → g.calm i = true →
      ∀ p, u'.counters p = some (storedTotals s.rows p)) :
    Within T i l s g { s with user := some u' } g where
  owed _ _ := rfl
  holds _ _ := rfl
  calm _ _ := rfl
  calmed := id
  evolves := .of_rows_eq rfl rfl
  counters p hp := (hcounter p hp).elim
  totals _ := .inr fun _ => rfl
  epoch := by simp [Store.epoch, hu, hepoch]
  busy hh hh' := nomatch hh.symm.trans hh'
  reserve hl' := (hl.1 hl').elim
  install hT hl' := .inr ⟨rfl, hinstall hT hl'⟩
  recountRead hl' := (hl.2 hl').elim
  recountWrite hT hl' hc := .inr (hrecount hT hl' hc)

omit [DecidableEq ι] in
/-- **Installing** keeps the books. -/
theorem safe_installVaultCounters (hf : T.Admits faults) (hF : T.Steady F) (hT : T.exactBytes)
    (hfirm : ¬ T.lossy) (hci : T.capped → T.installed) (hs : Owing F i 0 s g)
    (hQ : ∀ r s g, Owing F i 0 s g → Q r s g) :
    Keeps T faults i Q installVaultCounters s g := by
  have hC := window_missing (i := i) hT (Owing F i 0)
  refine Safe.bind (safe_storedVaultTotals hC (hF.owing 0) hs (fun totals s g hs htotals => ?_)
    fun e s g hs => hQ _ s g hs)
  have hst := hC.stable (hF.owing 0) (fun rows => totals = storedTotals rows)
    fun rows rows' hk h => by
      rw [h, ← totalsOf_kindTotals rows', ← totalsOf_kindTotals rows, hk, hk]
  refine Safe.db_bind _ hst ⟨hs, htotals⟩ (fun s g hb hs _ => ?_) (fun s g e hb hs _ _ => ?_)
    fun s g e _ _ _ he => ((hf.firm hfirm).unapplied _ _ he).elim
  · rcases s.updateUser_cases (fun u => decide (∃ p, u.counters p = none)) (fun u =>
        { u with
          counters := keepCounters totals u.counters
          quotaRecountedAt := some s.clock
          vaultBytesWrittenAt := some s.clock
          quotaEpoch := some (u.quotaEpoch.getD 0 + 1) }) with ⟨heq, -⟩ | ⟨u, hu, -, heq⟩
    · rw [installStatement, heq]
      exact ⟨g, hb, same (by simp), hQ _ s g hs.1⟩
    · have hkeep : ∀ p, keepCounters totals u.counters p
          = some ((s.counter p).getD (storedTotals s.rows p)) := by
        intro p
        have hcounter : s.counter p = u.counters p := by simp [Store.counter, hu]
        rw [keepCounters, hcounter]
        cases hp : u.counters p with
        | some n => rfl
        | none => rw [hs.2 ⟨p, hcounter.trans hp⟩]
      rw [installStatement, heq]
      refine ⟨g, hb.rewrite hfirm hci fun p => ⟨_, hkeep p, fun _ => ?_⟩, rewrite hu
        (fun p hp => nomatch (hkeep p).symm.trans hp) rfl (by simp) (fun _ _ => hkeep) (by simp),
        hQ _ _ _ ⟨hF.user hs.1.1 _, hs.1.2⟩⟩
      cases hp : s.counter p with
      | some n => exact .inl rfl
      | none => exact .inr ⟨rfl, fun j => hb.idle j (hb.missing p hp j)⟩
  · exact ⟨g, hb, same (by simp), hQ _ s g hs.1⟩

/-- The counters a read finds are all there exactly when `installed?` says so. -/
theorem installed?_eq_none {counters : CounterPath → Option ℤ} (h : installed? counters = none) :
    ∃ p, counters p = none := by
  by_contra hall
  simp only [not_exists] at hall
  obtain ⟨b, hb⟩ := ne_none_iff_exists'.1 (hall .vaultBytes)
  obtain ⟨n, hn⟩ := ne_none_iff_exists'.1 (hall .items)
  obtain ⟨m, hm⟩ := ne_none_iff_exists'.1 (hall .folders)
  simp [installed?, hb, hn, hm] at h

/-- The statement of a reservation matches and is owed, or changes nothing. -/
theorem Books.reserveStatement_cases (hb : Books T s g) (hF : T.Steady F) (hi : ¬ T.passive i)
    (hs : Owing F i 0 s g) (want : Reservation) :
    HVault.reserveStatement T.quota want s = (false, s) ∨
      ∃ s' g', HVault.reserveStatement T.quota want s = (true, s') ∧ Books T s' g' ∧
        Within T i (some .reserve) s g s' g' ∧ Holding F i (fun p => want p) s' g' := by
  rcases s.updateUser_cases
      (fun u => decide (∀ p, counterRoom (want p) (ceiling T.quota p) (u.counters p)))
      (User.addCounts (fun p => want p) s.clock) with ⟨heq, -⟩ | ⟨u, hu, hroom, heq⟩
  · exact .inl heq
  · obtain ⟨hb', hw⟩ := hb.reserve hu hs.2 hi (of_decide_eq_true hroom) s.clock
    exact .inr ⟨_, _, heq, hb', hw, hF.user hs.1 _, owed_owe, holds_owe⟩

/-- **Reserving** either fails owing nothing or comes to owe what it reserved. -/
theorem safe_reserveVaultWrite (hf : T.Admits faults) (hF : T.Steady F)
    (hT : T.exactBytes ∧ ¬ T.lossy ∨ T.installed) (hci : T.capped → T.installed)
    (hi : ¬ T.passive i) {want : Reservation}
    {Q : Except VaultError Reservation → Store K → Ledger ι → Prop} (hs : Owing F i 0 s g)
    (hok : ∀ s g, Holding F i (fun p => want p) s g → Q (.ok want) s g)
    (herror : ∀ e s g, Owing F i 0 s g → Q (.error e) s g) :
    Keeps T faults i Q (reserveVaultWrite T.quota want) s g := by
  unfold reserveVaultWrite
  generalize reserveAttemptCount = n
  generalize (none : Option VaultError) = last
  induction n generalizing last s g with
  | zero => exact herror _ s g hs
  | succ n ih =>
    refine Safe.db_bind _ (hF.owing 0) hs (fun s g hb hs _ => ?_) (fun s g e hb hs _ _ => ?_)
      fun s g e hb hs _ he => ?_
    · rcases hb.reserveStatement_cases hF hi hs want with heq | ⟨s', g', heq, hb', hw, hs'⟩
      · rw [heq]
        refine ⟨g, hb, same (by simp), ?_⟩
        refine Safe.read_bind _ (hF.owing 0) hs (fun s g _ _ _ => same (by simp))
          (fun s g hb hs => ?_) fun s g e _ hs => herror e s g hs
        cases hu : s.user with
        | none => exact herror _ s g hs
        | some u =>
          simp only [map_some]
          cases hinst : installed? u.counters with
          | none =>
            -- a counter is missing: install it, and try again
            obtain ⟨hexact, hfirm⟩ := hT.resolve_right fun hinstalled => by
              obtain ⟨p, hp⟩ := installed?_eq_none hinst
              exact hb.installed hinstalled p (by simpa [Store.counter, hu] using hp)
            refine Safe.bind (safe_installVaultCounters hf hF hexact hfirm hci hs
              fun r s g hs => ?_)
            cases r with
            | ok _ => exact ih hs last
            | error e => exact herror e s g hs
          | some stored =>
            dsimp only
            cases hrefusal : refusalOf T.quota want stored with
            | some refusal => exact herror _ s g hs
            | none => exact ih hs _
      · rw [heq]
        exact ⟨g', hb', hw, hok s' g' hs'⟩
    · exact ⟨g, hb, same (by simp), herror e s g hs⟩
    · -- it may have reserved: what it took is given up
      have hlossy : T.lossy := by
        by_contra h
        exact (hf.firm h).unapplied _ _ he
      rcases hb.reserveStatement_cases hF hi hs want with heq | ⟨s', g', heq, hb', hw, hs'⟩
      · rw [heq]
        exact ⟨g, hb, same (by simp), herror e s g hs⟩
      · rw [heq]
        exact ⟨_, hb'.forgiveAll hlossy, hw.forgive 0, herror e _ _ ⟨hs'.1, owed_forgive⟩⟩

end Specs

end HVault
