import Mathlib.Algebra.BigOperators.Pi
import HVault.Interleave.Pool
import HVault.Vault.Pins
import HVault.Vault.Quota

/-!
# The books of an account

The accounting protocol of the quota code. Every request owes the account a correction: what
it has added to the counters less what it has added to the rows. `Books` is the invariant
that the counters are the stored totals plus what everybody owes, and `Within` is what one
access of a request may do: only a request that holds a reservation changes the totals, a
reservation moves the epoch, and a counter that is there is never taken away.

`Terms` says how much of that a group of runs keeps, so that one proof of the programs serves
runs with missing counters, runs with recounts, and runs that only count rows.
-/

namespace HVault

open Interleave Function Option Finset Finmap

variable {K : Type}

/-! ## Totals -/

/-- A counter of the account, when it is installed. -/
def Store.counter (s : Store K) (p : CounterPath) : Option ℤ := s.user.bind (·.counters p)

/-- The epoch every counted write moves; an absent one counts as zero. -/
def Store.epoch (s : Store K) : ℕ := (s.user.bind (·.quotaEpoch)).getD 0

theorem storedTotals_apply (rows : Table K) (p : CounterPath) :
    storedTotals rows p = rows.tally fun key row => rowWeight key row p :=
  map_tally rowWeight (Pi.evalAddMonoidHom (fun _ : CounterPath => ℤ) p) rows

theorem kindTotals_fst (kind : Kind) (rows : Table K) :
    (kindTotals kind rows).1
      = rows.tally fun key row => if key.kind = kind then (countedBytes kind row : ℤ) else 0 := by
  refine (map_tally _ (AddMonoidHom.fst ℤ ℤ) rows).trans ?_
  congr 1
  funext key row
  by_cases h : key.kind = kind <;> simp [h]

theorem kindTotals_snd (kind : Kind) (rows : Table K) :
    (kindTotals kind rows).2 = rows.tally fun key _ => if key.kind = kind then (1 : ℤ) else 0 := by
  refine (map_tally _ (AddMonoidHom.snd ℤ ℤ) rows).trans ?_
  congr 1
  funext key row
  by_cases h : key.kind = kind <;> simp [h]

/-- The two aggregates together are the stored totals. -/
theorem totalsOf_kindTotals (rows : Table K) :
    totalsOf (kindTotals .item rows) (kindTotals .folder rows) = storedTotals rows := by
  funext p
  rw [storedTotals_apply]
  cases p with
  | vaultBytes =>
    simp only [totalsOf, kindTotals_fst]
    rw [← tally_add]
    congr 1
    funext key row
    show (if key.kind = .item then (countedBytes .item row : ℤ) else 0) +
      (if key.kind = .folder then (countedBytes .folder row : ℤ) else 0) = countedBytes key.kind row
    cases key.kind with
    | item => rw [if_pos rfl, if_neg Kind.noConfusion, add_zero]
    | folder => rw [if_neg Kind.noConfusion, if_pos rfl, zero_add]
  | items | folders => exact kindTotals_snd _ _

variable {key : RowKey} {row : Row K}

/-- A rewrite of a row that keeps its counted size keeps both aggregates. -/
theorem kindTotals_replace {rows : Table K} {row' : Row K} (hrow : rows.lookup key = some row)
    (hsize : countedBytes key.kind row' = countedBytes key.kind row) (kind : Kind) :
    kindTotals kind (rows.insert key row') = kindTotals kind rows := by
  rw [kindTotals, tally_insert_of_lookup _ hrow]
  by_cases hk : key.kind = kind
  · subst hk
    simp [hsize, kindTotals]
  · simp [hk, kindTotals]

theorem storedTotals_replace {rows : Table K} {row' : Row K} (hrow : rows.lookup key = some row) :
    storedTotals (rows.insert key row')
      = storedTotals rows - rowWeight key row + rowWeight key row' :=
  tally_insert_of_lookup _ hrow

theorem storedTotals_insert {rows : Table K} (h : key ∉ rows) :
    storedTotals (rows.insert key row) = storedTotals rows + rowWeight key row :=
  tally_insert_of_notMem _ h

theorem storedTotals_erase {rows : Table K} (hrow : rows.lookup key = some row) :
    storedTotals (rows.erase key) = storedTotals rows - rowWeight key row :=
  tally_erase _ hrow

theorem rowWeight_nonneg (key : RowKey) (row : Row K) (p : CounterPath) :
    0 ≤ rowWeight key row p := by
  cases p with
  | vaultBytes => exact Int.natCast_nonneg _
  | items | folders => simp only [rowWeight]; split <;> decide

/-- Rewriting a row moves no row counter. -/
theorem rowWeight_of_ne (key : RowKey) (row row' : Row K) {p : CounterPath}
    (hp : p ≠ .vaultBytes) : rowWeight key row p = rowWeight key row' p := by
  cases p with
  | vaultBytes => exact (hp rfl).elim
  | items => rfl
  | folders => rfl

/-! ## The protocol -/

/-- What is known of the requests besides the code: `owed` is the correction each has yet to
make, `holds` that it may still write rows or settle, `calm` that it is a recount which read
the account while nobody held, and `lost` the corrections nobody will make any more, of
requests whose accesses failed with an unknown outcome. -/
structure Ledger (ι : Type) where
  owed : ι → Counts
  holds : ι → Bool
  calm : ι → Bool
  lost : Counts

/-- What a group of runs keeps. -/
structure Terms (ι : Type) where
  quota : ℤ
  /-- The byte counter is exact; without it only the row counters are. -/
  exactBytes : Prop
  /-- Recounts read only while nobody holds, so counters stay exact. -/
  strict : Prop
  /-- Accesses may fail with an unknown outcome, and settles may fail. -/
  lossy : Prop
  /-- The account starts with its counters. -/
  installed : Prop
  /-- The row counters start at or below their caps. -/
  capped : Prop
  /-- The rows that writes of placement fields alone may touch. -/
  placed : RowKey → Prop
  /-- The requests that never write a row. -/
  passive : ι → Prop

variable {ι : Type}

/-- The counters the terms keep exact. -/
def Terms.Tracks (T : Terms ι) (p : CounterPath) : Prop := p = .vaultBytes → T.exactBytes

/-- A write that does not bump `__v` changes nothing a measure has seen. -/
def Terms.Neutral (T : Terms ι) (key : RowKey) (row row' : Row K) : Prop :=
  T.exactBytes → row'.updatedAt.isSome = row.updatedAt.isSome ∧
    ∀ f ∈ countedFields key.kind, row'.fields f = row.fields f

section Protocol

variable [Fintype ι] (T : Terms ι)

/-- The invariant: counters are totals plus what is owed. -/
structure Books (s : Store K) (g : Ledger ι) : Prop where
  live : s.user.isSome
  exact : T.strict → ∀ p n, T.Tracks p → s.counter p = some n →
    n = storedTotals s.rows p + ∑ i, g.owed i p + g.lost p
  lost : ∀ p, T.Tracks p → 0 ≤ g.lost p
  kept : ¬ T.lossy → g.lost = 0
  /-- Nobody can have reserved while a counter is missing. -/
  missing : ∀ p, s.counter p = none → ∀ i, g.holds i = false
  nonneg : ∀ i p, T.Tracks p → 0 ≤ g.owed i p
  idle : ∀ i, g.holds i = false → g.owed i = 0
  passive : ∀ i, T.passive i → g.holds i = false
  installed : T.installed → ∀ p, s.counter p ≠ none
  capped : T.capped → T.strict → ∀ p n, p ≠ .vaultBytes → s.counter p = some n →
    n ≤ ceiling T.quota p
  dated : Dated s
  stamped : T.exactBytes → ∀ key row, T.placed key → s.rows.lookup key = some row →
    row.updatedAt.isSome

/-- What an access of `i` may do. -/
structure Within (i : ι) (l : Option Site) (s : Store K) (g : Ledger ι) (s' : Store K)
    (g' : Ledger ι) : Prop where
  owed : ∀ j, j ≠ i → g'.owed j = g.owed j
  holds : ∀ j, j ≠ i → g'.holds j = g.holds j
  calm : ∀ j, j ≠ i → g'.calm j = g.calm j
  calmed : g.calm i = true → g'.calm i = true
  evolves : Evolves T.Neutral s s'
  counters : ∀ p, s'.counter p = none → s.counter p = none
  /-- Only a request that holds changes the totals. -/
  totals : T.exactBytes →
    g.holds i = true ∨ ∀ kind, kindTotals kind s'.rows = kindTotals kind s.rows
  epoch : s.epoch ≤ s'.epoch
  /-- Only a moved epoch lets a request hold. -/
  busy : g.holds i = false → g'.holds i = true → s.epoch < s'.epoch
  reserve : l = some .reserve → ∀ p n, s'.counter p = some n →
    s.counter p = some n ∨ n ≤ ceiling T.quota p
  install : T.exactBytes → l = some .installCounters → s' = s ∨ s'.rows = s.rows ∧
    ∀ p, s'.counter p = some ((s.counter p).getD (storedTotals s'.rows p))
  recountRead : l = some .recountRead → (∀ j, g.holds j = false) → g'.calm i = true
  recountWrite : T.exactBytes → l = some .recountWrite → g.calm i = true →
    (∀ p, s'.counter p = s.counter p) ∨ ∀ p, s'.counter p = some (storedTotals s'.rows p)

/-- The accounting protocol. -/
def bookkeeping : Protocol ι (Store K) Site (Ledger ι) where
  inv := Books T
  guar := Within T

end Protocol

/-! ## Moving the ledger -/

/-- The ledger after `i` comes to owe `x`, holding or not. -/
def Ledger.owe [DecidableEq ι] (g : Ledger ι) (i : ι) (x : Counts) (h : Bool) : Ledger ι where
  owed := Function.update g.owed i x
  holds := Function.update g.holds i h
  calm := g.calm
  lost := g.lost

/-- The ledger after all but `x` of what `i` owes is given up. -/
def Ledger.forgive [DecidableEq ι] (g : Ledger ι) (i : ι) (x : Counts) : Ledger ι where
  owed := Function.update g.owed i x
  holds := g.holds
  calm := g.calm
  lost := g.lost + (g.owed i - x)

section Moves

variable {T : Terms ι} {s s' : Store K} {g g' : Ledger ι} {i j : ι} {x d e : Counts} {h : Bool}
  {l : Option Site}

/-- An access that changes nothing. -/
theorem Within.same (hl : l ≠ some .recountRead) : Within T i l s g s g where
  owed _ _ := rfl
  holds _ _ := rfl
  calm _ _ := rfl
  calmed := id
  evolves := .refl s
  counters _ := id
  totals _ := .inr fun _ => rfl
  epoch := le_rfl
  busy hi hh := by
    rw [hi] at hh
    cases hh
  reserve _ _ _ hn := .inl hn
  install _ _ := .inl rfl
  recountRead hl' := (hl hl').elim
  recountWrite _ _ _ := .inl fun _ => rfl

variable [DecidableEq ι]

@[simp] theorem owed_owe : (g.owe i x h).owed i = x := update_self ..

@[simp] theorem holds_owe : (g.owe i x h).holds i = h := update_self ..

theorem owed_owe_of_ne (hj : j ≠ i) : (g.owe i x h).owed j = g.owed j :=
  update_of_ne hj ..

theorem holds_owe_of_ne (hj : j ≠ i) : (g.owe i x h).holds j = g.holds j :=
  update_of_ne hj ..

/-- The guarantee of an access that moves the counters by `d`. -/
theorem Within.balance (hcounter : ∀ p, s'.counter p = (s.counter p).map (· + d p))
    (he : Evolves T.Neutral s s')
    (htotals : T.exactBytes →
      g.holds i = true ∨ ∀ kind, kindTotals kind s'.rows = kindTotals kind s.rows)
    (hepoch : s.epoch ≤ s'.epoch) (hbusy : g.holds i = false → h = true → s.epoch < s'.epoch)
    (hreserve : l = some .reserve → ∀ p n, s'.counter p = some n →
      s.counter p = some n ∨ n ≤ ceiling T.quota p)
    (hl : l ≠ some .installCounters ∧ l ≠ some .recountRead ∧ l ≠ some .recountWrite) :
    Within T i l s g s' (g.owe i x h) where
  owed j hj := owed_owe_of_ne hj
  holds j hj := holds_owe_of_ne hj
  calm _ _ := rfl
  calmed := id
  evolves := he
  counters p hp := by
    rwa [hcounter p, map_eq_none_iff] at hp
  totals := htotals
  epoch := hepoch
  busy hi hh := by
    rw [holds_owe] at hh
    exact hbusy hi hh
  reserve := hreserve
  install _ hl' := (hl.1 hl').elim
  recountRead hl' := (hl.2.1 hl').elim
  recountWrite _ hl' := (hl.2.2 hl').elim

theorem Within.forgive (hw : Within T i l s g s' g') (x : Counts) :
    Within T i l s g s' (g'.forgive i x) :=
  { hw with owed := fun j hj => (update_of_ne hj ..).trans (hw.owed j hj) }

variable [Fintype ι]

theorem sum_owed_owe (p : CounterPath) :
    ∑ j, (g.owe i x h).owed j p = ∑ j, g.owed j p + (x p - g.owed i p) := by
  rw [← add_sum_erase _ _ (mem_univ i),
    ← add_sum_erase univ (fun j => g.owed j p) (mem_univ i)]
  have hrest : ∑ j ∈ univ.erase i, (g.owe i x h).owed j p
      = ∑ j ∈ univ.erase i, g.owed j p := by
    refine sum_congr rfl fun j hj => ?_
    rw [owed_owe_of_ne (ne_of_mem_erase hj)]
  rw [hrest, owed_owe]
  abel

/-- **The books balance**: when counters move by `d`, totals by `e` and the debt of the
acting request by `d - e`. -/
theorem Books.balance (hb : Books T s g) (hlive : s'.user.isSome)
    (hcounter : ∀ p, s'.counter p = (s.counter p).map (· + d p))
    (htotals : ∀ p, T.Tracks p → storedTotals s'.rows p = storedTotals s.rows p + e p)
    (howed : ∀ p, T.Tracks p → x p = g.owed i p + d p - e p)
    (hnonneg : ∀ p, T.Tracks p → 0 ≤ x p) (hidle : h = false → x = 0)
    (hheld : h = true → ∀ p, s.counter p ≠ none) (hpassive : T.passive i → h = false)
    (hcap : ∀ p n, p ≠ .vaultBytes → s.counter p = some n → n ≤ ceiling T.quota p →
      n + d p ≤ ceiling T.quota p)
    (he : Evolves T.Neutral s s')
    (hstamped : T.exactBytes → ∀ key row, T.placed key → s'.rows.lookup key = some row →
      row.updatedAt.isSome) :
    Books T s' (g.owe i x h) where
  live := hlive
  exact := by
    intro hstrict p n' htracks hn'
    rw [hcounter p, map_eq_some_iff] at hn'
    obtain ⟨n, hn, rfl⟩ := hn'
    rw [hb.exact hstrict p n htracks hn, htotals p htracks, sum_owed_owe, howed p htracks,
      Ledger.owe]
    abel
  lost := hb.lost
  kept := hb.kept
  missing := by
    intro p hp j
    rw [hcounter p, map_eq_none_iff] at hp
    by_cases hj : j = i
    · subst hj
      rw [holds_owe]
      cases h with
      | false => rfl
      | true => exact (hheld rfl p hp).elim
    · rw [holds_owe_of_ne hj]
      exact hb.missing p hp j
  nonneg := by
    intro j p htracks
    by_cases hj : j = i
    · subst hj
      rw [owed_owe]
      exact hnonneg p htracks
    · rw [owed_owe_of_ne hj]
      exact hb.nonneg j p htracks
  idle := by
    intro j hj'
    by_cases hj : j = i
    · subst hj
      rw [holds_owe] at hj'
      rw [owed_owe, hidle hj']
    · rw [holds_owe_of_ne hj] at hj'
      rw [owed_owe_of_ne hj]
      exact hb.idle j hj'
  passive := by
    intro j hpj
    by_cases hj : j = i
    · subst hj
      rw [holds_owe]
      exact hpassive hpj
    · rw [holds_owe_of_ne hj]
      exact hb.passive j hpj
  installed := by
    intro hinst p hp
    rw [hcounter p, map_eq_none_iff] at hp
    exact hb.installed hinst p hp
  capped := by
    intro hcapped hstrict p n' hp hn'
    rw [hcounter p, map_eq_some_iff] at hn'
    obtain ⟨n, hn, rfl⟩ := hn'
    exact hcap p n hp hn (hb.capped hcapped hstrict p n hp hn)
  dated := hb.dated.evolves he
  stamped := hstamped

/-- In a run that tolerates losses a debt may be given up. -/
theorem Books.forgive (hb : Books T s g) (hlossy : T.lossy)
    (hx : ∀ p, T.Tracks p → 0 ≤ x p ∧ x p ≤ g.owed i p) (hidle : g.holds i = false → x = 0) :
    Books T s (g.forgive i x) where
  live := hb.live
  exact := by
    intro hstrict p n htracks hn
    have hsum : ∑ j, (g.forgive i x).owed j p = ∑ j, g.owed j p + (x p - g.owed i p) :=
      sum_owed_owe (h := false) p
    rw [hb.exact hstrict p n htracks hn, hsum]
    simp only [Ledger.forgive, Pi.add_apply, Pi.sub_apply]
    abel
  lost := by
    intro p htracks
    have hlost := hb.lost p htracks
    have hle := (hx p htracks).2
    simp only [Ledger.forgive, Pi.add_apply, Pi.sub_apply]
    omega
  kept := fun h => (h hlossy).elim
  missing := hb.missing
  nonneg := by
    intro j p htracks
    by_cases hj : j = i
    · subst hj
      simpa only [Ledger.forgive, update_self] using (hx p htracks).1
    · simpa only [Ledger.forgive, update_of_ne hj] using hb.nonneg j p htracks
  idle := by
    intro j hh
    by_cases hj : j = i
    · subst hj
      simpa only [Ledger.forgive, update_self] using hidle hh
    · simpa only [Ledger.forgive, update_of_ne hj] using hb.idle j hh
  passive := hb.passive
  installed := hb.installed
  capped := hb.capped
  dated := hb.dated
  stamped := hb.stamped

omit [Fintype ι] in
@[simp] theorem owed_forgive : (g.forgive i x).owed i = x := update_self ..

/-- Everything a request owes may be given up. -/
theorem Books.forgiveAll (hb : Books T s g) (hlossy : T.lossy) : Books T s (g.forgive i 0) :=
  hb.forgive hlossy (fun p hp => ⟨le_rfl, hb.nonneg i p hp⟩) fun _ => rfl

end Moves

/-! ## Assertions the other requests cannot break -/

/-- `F` speaks of the rows only as far as every access of the vault keeps it. -/
def Terms.Steady (T : Terms ι) (F : Store K → Prop) : Prop :=
  ∀ s s', Evolves T.Neutral s s' → F s → F s'

section Stability

variable [Fintype ι] {T : Terms ι} {i : ι} {F : Store K → Prop}

theorem stable_owed (x : Counts) :
    (bookkeeping (K := K) T).Stable i fun _ g => g.owed i = x :=
  fun _ hj _ _ _ _ _ _ hx hw _ => (hw.owed i hj.symm).trans hx

theorem stable_holds (h : Bool) :
    (bookkeeping (K := K) T).Stable i fun _ g => g.holds i = h :=
  fun _ hj _ _ _ _ _ _ hx hw _ => (hw.holds i hj.symm).trans hx

theorem stable_calm (b : Bool) :
    (bookkeeping (K := K) T).Stable i fun _ g => g.calm i = b :=
  fun _ hj _ _ _ _ _ _ hx hw _ => (hw.calm i hj.symm).trans hx

theorem Terms.Steady.stable (hF : T.Steady F) :
    (bookkeeping T).Stable i fun s _ => F s :=
  fun _ _ _ _ _ _ _ _ hf hw _ => hF _ _ hw.evolves hf

end Stability

end HVault
