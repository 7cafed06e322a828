import HVault.Breach.RangeLookup

/-!
# Breach-range lookups share work and not refusals

The invariant of the lookups of one prefix (`Inv`), one rule for each thing a lookup or a call does,
and from it what holds in every run: one lookup at a time, charged to the budget of the call that
created it and to no other; a budget refuses its own calls only; and what a call is answered was
cached or fetched. Every call settles: the calls that are under way go down in a measure with each
step, and while there is one some step can be taken.
-/

namespace HVault.Breach

open SingleFlight Interleave List Function Option State Phase Flight

variable {ι R E : Type}

/-- The budget has not been asked yet. -/
def Phase.unpaid : Phase R → Bool
  | .finding => true
  | .charging _ => true
  | _ => false

/-- The budget has let the fetch through. -/
def Phase.paid : Phase R → Bool
  | .fetching _ => true
  | .storing _ _ => true
  | .noting _ _ => true
  | _ => false

/-- The stored row a lookup read. -/
def Phase.doc : Phase R → Option (RangeDoc R)
  | .charging doc => doc
  | .fetching doc => doc
  | .storing doc _ => doc
  | .noting doc _ => doc
  | _ => none

/-- The range a lookup fetched. -/
def Phase.fetched : Phase R → Option R
  | .storing _ range => some range
  | .noting _ range => some range
  | _ => none

/-- What a lookup holds is known. -/
structure Phase.Within (known : List R) (phase : Phase R) : Prop where
  doc : ∀ doc, phase.doc = some doc → doc.range ∈ known
  fetched : ∀ range, phase.fetched = some range → range ∈ known

theorem Phase.within_done (known : List R) : done.Within known where
  doc doc h := by cases h
  fetched range h := by cases h

theorem Phase.within_finding (known : List R) : finding.Within known where
  doc doc h := by cases h
  fetched range h := by cases h

/-- The invariant; `loose` is a call that has been made and awaits nothing yet, `asked` a lookup
that has just charged its budget. -/
structure State.Inv (loose : Option ι) (asked : Option ℕ) (s : State ι R E) : Prop where
  sound : s.rangeInFlight.Sound
  running : ∀ t, (s.lookups t).phase ≠ .done ↔
    ∃ task, s.rangeInFlight.tasks t = some task ∧ task.outcome = none
  called : ∀ i, s.calls i = .called ↔ (s.rangeInFlight.waits i).isSome ∨ loose = some i
  loose_free : ∀ i, loose = some i → s.rangeInFlight.waits i = none
  -- where what is served comes from
  cache_known : ∀ entry, s.hibpCache = some entry → entry.data ∈ s.known
  doc_known : ∀ doc, s.rangeDoc = some doc → doc.range ∈ s.known
  phase_known : ∀ t, (s.lookups t).phase.Within s.known
  outcome_known : ∀ t task range, s.rangeInFlight.tasks t = some task →
    task.outcome = some (.range range) → range ∈ s.known
  answer_known : ∀ i range, s.calls i = .settled (.ok range) → range ∈ s.known
  -- who is charged
  charge_creator : ∀ t i r, (t, i, r) ∈ s.charges →
    ∃ task, s.rangeInFlight.tasks t = some task ∧ task.creator = i
  charge_once : (s.charges.map Prod.fst).Nodup
  unpaid : ∀ t, asked ≠ some t → (s.lookups t).phase.unpaid → t ∉ s.charges.map Prod.fst
  paid : ∀ t, (s.lookups t).phase.paid → ∃ i, (t, i, .ok ()) ∈ s.charges
  fetch_paid : ∀ t ∈ s.fetches, ∃ i, (t, i, .ok ()) ∈ s.charges
  -- who is refused
  refusal : ∀ t task, s.rangeInFlight.tasks t = some task → task.outcome = some .notFetched →
    ∃ err, (s.lookups t).refusal = some err ∧ (t, task.creator, .error err) ∈ s.charges
  rejected : ∀ i err, s.calls i = .settled (.error (.refusal err)) →
    ∃ t err', err = some err' ∧ (t, i, .error err') ∈ s.charges

namespace State.Inv

variable {s : State ι R E} {t : ℕ} {i : ι} {loose : Option ι} {asked : Option ℕ}

theorem init (clock : ℕ) (hibpCache : Option (CacheEntry R)) (rangeDoc : Option (RangeDoc R)) :
    (State.init clock hibpCache rangeDoc : State ι R E).Inv none none where
  sound := sound_empty
  running t := by simp [State.init, empty]
  called i := by simp [State.init, empty]
  loose_free i h := by cases h
  cache_known entry h := by
    have h : hibpCache = some entry := h
    simp [State.init, cached, h]
  doc_known doc h := by
    have h : rangeDoc = some doc := h
    simp [State.init, cached, h]
  phase_known t := within_done _
  outcome_known t task range h := by cases h
  answer_known i range h := by cases h
  charge_creator t i r h := by cases h
  charge_once := nodup_nil
  unpaid t _ h := by cases h
  paid t h := by cases h
  fetch_paid t h := by cases h
  refusal t task h := by cases h
  rejected i err h := by cases h

/-! ## What a lookup does -/

/-- The task of a lookup that has not settled. -/
theorem open_task (h : s.Inv loose asked) (ho : (s.lookups t).phase ≠ .done) :
    ∃ task, s.rangeInFlight.tasks t = some task ∧ task.outcome = none := (h.running t).1 ho

/-- A lookup awaits the next thing. -/
theorem await (h : s.Inv loose asked) (hasked : ∀ u, asked = some u → u = t)
    (ho : (s.lookups t).phase ≠ .done) {phase : Phase R}
    (hphase : phase ≠ .done) (hknown : phase.Within s.known)
    (hunpaid : phase.unpaid → t ∉ s.charges.map Prod.fst)
    (hpaid : phase.paid → ∃ i, (t, i, .ok ()) ∈ s.charges) : (s.await t phase).Inv loose none := by
  have hself : ((s.await t phase).lookups t).phase = phase := by simp [State.await]
  have hother : ∀ u, u ≠ t → (s.await t phase).lookups u = s.lookups u := fun u hu => by
    simp [State.await, hu]
  exact { h with
    running := fun u => by
      by_cases hu : u = t
      · subst hu
        simp only [hself]
        exact ⟨fun _ => h.open_task ho, fun _ => hphase⟩
      · rw [hother u hu]
        exact h.running u
    phase_known := fun u => by
      by_cases hu : u = t
      · subst hu
        rw [hself]
        exact hknown
      · rw [hother u hu]
        exact h.phase_known u
    unpaid := fun u _ => by
      by_cases hu : u = t
      · subst hu
        rw [hself]
        exact hunpaid
      · rw [hother u hu]
        exact h.unpaid u fun hu' => hu (hasked u hu')
    paid := fun u => by
      by_cases hu : u = t
      · subst hu
        rw [hself]
        exact hpaid
      · rw [hother u hu]
        exact h.paid u
    refusal := fun u task hu hout => by
      obtain ⟨err, hrefusal, hcharge⟩ := h.refusal u task hu hout
      refine ⟨err, ?_, hcharge⟩
      by_cases hut : u = t
      · subst hut
        simpa [State.await] using hrefusal
      · rw [hother u hut]
        exact hrefusal }

/-- A lookup settles, with a range that is known or with the refusal its creator had. -/
theorem settle (h : s.Inv loose asked) (hasked : ∀ u, asked = some u → u = t)
    (ho : (s.lookups t).phase ≠ .done) {outcome : Outcome R E}
    (hrange : ∀ range, outcome = .range range → range ∈ s.known)
    (hrefused : outcome = .notFetched → ∃ err, (s.lookups t).refusal = some err ∧
      ∀ task, s.rangeInFlight.tasks t = some task → (t, task.creator, .error err) ∈ s.charges) :
    (s.settle t outcome).Inv loose none := by
  obtain ⟨task, ht, hopen⟩ := h.open_task ho
  have hsettled : (s.settle t outcome).rangeInFlight.tasks t =
      some ⟨task.creator, [], some outcome⟩ := by simp [State.settle, Flight.settle, ht]
  have hother : ∀ u, u ≠ t → (s.settle t outcome).rangeInFlight.tasks u =
      s.rangeInFlight.tasks u := fun u hu => by simp [State.settle, Flight.settle, ht, hu]
  have hwaits : (s.settle t outcome).rangeInFlight.waits = s.rangeInFlight.waits := by
    simp [State.settle, Flight.settle, ht]
  have hphase : ((s.settle t outcome).lookups t).phase = .done := by
    simp [State.settle, State.await]
  have hlookups : ∀ u, u ≠ t → (s.settle t outcome).lookups u = s.lookups u := fun u hu => by
    simp [State.settle, State.await, hu]
  have hkept : ((s.settle t outcome).lookups t).refusal = (s.lookups t).refusal := by
    simp [State.settle, State.await]
  exact { h with
    sound := h.sound.settle ht hopen outcome
    running := fun u => by
      by_cases hu : u = t
      · subst hu
        simp [hphase, hsettled]
      · rw [hlookups u hu, hother u hu]
        exact h.running u
    called := fun i => by
      rw [hwaits]
      exact h.called i
    loose_free := fun i hi => by
      rw [hwaits]
      exact h.loose_free i hi
    phase_known := fun u => by
      by_cases hu : u = t
      · subst hu
        rw [hphase]
        exact within_done _
      · rw [hlookups u hu]
        exact h.phase_known u
    outcome_known := fun u task' range hu hout => by
      by_cases hut : u = t
      · subst hut
        cases hsettled.symm.trans hu
        exact hrange range (some.inj hout)
      · rw [hother u hut] at hu
        exact h.outcome_known u task' range hu hout
    charge_creator := fun u i r hcharge => by
      obtain ⟨task', hu, hcreator⟩ := h.charge_creator u i r hcharge
      by_cases hut : u = t
      · subst hut
        cases ht.symm.trans hu
        exact ⟨_, hsettled, hcreator⟩
      · exact ⟨task', by rwa [hother u hut], hcreator⟩
    unpaid := fun u _ => by
      by_cases hu : u = t
      · subst hu
        rw [hphase]
        intro h
        cases h
      · rw [hlookups u hu]
        exact h.unpaid u fun hu' => hu (hasked u hu')
    paid := fun u => by
      by_cases hu : u = t
      · subst hu
        rw [hphase]
        intro h
        cases h
      · rw [hlookups u hu]
        exact h.paid u
    refusal := fun u task' hu hout => by
      by_cases hut : u = t
      · subst hut
        cases hsettled.symm.trans hu
        obtain ⟨err, hrefusal, hcharge⟩ := hrefused (some.inj hout)
        exact ⟨err, hkept.trans hrefusal, hcharge task ht⟩
      · rw [hother u hut] at hu
        rw [hlookups u hut]
        exact h.refusal u task' hu hout }

/-- What is known grows. -/
theorem know (h : s.Inv loose asked) {known : List R} (hsub : ∀ range ∈ s.known, range ∈ known) :
    { s with known := known }.Inv loose asked :=
  { h with
    cache_known := fun entry he => hsub _ (h.cache_known entry he)
    doc_known := fun doc hd => hsub _ (h.doc_known doc hd)
    phase_known := fun t => ⟨fun doc hd => hsub _ ((h.phase_known t).doc doc hd),
      fun range hr => hsub _ ((h.phase_known t).fetched range hr)⟩
    outcome_known := fun t task range ht ho => hsub _ (h.outcome_known t task range ht ho)
    answer_known := fun i range hi => hsub _ (h.answer_known i range hi) }

variable {range : R}

theorem setHibpCacheEntry (h : s.Inv loose asked) (hrange : range ∈ s.known) (expires : ℕ) :
    (s.setHibpCacheEntry range expires).Inv loose asked :=
  { h with
    cache_known := fun entry he => by
      cases he
      exact hrange }

theorem setRangeDoc (h : s.Inv loose asked) {rangeDoc : Option (RangeDoc R)}
    (hdoc : ∀ doc, rangeDoc = some doc → doc.range ∈ s.known) :
    { s with rangeDoc := rangeDoc }.Inv loose asked :=
  { h with doc_known := hdoc }

/-- The refusal of a lookup that has not settled is nobody's yet. -/
theorem refuse (h : s.Inv loose asked) (err : E) (ho : (s.lookups t).phase ≠ .done) :
    (s.refuse t err).Inv loose asked := by
  have hphase : ∀ u, ((s.refuse t err).lookups u).phase = (s.lookups u).phase := by
    intro u
    by_cases hu : u = t
    · simp [State.refuse, hu]
    · simp [State.refuse, hu]
  exact { h with
    running := fun u => by
      rw [hphase]
      exact h.running u
    phase_known := fun u => by
      rw [hphase]
      exact h.phase_known u
    unpaid := fun u => by
      rw [hphase]
      exact h.unpaid u
    paid := fun u => by
      rw [hphase]
      exact h.paid u
    refusal := fun u task hu hout => by
      have hut : u ≠ t := by
        intro hut
        subst hut
        obtain ⟨task', hu', hopen⟩ := h.open_task ho
        cases hu.symm.trans hu'
        simp [hopen] at hout
      obtain ⟨err', hrefusal, hcharge⟩ := h.refusal u task hu hout
      exact ⟨err', by simpa [State.refuse, hut] using hrefusal, hcharge⟩ }

variable {doc : Option (RangeDoc R)}

theorem serveStale (h : s.Inv loose none) (ho : (s.lookups t).phase ≠ .done)
    (hdoc : ∀ d, doc = some d → d.range ∈ s.known) (err : E) :
    (s.serveStale t doc err).Inv loose none := by
  cases doc with
  | some doc =>
    refine h.settle nofun ho (fun range hr => ?_) nofun
    cases hr
    exact hdoc doc rfl
  | none => exact h.settle nofun ho nofun nofun

theorem found (h : s.Inv loose none) (ttlDays : ℕ) (hphase : (s.lookups t).phase = .finding)
    (failure : Option E) : (s.found ttlDays t failure).Inv loose none := by
  have ho : (s.lookups t).phase ≠ .done := by simp [hphase]
  cases failure with
  | some err => exact h.settle nofun ho nofun nofun
  | none =>
    unfold State.found
    dsimp only
    split
    · rename_i doc hdoc
      have hknown : doc.range ∈ s.known := h.doc_known doc (filter_eq_some_iff.1 hdoc).1
      refine (h.setHibpCacheEntry hknown _).settle nofun ho (fun range hr => ?_) nofun
      cases hr
      exact hknown
    · refine h.await nofun ho nofun ⟨h.doc_known, nofun⟩ (fun _ => ?_)
        nofun
      exact h.unpaid t nofun (by simp [hphase, Phase.unpaid])

variable {task : Task ι (Outcome R E)}

/-- The budget of the call that created a lookup is asked, for the first time. -/
theorem charge (h : s.Inv loose none) (hunpaid : (s.lookups t).phase.unpaid)
    (ht : s.rangeInFlight.tasks t = some task) (outcome : Except E Unit) :
    { s with charges := (t, task.creator, outcome) :: s.charges }.Inv loose (some t) :=
  { h with
    charge_creator := fun u i r hmem => by
      rcases mem_cons.1 hmem with hmem | hmem
      · cases hmem
        exact ⟨task, ht, rfl⟩
      · exact h.charge_creator u i r hmem
    charge_once := nodup_cons.2 ⟨h.unpaid t nofun hunpaid, h.charge_once⟩
    unpaid := fun u hu hphase hmem => by
      rcases mem_cons.1 hmem with hmem | hmem
      · exact hu (congrArg some hmem.symm)
      · exact h.unpaid u nofun hphase hmem
    paid := fun u hu => (h.paid u hu).imp fun _ hmem => mem_cons_of_mem _ hmem
    fetch_paid := fun u hu => (h.fetch_paid u hu).imp fun _ hmem => mem_cons_of_mem _ hmem
    refusal := fun u task hu hout => (h.refusal u task hu hout).imp fun _ hr =>
      ⟨hr.1, mem_cons_of_mem _ hr.2⟩
    rejected := fun i err hi => by
      obtain ⟨u, err', herr, hmem⟩ := h.rejected i err hi
      exact ⟨u, err', herr, mem_cons_of_mem _ hmem⟩ }

theorem charged (h : s.Inv loose none) (hphase : (s.lookups t).phase = .charging doc)
    (ht : s.rangeInFlight.tasks t = some task) (outcome : Except E Unit) :
    (s.charged t task.creator doc outcome).Inv loose none := by
  have hcharge := h.charge (by simp [hphase, Phase.unpaid]) ht outcome
  have hdoc : ∀ d, doc = some d → d.range ∈ s.known := by
    have := (h.phase_known t).doc
    rwa [hphase] at this
  cases outcome with
  | ok _ =>
    refine hcharge.await (fun u hu => (some.inj hu).symm) (by simp [hphase])
      nofun ⟨hdoc, nofun⟩ nofun fun _ => ?_
    exact ⟨task.creator, mem_cons_self⟩
  | error err =>
    cases doc with
    | some doc =>
      refine hcharge.settle (fun u hu => (some.inj hu).symm) (by simp [hphase])
        (fun range hr => ?_) nofun
      cases hr
      exact hdoc doc rfl
    | none =>
      refine (hcharge.refuse err (by simp [hphase])).settle (fun u hu => (some.inj hu).symm)
        ?_ nofun fun _ => ⟨err, ?_, fun task' ht' => ?_⟩
      · simp [State.refuse, hphase]
      · simp [State.refuse]
      · cases ht.symm.trans ht'
        exact mem_cons_self

theorem fetched (h : s.Inv loose none) (hphase : (s.lookups t).phase = .fetching doc)
    (outcome : Except E R) :
    (s.fetched t doc outcome).Inv loose none := by
  have hdoc : ∀ d, doc = some d → d.range ∈ s.known := by
    have := (h.phase_known t).doc
    rwa [hphase] at this
  have hpaid : ∃ i, (t, i, .ok ()) ∈ s.charges := h.paid t (by simp [hphase, Phase.paid])
  have hlogged : { s with fetches := t :: s.fetches }.Inv loose none :=
    { h with
      fetch_paid := fun u hu => by
        rcases mem_cons.1 hu with hu | hu
        · rwa [hu]
        · exact h.fetch_paid u hu }
  cases outcome with
  | ok range =>
    have hknown := hlogged.know fun r hr => mem_cons_of_mem range hr
    refine hknown.await nofun (by simp [hphase]) nofun
      ⟨fun d hd => mem_cons_of_mem _ (hdoc d hd), fun r hr => ?_⟩ nofun
      fun _ => hpaid
    cases hr
    exact mem_cons_self
  | error err => exact hlogged.serveStale (by simp [hphase]) hdoc err

theorem storeFetchedRange (h : s.Inv loose none) (hrange : range ∈ s.known) (doc : RangeDoc R)
    (hdoc : (s.storeFetchedRange range).1 = some doc) : doc.range ∈ s.known := by
  unfold State.storeFetchedRange at hdoc
  split at hdoc
  · rename_i hold
    split at hdoc
    · cases hdoc
      exact h.doc_known doc hold
    · cases hdoc
      exact hrange
  · cases hdoc
    exact hrange

theorem stored (h : s.Inv loose none) (hphase : (s.lookups t).phase = .storing doc range)
    (outcome : StoreOutcome E) :
    (s.stored t doc range outcome).Inv loose none := by
  have hwithin := h.phase_known t
  rw [hphase] at hwithin
  have hrange : range ∈ s.known := hwithin.fetched range rfl
  have hpaid : ∃ i, (t, i, .ok ()) ∈ s.charges := h.paid t (by simp [hphase, Phase.paid])
  have hserve : ∀ r, (Outcome.range range : Outcome R E) = .range r → r ∈ s.known := by
    intro r hr
    cases hr
    exact hrange
  unfold State.stored
  cases outcome with
  | written =>
    dsimp only
    have hwritten := (h.setRangeDoc (h.storeFetchedRange hrange)).setHibpCacheEntry hrange
      (s.clock + hibpCacheTtlMs)
    split
    · exact hwritten.await nofun (by simp [hphase, State.setHibpCacheEntry])
        nofun ⟨hwithin.doc, hwithin.fetched⟩ nofun fun _ => hpaid
    · exact hwritten.settle nofun (by simp [hphase, State.setHibpCacheEntry])
        hserve nofun
  | taken =>
    exact (h.setHibpCacheEntry hrange _).settle nofun
      (by simp [hphase, State.setHibpCacheEntry]) hserve nofun
  | failed err applied =>
    have hrow : ∀ d, (if applied then (s.storeFetchedRange range).1 else s.rangeDoc) = some d →
        d.range ∈ s.known := by
      intro d hd
      split at hd
      · exact h.storeFetchedRange hrange d hd
      · exact h.doc_known d hd
    exact (h.setRangeDoc hrow).serveStale (by simp [hphase]) (fun d hd => hwithin.doc d hd) err

theorem noted (h : s.Inv loose none) (hphase : (s.lookups t).phase = .noting doc range)
    (failure : Option E) :
    (s.noted t doc range failure).Inv loose none := by
  have hwithin := h.phase_known t
  rw [hphase] at hwithin
  cases failure with
  | some err => exact h.serveStale (by simp [hphase]) hwithin.doc err
  | none =>
    refine h.settle nofun (by simp [hphase]) (fun r hr => ?_) nofun
    cases hr
    exact hwithin.fetched range rfl

/-! ## What a call does -/

variable [DecidableEq ι]

/-- A call that awaits nothing settles. -/
theorem answer (h : s.Inv (some i) none) {result : Except (Rejection E) R}
    (hrange : ∀ range, result = .ok range → range ∈ s.known)
    (hrefused : ∀ err, result = .error (.refusal err) →
      ∃ t err', err = some err' ∧ (t, i, .error err') ∈ s.charges) :
    (s.answer i result).Inv none none := by
  have hself : (s.answer i result).calls i = .settled result := by simp [State.answer]
  have hother : ∀ j, j ≠ i → (s.answer i result).calls j = s.calls j := fun j hj => by
    simp [State.answer, hj]
  exact { h with
    called := fun j => by
      by_cases hj : j = i
      · subst hj
        have hfree : (s.answer j result).rangeInFlight.waits j = none := h.loose_free j rfl
        simp [hself, hfree]
      · rw [hother j hj, h.called j]
        simp [State.answer, Ne.symm hj]
    loose_free := nofun
    answer_known := fun j range hj => by
      by_cases hji : j = i
      · subst hji
        rw [hself] at hj
        cases hj
        exact hrange range rfl
      · rw [hother j hji] at hj
        exact h.answer_known j range hj
    rejected := fun j err hj => by
      by_cases hji : j = i
      · subst hji
        rw [hself] at hj
        cases hj
        exact hrefused err rfl
      · rw [hother j hji] at hj
        exact h.rejected j err hj }

/-- A call joins the lookup in flight. -/
theorem join (h : s.Inv (some i) none) (hc : s.rangeInFlight.current = some t) :
    { s with rangeInFlight := s.rangeInFlight.join i t }.Inv none none := by
  have hfree : s.rangeInFlight.waits i = none := h.loose_free i rfl
  obtain ⟨task, ht, -⟩ := h.sound.creator_waits t hc
  -- the tasks are the ones there were, but for who awaits them
  have hview := tasks_join (f := s.rangeInFlight) (i := i) (t := t)
  have hold : ∀ u task', (s.rangeInFlight.join i t).tasks u = some task' →
      ∃ task, s.rangeInFlight.tasks u = some task ∧ task.creator = task'.creator ∧
        task.outcome = task'.outcome := by
    intro u task' hu
    have := hview u
    rw [hu, map_some] at this
    obtain ⟨task, hu', heq⟩ := map_eq_some_iff.1 this.symm
    simp only [Prod.mk.injEq] at heq
    exact ⟨task, hu', heq⟩
  have hnew : ∀ u task, s.rangeInFlight.tasks u = some task →
      ∃ task', (s.rangeInFlight.join i t).tasks u = some task' ∧ task'.creator = task.creator ∧
        task'.outcome = task.outcome := by
    intro u task hu
    have := hview u
    rw [hu, map_some] at this
    obtain ⟨task', hu', heq⟩ := map_eq_some_iff.1 this
    simp only [Prod.mk.injEq] at heq
    exact ⟨task', hu', heq⟩
  exact { h with
    sound := h.sound.join hfree hc
    running := fun u => by
      rw [h.running u]
      constructor
      · rintro ⟨task, hu, ho⟩
        obtain ⟨task', hu', -, ho'⟩ := hnew u task hu
        exact ⟨task', hu', ho'.trans ho⟩
      · rintro ⟨task', hu', ho'⟩
        obtain ⟨task, hu, -, ho⟩ := hold u task' hu'
        exact ⟨task, hu, ho.trans ho'⟩
    called := fun j => by
      rw [h.called j, waits_join ht]
      by_cases hj : j = i
      · simp [hj]
      · simp [hj, Ne.symm hj]
    loose_free := nofun
    outcome_known := fun u task' range hu hout => by
      obtain ⟨task, hu', -, ho⟩ := hold u task' hu
      exact h.outcome_known u task range hu' (ho.trans hout)
    charge_creator := fun u j r hmem => by
      obtain ⟨task, hu, hcreator⟩ := h.charge_creator u j r hmem
      obtain ⟨task', hu', hcreator', -⟩ := hnew u task hu
      exact ⟨task', hu', hcreator'.trans hcreator⟩
    refusal := fun u task' hu hout => by
      obtain ⟨task, hu', hcreator, ho⟩ := hold u task' hu
      rw [← hcreator]
      exact h.refusal u task hu' (ho.trans hout) }

/-- A call creates a lookup. -/
theorem start (h : s.Inv (some i) none) (hc : s.rangeInFlight.current = none) (now : ℕ) :
    { s with
      rangeInFlight := s.rangeInFlight.start i
      lookups := Function.update s.lookups s.rangeInFlight.minted ⟨now, .finding, none⟩ }.Inv
        none none := by
  have hfree : s.rangeInFlight.waits i = none := h.loose_free i rfl
  have hold : ∀ u task, s.rangeInFlight.tasks u = some task → u ≠ s.rangeInFlight.minted :=
    fun u task hu => Nat.ne_of_lt (h.sound.lt_minted hu)
  have htasks : ∀ u task, (s.rangeInFlight.start i).tasks u = some task →
      u = s.rangeInFlight.minted ∧ task = ⟨i, [i], none⟩ ∨
        u ≠ s.rangeInFlight.minted ∧ s.rangeInFlight.tasks u = some task := by
    intro u task hu
    by_cases hum : u = s.rangeInFlight.minted
    · subst hum
      simp only [Flight.start, update_self, some.injEq] at hu
      exact .inl ⟨rfl, hu.symm⟩
    · simp only [Flight.start, update_of_ne hum] at hu
      exact .inr ⟨hum, hu⟩
  exact { h with
    sound := h.sound.start hfree hc
    running := fun u => by
      by_cases hum : u = s.rangeInFlight.minted
      · subst hum
        simp [Flight.start]
      · simp only [update_of_ne hum, Flight.start]
        exact h.running u
    called := fun j => by
      rw [h.called j, waits_start]
      by_cases hj : j = i
      · simp [hj]
      · simp [hj, Ne.symm hj]
    loose_free := fun j hj => by simp at hj
    phase_known := fun u => by
      by_cases hum : u = s.rangeInFlight.minted
      · subst hum
        simp only [update_self]
        exact within_finding _
      · simp only [update_of_ne hum]
        exact h.phase_known u
    outcome_known := fun u task range hu hout => by
      rcases htasks u task hu with ⟨-, rfl⟩ | ⟨-, hu⟩
      · cases hout
      · exact h.outcome_known u task range hu hout
    charge_creator := fun u j r hmem => by
      obtain ⟨task, hu, hcreator⟩ := h.charge_creator u j r hmem
      exact ⟨task, by simpa [Flight.start, hold u task hu] using hu, hcreator⟩
    unpaid := fun u hasked => by
      by_cases hum : u = s.rangeInFlight.minted
      · -- nothing is charged for a lookup before it is there
        intro _ hmem
        obtain ⟨⟨_, j, r⟩, hcharge, rfl⟩ := mem_map.1 hmem
        obtain ⟨task, hu, -⟩ := h.charge_creator _ j r hcharge
        exact hold _ task hu hum
      · simp only [update_of_ne hum]
        exact h.unpaid u hasked
    paid := fun u => by
      by_cases hum : u = s.rangeInFlight.minted
      · subst hum
        simp only [update_self]
        intro hp
        cases hp
      · simp only [update_of_ne hum]
        exact h.paid u
    refusal := fun u task hu hout => by
      rcases htasks u task hu with ⟨-, rfl⟩ | ⟨hum, hu⟩
      · cases hout
      · simp only [update_of_ne hum]
        exact h.refusal u task hu hout }

theorem getRange (h : s.Inv (some i) none) : (s.getRange i).Inv none none := by
  unfold State.getRange
  split
  · rename_i l1 hl1
    refine h.answer (fun range hr => ?_) nofun
    cases hr
    exact h.cache_known l1 (filter_eq_some_iff.1 hl1).1
  · split
    · rename_i pending hpending
      exact h.join hpending
    · rename_i hfree
      exact h.start hfree s.clock

/-- A ready call goes on, and awaits nothing. -/
theorem left (h : s.Inv none none) {rest : List ι} (hready : s.rangeInFlight.ready = i :: rest)
    (hi : s.rangeInFlight.waits i = some t) (ht : s.rangeInFlight.tasks t = some task) :
    { s with rangeInFlight := s.rangeInFlight.leave i (decide (task.creator = i)) }.Inv
      (some i) none := by
  have hcalled : s.calls i = .called := by
    rw [h.called i, hi]
    exact .inl rfl
  exact { h with
    sound := h.sound.leave hready hi ht
    called := fun j => by
      by_cases hj : j = i
      · simp [hj, hcalled]
      · simpa [hj, Ne.symm hj] using h.called j
    loose_free := fun j hj => by
      cases hj
      simp }

theorem goOn (h : s.Inv none none) {rest : List ι} (hready : s.rangeInFlight.ready = i :: rest)
    (hi : s.rangeInFlight.waits i = some t) (ht : s.rangeInFlight.tasks t = some task)
    {outcome : Outcome R E} (ho : task.outcome = some outcome) :
    (s.goOn i task.creator (s.lookups t).refusal outcome).Inv none none := by
  have hleft := h.left hready hi ht
  unfold State.goOn
  cases outcome with
  | range range =>
    refine hleft.answer (fun r hr => ?_) nofun
    cases hr
    exact h.outcome_known t task range ht ho
  | failed err => exact hleft.answer nofun nofun
  | notFetched =>
    dsimp only
    split
    · rename_i hcreator
      refine hleft.answer nofun fun err hr => ?_
      cases hr
      obtain ⟨err, hrefusal, hcharge⟩ := h.refusal t task ht ho
      rw [hcreator] at hcharge
      exact ⟨t, err, hrefusal, hcharge⟩
    · exact hleft.getRange

/-- A call is made. -/
theorem call (h : s.Inv none none) (hidle : s.calls i = .idle) :
    { s with calls := Function.update s.calls i .called }.Inv (some i) none := by
  have hfree : s.rangeInFlight.waits i = none := by
    have := h.called i
    simpa [hidle] using this
  exact { h with
    called := fun j => by
      by_cases hj : j = i
      · simp [hj]
      · simpa [hj, Ne.symm hj] using h.called j
    loose_free := fun j hj => by
      cases hj
      exact hfree
    answer_known := fun j range hj => by
      by_cases hji : j = i
      · simp [hji] at hj
      · exact h.answer_known j range (by simpa [hji] using hj)
    rejected := fun j err hj => by
      by_cases hji : j = i
      · simp [hji] at hj
      · exact h.rejected j err (by simpa [hji] using hj) }

/-- What a call going on is: the first of the ready ones, with the outcome of what it awaited. -/
theorem resume_cases {ttlDays : ℕ} {s' : State ι R E} (hstep : s.step ttlDays .resume = some s') :
    ∃ i rest t task outcome, s.rangeInFlight.ready = i :: rest ∧
      s.rangeInFlight.waits i = some t ∧ s.rangeInFlight.tasks t = some task ∧
      task.outcome = some outcome ∧
      s' = s.goOn i task.creator (s.lookups t).refusal outcome := by
  simp only [step] at hstep
  split at hstep
  · cases hstep
  · rename_i i rest hready
    split at hstep
    · rename_i t creator waiting outcome hfound
      cases hstep
      obtain ⟨u, hi, hu⟩ := bind_eq_some_iff.1 hfound
      obtain ⟨task, ht, htask⟩ := map_eq_some_iff.1 hu
      cases htask
      exact ⟨i, rest, _, _, outcome, hready, hi, ht, rfl, rfl⟩
    · cases hstep

/-- **Every step keeps the invariant.** -/
theorem step {ttlDays : ℕ} {e : Event ι R E} {s' : State ι R E} (h : s.Inv none none)
    (hstep : s.step ttlDays e = some s') : s'.Inv none none := by
  cases e with
  | call i =>
    simp only [State.step] at hstep
    split at hstep
    · rename_i hidle
      cases hstep
      exact (h.call hidle).getRange
    · cases hstep
  | found t failure =>
    simp only [State.step] at hstep
    split at hstep
    · rename_i hphase
      cases hstep
      exact h.found ttlDays hphase failure
    · cases hstep
  | charged t outcome =>
    simp only [State.step] at hstep
    split at hstep
    · rename_i hphase ht
      cases hstep
      exact h.charged hphase ht outcome
    · cases hstep
  | fetched t outcome =>
    simp only [State.step] at hstep
    split at hstep
    · rename_i hphase
      cases hstep
      exact h.fetched hphase outcome
    · cases hstep
  | stored t outcome =>
    simp only [State.step] at hstep
    split at hstep
    · rename_i hphase
      cases hstep
      exact h.stored hphase outcome
    · cases hstep
  | noted t failure =>
    simp only [State.step] at hstep
    split at hstep
    · rename_i hphase
      cases hstep
      exact h.noted hphase failure
    · cases hstep
  | resume =>
    obtain ⟨i, rest, t, task, outcome, hready, hi, ht, ho, rfl⟩ := resume_cases hstep
    exact h.goOn hready hi ht ho
  | tick =>
    cases hstep
    exact { h with }
  | evict =>
    cases hstep
    exact { h with cache_known := fun entry he => nomatch he }
  | rewrite doc =>
    cases hstep
    have hknown := h.know fun r hr => mem_append_right (doc.map (·.range)).toList hr
    apply hknown.setRangeDoc
    intro d hd
    simp [hd]

end State.Inv

end HVault.Breach
