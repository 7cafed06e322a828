import HVault.Interleave.Phases

/-!
# Runs with a record of their accesses

`Traced` is a run together with the list of the accesses made so far, oldest first. What a program
has read is then a fact of the past of the run, and a condition on a schedule is one on the list.

Two rules use the record. A program may heed its own accesses (`Prog.Heeds`): what it does next is
judged by what it has found before. And in a protocol whose ghost is the record (`recording`) a
program may count what the others have done since it looked.
-/

namespace Interleave

open Function List Config

variable {ι σ ℓ ε α β : Type}

/-- One access of a run: who made it, where, the store it found and the store it left. -/
structure Move (ι ℓ σ : Type) where
  agent : ι
  site : ℓ
  before : σ
  after : σ

/-- The accesses of `i`, each with the store it found and the store it left. -/
def accessesOf [DecidableEq ι] (i : ι) (ms : List (Move ι ℓ σ)) : List (ℓ × σ × σ) :=
  (ms.filter (·.agent = i)).map fun m => (m.site, m.before, m.after)

theorem accessesOf_subset [DecidableEq ι] (i : ι) (ms more : List (Move ι ℓ σ)) :
    accessesOf i ms ⊆ accessesOf i (ms ++ more) := by
  rw [accessesOf, accessesOf, filter_append, map_append]
  exact subset_append_left _ _

/-! ## One program and its own accesses -/

section Heeds

variable (faults : ℓ → ε → Bool → Prop) (T : List (ℓ × σ × σ) → ℓ → σ → σ → Prop)

/-- The accesses made so far, and one more that `T` allows after them. -/
def Recorded (ws : List (ℓ × σ × σ)) (l : ℓ) (s : σ) (ws' : List (ℓ × σ × σ)) (s' : σ) : Prop :=
  ws' = ws ++ [(l, s, s')] ∧ T ws l s s'

/-- After the accesses `ws`, every access of the program is one that `T` allows after all those
before it. The program ends with `Q`. -/
abbrev Prog.Heeds (Q : Except ε α → List (ℓ × σ × σ) → Prop) (p : Prog σ ℓ ε α)
    (ws : List (ℓ × σ × σ)) : Prop :=
  p.Obeys faults (Recorded T) Q ws

variable {faults T} {Q : Except ε α → List (ℓ × σ × σ) → Prop} {p : Prog σ ℓ ε α}
  {ws : List (ℓ × σ × σ)}

namespace Prog

/-- A read, then the rest, which knows what store was read. A failure ends the program. -/
theorem heeds_read_bind {l : ℓ} {f : σ → β} {h : β → Prog σ ℓ ε α} (hT : ∀ s, T ws l s s)
    (hh : ∀ s, (h (f s)).Heeds faults T Q (ws ++ [(l, s, s)]))
    (he : ∀ e s, Q (.error e) (ws ++ [(l, s, s)])) :
    ((read l f).bind h).Heeds faults T Q ws := by
  intro s r s' ho
  have hs' : s' = s := ho.store_eq.elim id id
  subst hs'
  refine ⟨_, ⟨rfl, hT s'⟩, ?_⟩
  cases ho with
  | applied => exact hh s'
  | refused _ | lost _ => exact he _ s'

/-- A part whose accesses all obey a law that `T` allows after anything that begins with `ws`. -/
theorem Each.heeds {L : ℓ → σ → σ → Prop} (hp : p.Each (fun _ => True) L)
    (hL : ∀ more l s s₁ s', L l s s₁ → s' = s ∨ s' = s₁ → T (ws ++ more) l s s') :
    p.Heeds faults T (fun _ ws' => ∃ more, ws' = ws ++ more) ws := by
  suffices hmore : ∀ more, p.Heeds faults T (fun _ ws' => ∃ more, ws' = ws ++ more)
      (ws ++ more) by
    simpa using hmore []
  induction p with
  | ret a | raise e => exact fun more => ⟨more, rfl⟩
  | access l f k ih =>
    intro more s r s' ho
    refine ⟨_, ⟨rfl, hL more l s _ s' (hp.1 s trivial) ho.store_eq⟩, ?_⟩
    rw [append_assoc]
    exact ih r (hp.2 r) _

/-- In a run of the program among others, every access is allowed after those before it. -/
theorem Obeys.own (h : p.Heeds faults T Q ws) {made : List (ℓ × σ × σ)} {r : Except ε α}
    (hrun : Own faults p made r) {earlier later : List (ℓ × σ × σ)} {w : ℓ × σ × σ}
    (hmade : made = earlier ++ w :: later) : T (ws ++ earlier) w.1 w.2.1 w.2.2 := by
  induction hrun generalizing ws earlier with
  | ret a | raise e => simp at hmade
  | access ho hk ih =>
    obtain ⟨ws', ⟨rfl, hT⟩, hrest⟩ := h _ _ _ ho
    cases earlier with
    | nil =>
      rw [nil_append, cons.injEq] at hmade
      rw [append_nil, ← hmade.1]
      exact hT
    | cons first earlier =>
      rw [cons_append, cons.injEq] at hmade
      have hnext := ih hrest hmade.2
      rwa [append_assoc, singleton_append, hmade.1] at hnext

end Prog

end Heeds

/-! ## Runs -/

section Runs

variable [DecidableEq ι] (S : System ι σ ℓ ε α)

/-- A run from `c₀` with the accesses it has made. -/
inductive Traced (c₀ : Config ι σ ℓ ε α) : List (Move ι ℓ σ) → Config ι σ ℓ ε α → Prop
  | refl : Traced c₀ [] c₀
  | arrive {ms : List (Move ι ℓ σ)} {c c' : Config ι σ ℓ ε α} (h : Traced c₀ ms c)
      (hs : CStep S c none c') : Traced c₀ ms c'
  | run {ms : List (Move ι ℓ σ)} {c c' : Config ι σ ℓ ε α} {i : ι} {l : ℓ} (h : Traced c₀ ms c)
      (hs : CStep S c (some (i, l)) c') : Traced c₀ (ms ++ [⟨i, l, c.store, c'.store⟩]) c'

variable {S} {c₀ c : Config ι σ ℓ ε α} {ms : List (Move ι ℓ σ)}

/-- Every run has a record. -/
theorem Reaches.traced {ok : Config ι σ ℓ ε α → ι → ℓ → Prop} (h : Reaches S ok c₀ c) :
    ∃ ms, Traced S c₀ ms c := by
  induction h with
  | refl => exact ⟨[], .refl⟩
  | arrive _ hs ih =>
    obtain ⟨ms, htraced⟩ := ih
    exact ⟨ms, .arrive htraced hs⟩
  | run _ _ hs ih =>
    obtain ⟨ms, htraced⟩ := ih
    exact ⟨_, .run htraced hs⟩

/-- A run of arrivals only. -/
theorem Reaches.arrivals (h : Reaches S (fun _ _ _ => False) c₀ c) : Traced S c₀ [] c := by
  induction h with
  | refl => exact .refl
  | arrive _ hs ih => exact .arrive ih hs
  | run _ hok _ _ => exact hok.elim

/-- The accesses along a schedule. -/
def Config.moves : Config ι σ ℓ ε α → List ι → List (Move ι ℓ σ)
  | _, [] => []
  | c, i :: schedule =>
    (c.nextSite i).toList.map (fun l => ⟨i, l, c.store, (c.advance i).store⟩) ++
      (c.advance i).moves schedule

/-- A schedule is a run, with the accesses along it. -/
theorem Traced.follow (h : Traced S c₀ ms c) (schedule : List ι) :
    Traced S c₀ (ms ++ c.moves schedule) (c.follow schedule) := by
  induction schedule generalizing ms c with
  | nil =>
    rw [moves, append_nil]
    exact h
  | cons i schedule ih =>
    show Traced S c₀ _ ((c.advance i).follow schedule)
    cases hsite : c.nextSite i with
    | some l =>
      rw [moves, hsite, ← append_assoc]
      exact ih (.run h (.advance hsite))
    | none =>
      rw [moves, hsite, advance_of_nextSite hsite]
      exact ih h

/-- What holds at the start, and is kept by every access that a law allows after those its program
has made before, holds wherever the run gets. -/
theorem Traced.heeds {T : ι → List (ℓ × σ × σ) → ℓ → σ → σ → Prop}
    (hadm : ∀ i p, S.admits i p → p.Heeds S.faults (T i) (fun _ _ => True) [])
    {J : List (Move ι ℓ σ) → σ → Prop} (hJ : ∀ ms i l s s', J ms s →
      T i (accessesOf i ms) l s s' → J (ms ++ [⟨i, l, s, s'⟩]) s')
    {s₀ : σ} (h₀ : J [] s₀) (h : Traced S (start s₀) ms c) : J ms c.store := by
  -- what is left of a program owes the law for what follows the accesses it has made
  suffices hboth : J ms c.store ∧ ∀ i, (c.threads i).elim (accessesOf i ms = []) fun p =>
      p.Heeds S.faults (T i) (fun _ _ => True) (accessesOf i ms) from hboth.1
  induction h with
  | refl => exact ⟨h₀, fun i => rfl⟩
  | arrive _ hs ih =>
    cases hs with
    | @arrive i p hnone hp =>
      refine ⟨ih.1, fun j => ?_⟩
      by_cases hj : j = i
      · subst hj
        have hnew := ih.2 j
        rw [hnone, Option.elim_none] at hnew
        simp only [update_self]
        rw [hnew]
        exact hadm j p hp
      · simp only [update_of_ne hj]
        exact ih.2 j
  | @run ms c c' i l _ hs ih =>
    cases hs with
    | run hi hstep =>
      cases hstep with
      | mk ho =>
        have hp := ih.2 i
        rw [hi] at hp
        obtain ⟨ws, ⟨rfl, hT⟩, hk⟩ := hp _ _ _ ho
        refine ⟨hJ ms i l _ _ ih.1 hT, fun j => ?_⟩
        by_cases hj : j = i
        · subst hj
          simpa [accessesOf] using hk
        · simp only [update_of_ne hj]
          have hsame : ∀ s s', accessesOf j (ms ++ [⟨i, l, s, s'⟩]) = accessesOf j ms := by
            simp [accessesOf, Ne.symm hj]
          rw [hsame]
          exact ih.2 j

/-! ## Protocols whose ghost is the record -/

/-- The protocol of an invariant and a law of the accesses; its ghost is the record of the run. -/
def recording (inv : σ → Prop) (law : ι → ℓ → σ → σ → Prop) :
    Protocol ι σ ℓ (List (Move ι ℓ σ)) where
  inv s _ := inv s
  guar i l s ms s' ms' := match l with
    | none => s' = s ∧ ms' = ms
    | some l => law i l s s' ∧ ms' = ms ++ [⟨i, l, s, s'⟩]

variable {inv : σ → Prop} {law : ι → ℓ → σ → σ → Prop} {pre : ι → ℓ → σ → List (Move ι ℓ σ) → Prop}
  {Pre : ι → σ → List (Move ι ℓ σ) → Prop}

omit [DecidableEq ι] in
/-- What outlives every access of the others is stable. -/
theorem stable_recording {i : ι} {P : σ → List (Move ι ℓ σ) → Prop}
    (h : ∀ j l s s' ms, j ≠ i → inv s → inv s' → P s ms → law j l s s' →
      P s' (ms ++ [⟨j, l, s, s'⟩])) : (recording inv law).Stable i P := by
  intro j hj l s ms s' ms' hinv hP hguar hinv'
  cases l with
  | none =>
    obtain ⟨rfl, rfl⟩ := hguar
    exact hP
  | some l =>
    obtain ⟨hlaw, rfl⟩ := hguar
    exact h j l s s' ms hj hinv hinv' hP hlaw

/-- **Rely-guarantee on the record.** In a run every access of which meets the assumption on what
was recorded before it, every access obeys the law. -/
theorem Sound.traced (hS : Sound S (recording inv law) pre (fun _ _ _ => False) Pre
      fun _ _ _ _ => True) {s₀ : σ} (h₀ : inv s₀) (hPre : ∀ i, Pre i s₀ [])
    (h : Traced S (start s₀) ms c)
    (hpre : ∀ earlier m later, ms = earlier ++ m :: later →
      pre m.agent m.site m.before earlier) :
    hS.At c ms ∧ ∀ m ∈ ms, law m.agent m.site m.before m.after := by
  induction h with
  | refl => exact ⟨⟨h₀, hPre⟩, nofun⟩
  | arrive _ hs ih =>
    obtain ⟨hat, hlaw⟩ := ih hpre
    obtain ⟨i, ms', hguar, hat'⟩ := hS.arrive hat hs
    refine ⟨?_, hlaw⟩
    rcases hguar with rfl | hguar
    · exact hat'
    · exact hguar.2 ▸ hat'
  | @run ms c c' i l _ hs ih =>
    obtain ⟨hat, hlaw⟩ := ih fun earlier m later hms =>
      hpre earlier m (later ++ [⟨i, l, c.store, c'.store⟩]) (by rw [hms]; simp)
    have hnow := hpre ms ⟨i, l, c.store, c'.store⟩ [] rfl
    obtain ⟨ms', ms'', hguar, hended, hat'⟩ := hS.run_of_pre hat hnow hs
    obtain ⟨hstep, rfl⟩ := hguar
    refine ⟨?_, fun m hm => ?_⟩
    · rcases hended with rfl | hended
      · exact hat'
      · exact hended.2 ▸ hat'
    · rcases mem_append.1 hm with hm | hm
      · exact hlaw m hm
      · rw [mem_singleton.1 hm]
        exact hstep

end Runs

end Interleave
