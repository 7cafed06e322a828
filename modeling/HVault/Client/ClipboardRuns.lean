import HVault.Client.Clipboard

/-!
# What the clipboard guard keeps

`Guard.Acted` says what the guard's functions may change when they try an erase, and every law of a
run is proved from it.

* `guard_bookkeeping`: while no function is called between an erase that settles and the copies that
  waited for it, the writes the guard waits for exclude each other and no secret is forgotten;
* `erase_honoured`: an erase asked for while copies are on their way is carried out, if it finds an
  earlier secret pending and no copy waiting.
-/

namespace HVault.Clipboard

open Interleave List Option Bool Guard

/-! ## The guard's functions -/

namespace Guard

/-- An erase was tried: it is in flight if it could begin, and all else is as it was. -/
def Acted (g g' : Guard) : Prop :=
  ∃ requested inFlight, g' = { g with eraseRequested := requested, eraseInFlight := inFlight } ∧
    (inFlight = g.eraseInFlight ∨ g.eraseInFlight = none ∧ g.copiesInFlight = 0 ∧
      inFlight = g.pendingGeneration)

variable (g : Guard)

theorem Acted.refl : g.Acted g := ⟨g.eraseRequested, g.eraseInFlight, rfl, .inl rfl⟩

theorem Acted.request {g g' : Guard} {requested : Bool}
    (h : { g with eraseRequested := requested }.Acted g') : g.Acted g' := by
  obtain ⟨requested', inFlight, heq, hbegun⟩ := h
  exact ⟨requested', inFlight, heq, hbegun⟩

theorem attemptErase_begins {g : Guard} (hinFlight : g.eraseInFlight = none)
    (hcopies : g.copiesInFlight = 0) :
    g.attemptErase = { g with eraseInFlight := g.pendingGeneration } := by
  unfold attemptErase
  cases hpending : g.pendingGeneration with
  | none =>
    cases g
    cases hinFlight
    cases hpending
    rfl
  | some target => simp only [hinFlight, hcopies, isSome_none, false_eq_true, if_false,
      gt_iff_lt, Nat.lt_irrefl]

theorem attemptErase_acted : g.Acted g.attemptErase := by
  by_cases h : g.eraseInFlight = none ∧ g.copiesInFlight = 0
  · rw [attemptErase_begins h.1 h.2]
    exact ⟨g.eraseRequested, g.pendingGeneration, rfl, .inr ⟨h.1, h.2, rfl⟩⟩
  · -- something is in flight, and the erase does not begin
    have hsame : g.attemptErase = g := by
      unfold attemptErase
      cases g.pendingGeneration with
      | none => rfl
      | some target =>
        split_ifs with hinFlight hcopies
        · rfl
        · rfl
        · exact absurd ⟨by simpa using hinFlight, by omega⟩ h
    rw [hsame]
    exact .refl g

theorem Acted.pending {g g' : Guard} (h : g.Acted g') : g'.pendingGeneration = g.pendingGeneration := by
  obtain ⟨requested, inFlight, rfl, -⟩ := h
  rfl

theorem Acted.inFlight {g g' : Guard} (h : g.Acted g') (hsome : g.eraseInFlight.isSome) :
    g'.eraseInFlight.isSome := by
  obtain ⟨requested, inFlight, rfl, hsame | ⟨hnone, -⟩⟩ := h
  · show inFlight.isSome
    rwa [hsame]
  · rw [hnone] at hsome
    cases hsome

theorem attemptErase_requested : g.attemptErase.eraseRequested = g.eraseRequested := by
  unfold attemptErase
  split
  · rfl
  · split_ifs <;> rfl

theorem flushDueErase_requested (now : ℕ) (g : Guard) :
    (g.flushDueErase now).eraseRequested = g.eraseRequested := by
  unfold flushDueErase
  split_ifs
  · exact g.attemptErase_requested
  · rfl

/-- Only a copy on its way keeps an erase from being in flight. -/
theorem attemptErase_tries {g : Guard} {target : ℕ} (hpending : g.pendingGeneration = some target) :
    g.attemptErase.eraseInFlight.isSome ∨ 0 < g.copiesInFlight := by
  unfold attemptErase
  rw [hpending]
  split_ifs with hinFlight hcopies
  · exact .inl hinFlight
  · exact .inr hcopies
  · exact .inl rfl

theorem flushDueErase_acted (now : ℕ) (g : Guard) : g.Acted (g.flushDueErase now) := by
  unfold flushDueErase
  split_ifs
  · exact g.attemptErase_acted
  · exact .refl g

theorem eraseCopiedSecretNow_acted : g.Acted g.eraseCopiedSecretNow := by
  unfold eraseCopiedSecretNow
  split_ifs
  · exact .refl g
  · exact ⟨true, g.eraseInFlight, rfl, .inl rfl⟩
  · exact g.attemptErase_acted

theorem settleDeferredErase_acted (now : ℕ) (g : Guard) : g.Acted (g.settleDeferredErase now) := by
  unfold settleDeferredErase
  split_ifs
  · exact (eraseCopiedSecretNow_acted _).request
  · exact g.flushDueErase_acted now

/-- A request that was put off is put off again while copies are on their way. -/
theorem settleDeferredErase_busy {now target : ℕ} {g : Guard} (hrequested : g.eraseRequested)
    (hpending : g.pendingGeneration = some target) (hcopies : 0 < g.copiesInFlight) :
    g.settleDeferredErase now = g := by
  unfold settleDeferredErase eraseCopiedSecretNow
  rw [if_pos hrequested, if_neg (by simp [hpending]), if_pos hcopies]
  cases g
  cases hrequested
  rfl

/-- It is carried out when none is. -/
theorem settleDeferredErase_idle {now target : ℕ} {g : Guard}
    (h : g.eraseRequested ∨ g.isDue now) (hpending : g.pendingGeneration = some target)
    (hinFlight : g.eraseInFlight = none) (hcopies : g.copiesInFlight = 0) :
    (g.settleDeferredErase now).eraseInFlight = some target := by
  unfold settleDeferredErase
  split_ifs with hrequested
  · unfold eraseCopiedSecretNow
    rw [if_neg (by simp [hpending]), if_neg (by simp [hcopies])]
    rw [@attemptErase_begins { g with eraseRequested := false } hinFlight hcopies]
    exact hpending
  · have hdue := h.resolve_left hrequested
    unfold flushDueErase
    rw [if_pos hdue, attemptErase_begins hinFlight hcopies]
    exact hpending

/-- No request is left over where none was, or where no copy is on its way. -/
theorem settleDeferredErase_done {now : ℕ} {g : Guard}
    (h : g.eraseRequested = false ∨ g.copiesInFlight = 0) :
    (g.settleDeferredErase now).eraseRequested = false := by
  unfold settleDeferredErase
  split_ifs with hrequested
  · have hcopies : g.copiesInFlight = 0 := h.resolve_left (by simp [hrequested])
    unfold eraseCopiedSecretNow
    split_ifs with hpending hbusy
    · rfl
    · exact absurd hbusy (by simp [hcopies])
    · exact attemptErase_requested _
  · rw [flushDueErase_requested]
    exact eq_false_iff.2 hrequested

/-- The guard that `armDeadline` hands to the erase that was put off. -/
def armed (now : ℕ) (clearAfterMs : Option ℚ) (g : Guard) : Guard :=
  { g with
    generation := g.generation + 1
    pendingGeneration := some (g.generation + 1)
    overdue := false
    deadlineAt := some (now + clampClearDelay clearAfterMs)
    timer := some (now + clampClearDelay clearAfterMs)
    snapshot := ⟨true, some (now + clampClearDelay clearAfterMs), false⟩ }

/-- An erase that settles leaves the marker of another generation alone. -/
theorem finishErase_cases (target : ℕ) (erased : Bool) (g : Guard) :
    (g.pendingGeneration ≠ some target ∧ g.finishErase target erased = { g with eraseInFlight := none }) ∨
    (g.pendingGeneration = some target ∧ erased = true ∧ g.finishErase target erased =
      { g with
        pendingGeneration := none, deadlineAt := none, overdue := false, timer := none
        eraseInFlight := none, snapshot := ⟨false, none, false⟩ }) ∨
    (g.pendingGeneration = some target ∧ erased = false ∧ ∃ snapshot, g.finishErase target erased =
      { g with overdue := true, eraseInFlight := none, snapshot := snapshot }) := by
  unfold finishErase
  by_cases hpending : g.pendingGeneration = some target
  · right
    rw [if_neg (not_not.2 hpending)]
    cases erased with
    | true => exact .inl ⟨hpending, rfl, rfl⟩
    | false =>
      refine .inr ⟨hpending, rfl, ?_⟩
      rw [if_neg Bool.false_ne_true]
      unfold markOverdue
      split_ifs with hoverdue
      · refine ⟨g.snapshot, ?_⟩
        cases g
        cases hoverdue
        rfl
      · exact ⟨_, rfl⟩
  · exact .inl ⟨hpending, if_pos hpending⟩

end Guard

/-! ## Writes that exclude each other -/

namespace Page

/-- A call that may erase, which a job can make, comes while no copy is about to go on. -/
def Prompt (p : Page) : Event → Prop
  | .eraseCopiedSecretNow => p.resuming = []
  | .flushDueErase => p.resuming = []
  | _ => True

instance (p : Page) (e : Event) : Decidable (p.Prompt e) :=
  match e with
  | .eraseCopiedSecretNow => inferInstanceAs (Decidable (p.resuming = []))
  | .flushDueErase => inferInstanceAs (Decidable (p.resuming = []))
  | .copySecretToClipboard _ | .resume | .timer | .copySettles _ _ | .eraseSettles _ | .abandonedSettles _ _ | .tick _ =>
    .isTrue trivial

/-- No erase can begin ahead of the copies that are about to go on. -/
def Calm (p : Page) : Prop := p.resuming = [] ∨ p.guard.pendingGeneration = none

structure Sound (p : Page) : Prop where
  count : p.guard.copiesInFlight = p.writing.length
  exclusive : ∀ target, p.guard.eraseInFlight = some target →
    p.writing = [] ∧ p.guard.pendingGeneration = some target
  idle : p.guard.eraseInFlight = none → p.waiting = []
  resumed : p.resuming ≠ [] → p.guard.eraseInFlight = none

variable {p p' : Page}

theorem task_eq_some {next : Option Page} (h : p.task next = some p') :
    p.resuming = [] ∧ next = some p' := by
  unfold task at h
  split_ifs at h with hresuming
  exact ⟨hresuming, h⟩

variable {f : Guard → Guard}

theorem Sound.act (h : p.Sound) (hcalm : p.Calm) (hf : p.guard.Acted (f p.guard)) :
    (p.act f).Sound := by
  obtain ⟨requested, inFlight, heq, hsame | ⟨hnone, hcopies, hbegun⟩⟩ := hf
  · constructor
    · show (f p.guard).copiesInFlight = _
      rw [heq]
      exact h.count
    · show ∀ target, (f p.guard).eraseInFlight = some target → _ ∧ (f p.guard).pendingGeneration = _
      rw [heq, hsame]
      exact h.exclusive
    · show (f p.guard).eraseInFlight = none → _
      rw [heq, hsame]
      exact h.idle
    · show _ → (f p.guard).eraseInFlight = none
      rw [heq, hsame]
      exact h.resumed
  · -- the erase begins, for what is pending, while no copy is under way
    have hwriting : p.writing = [] := length_eq_zero_iff.1 (h.count.symm.trans hcopies)
    constructor
    · show (f p.guard).copiesInFlight = _
      rw [heq]
      exact h.count
    · show ∀ target, (f p.guard).eraseInFlight = some target → _ ∧ (f p.guard).pendingGeneration = _
      rw [heq]
      exact fun target htarget => ⟨hwriting, hbegun.symm.trans htarget⟩
    · exact fun _ => h.idle hnone
    · show _ → (f p.guard).eraseInFlight = none
      rw [heq, hbegun]
      exact hcalm.resolve_left

theorem Sound.beginCopies (h : p.Sound) (copies : List Copy)
    (hnone : copies ≠ [] → p.guard.eraseInFlight = none) : (p.beginCopies copies).Sound where
  count := by
    show _ + _ = (p.writing ++ copies).length
    rw [h.count, length_append]
  exclusive target htarget := by
    have hcopies : copies = [] := by
      by_contra hne
      rw [show p.guard.eraseInFlight = some target from htarget] at hnone
      cases hnone hne
    obtain ⟨hwriting, hpending⟩ := h.exclusive target htarget
    exact ⟨by rw [hcopies]; simpa [Page.beginCopies] using hwriting, hpending⟩
  idle := h.idle
  resumed := h.resumed

variable {copy : Copy}

/-- A copy's write is no longer under way; what its secret leaves does not matter here. -/
theorem Sound.settled (h : p.Sound) (hcopy : copy ∈ p.writing) (hresuming : p.resuming = [])
    {guard : Guard} (hcount : guard.copiesInFlight = p.guard.copiesInFlight - 1)
    (hinFlight : guard.eraseInFlight = p.guard.eraseInFlight) (abandoned : List Write)
    (clipboard : Option ℕ) :
    p.guard.eraseInFlight = none ∧
      { p with guard, writing := p.writing.erase copy, abandoned, clipboard : Page }.Sound := by
  have hnone : p.guard.eraseInFlight = none := by
    rw [eq_none_iff_forall_ne_some]
    intro target htarget
    rw [(h.exclusive target htarget).1] at hcopy
    exact not_mem_nil hcopy
  refine ⟨hnone, ?_, ?_, ?_, ?_⟩
  · show guard.copiesInFlight = _
    rw [hcount, h.count, length_erase_of_mem hcopy]
  · intro target htarget
    cases (hinFlight.trans hnone).symm.trans htarget
  · exact fun _ => h.idle hnone
  · exact fun hne => absurd hresuming hne

variable {target : ℕ}

theorem Sound.finishErase (h : p.Sound) (htarget : p.guard.eraseInFlight = some target)
    (outcome : Outcome) :
    (p.finishErase target outcome).Sound := by
  obtain ⟨hwriting, -⟩ := h.exclusive target htarget
  have hcount : (p.guard.finishErase target (outcome = .written)).copiesInFlight = 0 ∧
      (p.guard.finishErase target (outcome = .written)).eraseInFlight = none := by
    have hzero : p.guard.copiesInFlight = 0 := h.count.trans (by rw [hwriting]; rfl)
    obtain ⟨-, heq⟩ | ⟨-, -, heq⟩ | ⟨-, -, snapshot, heq⟩ :=
      p.guard.finishErase_cases target (outcome = .written)
    all_goals
      rw [heq]
      exact ⟨hzero, rfl⟩
  have hrest (clipboard : Option ℕ) (abandoned : List Write) :
      { p with
        guard := p.guard.finishErase target (outcome = .written), waiting := []
        resuming := p.resuming ++ p.waiting, abandoned, clipboard : Page }.Sound := by
    refine ⟨?_, ?_, fun _ => rfl, fun _ => hcount.2⟩
    · show copiesInFlight _ = p.writing.length
      rw [hcount.1, hwriting]
      rfl
    · intro generation hgeneration
      cases hcount.2.symm.trans hgeneration
  cases outcome with
  | written => exact hrest none p.abandoned
  | timedOut => exact hrest p.clipboard (.erase :: p.abandoned)
  | refused => exact hrest p.clipboard p.abandoned

/-- How a copy that settles leaves the page, before the erase that was put off is tried. -/
def settledPage (p : Page) (copy : Copy) : Outcome → Page
  | .written =>
    { p with
      guard := { p.guard with copiesInFlight := p.guard.copiesInFlight - 1 }.armed p.now copy.clearAfterMs
      writing := p.writing.erase copy
      clipboard := some copy.id }
  | .timedOut =>
    { p with
      guard := { p.guard with copiesInFlight := p.guard.copiesInFlight - 1 }.armed p.now copy.clearAfterMs
      writing := p.writing.erase copy
      abandoned := .copy copy.id :: p.abandoned }
  | .refused =>
    { p with
      guard := { p.guard with copiesInFlight := p.guard.copiesInFlight - 1 }
      writing := p.writing.erase copy }

theorem finishCopy_eq (p : Page) (copy : Copy) (outcome : Outcome) :
    p.finishCopy copy outcome = (p.settledPage copy outcome).act (·.settleDeferredErase p.now) := by
  cases outcome <;> rfl

theorem Sound.settledPage (h : p.Sound) (hcopy : copy ∈ p.writing) (hresuming : p.resuming = [])
    (outcome : Outcome) :
    p.guard.eraseInFlight = none ∧ (p.settledPage copy outcome).Sound := by
  cases outcome with
  | written | timedOut | refused => exact h.settled hcopy hresuming (by rfl) (by rfl) _ _

variable {e : Event}

/-- A call that is made while an erase could begin ahead of the copies about to go on. -/
theorem Sound.step (h : p.Sound) (hcalm : e = .eraseCopiedSecretNow ∨ e = .flushDueErase → p.Calm)
    (hs : p.step e = some p') :
    p'.Sound := by
  cases e with
  | copySecretToClipboard clearAfterMs =>
    cases hs
    unfold copy
    dsimp only
    split_ifs with hinFlight
    · refine ⟨h.count, h.exclusive, fun hnone => ?_, h.resumed⟩
      rw [show p.guard.eraseInFlight = none from hnone] at hinFlight
      cases hinFlight
    · have hsame : { p with calls := p.calls + 1 : Page }.Sound :=
        ⟨h.count, h.exclusive, h.idle, h.resumed⟩
      exact hsame.beginCopies _ fun _ => by simpa using hinFlight
  | eraseCopiedSecretNow =>
    cases hs
    have hsame : { p with owed := p.underWay ++ p.owed : Page }.Sound :=
      ⟨h.count, h.exclusive, h.idle, h.resumed⟩
    exact hsame.act (hcalm (.inl rfl)) p.guard.eraseCopiedSecretNow_acted
  | flushDueErase =>
    cases hs
    exact h.act (hcalm (.inr rfl)) (p.guard.flushDueErase_acted p.now)
  | resume =>
    obtain rfl := some.inj hs
    have hsame : { p with resuming := [] : Page }.Sound :=
      ⟨h.count, h.exclusive, h.idle, fun hne => absurd rfl hne⟩
    exact hsame.beginCopies _ h.resumed
  | timer =>
    obtain ⟨hresuming, hs⟩ := task_eq_some hs
    split at hs
    · split_ifs at hs
      cases hs
      have hsame : { p with guard := { p.guard with timer := none } : Page }.Sound :=
        ⟨h.count, h.exclusive, h.idle, h.resumed⟩
      exact hsame.act (.inl hresuming) (attemptErase_acted _)
    · cases hs
  | copySettles copy outcome =>
    obtain ⟨hresuming, hs⟩ := task_eq_some hs
    split_ifs at hs with hcopy
    cases hs
    rw [finishCopy_eq]
    refine (h.settledPage hcopy hresuming outcome).2.act (.inl ?_) (settleDeferredErase_acted _ _)
    cases outcome <;> exact hresuming
  | eraseSettles outcome =>
    obtain ⟨hresuming, hs⟩ := task_eq_some hs
    split at hs
    · rename_i target htarget
      cases hs
      exact h.finishErase htarget outcome
    · cases hs
  | abandonedSettles write landed =>
    obtain ⟨-, hs⟩ := task_eq_some hs
    split_ifs at hs
    · obtain rfl := some.inj hs
      cases write <;> exact ⟨h.count, h.exclusive, h.idle, h.resumed⟩
    · cases hs
      exact ⟨h.count, h.exclusive, h.idle, h.resumed⟩
  | tick ms =>
    obtain ⟨-, hs⟩ := task_eq_some hs
    cases hs
    exact ⟨h.count, h.exclusive, h.idle, h.resumed⟩

theorem sound_initial (now : ℕ) : (initial now).Sound :=
  ⟨rfl, nofun, fun _ => rfl, fun hne => absurd rfl hne⟩

/-! ## No secret is forgotten -/

/-- A pending secret has a timer for its deadline, is overdue, is being erased, or is due while a copy
is on its way. -/
def Remembered (p : Page) : Prop :=
  ∀ target, p.guard.pendingGeneration = some target →
    (∃ time, p.guard.timer = some time ∧ p.guard.deadlineAt = some time) ∨ p.guard.overdue ∨
      p.guard.eraseInFlight.isSome ∨ (p.writing ≠ [] ∧ p.guard.isDue p.now)

theorem isDue_of_deadline {now time : ℕ} {g : Guard}
    (hpending : g.pendingGeneration = some target) (hdeadline : g.deadlineAt = some time)
    (h : time ≤ now) : g.isDue now := by
  unfold isDue
  rw [hpending, hdeadline]
  split_ifs <;> simp_all

theorem isDue_mono {now : ℕ} {g : Guard} (ms : ℕ) (h : g.isDue now) : g.isDue (now + ms) := by
  unfold isDue at h ⊢
  split_ifs at h ⊢ with hpending hoverdue
  · rfl
  · cases hdeadline : g.deadlineAt with
    | none =>
      rw [hdeadline] at h
      cases h
    | some deadlineAt =>
      rw [hdeadline] at h
      exact decide_eq_true (Nat.le_add_right_of_le (of_decide_eq_true h))

theorem Remembered.act (h : p.Remembered) (hf : p.guard.Acted (f p.guard)) :
    (p.act f).Remembered := by
  have hkept := hf.inFlight
  obtain ⟨requested, inFlight, heq, -⟩ := hf
  intro target hpending
  change (f p.guard).pendingGeneration = some target at hpending
  show (∃ time, (f p.guard).timer = some time ∧ (f p.guard).deadlineAt = some time) ∨
    (f p.guard).overdue ∨ (f p.guard).eraseInFlight.isSome ∨ p.writing ≠ [] ∧ (f p.guard).isDue p.now
  rw [heq] at hpending hkept ⊢
  rcases h target hpending with htimer | hoverdue | hsome | hdue
  · exact .inl htimer
  · exact .inr (.inl hoverdue)
  · exact .inr (.inr (.inl (hkept hsome)))
  · exact .inr (.inr (.inr hdue))

/-- The timer fires: the erase begins, or what defers it will. -/
theorem Remembered.fires (h : p.Remembered) (hsound : p.Sound) {time : ℕ}
    (htimer : p.guard.timer = some time) (hnow : time ≤ p.now) :
    (p.act fun g => { g with timer := none }.attemptErase).Remembered := by
  have hacted := attemptErase_acted { p.guard with timer := none }
  have hkept := hacted.inFlight
  obtain ⟨requested, inFlight, heq, -⟩ := hacted
  intro target hpending
  have hold : p.guard.pendingGeneration = some target := by
    change (attemptErase _).pendingGeneration = _ at hpending
    rw [heq] at hpending
    exact hpending
  have htries := @attemptErase_tries { p.guard with timer := none } target hold
  have hdue : p.guard.isDue p.now ∨ p.guard.overdue ∨ p.guard.eraseInFlight.isSome := by
    rcases h target hold with ⟨time', htime', hdeadline⟩ | hoverdue | hsome | ⟨-, hdue⟩
    · obtain rfl := some.inj (htimer.symm.trans htime')
      exact .inl (isDue_of_deadline hold hdeadline hnow)
    · exact .inr (.inl hoverdue)
    · exact .inr (.inr hsome)
    · exact .inl hdue
  rcases htries with hsome | hcopies
  · exact .inr (.inr (.inl hsome))
  · -- a copy is on its way, and what it defers is due
    have hwriting : p.writing ≠ [] := by
      rintro hnil
      have hcount := hsound.count
      rw [hnil] at hcount
      exact absurd hcopies (by simp [hcount])
    show _ ∨ (attemptErase _).overdue ∨ (attemptErase _).eraseInFlight.isSome ∨
      p.writing ≠ [] ∧ (attemptErase _).isDue p.now
    rw [heq] at hkept ⊢
    rcases hdue with hdue | hoverdue | hsome
    · exact .inr (.inr (.inr ⟨hwriting, hdue⟩))
    · exact .inr (.inl hoverdue)
    · exact .inr (.inr (.inl (hkept hsome)))

/-- A copy settles: its own secret has a timer now, or what it deferred is tried. -/
theorem Remembered.settles (h : p.Remembered) (hsound : p.Sound) (hcopy : copy ∈ p.writing)
    (hresuming : p.resuming = []) (outcome : Outcome) :
    (p.finishCopy copy outcome).Remembered := by
  rw [finishCopy_eq]
  obtain ⟨hnone, hsettled⟩ := hsound.settledPage hcopy hresuming outcome
  cases outcome with
  | written | timedOut =>
    exact Remembered.act (fun _ _ => .inl ⟨_, rfl, rfl⟩) (settleDeferredErase_acted _ _)
  | refused =>
    by_cases hlast : p.writing.erase copy = []
    · -- the last one on its way: an erase that is due begins
      have hacted := settleDeferredErase_acted p.now (p.settledPage copy .refused).guard
      obtain ⟨requested, inFlight, heq, -⟩ := hacted
      intro target hpending
      have hold : p.guard.pendingGeneration = some target := by
        change (settleDeferredErase _ _).pendingGeneration = _ at hpending
        rw [heq] at hpending
        exact hpending
      show (∃ time, (settleDeferredErase _ _).timer = some time ∧
          (settleDeferredErase _ _).deadlineAt = some time) ∨
        (settleDeferredErase _ _).overdue ∨ (settleDeferredErase _ _).eraseInFlight.isSome ∨ _
      rcases h target hold with htimer | hoverdue | hsome | ⟨-, hdue⟩
      · rw [heq]
        exact .inl htimer
      · rw [heq]
        exact .inr (.inl hoverdue)
      · rw [hnone] at hsome
        cases hsome
      · have hcopies : (p.settledPage copy .refused).guard.copiesInFlight = 0 := by
          rw [hsettled.count]
          exact length_eq_zero_iff.2 hlast
        refine .inr (.inr (.inl ?_))
        rw [@settleDeferredErase_idle p.now target (p.settledPage copy .refused).guard
          (.inr hdue) hold hnone hcopies]
        rfl
    · refine Remembered.act (fun target hpending => ?_) (settleDeferredErase_acted _ _)
      rcases h target hpending with htimer | hoverdue | hsome | ⟨-, hdue⟩
      · exact .inl htimer
      · exact .inr (.inl hoverdue)
      · exact .inr (.inr (.inl hsome))
      · exact .inr (.inr (.inr ⟨hlast, hdue⟩))

theorem Remembered.finishErase (hsound : p.Sound) (htarget : p.guard.eraseInFlight = some target)
    (outcome : Outcome) :
    (p.finishErase target outcome).Remembered := by
  have hguard : (p.finishErase target outcome).guard =
      p.guard.finishErase target (outcome = .written) := by
    cases outcome <;> rfl
  intro generation hpending
  rw [hguard] at hpending ⊢
  obtain ⟨hother, -⟩ | ⟨-, -, heq⟩ | ⟨-, -, snapshot, heq⟩ :=
    p.guard.finishErase_cases target (outcome = .written)
  · exact absurd (hsound.exclusive target htarget).2 hother
  · rw [heq] at hpending
    cases hpending
  · rw [heq]
    exact .inr (.inl rfl)

/-- What a call adds to the copies on their way is no reason to forget. -/
theorem Remembered.writing (h : p.Remembered)
    (hpending : p'.guard.pendingGeneration = p.guard.pendingGeneration)
    (htimer : p'.guard.timer = p.guard.timer)
    (hdeadline : p'.guard.deadlineAt = p.guard.deadlineAt)
    (hoverdue : p'.guard.overdue = p.guard.overdue)
    (hinFlight : p'.guard.eraseInFlight = p.guard.eraseInFlight)
    (hwriting : p.writing ≠ [] → p'.writing ≠ [])
    (hdue : p.guard.isDue p.now → p'.guard.isDue p'.now) : p'.Remembered := by
  intro target htarget
  rw [htimer, hdeadline, hoverdue, hinFlight]
  rcases h target (hpending.symm.trans htarget) with h | h | h | h
  · exact .inl h
  · exact .inr (.inl h)
  · exact .inr (.inr (.inl h))
  · exact .inr (.inr (.inr ⟨hwriting h.1, hdue h.2⟩))

theorem Remembered.step (h : p.Remembered) (hsound : p.Sound) (hs : p.step e = some p') :
    p'.Remembered := by
  cases e with
  | copySecretToClipboard clearAfterMs =>
    cases hs
    unfold copy
    dsimp only
    split_ifs
    · exact h
    · exact h.writing rfl rfl rfl rfl rfl (fun _ => by simp [beginCopies]) id
  | eraseCopiedSecretNow =>
    cases hs
    exact Remembered.act h
      p.guard.eraseCopiedSecretNow_acted
  | flushDueErase =>
    cases hs
    exact h.act (p.guard.flushDueErase_acted p.now)
  | resume =>
    obtain rfl := some.inj hs
    exact h.writing rfl rfl rfl rfl rfl (fun hne => by simp [beginCopies, hne]) id
  | timer =>
    obtain ⟨-, hs⟩ := task_eq_some hs
    split at hs
    · rename_i time htime
      split_ifs at hs with hnow
      cases hs
      exact h.fires hsound htime hnow
    · cases hs
  | copySettles copy outcome =>
    obtain ⟨hresuming, hs⟩ := task_eq_some hs
    split_ifs at hs with hcopy
    cases hs
    exact h.settles hsound hcopy hresuming outcome
  | eraseSettles outcome =>
    obtain ⟨-, hs⟩ := task_eq_some hs
    split at hs
    · rename_i target htarget
      cases hs
      exact Remembered.finishErase hsound htarget outcome
    · cases hs
  | abandonedSettles write landed =>
    obtain ⟨-, hs⟩ := task_eq_some hs
    split_ifs at hs
    · obtain rfl := some.inj hs
      cases write <;> exact h
    · cases hs
      exact h
  | tick ms =>
    obtain ⟨-, hs⟩ := task_eq_some hs
    cases hs
    exact h.writing rfl rfl rfl rfl rfl id (isDue_mono ms)

/-- Only the erase of a secret that was written clears its marker. -/
theorem clears {generation : ℕ} (hs : p.step e = some p')
    (hpending : p.guard.pendingGeneration = some generation)
    (hclear : p'.guard.pendingGeneration = none) :
    e = .eraseSettles .written ∧ p.guard.eraseInFlight = some generation := by
  have hacted {q : Page} {f : Guard → Guard} (hf : q.guard.Acted (f q.guard))
      (hq : q.guard.pendingGeneration ≠ none) : (q.act f).guard.pendingGeneration ≠ none := by
    show (f q.guard).pendingGeneration ≠ none
    rwa [hf.pending]
  have hsome : p.guard.pendingGeneration ≠ none := by simp [hpending]
  cases e with
  | copySecretToClipboard clearAfterMs =>
    cases hs
    unfold copy at hclear
    dsimp only at hclear
    split_ifs at hclear
    · exact absurd hclear hsome
    · exact absurd hclear hsome
  | eraseCopiedSecretNow =>
    cases hs
    exact absurd hclear (hacted p.guard.eraseCopiedSecretNow_acted hsome)
  | flushDueErase =>
    cases hs
    exact absurd hclear (hacted (p.guard.flushDueErase_acted p.now) hsome)
  | resume =>
    obtain rfl := some.inj hs
    exact absurd hclear hsome
  | timer =>
    obtain ⟨-, hs⟩ := task_eq_some hs
    split at hs
    · split_ifs at hs
      cases hs
      exact absurd hclear
        (hacted (q := { p with guard := { p.guard with timer := none } }) (attemptErase_acted _)
          hsome)
    · cases hs
  | copySettles copy outcome =>
    obtain ⟨-, hs⟩ := task_eq_some hs
    split_ifs at hs
    cases hs
    rw [finishCopy_eq] at hclear
    refine absurd hclear (hacted (settleDeferredErase_acted _ _) ?_)
    cases outcome with
    | written | timedOut => exact some_ne_none _
    | refused => exact hsome
  | eraseSettles outcome =>
    obtain ⟨-, hs⟩ := task_eq_some hs
    split at hs
    · rename_i target htarget
      cases hs
      have hguard : (p.finishErase target outcome).guard =
          p.guard.finishErase target (outcome = .written) := by
        cases outcome <;> rfl
      rw [hguard] at hclear
      obtain ⟨-, heq⟩ | ⟨htargeted, hwritten, -⟩ | ⟨-, -, snapshot, heq⟩ :=
        p.guard.finishErase_cases target (outcome = .written)
      · rw [heq] at hclear
        exact absurd hclear hsome
      · obtain rfl := some.inj (hpending.symm.trans htargeted)
        exact ⟨congrArg _ (of_decide_eq_true hwritten), htarget⟩
      · rw [heq] at hclear
        exact absurd hclear hsome
    · cases hs
  | abandonedSettles write landed =>
    obtain ⟨-, hs⟩ := task_eq_some hs
    split_ifs at hs
    · obtain rfl := some.inj hs
      cases write <;> exact absurd hclear hsome
    · cases hs
      exact absurd hclear hsome
  | tick ms =>
    obtain ⟨-, hs⟩ := task_eq_some hs
    cases hs
    exact absurd hclear hsome

/-- While no call may erase when a copy is about to go on: the writes the guard waits for exclude each
other, an erase in flight is for the secret that is pending, a marker is cleared by its own erase alone,
and no pending secret is forgotten. -/
theorem guard_bookkeeping {now : ℕ} {p : Page} (h : Run step Prompt (initial now) p) :
    (p.writing = [] ∨ p.guard.eraseInFlight = none) ∧
    (∀ target, p.guard.eraseInFlight = some target → p.guard.pendingGeneration = some target) ∧
    (∀ e p' generation, p.step e = some p' → p.guard.pendingGeneration = some generation →
      p'.guard.pendingGeneration = none →
        e = .eraseSettles .written ∧ p.guard.eraseInFlight = some generation) ∧
    (∀ target, p.guard.pendingGeneration = some target → p.writing = [] →
      p.guard.eraseInFlight = none → p.guard.timer.isSome ∨ p.guard.overdue) := by
  obtain ⟨hsound, hremembered⟩ : p.Sound ∧ p.Remembered := by
    refine h.invariant (I := fun p => p.Sound ∧ p.Remembered)
      ⟨sound_initial now, nofun⟩ ?_
    intro p e p' hp hprompt hs
    refine ⟨hp.1.step (fun hcall => .inl ?_) hs, hp.2.step hp.1 hs⟩
    rcases hcall with rfl | rfl
    · exact hprompt
    · exact hprompt
  refine ⟨?_, fun target htarget => (hsound.exclusive target htarget).2,
    fun e p' generation => clears, ?_⟩
  · cases hinFlight : p.guard.eraseInFlight with
    | none => exact .inr rfl
    | some target => exact .inl (hsound.exclusive target hinFlight).1
  · intro target hpending hwriting hinFlight
    rcases hremembered target hpending with ⟨time, htimer, -⟩ | hoverdue | hsome | ⟨hne, -⟩
    · rw [htimer]
      exact .inl rfl
    · exact .inr hoverdue
    · rw [hinFlight] at hsome
      cases hsome
    · exact absurd hwriting hne

/-- A secret was copied, to stay for half a minute. -/
def copied : Page :=
  { guard := ⟨1, some 1, some 30000, false, some 30000, none, 0, false, ⟨true, some 30000, false⟩⟩
    now := 0, calls := 1, writing := [], waiting := [], resuming := [], abandoned := []
    clipboard := some 0, owed := [], attempted := [] }

theorem guard_bookkeeping_sample : copied.guard.timer.isSome ∨ copied.guard.overdue := by
  have hreplay : replay step Prompt (initial 0)
      [.copySecretToClipboard none, .copySettles ⟨0, none⟩ .written] = some copied := rfl
  exact (guard_bookkeeping (Run.of_replay hreplay)).2.2.2 1 rfl rfl rfl

/-- An erase that was given up may still be under way when the next copy is written; and an erase asked
for in a job before the copies that waited go on begins beside them. -/
theorem writes_together :
    (∃ p, Run step Prompt (initial 0) p ∧ p.writing ≠ [] ∧ Write.erase ∈ p.abandoned) ∧
    ∃ p, Run step (fun _ _ => True) (initial 0) p ∧ p.writing ≠ [] ∧ p.guard.eraseInFlight.isSome := by
  constructor
  · obtain ⟨p, hrun, hkind⟩ := Run.of_any step Prompt (initial 0)
      [.copySecretToClipboard none, .copySettles ⟨0, none⟩ .written, .eraseCopiedSecretNow,
        .eraseSettles .timedOut, .copySecretToClipboard none]
      (fun p => decide (p.writing ≠ [] ∧ Write.erase ∈ p.abandoned)) rfl
    exact ⟨p, hrun, of_decide_eq_true hkind⟩
  · obtain ⟨p, hrun, hkind⟩ := Run.of_any step (fun _ _ => True) (initial 0)
      [.copySecretToClipboard none, .copySettles ⟨0, none⟩ .written, .eraseCopiedSecretNow,
        .copySecretToClipboard none, .eraseSettles .refused, .eraseCopiedSecretNow, .resume]
      (fun p => decide (p.writing ≠ [] ∧ p.guard.eraseInFlight.isSome)) rfl
    exact ⟨p, hrun, of_decide_eq_true hkind⟩

/-! ## Erases that were asked for -/

/-- A write that settles has succeeded. -/
def Succeeds : Event → Prop
  | .copySettles _ outcome => outcome = .written
  | .eraseSettles outcome => outcome = .written
  | _ => True

instance (e : Event) : Decidable (Succeeds e) :=
  match e with
  | .copySettles _ outcome => inferInstanceAs (Decidable (outcome = .written))
  | .eraseSettles outcome => inferInstanceAs (Decidable (outcome = .written))
  | .copySecretToClipboard _ | .eraseCopiedSecretNow | .flushDueErase | .resume | .timer
  | .abandonedSettles _ _ | .tick _ => .isTrue trivial

/-- Every write succeeds, and an erase that is asked for while copies are on their way finds an earlier
secret pending and no copy waiting. -/
def Covered (p : Page) (e : Event) : Prop :=
  Succeeds e ∧ (e = .eraseCopiedSecretNow → p.underWay ≠ [] →
    p.guard.pendingGeneration.isSome ∧ p.waiting = [] ∧ p.resuming = [])

/-- Once nothing is on its way, an erase that was owed to the secret on the clipboard has begun. -/
def Honoured (p : Page) : Prop :=
  p.underWay = [] → ∀ id, p.clipboard = some id → id ∈ p.owed → id ∈ p.attempted

/-- The copies have numbers of their own. -/
structure Numbered (p : Page) : Prop where
  lt : ∀ id ∈ p.underWay, id < p.calls
  nodup : p.underWay.Nodup
  landed : ∀ id, p.clipboard = some id → id < p.calls ∧ id ∉ p.underWay

structure Owing (p : Page) : Prop where
  sound : p.Sound
  calm : p.Calm
  numbered : p.Numbered
  kept : p.abandoned = []
  known : ∀ id ∈ p.owed, id < p.calls
  later : ∀ copy ∈ p.waiting ++ p.resuming, copy.id ∉ p.owed
  writing : ∀ copy ∈ p.writing, copy.id ∈ p.owed → p.guard.eraseRequested
  requested : p.guard.eraseRequested → p.writing ≠ [] ∧ p.guard.pendingGeneration.isSome
  honoured : ∀ id, p.clipboard = some id → id ∈ p.owed → id ∈ p.attempted ∨ p.guard.eraseRequested

theorem Owing.honours (h : p.Owing) : p.Honoured := by
  intro hnothing id hclipboard howed
  rcases h.honoured id hclipboard howed with hattempted | hrequested
  · exact hattempted
  · have hwriting : p.writing = [] := by
      have hlists := map_eq_nil_iff.1 hnothing
      simp only [append_eq_nil_iff] at hlists
      exact hlists.1.1
    exact absurd hwriting (h.requested hrequested).1

theorem Numbered.perm (h : p.Numbered) (hperm : p'.underWay.Perm p.underWay)
    (hcalls : p'.calls = p.calls) (hclipboard : p'.clipboard = p.clipboard ∨ p'.clipboard = none) :
    p'.Numbered where
  lt id hid := hcalls ▸ h.lt id (hperm.mem_iff.1 hid)
  nodup := hperm.nodup_iff.2 h.nodup
  landed id hid := by
    rcases hclipboard with hsame | hnone
    · rw [hcalls, hperm.mem_iff]
      exact h.landed id (hsame.symm.trans hid)
    · rw [hnone] at hid
      cases hid

/-- A new copy takes the next number. -/
theorem Numbered.call (h : p.Numbered) (hperm : p'.underWay.Perm (p.calls :: p.underWay))
    (hcalls : p'.calls = p.calls + 1) (hclipboard : p'.clipboard = p.clipboard) : p'.Numbered where
  lt id hid := by
    rw [hcalls]
    rcases mem_cons.1 (hperm.mem_iff.1 hid) with rfl | hid
    · exact Nat.lt_succ_self _
    · exact Nat.lt_succ_of_lt (h.lt id hid)
  nodup := by
    rw [hperm.nodup_iff, nodup_cons]
    exact ⟨fun hmem => Nat.lt_irrefl _ (h.lt _ hmem), h.nodup⟩
  landed id hid := by
    obtain ⟨hlt, hnot⟩ := h.landed id (hclipboard.symm.trans hid)
    rw [hcalls, hperm.mem_iff, mem_cons]
    exact ⟨Nat.lt_succ_of_lt hlt, fun hmem => hmem.elim (fun heq => by omega) hnot⟩

/-- A copy that has landed is not on its way. -/
theorem Numbered.settled (h : p.Numbered) {id : ℕ} (hperm : p.underWay.Perm (id :: p'.underWay))
    (hcalls : p'.calls = p.calls) (hclipboard : p'.clipboard = some id) : p'.Numbered where
  lt other hother := by
    rw [hcalls]
    exact h.lt other (hperm.mem_iff.2 (mem_cons_of_mem _ hother))
  nodup := (nodup_cons.1 (hperm.nodup_iff.1 h.nodup)).2
  landed other hother := by
    obtain rfl := some.inj (hclipboard.symm.trans hother)
    rw [hcalls]
    exact ⟨h.lt _ (hperm.mem_iff.2 mem_cons_self), (nodup_cons.1 (hperm.nodup_iff.1 h.nodup)).1⟩

theorem attempted_act (f : Guard → Guard) {id : ℕ} (h : id ∈ p.attempted) :
    id ∈ (p.act f).attempted := by
  show id ∈ ite _ _ _
  split_ifs
  · exact mem_append_right _ h
  · exact h

/-- An erase that begins is for what is on the clipboard. -/
theorem attempted_begins (hnone : p.guard.eraseInFlight = none)
    (hsome : (f p.guard).eraseInFlight.isSome) {id : ℕ} (hclipboard : p.clipboard = some id) :
    id ∈ (p.act f).attempted := by
  show id ∈ ite _ _ _
  rw [if_pos ⟨by rw [hnone]; rfl, hsome⟩, hclipboard]
  exact mem_cons_self

/-- An erase that is tried, where no request is put off or carried out by it. -/
theorem Owing.act (h : p.Owing) (hf : p.guard.Acted (f p.guard))
    (hrequested : (f p.guard).eraseRequested = p.guard.eraseRequested) : (p.act f).Owing where
  sound := h.sound.act h.calm hf
  calm := by
    show _ ∨ (f p.guard).pendingGeneration = none
    rw [hf.pending]
    exact h.calm
  numbered := ⟨h.numbered.lt, h.numbered.nodup, h.numbered.landed⟩
  kept := h.kept
  known := h.known
  later := h.later
  writing copy hcopy howed := hrequested.trans (h.writing copy hcopy howed)
  requested hsome := by
    show _ ∧ (f p.guard).pendingGeneration.isSome
    rw [hf.pending]
    exact h.requested (hrequested.symm.trans hsome)
  honoured id hid howed := by
    rcases h.honoured id hid howed with hattempted | hsome
    · exact .inl (attempted_act f hattempted)
    · exact .inr (hrequested.trans hsome)

theorem Owing.call (h : p.Owing) (clearAfterMs : Option ℚ) : (p.copy clearAfterMs).Owing := by
  have hsound : (p.copy clearAfterMs).Sound :=
    h.sound.step (e := .copySecretToClipboard clearAfterMs) (fun hcall => by simp at hcall) rfl
  have hnew : p.calls ∉ p.owed := fun hmem => Nat.lt_irrefl _ (h.known _ hmem)
  have hcall (id : ℕ) (hid : id ∈ p.owed) : id < p.calls + 1 := Nat.lt_succ_of_lt (h.known id hid)
  unfold Page.copy at hsound ⊢
  dsimp only at hsound ⊢
  split_ifs at hsound ⊢ with hinFlight
  · have hperm : (p.writing ++ (p.waiting ++ [(⟨p.calls, clearAfterMs⟩ : Copy)]) ++ p.resuming).Perm
        (⟨p.calls, clearAfterMs⟩ :: (p.writing ++ p.waiting ++ p.resuming)) := by
      rw [← append_assoc, append_assoc _ [_], singleton_append]
      exact perm_middle
    refine ⟨hsound, h.calm, h.numbered.call (hperm.map Copy.id) rfl rfl, h.kept, hcall, ?_, h.writing,
      h.requested, h.honoured⟩
    intro copy hcopy
    simp only [mem_append, mem_singleton] at hcopy
    rcases hcopy with (hcopy | rfl) | hcopy
    · exact h.later copy (mem_append_left _ hcopy)
    · exact hnew
    · exact h.later copy (mem_append_right _ hcopy)
  · have hperm : (p.writing ++ [(⟨p.calls, clearAfterMs⟩ : Copy)] ++ p.waiting ++ p.resuming).Perm
        (⟨p.calls, clearAfterMs⟩ :: (p.writing ++ p.waiting ++ p.resuming)) := by
      rw [append_assoc p.writing [_], singleton_append, append_assoc, cons_append,
        append_assoc]
      exact perm_middle
    refine ⟨hsound, h.calm, h.numbered.call (hperm.map Copy.id) rfl rfl, h.kept, hcall, h.later, ?_, ?_,
      h.honoured⟩
    · intro copy hcopy howed
      rcases mem_append.1 hcopy with hcopy | hcopy
      · exact h.writing copy hcopy howed
      · obtain rfl := mem_singleton.1 hcopy
        exact absurd howed hnew
    · exact fun hrequested => ⟨by simp [beginCopies], (h.requested hrequested).2⟩

/-- A request that comes while copies are on their way is recorded; otherwise the erase is tried. -/
theorem Owing.eraseNow (h : p.Owing)
    (hcovered : p.underWay ≠ [] → p.guard.pendingGeneration.isSome ∧ p.waiting = [] ∧ p.resuming = []) :
    ({ p with owed := p.underWay ++ p.owed }.act eraseCopiedSecretNow).Owing := by
  by_cases hunderWay : p.underWay = []
  · have hwriting : p.writing = [] := by
      have hlists := map_eq_nil_iff.1 hunderWay
      simp only [append_eq_nil_iff] at hlists
      exact hlists.1.1
    have hcopies : ¬p.guard.copiesInFlight > 0 := by
      rw [h.sound.count, hwriting]
      exact Nat.lt_irrefl 0
    rw [hunderWay]
    refine Owing.act h p.guard.eraseCopiedSecretNow_acted ?_
    unfold eraseCopiedSecretNow
    split_ifs
    · rfl
    · exact attemptErase_requested _
  · obtain ⟨hpending, hwaiting, hresuming⟩ := hcovered hunderWay
    have hwriting : p.writing ≠ [] := by
      intro hnil
      apply hunderWay
      unfold underWay
      rw [hnil, hwaiting, hresuming]
      rfl
    have hcopies : p.guard.copiesInFlight > 0 := by
      rw [h.sound.count]
      exact length_pos_iff.2 hwriting
    have hrecorded : p.guard.eraseCopiedSecretNow = { p.guard with eraseRequested := true } := by
      unfold eraseCopiedSecretNow
      rw [if_neg (by rw [isNone_iff_eq_none]; exact isSome_iff_ne_none.1 hpending),
        if_pos hcopies]
    have hsound : ({ p with owed := p.underWay ++ p.owed }.act eraseCopiedSecretNow).Sound :=
      h.sound.step (e := .eraseCopiedSecretNow) (fun _ => .inl hresuming) rfl
    have hrequested : ({ p with owed := p.underWay ++ p.owed }.act
        eraseCopiedSecretNow).guard.eraseRequested := by
      show p.guard.eraseCopiedSecretNow.eraseRequested
      rw [hrecorded]
    refine ⟨hsound, .inl hresuming, ⟨h.numbered.lt, h.numbered.nodup, h.numbered.landed⟩, h.kept, ?_, ?_,
      fun _ _ _ => hrequested, fun _ => ⟨hwriting, ?_⟩, fun _ _ _ => .inr hrequested⟩
    · intro id hid
      rcases mem_append.1 hid with hid | hid
      · exact h.numbered.lt id hid
      · exact h.known id hid
    · intro copy hcopy
      rw [hwaiting, hresuming] at hcopy
      cases hcopy
    · show p.guard.eraseCopiedSecretNow.pendingGeneration.isSome
      rw [hrecorded]
      exact hpending

theorem Owing.resume (h : p.Owing) : ({ p with resuming := [] }.beginCopies p.resuming).Owing := by
  have hsound : ({ p with resuming := [] }.beginCopies p.resuming).Sound :=
    h.sound.step (e := .resume) (fun hcall => by simp at hcall) rfl
  have hperm : (p.writing ++ p.resuming ++ p.waiting ++ []).Perm (p.writing ++ p.waiting ++ p.resuming) := by
    rw [append_nil, append_assoc, append_assoc]
    exact List.Perm.append_left _ perm_append_comm
  refine ⟨hsound, .inl rfl, h.numbered.perm (hperm.map Copy.id) rfl (.inl rfl), h.kept, h.known, ?_, ?_, ?_,
    h.honoured⟩
  · intro copy hcopy
    change copy ∈ p.waiting ++ [] at hcopy
    rw [append_nil] at hcopy
    exact h.later copy (mem_append_left _ hcopy)
  · intro copy hcopy howed
    rcases mem_append.1 hcopy with hcopy | hcopy
    · exact h.writing copy hcopy howed
    · exact absurd howed (h.later copy (mem_append_right _ hcopy))
  · exact fun hrequested => ⟨append_ne_nil_of_left_ne_nil (h.requested hrequested).1 _,
      (h.requested hrequested).2⟩

/-- A copy lands: the request that was put off is carried out, or put off to the next copy. -/
theorem Owing.lands (h : p.Owing) (hcopy : copy ∈ p.writing) (hresuming : p.resuming = []) :
    (p.finishCopy copy .written).Owing := by
  obtain ⟨hnone, hsettled⟩ := h.sound.settledPage hcopy hresuming .written
  have hperm : (p.writing ++ p.waiting ++ p.resuming).Perm
      (copy :: (p.writing.erase copy ++ p.waiting ++ p.resuming)) :=
    ((perm_cons_erase hcopy).append_right _).append_right _
  have hnumbered : (p.settledPage copy .written).Numbered :=
    h.numbered.settled (hperm.map Copy.id) rfl rfl
  rw [finishCopy_eq]
  have hacted := settleDeferredErase_acted p.now (p.settledPage copy .written).guard
  have hpending : (settleDeferredErase p.now
      (p.settledPage copy .written).guard).pendingGeneration.isSome := by
    rw [hacted.pending]
    rfl
  -- what is left to show is of the request, which is carried out with the last copy on its way
  suffices hrest : (∀ other ∈ p.writing.erase copy, other.id ∈ p.owed →
        (settleDeferredErase p.now (p.settledPage copy .written).guard).eraseRequested) ∧
      ((settleDeferredErase p.now (p.settledPage copy .written).guard).eraseRequested →
        p.writing.erase copy ≠ []) ∧
      (copy.id ∈ p.owed →
        copy.id ∈ ((p.settledPage copy .written).act (·.settleDeferredErase p.now)).attempted ∨
          (settleDeferredErase p.now (p.settledPage copy .written).guard).eraseRequested) by
    refine ⟨hsettled.act (.inl hresuming) hacted, .inl hresuming,
      ⟨hnumbered.lt, hnumbered.nodup, hnumbered.landed⟩, h.kept, h.known, h.later, hrest.1,
      fun hrequested => ⟨hrest.2.1 hrequested, hpending⟩, ?_⟩
    intro id hid howed
    cases hid
    exact hrest.2.2 howed
  by_cases hrequested : p.guard.eraseRequested
  · by_cases hlast : p.writing.erase copy = []
    · have hcopies : (p.settledPage copy .written).guard.copiesInFlight = 0 := by
        rw [hsettled.count]
        exact length_eq_zero_iff.2 hlast
      have hdone := @settleDeferredErase_done p.now (p.settledPage copy .written).guard (.inr hcopies)
      have hbegun := @settleDeferredErase_idle p.now _ (p.settledPage copy .written).guard
        (.inl hrequested) rfl hnone hcopies
      have hsome : (settleDeferredErase p.now
          (p.settledPage copy .written).guard).eraseInFlight.isSome := by
        rw [hbegun]
        rfl
      refine ⟨?_, fun hstill => absurd (hdone.symm.trans hstill) false_ne_true, fun _ => .inl ?_⟩
      · rw [hlast]
        exact forall_mem_nil _
      · exact @attempted_begins (p.settledPage copy .written) (·.settleDeferredErase p.now) hnone hsome
          _ rfl
    · have hcopies : 0 < (p.settledPage copy .written).guard.copiesInFlight := by
        rw [hsettled.count]
        exact length_pos_iff.2 hlast
      have hstill := @settleDeferredErase_busy p.now _ (p.settledPage copy .written).guard
        hrequested rfl hcopies
      rw [hstill]
      exact ⟨fun _ _ _ => hrequested, fun _ => hlast, fun _ => .inr hrequested⟩
  · have hdone := @settleDeferredErase_done p.now (p.settledPage copy .written).guard
      (.inl (eq_false_iff.2 hrequested))
    refine ⟨fun other hother howed => ?_, fun hstill => absurd (hdone.symm.trans hstill) false_ne_true,
      fun howed => absurd (h.writing copy hcopy howed) hrequested⟩
    exact absurd (h.writing other (mem_of_mem_erase hother) howed) hrequested

/-- An erase succeeds: nothing is pending when the copies that waited for it go on. -/
theorem Owing.erased (h : p.Owing) (htarget : p.guard.eraseInFlight = some target)
    (hresuming : p.resuming = []) : (p.finishErase target .written).Owing := by
  obtain ⟨hwriting, hpending⟩ := h.sound.exclusive target htarget
  have hguard : p.guard.finishErase target true =
      { p.guard with
        pendingGeneration := none, deadlineAt := none, overdue := false, timer := none
        eraseInFlight := none, snapshot := ⟨false, none, false⟩ } := by
    obtain ⟨hother, -⟩ | ⟨-, -, heq⟩ | ⟨-, hfalse, -⟩ := p.guard.finishErase_cases target true
    · exact absurd hpending hother
    · exact heq
    · cases hfalse
  have hidle : p.guard.eraseRequested ≠ true := fun hrequested => (h.requested hrequested).1 hwriting
  have hsame : (p.finishErase target .written).guard.eraseRequested = p.guard.eraseRequested := by
    show (p.guard.finishErase target true).eraseRequested = _
    rw [hguard]
  have hperm : (p.writing ++ [] ++ (p.resuming ++ p.waiting)).Perm (p.writing ++ p.waiting ++ p.resuming) := by
    rw [hresuming, append_nil, append_nil, nil_append]
  refine ⟨h.sound.finishErase htarget .written, .inr ?_, h.numbered.perm (hperm.map Copy.id) rfl (.inr rfl),
    h.kept, h.known, ?_, ?_, fun hrequested => absurd (hsame.symm.trans hrequested) hidle, ?_⟩
  · show (p.guard.finishErase target true).pendingGeneration = none
    rw [hguard]
  · intro copy hcopy
    rcases mem_append.1 hcopy with hcopy | hcopy
    · cases hcopy
    · rcases mem_append.1 hcopy with hcopy | hcopy
      · exact h.later copy (mem_append_right _ hcopy)
      · exact h.later copy (mem_append_left _ hcopy)
  · intro copy hcopy
    change copy ∈ p.writing at hcopy
    rw [hwriting] at hcopy
    cases hcopy
  · nofun

theorem Owing.step (h : p.Owing) (hcovered : p.Covered e) (hs : p.step e = some p') : p'.Owing := by
  cases e with
  | copySecretToClipboard clearAfterMs =>
    cases hs
    exact h.call clearAfterMs
  | eraseCopiedSecretNow =>
    cases hs
    exact h.eraseNow (hcovered.2 rfl)
  | flushDueErase =>
    cases hs
    exact h.act (p.guard.flushDueErase_acted p.now) (p.guard.flushDueErase_requested p.now)
  | resume =>
    obtain rfl := some.inj hs
    exact h.resume
  | timer =>
    obtain ⟨-, hs⟩ := task_eq_some hs
    split at hs
    · split_ifs at hs
      cases hs
      have hsame : { p with guard := { p.guard with timer := none } : Page }.Owing :=
        ⟨⟨h.sound.count, h.sound.exclusive, h.sound.idle, h.sound.resumed⟩, h.calm,
          ⟨h.numbered.lt, h.numbered.nodup, h.numbered.landed⟩, h.kept, h.known, h.later, h.writing,
          h.requested, h.honoured⟩
      exact hsame.act (attemptErase_acted _) (attemptErase_requested _)
    · cases hs
  | copySettles copy outcome =>
    obtain ⟨hresuming, hs⟩ := task_eq_some hs
    split_ifs at hs with hcopy
    cases hs
    obtain rfl : outcome = .written := hcovered.1
    exact h.lands hcopy hresuming
  | eraseSettles outcome =>
    obtain ⟨hresuming, hs⟩ := task_eq_some hs
    split at hs
    · rename_i target htarget
      cases hs
      obtain rfl : outcome = .written := hcovered.1
      exact h.erased htarget hresuming
    · cases hs
  | abandonedSettles write landed =>
    obtain ⟨-, hs⟩ := task_eq_some hs
    rw [h.kept, if_neg not_mem_nil] at hs
    cases hs
  | tick ms =>
    obtain ⟨-, hs⟩ := task_eq_some hs
    obtain rfl := some.inj hs
    exact ⟨⟨h.sound.count, h.sound.exclusive, h.sound.idle, h.sound.resumed⟩, h.calm,
      ⟨h.numbered.lt, h.numbered.nodup, h.numbered.landed⟩, h.kept, h.known, h.later, h.writing,
      h.requested, h.honoured⟩

theorem owing_initial (now : ℕ) : (initial now).Owing :=
  ⟨sound_initial now, .inl rfl,
    ⟨forall_mem_nil _, nodup_nil, nofun⟩, rfl, forall_mem_nil _,
    forall_mem_nil _, forall_mem_nil _, nofun, nofun⟩

/-- An erase that is asked for while copies are on their way, with an earlier secret pending and no copy
waiting, is carried out. -/
theorem erase_honoured {now : ℕ} {p : Page} (h : Run step Covered (initial now) p) : p.Honoured := by
  have howing : p.Owing :=
    h.invariant (owing_initial now) fun _ _ _ hp hcovered hs => hp.step hcovered hs
  exact howing.honours

instance (p : Page) (e : Event) : Decidable (p.Covered e) :=
  match e with
  | .eraseCopiedSecretNow =>
    decidable_of_iff (p.underWay ≠ [] → p.guard.pendingGeneration.isSome ∧ p.waiting = [] ∧ p.resuming = [])
      ⟨fun h => ⟨trivial, fun _ => h⟩, fun h => h.2 rfl⟩
  | .copySettles _ _ | .eraseSettles _ | .copySecretToClipboard _ | .flushDueErase | .resume | .timer
  | .abandonedSettles _ _ | .tick _ =>
    decidable_of_iff (Succeeds _) ⟨fun h => ⟨h, fun he => (nomatch he)⟩, And.left⟩

/-- An erase was asked for while a second secret was written, and begins when it is. -/
def erasing : Page :=
  { guard := ⟨2, some 2, some 30000, false, some 30000, some 2, 0, false, ⟨true, some 30000, false⟩⟩
    now := 0, calls := 2, writing := [], waiting := [], resuming := [], abandoned := []
    clipboard := some 1, owed := [1], attempted := [1] }

theorem erase_honoured_sample : erasing.Honoured := by
  have hreplay : replay step Covered (initial 0)
      [.copySecretToClipboard none, .copySettles ⟨0, none⟩ .written, .copySecretToClipboard none,
        .eraseCopiedSecretNow, .copySettles ⟨1, none⟩ .written] = some erasing := rfl
  exact erase_honoured (Run.of_replay hreplay)

/-- An erase that is asked for while the first secret is on its way is forgotten, and so is one that is
asked for while a copy waits for the erase before it. All writes succeed. -/
theorem erase_forgotten :
    (∃ p, Run step (fun _ => Succeeds) (initial 0) p ∧ p.underWay = [] ∧ p.guard.eraseInFlight = none ∧
      p.clipboard = some 0 ∧ 0 ∈ p.owed ∧ 0 ∉ p.attempted) ∧
    ∃ p, Run step (fun _ => Succeeds) (initial 0) p ∧ p.underWay = [] ∧ p.guard.eraseInFlight = none ∧
      p.clipboard = some 1 ∧ 1 ∈ p.owed ∧ 1 ∉ p.attempted := by
  constructor
  · obtain ⟨p, hrun, hkind⟩ := Run.of_any step (fun _ => Succeeds) (initial 0)
      [.copySecretToClipboard none, .eraseCopiedSecretNow, .copySettles ⟨0, none⟩ .written]
      (fun p => decide (p.underWay = [] ∧ p.guard.eraseInFlight = none ∧ p.clipboard = some 0 ∧
        0 ∈ p.owed ∧ 0 ∉ p.attempted)) rfl
    exact ⟨p, hrun, of_decide_eq_true hkind⟩
  · obtain ⟨p, hrun, hkind⟩ := Run.of_any step (fun _ => Succeeds) (initial 0)
      [.copySecretToClipboard none, .copySettles ⟨0, none⟩ .written, .eraseCopiedSecretNow,
        .copySecretToClipboard none, .eraseCopiedSecretNow, .eraseSettles .written, .resume,
        .copySettles ⟨1, none⟩ .written]
      (fun p => decide (p.underWay = [] ∧ p.guard.eraseInFlight = none ∧ p.clipboard = some 1 ∧
        1 ∈ p.owed ∧ 1 ∉ p.attempted)) rfl
    exact ⟨p, hrun, of_decide_eq_true hkind⟩

end Page

end HVault.Clipboard
