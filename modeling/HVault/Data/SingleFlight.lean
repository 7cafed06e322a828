import Mathlib.Data.List.Nodup

/-!
# Calls that share one task

A call either starts a task and registers it, or awaits the task that is registered. When a task
settles, the calls that awaited it become ready in the order they came, the one that started it
first; a call that comes later to a settled task still registered is ready at once, behind the
others. Whoever started the task takes it off the register when it goes on.

`Sound` is what holds of such a register throughout. With it at most one task is open
(`Sound.open_unique`), and a call that goes on without having started its task finds that task no
longer registered (`Sound.freed`).
-/

namespace SingleFlight

open List Function Option

variable {ι β : Type}

/-- A task: the call that started it, the calls that await it and, once settled, its outcome. -/
structure Task (ι β : Type) where
  creator : ι
  waiting : List ι
  outcome : Option β

/-- The tasks, the one registered, and the calls that await one. `ready` are the calls whose task
has settled, in the order they go on. -/
structure Flight (ι β : Type) where
  tasks : ℕ → Option (Task ι β)
  current : Option ℕ
  minted : ℕ
  waits : ι → Option ℕ
  ready : List ι

namespace Flight

/-- No call has come yet. -/
def empty : Flight ι β := ⟨fun _ => none, none, 0, fun _ => none, []⟩

/-- What holds of a register throughout. -/
structure Sound (f : Flight ι β) : Prop where
  /-- The tasks are those that were numbered. -/
  minted : ∀ t, (f.tasks t).isSome ↔ t < f.minted
  /-- An open task is registered. -/
  registered : ∀ t task, f.tasks t = some task → task.outcome = none → f.current = some t
  /-- The call that started the registered task has not gone on. -/
  creator_waits : ∀ t, f.current = some t →
    ∃ task, f.tasks t = some task ∧ f.waits task.creator = some t
  /-- A call that started its task and has not gone on keeps it registered. -/
  creator_current : ∀ i t task, f.waits i = some t → f.tasks t = some task → task.creator = i →
    f.current = some t
  /-- A call awaits an open task, or is ready. -/
  placed : ∀ i t, f.waits i = some t → ∃ task, f.tasks t = some task ∧
    (task.outcome = none → i ∈ task.waiting) ∧ (task.outcome.isSome → i ∈ f.ready)
  ready_waits : ∀ i ∈ f.ready, ∃ t task, f.waits i = some t ∧ f.tasks t = some task ∧
    task.outcome.isSome
  waiting_waits : ∀ t task, f.tasks t = some task → ∀ i ∈ task.waiting,
    f.waits i = some t ∧ task.outcome = none
  /-- The call that started an open task is the first to go on. -/
  first : ∀ t task, f.tasks t = some task → task.outcome = none →
    task.waiting.head? = some task.creator
  ready_nodup : f.ready.Nodup
  waiting_nodup : ∀ t task, f.tasks t = some task → task.waiting.Nodup
  /-- No call goes on from the registered task before the one that started it. -/
  order : ∀ pre i post t task, f.ready = pre ++ i :: post → f.waits i = some t →
    f.current = some t → f.tasks t = some task → i ≠ task.creator → task.creator ∈ pre

/-- What is stored after an entry is written is that entry, or what was stored. -/
theorem eq_or_of_update {κ γ : Type} [DecidableEq κ] {g : κ → Option γ} {a b : κ} {v w : γ}
    (h : update g a (some v) b = some w) : b = a ∧ v = w ∨ b ≠ a ∧ g b = some w := by
  by_cases hba : b = a
  · rw [hba, update_self] at h
    exact .inl ⟨hba, some.inj h⟩
  · rw [update_of_ne hba] at h
    exact .inr ⟨hba, h⟩

variable {f : Flight ι β} {i : ι} {t t' : ℕ} {task task' : Task ι β}

theorem sound_empty : (empty : Flight ι β).Sound where
  minted t := by simp [empty]
  registered t task h := by simp [empty] at h
  creator_waits t h := by simp [empty] at h
  creator_current i t task h := by simp [empty] at h
  placed i t h := by simp [empty] at h
  ready_waits i h := by simp [empty] at h
  waiting_waits t task h := by simp [empty] at h
  first t task h := by simp [empty] at h
  ready_nodup := nodup_nil
  waiting_nodup t task h := by simp [empty] at h
  order pre i post t task h := by simp [empty] at h

namespace Sound

/-- **One task at a time.** -/
theorem open_unique (h : f.Sound) (ht : f.tasks t = some task) (ho : task.outcome = none)
    (ht' : f.tasks t' = some task') (ho' : task'.outcome = none) : t = t' :=
  some.inj ((h.registered t task ht ho).symm.trans (h.registered t' task' ht' ho'))

theorem lt_minted (h : f.Sound) (ht : f.tasks t = some task) : t < f.minted := by
  rw [← h.minted t, ht]
  rfl

/-- **A call that did not start its task goes on only once the task is off the register.** -/
theorem freed (h : f.Sound) {rest : List ι} (hready : f.ready = i :: rest)
    (hi : f.waits i = some t) (ht : f.tasks t = some task) (hne : task.creator ≠ i) :
    f.current ≠ some t := by
  intro hcurrent
  have := h.order [] i rest t task hready hi hcurrent ht (Ne.symm hne)
  simp at this

end Sound

/-! ## What the calls do -/

section Calls

variable [DecidableEq ι]

/-- `i` starts a task and registers it. -/
def start (i : ι) (f : Flight ι β) : Flight ι β where
  tasks := Function.update f.tasks f.minted (some ⟨i, [i], none⟩)
  current := some f.minted
  minted := f.minted + 1
  waits := Function.update f.waits i (some f.minted)
  ready := f.ready

/-- `i` awaits the task `t`. -/
def join (i : ι) (t : ℕ) (f : Flight ι β) : Flight ι β :=
  match f.tasks t with
  | none => f
  | some task =>
    match task.outcome with
    | none =>
      { f with
        tasks := Function.update f.tasks t (some { task with waiting := task.waiting ++ [i] })
        waits := Function.update f.waits i (some t) }
    | some _ =>
      { f with
        waits := Function.update f.waits i (some t)
        ready := f.ready ++ [i] }

/-- The task `t` settles. -/
def settle (t : ℕ) (outcome : β) (f : Flight ι β) : Flight ι β :=
  match f.tasks t with
  | none => f
  | some task =>
    { f with
      tasks := Function.update f.tasks t (some ⟨task.creator, [], some outcome⟩)
      ready := f.ready ++ task.waiting }

/-- `i`, the first of the ready calls, goes on; the one that started its task takes it off the
register. -/
def leave (i : ι) (started : Bool) (f : Flight ι β) : Flight ι β :=
  { f with
    current := if started then none else f.current
    waits := Function.update f.waits i none
    ready := f.ready.tail }

theorem Sound.start (h : f.Sound) (hi : f.waits i = none) (hc : f.current = none) :
    (f.start i).Sound := by
  have hold : ∀ t task, f.tasks t = some task → t ≠ f.minted := fun t task ht =>
    Nat.ne_of_lt (h.lt_minted ht)
  -- no open task was left, so every task there was has its outcome
  have hsettled : ∀ t task, f.tasks t = some task → task.outcome ≠ none := by
    intro t task ht ho
    have := h.registered t task ht ho
    simp [hc] at this
  have hwaits : ∀ j t, f.waits j = some t → j ≠ i := by
    intro j t hj hji
    rw [hji, hi] at hj
    cases hj
  constructor
  case minted =>
    intro t
    by_cases ht : t = f.minted
    · simp [Flight.start, ht]
    · simp only [Flight.start, update_of_ne ht, h.minted]
      omega
  case registered =>
    intro t task ht ho
    rcases eq_or_of_update ht with ⟨rfl, -⟩ | ⟨-, ht⟩
    · rfl
    · exact (hsettled t task ht ho).elim
  case creator_waits =>
    intro t ht
    cases ht
    exact ⟨⟨i, [i], none⟩, by simp [Flight.start], by simp [Flight.start]⟩
  case creator_current =>
    intro j t task hj ht hcreator
    rcases eq_or_of_update ht with ⟨rfl, -⟩ | ⟨htm, ht⟩
    · rfl
    · rcases eq_or_of_update hj with ⟨-, heq⟩ | ⟨-, hj⟩
      · exact (htm heq.symm).elim
      · have := h.creator_current j t task hj ht hcreator
        simp [hc] at this
  case placed =>
    intro j t hj
    rcases eq_or_of_update hj with ⟨rfl, rfl⟩ | ⟨-, hj⟩
    · exact ⟨⟨j, [j], none⟩, by simp [Flight.start], by simp, by simp⟩
    · obtain ⟨task, ht, hopen, hready⟩ := h.placed j t hj
      exact ⟨task, by simp [Flight.start, hold t task ht, ht], hopen, hready⟩
  case ready_waits =>
    intro j hj
    obtain ⟨t, task, hjt, ht, ho⟩ := h.ready_waits j hj
    exact ⟨t, task, by simp [Flight.start, hwaits j t hjt, hjt],
      by simp [Flight.start, hold t task ht, ht], ho⟩
  case waiting_waits =>
    intro t task ht j hj
    rcases eq_or_of_update ht with ⟨rfl, rfl⟩ | ⟨-, ht⟩
    · cases mem_singleton.1 hj
      simp [Flight.start]
    · exact (hsettled t task ht (h.waiting_waits t task ht j hj).2).elim
  case first =>
    intro t task ht ho
    rcases eq_or_of_update ht with ⟨-, rfl⟩ | ⟨-, ht⟩
    · rfl
    · exact (hsettled t task ht ho).elim
  case ready_nodup => exact h.ready_nodup
  case waiting_nodup =>
    intro t task ht
    rcases eq_or_of_update ht with ⟨-, rfl⟩ | ⟨-, ht⟩
    · exact nodup_singleton i
    · exact h.waiting_nodup t task ht
  case order =>
    intro pre j post t task hready hj ht htask hne
    cases ht
    -- a ready call awaits a settled task
    have hready : f.ready = pre ++ j :: post := hready
    obtain ⟨t, task, hjt, ht, -⟩ := h.ready_waits j (by simp [hready])
    rcases eq_or_of_update hj with ⟨hji, -⟩ | ⟨-, hj⟩
    · exact (hwaits j t hjt hji).elim
    · exact (hold t task ht (some.inj (hjt.symm.trans hj))).elim

/-! ### What an operation leaves as it was -/

@[simp] theorem waits_start : (f.start i).waits = Function.update f.waits i (some f.minted) := rfl

@[simp] theorem waits_leave (started : Bool) :
    (f.leave i started).waits = Function.update f.waits i none := rfl

@[simp] theorem tasks_leave (started : Bool) : (f.leave i started).tasks = f.tasks := rfl

theorem waits_join (ht : f.tasks t = some task) :
    (f.join i t).waits = Function.update f.waits i (some t) := by
  simp only [Flight.join, ht]
  cases task.outcome with
  | none => rfl
  | some outcome => rfl

/-- Who joins a task changes neither who started it nor its outcome. -/
theorem tasks_join (u : ℕ) : ((f.join i t).tasks u).map (fun task => (task.creator, task.outcome)) =
    (f.tasks u).map fun task => (task.creator, task.outcome) := by
  unfold Flight.join
  cases ht : f.tasks t with
  | none => rfl
  | some task =>
    dsimp only
    cases ho : task.outcome with
    | some outcome => rfl
    | none =>
      by_cases hu : u = t
      · simp [hu, ht, ho]
      · simp [hu]

/-- A call joins an open task. -/
theorem Sound.join_open (h : f.Sound) (hi : f.waits i = none) (ht : f.tasks t = some task)
    (ho : task.outcome = none) : (f.join i t).Sound := by
  have hjoin : f.join i t = { f with
      tasks := update f.tasks t (some { task with waiting := task.waiting ++ [i] })
      waits := update f.waits i (some t) } := by
    simp only [Flight.join, ht, ho]
  rw [hjoin]
  have hne : ∀ j u, f.waits j = some u → j ≠ i := by
    intro j u hj hji
    rw [hji, hi] at hj
    cases hj
  have hout : i ∉ task.waiting := fun hmem =>
    hne i t (h.waiting_waits t task ht i hmem).1 rfl
  -- a task that has settled is another one
  have hother : ∀ u task', f.tasks u = some task' → task'.outcome.isSome → u ≠ t := by
    intro u task' hu ho' hut
    cases ht.symm.trans (hut ▸ hu)
    simp [ho] at ho'
  constructor
  case minted =>
    intro u
    by_cases hu : u = t
    · simp [hu, ← h.minted, ht]
    · simp [hu, h.minted]
  case registered =>
    intro u task' hu ho'
    rcases eq_or_of_update hu with ⟨rfl, -⟩ | ⟨-, hu⟩
    · exact h.registered u task ht ho
    · exact h.registered u task' hu ho'
  case creator_waits =>
    intro u hu
    obtain ⟨task', hu', hcreator⟩ := h.creator_waits u hu
    have hci := hne _ _ hcreator
    by_cases hut : u = t
    · subst hut
      cases ht.symm.trans hu'
      exact ⟨{ task with waiting := task.waiting ++ [i] }, by simp, by simpa [hci] using hcreator⟩
    · exact ⟨task', by simpa [hut] using hu', by simpa [hci] using hcreator⟩
  case creator_current =>
    intro j u task' hj hu hcreator
    rcases eq_or_of_update hu with ⟨rfl, -⟩ | ⟨hut, hu⟩
    · exact h.registered u task ht ho
    · rcases eq_or_of_update hj with ⟨-, heq⟩ | ⟨-, hj⟩
      · exact (hut heq.symm).elim
      · exact h.creator_current j u task' hj hu hcreator
  case placed =>
    intro j u hj
    rcases eq_or_of_update hj with ⟨rfl, rfl⟩ | ⟨-, hj⟩
    · exact ⟨{ task with waiting := task.waiting ++ [j] }, by simp, by simp, by simp [ho]⟩
    · obtain ⟨task', hu, hopen, hready⟩ := h.placed j u hj
      by_cases hut : u = t
      · subst hut
        cases ht.symm.trans hu
        exact ⟨{ task with waiting := task.waiting ++ [i] }, by simp, fun ho => by simp [hopen ho],
          hready⟩
      · exact ⟨task', by simpa [hut] using hu, hopen, hready⟩
  case ready_waits =>
    intro j hj
    obtain ⟨u, task', hju, hu, ho'⟩ := h.ready_waits j hj
    exact ⟨u, task', by simpa [hne j u hju] using hju, by simpa [hother u task' hu ho'] using hu, ho'⟩
  case waiting_waits =>
    intro u task' hu j hj
    rcases eq_or_of_update hu with ⟨rfl, rfl⟩ | ⟨-, hu⟩
    · refine ⟨?_, ho⟩
      rcases mem_append.1 hj with hj | hj
      · have hju := (h.waiting_waits u task ht j hj).1
        simpa [hne j u hju] using hju
      · simp [mem_singleton.1 hj]
    · obtain ⟨hju, ho'⟩ := h.waiting_waits u task' hu j hj
      exact ⟨by simpa [hne j u hju] using hju, ho'⟩
  case first =>
    intro u task' hu ho'
    rcases eq_or_of_update hu with ⟨rfl, rfl⟩ | ⟨-, hu⟩
    · simp [h.first u task ht ho]
    · exact h.first u task' hu ho'
  case ready_nodup => exact h.ready_nodup
  case waiting_nodup =>
    intro u task' hu
    rcases eq_or_of_update hu with ⟨rfl, rfl⟩ | ⟨-, hu⟩
    · show (task.waiting ++ [i]).Nodup
      rw [nodup_append_comm]
      exact nodup_cons.2 ⟨hout, h.waiting_nodup u task ht⟩
    · exact h.waiting_nodup u task' hu
  case order =>
    intro pre j post u task' hready hj hcurrent hu hcreator
    have hready' : f.ready = pre ++ j :: post := hready
    obtain ⟨u', task'', hju, hu', ho'⟩ := h.ready_waits j (by simp [hready'])
    rcases eq_or_of_update hj with ⟨hji, -⟩ | ⟨-, hj⟩
    · exact (hne j u' hju hji).elim
    · cases hju.symm.trans hj
      rcases eq_or_of_update hu with ⟨hut, -⟩ | ⟨-, hu⟩
      · exact (hother u task'' hu' ho' hut).elim
      · exact h.order pre j post u task' hready hj hcurrent hu hcreator

/-- A call joins a task that has settled and is still registered: it is ready, behind the call that
started the task. -/
theorem Sound.join_settled (h : f.Sound) (hi : f.waits i = none) (ht : f.tasks t = some task)
    (hc : f.current = some t) {outcome : β} (ho : task.outcome = some outcome) :
    (f.join i t).Sound := by
  have hjoin : f.join i t = { f with
      waits := update f.waits i (some t)
      ready := f.ready ++ [i] } := by
    simp only [Flight.join, ht, ho]
  rw [hjoin]
  have hne : ∀ j u, f.waits j = some u → j ≠ i := by
    intro j u hj hji
    rw [hji, hi] at hj
    cases hj
  have hout : i ∉ f.ready := by
    intro hmem
    obtain ⟨u, _, hju, -⟩ := h.ready_waits i hmem
    exact hne i u hju rfl
  constructor
  case minted => exact h.minted
  case registered => exact h.registered
  case creator_waits =>
    intro u hu
    obtain ⟨task', hu', hcreator⟩ := h.creator_waits u hu
    exact ⟨task', hu', by simpa [hne _ _ hcreator] using hcreator⟩
  case creator_current =>
    intro j u task' hj hu hcreator
    rcases eq_or_of_update hj with ⟨-, rfl⟩ | ⟨-, hj⟩
    · exact hc
    · exact h.creator_current j u task' hj hu hcreator
  case placed =>
    intro j u hj
    rcases eq_or_of_update hj with ⟨rfl, rfl⟩ | ⟨-, hj⟩
    · exact ⟨task, ht, by simp [ho], by simp⟩
    · obtain ⟨task', hu, hopen, hready⟩ := h.placed j u hj
      exact ⟨task', hu, hopen, fun ho => mem_append_left _ (hready ho)⟩
  case ready_waits =>
    intro j hj
    rcases mem_append.1 hj with hj | hj
    · obtain ⟨u, task', hju, hu, ho'⟩ := h.ready_waits j hj
      exact ⟨u, task', by simpa [hne j u hju] using hju, hu, ho'⟩
    · rw [mem_singleton.1 hj]
      exact ⟨t, task, by simp, ht, by simp [ho]⟩
  case waiting_waits =>
    intro u task' hu j hj
    obtain ⟨hju, ho'⟩ := h.waiting_waits u task' hu j hj
    exact ⟨by simpa [hne j u hju] using hju, ho'⟩
  case first => exact h.first
  case ready_nodup =>
    show (f.ready ++ [i]).Nodup
    rw [nodup_append_comm]
    exact nodup_cons.2 ⟨hout, h.ready_nodup⟩
  case waiting_nodup => exact h.waiting_nodup
  case order =>
    intro pre j post u task' hready hj hcurrent hu hcreator
    rcases eq_or_of_update hj with ⟨rfl, rfl⟩ | ⟨hji, hj⟩
    · -- it is the last one, and the one that started the task is ready before it
      cases ht.symm.trans hu
      obtain ⟨task', ht', hwaits⟩ := h.creator_waits t hc
      cases ht.symm.trans ht'
      obtain ⟨task', ht', -, hmem⟩ := h.placed task.creator t hwaits
      cases ht.symm.trans ht'
      have hmem : task.creator ∈ f.ready := hmem (by simp [ho])
      have hready : f.ready ++ [j] = pre ++ j :: post := hready
      have hpre : f.ready = pre := by
        rcases append_eq_append_iff.1 hready with ⟨as, hpre, has⟩ | ⟨bs, hbs, hpost⟩
        · cases as with
          | nil => simpa using hpre.symm
          | cons a as => simp at has
        · cases bs with
          | nil => simpa using hbs
          | cons b bs =>
            rw [cons_append, cons.injEq] at hpost
            rw [hbs] at hout
            simp [hpost.1] at hout
      rwa [← hpre]
    · have hready : f.ready ++ [i] = pre ++ j :: post := hready
      -- the call at the end is another one
      obtain ⟨post', hpost⟩ : ∃ post', f.ready = pre ++ j :: post' := by
        rcases eq_nil_or_concat post with rfl | ⟨post', last, rfl⟩
        · have := (append_inj' hready rfl).2
          simp at this
          exact (hji this.symm).elim
        · refine ⟨post', ?_⟩
          rw [concat_eq_append, ← cons_append, ← append_assoc] at hready
          exact (append_inj' hready rfl).1
      exact h.order pre j post' u task' hpost hj hcurrent hu hcreator

/-- A call joins the task that is registered. -/
theorem Sound.join (h : f.Sound) (hi : f.waits i = none) (hc : f.current = some t) :
    (f.join i t).Sound := by
  obtain ⟨task, ht, -⟩ := h.creator_waits t hc
  cases ho : task.outcome with
  | none => exact h.join_open hi ht ho
  | some outcome => exact h.join_settled hi ht hc ho

omit [DecidableEq ι] in
/-- An open task settles: the calls that awaited it are ready behind those that were. -/
theorem Sound.settle (h : f.Sound) (ht : f.tasks t = some task) (ho : task.outcome = none)
    (outcome : β) : (f.settle t outcome).Sound := by
  have hsettle : f.settle t outcome = { f with
      tasks := update f.tasks t (some ⟨task.creator, [], some outcome⟩)
      ready := f.ready ++ task.waiting } := by
    simp only [Flight.settle, ht]
  rw [hsettle]
  have hcurrent : f.current = some t := h.registered t task ht ho
  -- a call that was ready awaits another task
  have hready : ∀ j ∈ f.ready, f.waits j ≠ some t := by
    intro j hj hjt
    obtain ⟨u, task', hju, hu, ho'⟩ := h.ready_waits j hj
    cases hju.symm.trans hjt
    cases ht.symm.trans hu
    simp [ho] at ho'
  constructor
  case minted =>
    intro u
    by_cases hut : u = t
    · simp [hut, ← h.minted, ht]
    · simp [hut, h.minted]
  case registered =>
    intro u task' hu ho'
    rcases eq_or_of_update hu with ⟨rfl, -⟩ | ⟨-, hu⟩
    · exact hcurrent
    · exact h.registered u task' hu ho'
  case creator_waits =>
    intro u hu
    obtain ⟨task', hu', hcreator⟩ := h.creator_waits u hu
    by_cases hut : u = t
    · subst hut
      cases ht.symm.trans hu'
      exact ⟨⟨task.creator, [], some outcome⟩, by simp, hcreator⟩
    · exact ⟨task', by simpa [hut] using hu', hcreator⟩
  case creator_current =>
    intro j u task' hj hu hcreator
    rcases eq_or_of_update hu with ⟨rfl, -⟩ | ⟨-, hu⟩
    · exact hcurrent
    · exact h.creator_current j u task' hj hu hcreator
  case placed =>
    intro j u hj
    obtain ⟨task', hu, hopen, hmem⟩ := h.placed j u hj
    by_cases hut : u = t
    · subst hut
      cases ht.symm.trans hu
      exact ⟨⟨task.creator, [], some outcome⟩, by simp, by simp, fun _ =>
        mem_append_right _ (hopen ho)⟩
    · exact ⟨task', by simpa [hut] using hu, hopen, fun ho => mem_append_left _ (hmem ho)⟩
  case ready_waits =>
    intro j hj
    rcases mem_append.1 hj with hj | hj
    · obtain ⟨u, task', hju, hu, ho'⟩ := h.ready_waits j hj
      have hut : u ≠ t := fun hut => hready j hj (hut ▸ hju)
      exact ⟨u, task', hju, by simpa [hut] using hu, ho'⟩
    · exact ⟨t, ⟨task.creator, [], some outcome⟩, (h.waiting_waits t task ht j hj).1, by simp,
        by simp⟩
  case waiting_waits =>
    intro u task' hu j hj
    rcases eq_or_of_update hu with ⟨-, rfl⟩ | ⟨-, hu⟩
    · cases hj
    · exact h.waiting_waits u task' hu j hj
  case first =>
    intro u task' hu ho'
    rcases eq_or_of_update hu with ⟨-, rfl⟩ | ⟨-, hu⟩
    · cases ho'
    · exact h.first u task' hu ho'
  case ready_nodup =>
    refine nodup_append.2 ⟨h.ready_nodup, h.waiting_nodup t task ht, ?_⟩
    intro j hj k hk hjk
    subst hjk
    exact hready j hj (h.waiting_waits t task ht j hk).1
  case waiting_nodup =>
    intro u task' hu
    rcases eq_or_of_update hu with ⟨-, rfl⟩ | ⟨-, hu⟩
    · exact nodup_nil
    · exact h.waiting_nodup u task' hu
  case order =>
    intro pre j post u task' hsplit hj hcurrent' hu hcreator
    cases hcurrent.symm.trans hcurrent'
    simp only [update_self, some.injEq] at hu
    subst hu
    have hsplit : f.ready ++ task.waiting = pre ++ j :: post := hsplit
    have hfirst := h.first t task ht ho
    -- `j` was not ready before, so the calls before it begin with the one that started the task
    rcases append_eq_append_iff.1 hsplit with ⟨as, rfl, has⟩ | ⟨bs, hbs, hpost⟩
    · cases as with
      | nil =>
        simp only [has, nil_append, head?_cons, some.injEq] at hfirst
        exact (hcreator hfirst).elim
      | cons a as =>
        simp only [has, cons_append, head?_cons, some.injEq] at hfirst
        simp [hfirst]
    · cases bs with
      | nil =>
        simp only [nil_append] at hpost
        simp only [← hpost, head?_cons, some.injEq] at hfirst
        exact (hcreator hfirst).elim
      | cons b bs =>
        simp only [cons_append, cons.injEq] at hpost
        refine (hready j ?_ hj).elim
        simp [hbs, hpost.1]

/-- The first ready call goes on. -/
theorem Sound.leave (h : f.Sound) {rest : List ι} (hready : f.ready = i :: rest)
    (hi : f.waits i = some t) (ht : f.tasks t = some task) :
    (f.leave i (decide (task.creator = i))).Sound := by
  have hmem : ∀ j, j ∈ f.ready ↔ j = i ∨ j ∈ rest := by simp [hready]
  have hrest : i ∉ rest := by
    have := h.ready_nodup
    rw [hready] at this
    exact (nodup_cons.1 this).1
  have hsettled : task.outcome.isSome := by
    obtain ⟨u, task', hiu, hu, ho⟩ := h.ready_waits i ((hmem i).2 (.inl rfl))
    cases hi.symm.trans hiu
    cases ht.symm.trans hu
    exact ho
  have htail : f.ready.tail = rest := by simp [hready]
  -- what is registered afterwards was before, and is not the task `i` started
  have hstill : ∀ u, (f.leave i (decide (task.creator = i))).current = some u →
      f.current = some u ∧ task.creator ≠ i := by
    intro u hu
    by_cases hci : task.creator = i
    · simp [Flight.leave, hci] at hu
    · simpa [Flight.leave, hci] using hu
  have hkept : ∀ u, f.current = some u → (task.creator = i → u ≠ t) →
      (f.leave i (decide (task.creator = i))).current = some u := by
    intro u hu hne
    by_cases hci : task.creator = i
    · have := h.creator_current i t task hi ht hci
      cases hu.symm.trans this
      exact (hne hci rfl).elim
    · simpa [Flight.leave, hci] using hu
  constructor
  case minted => exact h.minted
  case registered =>
    intro u task' hu ho
    refine hkept u (h.registered u task' hu ho) fun _ hut => ?_
    subst hut
    cases ht.symm.trans hu
    simp [ho] at hsettled
  case creator_waits =>
    intro u hu
    obtain ⟨hu, hci⟩ := hstill u hu
    obtain ⟨task', hu', hwaits⟩ := h.creator_waits u hu
    have hne : task'.creator ≠ i := by
      intro hcreator
      rw [hcreator, hi] at hwaits
      cases hwaits
      cases ht.symm.trans hu'
      exact hci hcreator
    exact ⟨task', hu', by simpa [Flight.leave, hne] using hwaits⟩
  case creator_current =>
    intro j u task' hj hu hcreator
    by_cases hji : j = i
    · simp [Flight.leave, hji] at hj
    · simp only [Flight.leave, update_of_ne hji] at hj
      refine hkept u (h.creator_current j u task' hj hu hcreator) fun hci hut => ?_
      subst hut
      cases ht.symm.trans hu
      exact hji (hcreator.symm.trans hci)
  case placed =>
    intro j u hj
    by_cases hji : j = i
    · simp [Flight.leave, hji] at hj
    · simp only [Flight.leave, update_of_ne hji] at hj
      obtain ⟨task', hu, hopen, hready'⟩ := h.placed j u hj
      refine ⟨task', hu, hopen, fun ho => ?_⟩
      have := (hmem j).1 (hready' ho)
      show j ∈ f.ready.tail
      rw [htail]
      exact this.resolve_left hji
  case ready_waits =>
    intro j hj
    have hj : j ∈ f.ready.tail := hj
    rw [htail] at hj
    obtain ⟨u, task', hju, hu, ho⟩ := h.ready_waits j ((hmem j).2 (.inr hj))
    have hji : j ≠ i := by
      intro hji
      exact hrest (hji ▸ hj)
    exact ⟨u, task', by simpa [Flight.leave, hji] using hju, hu, ho⟩
  case waiting_waits =>
    intro u task' hu j hj
    obtain ⟨hju, ho⟩ := h.waiting_waits u task' hu j hj
    have hji : j ≠ i := by
      intro hji
      rw [hji, hi] at hju
      cases hju
      cases ht.symm.trans hu
      simp [ho] at hsettled
    exact ⟨by simpa [Flight.leave, hji] using hju, ho⟩
  case first => exact h.first
  case ready_nodup =>
    show f.ready.tail.Nodup
    exact h.ready_nodup.sublist (tail_sublist _)
  case waiting_nodup => exact h.waiting_nodup
  case order =>
    intro pre j post u task' hsplit hj hu hu' hcreator
    obtain ⟨hu, hci⟩ := hstill u hu
    have hsplit : f.ready.tail = pre ++ j :: post := hsplit
    rw [htail] at hsplit
    have hji : j ≠ i := by
      intro hji
      apply hrest
      simp [hsplit, hji]
    simp only [Flight.leave, update_of_ne hji] at hj
    have hbefore := h.order (i :: pre) j post u task' (by rw [hready, hsplit]; rfl) hj hu hu' hcreator
    refine (mem_cons.1 hbefore).resolve_left fun hcreator' => ?_
    -- `i` would have started the registered task
    obtain ⟨task'', hu'', hwaits⟩ := h.creator_waits u hu
    cases hu'.symm.trans hu''
    rw [hcreator', hi] at hwaits
    cases hwaits
    cases ht.symm.trans hu'
    exact hci hcreator'

end Calls

end Flight

end SingleFlight
