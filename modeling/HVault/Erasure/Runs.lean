import HVault.Interleave.Schedule
import HVault.Interleave.Steps
import HVault.Erasure.Cascade

/-!
# Erasures that overlap

Every law of the erasure is a law of the log of its statements. `Inv` says how the log explains the
account (what verified it, what put `deletionPending` up, what removed it) and in which order the
statements of one run stand in it; `Evolves` says what a statement may do to the store. Both are shown
of each statement, then of each program, and so hold in every run.
-/

namespace HVault.Erasure

open Interleave List Option Bool Prog Event Nat

/-! ## Reading the log -/

abbrev Store.log (s : Store) : List Event := s.history.log

/-- A verification's write or a claim, whatever became of it. -/
def Event.contends : Event → Bool
  | .verify _ => true
  | .claim _ _ => true
  | _ => false

/-- A verification or a claim that succeeded. -/
def Event.wins : Event → Bool
  | .verify landed => landed
  | .claim _ landed => landed
  | _ => false

/-- A write other than a claim that put `deletionPending` up. -/
def Event.preempts : Event → Bool
  | .mark _ landed => landed
  | .pend _ turned => turned
  | _ => false

/-- A write that put `deletionPending` up. -/
def Event.raises : Event → Bool
  | .claim _ landed => landed
  | e => e.preempts

/-- The run whose cascade made the statement on the account's rows. -/
def Event.erasedBy : Event → Option ℕ
  | .batch run _ => some run
  | .sweep run _ _ => some run
  | .remove run _ => some run
  | _ => none

/-- What must stand in the log before `e`: a reaper's claim before its cascade does anything, and
before the account's row goes, its flag and a sweep of every collection by the same run. -/
structure Event.Follows (requests : ℕ → Request) (e : Event) (older : List Event) : Prop where
  claimed : ∀ run, e.erasedBy = some run → (requests run).reaps = true → .claim run true ∈ older
  swept : ∀ run u, e = .remove run u → u.deletionPending = true ∧
    ∀ c, ∃ found, .sweep run (.owned c) found ∈ older

theorem Event.follows_of_erasedBy {requests : ℕ → Request} {e : Event} {older : List Event}
    (h : e.erasedBy = none) : e.Follows requests older := by
  refine ⟨fun run hrun => ?_, fun run u heq => ?_⟩
  · exact nomatch h.symm.trans hrun
  · subst heq
    cases h

def Lawful (requests : ℕ → Request) : List Event → Prop
  | [] => True
  | e :: older => e.Follows requests older ∧ Lawful requests older

theorem Lawful.split {requests : ℕ → Request} {newer older : List Event} {e : Event}
    (h : Lawful requests (newer ++ e :: older)) : e.Follows requests older := by
  induction newer with
  | nil => exact h.1
  | cons _ newer ih => exact ih h.2

/-- An event that changed neither the account's flags nor its row. -/
structure Event.Quiet (e : Event) : Prop where
  wins : e.wins = false
  raises : e.raises = false
  stays : ∀ run u, e ≠ .remove run u

theorem exists_raises_cons {e : Event} {log : List Event} (h : e.raises = false) :
    (∃ e' ∈ e :: log, e'.raises = true) ↔ ∃ e' ∈ log, e'.raises = true := by
  simp [h]

/-! ## The invariant -/

/-- The account as it was and what the log says of it since. -/
structure Origin (s₀ : Store) (log : List Event) (u : User) (u₀ : User) : Prop where
  row : s₀.user = some u₀
  createdAt : u.createdAt = u₀.createdAt
  verified : .verify true ∈ log → u.emailVerified = some true
  unverified : .verify true ∉ log → u.emailVerified = u₀.emailVerified
  pending : u.deletionPending = true ↔ u₀.deletionPending = true ∨ ∃ e ∈ log, e.raises = true

/-- What holds in every state of a run that began in `s₀`. -/
structure Inv (requests : ℕ → Request) (s₀ s : Store) : Prop where
  fresh : ∀ r ∈ s.rows, r.id < s.nextId
  stored : s.rows.length + s.history.deleted = s₀.rows.length + s.history.written
  origin : ∀ u, s.user = some u → ∃ u₀, Origin s₀ s.log u u₀
  gone : s.user = none → ∀ u₀, s₀.user = some u₀ →
    (u₀.deletionPending = true ∨ ∃ e ∈ s.log, e.raises = true) ∧ ∃ run u, .remove run u ∈ s.log
  removed : ∀ run u, .remove run u ∈ s.log → s.user = none
  one_removal : ∀ i j u v, .remove i u ∈ s.log → .remove j v ∈ s.log → i = j
  one_record : s.records.length ≤ 1
  unrecorded : ∀ u, s.user = some u → s.records = []
  lawful : Lawful requests s.log
  one_winner : s.log.countP Event.wins ≤ 1
  decided : ∀ e ∈ s.log, e.contends = true →
    s.log.countP Event.wins = 1 ∨ ∃ e ∈ s.log, e.preempts = true
  claimed : ∀ run, .claim run true ∈ s.log → .verify true ∉ s.log ∧
    ∃ u₀, s₀.user = some u₀ ∧ u₀.emailVerified = some false

/-- What one statement of `run` may do. -/
structure Evolves (run : ℕ) (s s' : Store) : Prop where
  log : s.log <:+ s'.log
  ids : s.nextId ≤ s'.nextId
  rows : ∀ r ∈ s'.rows, r ∈ s.rows ∨ s.nextId ≤ r.id
  deleted : s.history.deleted ≤ s'.history.deleted
  user : ∀ u', s'.user = some u' → ∃ u, s.user = some u ∧
    (u.deletionPending = true → u'.deletionPending = true)
  records : s'.records = s.records ∨ ∃ u, .remove run u ∈ s'.log

theorem Evolves.refl (run : ℕ) (s : Store) : Evolves run s s :=
  ⟨suffix_refl _, le_refl _, fun _ h => .inl h, le_refl _, fun u h => ⟨u, h, id⟩,
    .inl rfl⟩

theorem Evolves.trans {run : ℕ} {s s' s'' : Store} (h : Evolves run s s')
    (h' : Evolves run s' s'') : Evolves run s s'' := by
  refine ⟨h.log.trans h'.log, le_trans h.ids h'.ids, fun r hr => ?_,
    le_trans h.deleted h'.deleted, fun u hu => ?_, ?_⟩
  · rcases h'.rows r hr with hr | hr
    · exact h.rows r hr
    · exact .inr (le_trans h.ids hr)
  · obtain ⟨u', hu', hpending'⟩ := h'.user u hu
    obtain ⟨u'', hu'', hpending⟩ := h.user u' hu'
    exact ⟨u'', hu'', fun h => hpending' (hpending h)⟩
  · rcases h'.records with heq' | hremoved
    · rcases h.records with heq | ⟨u, hremoved⟩
      · exact .inl (heq'.trans heq)
      · exact .inr ⟨u, h'.log.subset hremoved⟩
    · exact .inr hremoved

section Statements

variable {requests : ℕ → Request} {s₀ s : Store} {run : ℕ}

/-! ## The statements keep the invariant -/

theorem Evolves.note (e : Event) : Evolves run s (s.note e) :=
  ⟨suffix_cons _ _, le_refl _, fun _ h => .inl h, le_refl _, fun u h => ⟨u, h, id⟩,
    .inl rfl⟩

variable {log : List Event} {u u₀ : User} {e : Event}

theorem Origin.note (h : Origin s₀ log u u₀) (he : e.Quiet) : Origin s₀ (e :: log) u u₀ := by
  have hverify : e ≠ .verify true := by
    rintro rfl
    exact nomatch he.wins
  refine ⟨h.row, h.createdAt, fun hin => ?_, fun hnot => ?_, ?_⟩
  · rcases mem_cons.1 hin with heq | hin
    · exact (hverify heq.symm).elim
    · exact h.verified hin
  · exact h.unverified fun hin => hnot (mem_cons_of_mem _ hin)
  · exact h.pending.trans (or_congr_right (exists_raises_cons he.raises).symm)

/-- A statement that changed nothing of the account. A verification or a claim among these was
refused: another one won, or another erasure came first. -/
theorem Inv.note (h : Inv requests s₀ s) (he : e.Quiet) (hfollows : e.Follows requests s.log)
    (hlost : e.contends = true →
      (∃ e ∈ s.log, e.wins = true) ∨ ∃ e ∈ s.log, e.preempts = true) :
    Inv requests s₀ (s.note e) := by
  have hcount : (e :: s.log).countP wins = s.log.countP wins := by
    simp [he.wins]
  have hwinner : ∀ e', e' ∈ e :: s.log → e'.wins = true → e' ∈ s.log := by
    intro e' hin hwins
    refine (mem_cons.1 hin).resolve_left fun heq => ?_
    rw [heq, he.wins] at hwins
    cases hwins
  have hremove : ∀ i u, .remove i u ∈ e :: s.log → .remove i u ∈ s.log :=
    fun i u hin => (mem_cons.1 hin).resolve_left (he.stays i u).symm
  refine ⟨h.fresh, h.stored, fun u hu => ?_, fun hnone u₀ hu₀ => ?_, fun i u hin => ?_,
    fun i j u v hi hj => ?_, h.one_record, h.unrecorded, ⟨hfollows, h.lawful⟩, ?_,
    fun e' hin hcontends => ?_, fun i hin => ?_⟩
  · obtain ⟨u₀, horigin⟩ := h.origin u hu
    exact ⟨u₀, horigin.note he⟩
  · obtain ⟨hpending, i, u, hremoved⟩ := h.gone hnone u₀ hu₀
    refine ⟨hpending.imp_right fun ⟨e', hin, hraises⟩ => ?_, i, u, mem_cons_of_mem _ hremoved⟩
    exact ⟨e', mem_cons_of_mem _ hin, hraises⟩
  · exact h.removed i u (hremove i u hin)
  · exact h.one_removal i j u v (hremove i u hi) (hremove j v hj)
  · exact le_trans (le_of_eq hcount) h.one_winner
  · have hdecided : s.log.countP wins = 1 ∨ ∃ e ∈ s.log, e.preempts = true := by
      rcases mem_cons.1 hin with rfl | hin
      · refine (hlost hcontends).imp_left fun hwon => ?_
        have hpos : 0 < s.log.countP wins := countP_pos_iff.2 hwon
        have hone := h.one_winner
        omega
      · exact h.decided e' hin hcontends
    refine hdecided.imp (hcount.trans) ?_
    rintro ⟨e'', hin, hpreempts⟩
    exact ⟨e'', mem_cons_of_mem _ hin, hpreempts⟩
  · obtain ⟨hnot, hfalse⟩ := h.claimed i (hwinner _ hin rfl)
    exact ⟨fun hin => hnot (hwinner _ hin rfl), hfalse⟩

/-! ### Rows -/

theorem Evolves.deleteMany (p : Row → Bool) : Evolves run s (s.deleteMany p).2 :=
  ⟨suffix_refl _, le_refl _, fun _ h => .inl (mem_filter.1 h).1,
    le_add_right _ _, fun u h => ⟨u, h, id⟩, .inl rfl⟩

theorem length_deleteMany (p : Row → Bool) (s : Store) :
    (s.deleteMany p).2.rows.length + (s.deleteMany p).1 = s.rows.length := by
  have hsplit := length_eq_countP_add_countP p (l := s.rows)
  show (s.rows.filter fun r => !p r).length + s.rows.countP p = _
  rw [← countP_eq_length_filter, hsplit, Nat.add_comm]
  simp

theorem Inv.deleteMany (h : Inv requests s₀ s) (p : Row → Bool) :
    Inv requests s₀ (s.deleteMany p).2 := by
  have hlength := length_deleteMany p s
  exact { h with
    fresh := fun r hr => h.fresh r (mem_filter.1 hr).1
    stored := by
      have hstored := h.stored
      show (s.deleteMany p).2.rows.length + (s.history.deleted + (s.deleteMany p).1) =
        s₀.rows.length + s.history.written
      omega }

theorem Evolves.insert (c : Collection) (userId email : Option String) :
    Evolves run s (s.insert c userId email) := by
  refine ⟨suffix_refl _, le_succ _, fun r hr => ?_, le_refl _,
    fun u h => ⟨u, h, id⟩, .inl rfl⟩
  rcases mem_append.1 hr with hr | hr
  · exact .inl hr
  · rw [mem_singleton.1 hr]
    exact .inr (le_refl _)

theorem Inv.insert (h : Inv requests s₀ s) (c : Collection) (userId email : Option String) :
    Inv requests s₀ (s.insert c userId email) :=
  { h with
    fresh := by
      intro r hr
      rcases mem_append.1 hr with hr | hr
      · exact lt_succ_of_lt (h.fresh r hr)
      · rw [mem_singleton.1 hr]
        exact lt_succ_self _
    stored := by
      have hstored := h.stored
      show (s.rows ++ [_]).length + s.history.deleted = s₀.rows.length + (s.history.written + 1)
      rw [length_append, length_singleton]
      omega }

theorem Inv.deleteBatch (h : Inv requests s₀ s) (userId : String) (c : Collection) (ids : List ℕ)
    (hclaimed : (requests run).reaps = true → .claim run true ∈ s.log) :
    Inv requests s₀ (s.deleteBatch userId run c ids).2 := by
  refine (h.deleteMany _).note ⟨rfl, rfl, nofun⟩
    ⟨fun i hi => ?_, nofun⟩ nofun
  cases hi
  exact hclaimed

theorem Evolves.deleteBatch (userId : String) (c : Collection) (ids : List ℕ) :
    Evolves run s (s.deleteBatch userId run c ids).2 :=
  (Evolves.deleteMany _).trans (Evolves.note _)

theorem Inv.sweep (h : Inv requests s₀ s) (userId : String) (sw : Sweep)
    (hclaimed : (requests run).reaps = true → .claim run true ∈ s.log) :
    Inv requests s₀ (s.sweep userId run sw) := by
  refine (h.deleteMany _).note ⟨rfl, rfl, nofun⟩
    ⟨fun i hi => ?_, nofun⟩ nofun
  cases hi
  exact hclaimed

theorem Evolves.sweep (userId : String) (sw : Sweep) : Evolves run s (s.sweep userId run sw) :=
  (Evolves.deleteMany _).trans (Evolves.note _)

/-! ### The account's row and its record -/

theorem Inv.record (h : Inv requests s₀ s) (hremoved : .remove run u ∈ s.log)
    (hnone : s.records = []) (r : DeletionRecord) : Inv requests s₀ (s.record r) :=
  { h with
    one_record := by
      show (r :: s.records).length ≤ 1
      rw [hnone]
      exact le_refl 1
    unrecorded := by
      intro v hv
      have hgone := h.removed run u hremoved
      exact nomatch hgone.symm.trans hv }

theorem Evolves.record (hremoved : .remove run u ∈ s.log) (r : DeletionRecord) :
    Evolves run s (s.record r) :=
  ⟨suffix_refl _, le_refl _, fun _ h => .inl h, le_refl _, fun u h => ⟨u, h, id⟩,
    .inr ⟨u, hremoved⟩⟩

/-- The store without the account's row. -/
def Store.withoutUser (run : ℕ) (u : User) (s : Store) : Store :=
  { s with user := none }.note (.remove run u)

theorem Evolves.withoutUser (u : User) : Evolves run s (s.withoutUser run u) :=
  ⟨suffix_cons _ _, le_refl _, fun _ h => .inl h, le_refl _, nofun,
    .inl rfl⟩

theorem Inv.withoutUser (h : Inv requests s₀ s) (hu : s.user = some u)
    (hfollows : (remove run u).Follows requests s.log) :
    Inv requests s₀ (s.withoutUser run u) := by
  have hnever : ∀ i v, .remove i v ∉ s.log := by
    intro i v hin
    exact nomatch hu.symm.trans (h.removed i v hin)
  have hremove : ∀ i v, .remove i v ∈ remove run u :: s.log → i = run := by
    intro i v hin
    rcases mem_cons.1 hin with heq | hin
    · cases heq
      rfl
    · exact (hnever i v hin).elim
  have hother : ∀ e, e ∈ remove run u :: s.log → e ≠ .remove run u → e ∈ s.log :=
    fun e hin hne => (mem_cons.1 hin).resolve_left hne
  have hcount : (remove run u :: s.log).countP wins = s.log.countP wins := by
    simp [wins]
  refine ⟨h.fresh, h.stored, nofun, fun _ u₀ hu₀ => ?_, fun _ _ _ => rfl,
    fun i j v w hi hj => ?_, h.one_record, nofun, ⟨hfollows, h.lawful⟩, ?_,
    fun e hin hcontends => ?_, fun i hin => ?_⟩
  · obtain ⟨v₀, horigin⟩ := h.origin u hu
    cases hu₀.symm.trans horigin.row
    have hpending := horigin.pending.1 (hfollows.swept run u rfl).1
    refine ⟨hpending.imp_right fun ⟨e, hin, hraises⟩ => ?_, run, u, mem_cons_self⟩
    exact ⟨e, mem_cons_of_mem _ hin, hraises⟩
  · exact (hremove i v hi).trans (hremove j w hj).symm
  · exact le_trans (le_of_eq hcount) h.one_winner
  · have hin := hother e hin fun heq => by
      subst heq
      cases hcontends
    refine (h.decided e hin hcontends).imp (hcount.trans) ?_
    rintro ⟨e', hin', hpreempts⟩
    exact ⟨e', mem_cons_of_mem _ hin', hpreempts⟩
  · obtain ⟨hnot, hfalse⟩ := h.claimed i (hother _ hin nofun)
    refine ⟨fun hin => hnot (hother _ hin nofun), hfalse⟩

/-! ### The account's flags -/

/-- Nobody has won yet, in the log of an account that is neither pending nor verified. -/
theorem Inv.no_winner (h : Inv requests s₀ s) (hu : s.user = some u)
    (hpending : u.deletionPending = false) (hverified : u.emailVerified ≠ some true) :
    s.log.countP wins = 0 := by
  obtain ⟨u₀, horigin⟩ := h.origin u hu
  rw [countP_eq_zero]
  intro e hin hwins
  cases e with
  | verify landed =>
    cases hwins
    exact hverified (horigin.verified hin)
  | claim i landed =>
    cases hwins
    have hraised := horigin.pending.2 (.inr ⟨_, hin, rfl⟩)
    rw [hpending] at hraised
    cases hraised
  | _ => cases hwins

/-- The store with `deletionPending` up and the write that did it noted. -/
def Store.raised (u : User) (e : Event) (s : Store) : Store :=
  { s with user := some { u with deletionPending := true } }.note e

theorem Evolves.raised (hu : s.user = some u) (e : Event) : Evolves run s (s.raised u e) := by
  refine ⟨suffix_cons _ _, le_refl _, fun _ h => .inl h, le_refl _, fun u' hu' => ?_,
    .inl rfl⟩
  cases hu'
  exact ⟨u, hu, fun _ => rfl⟩

theorem Origin.raised (h : Origin s₀ log u u₀) (hraises : e.raises = true) :
    Origin s₀ (e :: log) { u with deletionPending := true } u₀ := by
  have hverify : e ≠ .verify true := by
    rintro rfl
    cases hraises
  refine ⟨h.row, h.createdAt, fun hin => ?_, fun hnot => ?_, ?_⟩
  · rcases mem_cons.1 hin with heq | hin
    · exact (hverify heq.symm).elim
    · exact h.verified hin
  · exact h.unverified fun hin => hnot (mem_cons_of_mem _ hin)
  · exact iff_of_true rfl (.inr ⟨e, mem_cons_self, hraises⟩)

/-- A claim that lands. -/
theorem Inv.claim (h : Inv requests s₀ s) (hu : s.user = some u)
    (hpending : u.deletionPending = false) (hverified : u.emailVerified = some false) :
    Inv requests s₀ (s.raised u (.claim run true)) := by
  have hzero : s.log.countP wins = 0 := by
    refine h.no_winner hu hpending ?_
    rw [hverified]
    exact nofun
  have hcount : (Event.claim run true :: s.log).countP wins = 1 := by
    rw [countP_cons_of_pos rfl, hzero]
  have hnever : .verify true ∉ s.log :=
    fun hin => countP_eq_zero.1 hzero _ hin rfl
  have hremove : ∀ i v, .remove i v ∉ Event.claim run true :: s.log := by
    intro i v hin
    rcases mem_cons.1 hin with heq | hin
    · cases heq
    · exact nomatch hu.symm.trans (h.removed i v hin)
  obtain ⟨u₀, horigin⟩ := h.origin u hu
  refine ⟨h.fresh, h.stored, fun v hv => ?_, nofun,
    fun i v hin => (hremove i v hin).elim, fun i _ v _ hin => (hremove i v hin).elim, h.one_record,
    fun _ _ => h.unrecorded u hu, ⟨follows_of_erasedBy rfl, h.lawful⟩,
    le_of_eq hcount, fun _ _ _ => .inl hcount, fun i _ => ⟨fun hin => ?_, u₀, horigin.row, ?_⟩⟩
  · cases hv
    exact ⟨u₀, horigin.raised rfl⟩
  · rcases mem_cons.1 hin with heq | hin
    · exact nomatch heq
    · exact hnever hin
  · exact (horigin.unverified hnever).symm.trans hverified

/-- A write other than a claim that puts the flag up. -/
theorem Inv.preempt (h : Inv requests s₀ s) (hu : s.user = some u) (he : e.preempts = true) :
    Inv requests s₀ (s.raised u e) := by
  have hwins : e.wins = false := by
    cases e with
    | verify _ | claim _ _ => cases he
    | _ => rfl
  have hraises : e.raises = true := by
    cases e with
    | claim _ _ => exact nomatch he
    | _ => exact he
  have hcount : (e :: s.log).countP wins = s.log.countP wins := by
    simp [hwins]
  have hmem : ∀ e', e' ∈ e :: s.log → e'.preempts = false → e' ∈ s.log := by
    intro e' hin hnot
    refine (mem_cons.1 hin).resolve_left fun heq => ?_
    rw [heq, he] at hnot
    cases hnot
  have hremove : ∀ i v, .remove i v ∉ e :: s.log := fun i v hin =>
    nomatch hu.symm.trans (h.removed i v (hmem _ hin rfl))
  have hfree : e.erasedBy = none := by
    cases e with
    | mark i landed => rfl
    | pend i turned => rfl
    | _ => cases he
  refine ⟨h.fresh, h.stored, fun v hv => ?_, nofun,
    fun i v hin => (hremove i v hin).elim, fun i _ v _ hin => (hremove i v hin).elim, h.one_record,
    fun _ _ => h.unrecorded u hu, ⟨follows_of_erasedBy hfree, h.lawful⟩,
    le_trans (le_of_eq hcount) h.one_winner,
    fun _ _ _ => .inr ⟨e, mem_cons_self, he⟩, fun i hin => ?_⟩
  · cases hv
    obtain ⟨u₀, horigin⟩ := h.origin u hu
    exact ⟨u₀, horigin.raised hraises⟩
  · obtain ⟨hnot, hfalse⟩ := h.claimed i (hmem _ hin rfl)
    exact ⟨fun hin => hnot (hmem _ hin rfl), hfalse⟩

/-- The store with the address verified. -/
def Store.verified (u : User) (s : Store) : Store :=
  { s with user := some { u with emailVerified := some true } }.note (.verify true)

theorem Evolves.verified (hu : s.user = some u) : Evolves run s (s.verified u) := by
  refine ⟨suffix_cons _ _, le_refl _, fun _ h => .inl h, le_refl _, fun u' hu' => ?_,
    .inl rfl⟩
  cases hu'
  exact ⟨u, hu, id⟩

/-- A verification that lands. -/
theorem Inv.verified (h : Inv requests s₀ s) (hu : s.user = some u)
    (hpending : u.deletionPending = false) (hverified : u.emailVerified ≠ some true) :
    Inv requests s₀ (s.verified u) := by
  have hzero := h.no_winner hu hpending hverified
  have hcount : (verify true :: s.log).countP wins = 1 := by
    rw [countP_cons_of_pos rfl, hzero]
  have hclaim : ∀ i, .claim i true ∉ verify true :: s.log := by
    intro i hin
    rcases mem_cons.1 hin with heq | hin
    · cases heq
    · exact countP_eq_zero.1 hzero _ hin rfl
  have hremove : ∀ i v, .remove i v ∉ verify true :: s.log := by
    intro i v hin
    rcases mem_cons.1 hin with heq | hin
    · exact nomatch heq
    · exact nomatch hu.symm.trans (h.removed i v hin)
  refine ⟨h.fresh, h.stored, fun v hv => ?_, nofun,
    fun i v hin => (hremove i v hin).elim, fun i _ v _ hin => (hremove i v hin).elim, h.one_record,
    fun _ _ => h.unrecorded u hu, ⟨follows_of_erasedBy rfl, h.lawful⟩,
    le_of_eq hcount, fun _ _ _ => .inl hcount, fun i hin => (hclaim i hin).elim⟩
  cases hv
  obtain ⟨u₀, horigin⟩ := h.origin u hu
  refine ⟨u₀, horigin.row, horigin.createdAt, fun _ => rfl,
    fun hnot => (hnot mem_cons_self).elim, ?_⟩
  exact horigin.pending.trans (or_congr_right (exists_raises_cons rfl).symm)

/-! ### The updates of the requests -/

/-- A pending account stays pending until it is gone. -/
def Marked (s : Store) : Prop := ∀ u, s.user = some u → u.deletionPending = true

theorem updateUser_cases (filter : User → Bool) (update : User → User) (event : Bool → Event)
    (s : Store) :
    (∃ u, s.user = some u ∧ filter u = true ∧ s.updateUser filter update event =
        (some u, { s with user := some (update u) }.note (event true))) ∨
      (∀ u, s.user = some u → filter u = false) ∧
        s.updateUser filter update event = (none, s.note (event false)) := by
  unfold Store.updateUser
  cases hfilter : s.user.filter filter with
  | some u =>
    obtain ⟨hu, hu'⟩ := filter_eq_some_iff.1 hfilter
    exact .inl ⟨u, hu, hu', rfl⟩
  | none =>
    refine .inr ⟨fun u hu => ?_, rfl⟩
    rw [hu] at hfilter
    simpa using hfilter

theorem Inv.pend (h : Inv requests s₀ s) (run : ℕ) :
    Inv requests s₀ (s.pend run) ∧ Evolves run s (s.pend run) ∧ Marked (s.pend run) := by
  have hmarked : Marked (s.pend run) := by
    intro u hu
    obtain ⟨v, -, rfl⟩ := map_eq_some_iff.1 hu
    rfl
  have hquiet : s.pend run = s.note (.pend run false) →
      Inv requests s₀ (s.pend run) ∧ Evolves run s (s.pend run) := by
    intro heq
    rw [heq]
    exact ⟨h.note ⟨rfl, rfl, nofun⟩ (follows_of_erasedBy rfl)
      nofun, .note _⟩
  refine and_assoc.1 ⟨?_, hmarked⟩
  cases hu : s.user with
  | none => exact hquiet (by simp [Store.pend, hu, Store.note])
  | some u =>
    cases hpending : u.deletionPending with
    | true =>
      have hsame : { u with deletionPending := true } = u := by
        rw [← hpending]
      refine hquiet ?_
      simp [Store.pend, Store.note, hu, hpending, hsame]
    | false =>
      have heq : s.pend run = s.raised u (.pend run true) := by
        simp [Store.pend, Store.raised, hu, hpending]
      rw [heq]
      exact ⟨h.preempt hu rfl, .raised hu _⟩

/-- The owner's mark. -/
theorem Inv.mark (h : Inv requests s₀ s) (run : ℕ) (filter : User → Bool) :
    Inv requests s₀ (s.updateUser filter (fun u => { u with deletionPending := true })
        (.mark run)).2 ∧
      Evolves run s (s.updateUser filter (fun u => { u with deletionPending := true })
        (.mark run)).2 := by
  rcases updateUser_cases filter (fun u => { u with deletionPending := true }) (.mark run) s with
    ⟨u, hu, -, heq⟩ | ⟨-, heq⟩
  · rw [heq]
    exact ⟨h.preempt hu rfl, .raised hu _⟩
  · rw [heq]
    exact ⟨h.note ⟨rfl, rfl, nofun⟩ (follows_of_erasedBy rfl)
      nofun, .note _⟩

/-- Something put the flag up: a claim that won, or another erasure. -/
theorem lost_of_raises (h : ∃ e ∈ log, e.raises = true) :
    (∃ e ∈ log, e.wins = true) ∨ ∃ e ∈ log, e.preempts = true := by
  obtain ⟨e, hin, hraises⟩ := h
  cases e with
  | claim _ _ => exact .inl ⟨_, hin, hraises⟩
  | _ => exact .inr ⟨_, hin, hraises⟩

/-- An account that is not pending was not pending at the start. -/
theorem Inv.live (h : Inv requests s₀ s) (hu : s.user = some u)
    (hpending : u.deletionPending = false) :
    ∃ u₀, s₀.user = some u₀ ∧ u₀.deletionPending = false ∧ u.createdAt = u₀.createdAt ∧
      (u.emailVerified ≠ some true → u.emailVerified = u₀.emailVerified) := by
  obtain ⟨u₀, horigin⟩ := h.origin u hu
  refine ⟨u₀, horigin.row, ?_, horigin.createdAt, fun hverified => ?_⟩
  · rw [← not_eq_true] at hpending ⊢
    exact fun hraised => hpending (horigin.pending.2 (.inl hraised))
  · exact horigin.unverified fun hin => hverified (horigin.verified hin)

/-- An account that was not pending at the start and that a write does not find so any more. -/
theorem Inv.lost (h : Inv requests s₀ s) (hu₀ : s₀.user = some u₀)
    (hlive : u₀.deletionPending = false)
    (hrefused : ∀ u, s.user = some u → u.deletionPending = true ∨ .verify true ∈ s.log) :
    (∃ e ∈ s.log, e.wins = true) ∨ ∃ e ∈ s.log, e.preempts = true := by
  have hnot : ¬ u₀.deletionPending = true := by
    rw [hlive]
    exact nofun
  cases hu : s.user with
  | none => exact lost_of_raises ((h.gone hu u₀ hu₀).1.resolve_left hnot)
  | some u =>
    rcases hrefused u hu with hpending | hverified
    · obtain ⟨v₀, horigin⟩ := h.origin u hu
      cases hu₀.symm.trans horigin.row
      exact lost_of_raises ((horigin.pending.1 hpending).resolve_left hnot)
    · exact .inl ⟨_, hverified, rfl⟩

variable {s' : Store}

/-- The verification's write, after a read that found the account live. -/
theorem Inv.verifyStep (h : Inv requests s₀ s) (run : ℕ) (hu₀ : s₀.user = some u₀)
    (hlive : u₀.deletionPending = false) (hunverified : u₀.emailVerified ≠ some true)
    (hs' : s' = (s.updateUser (fun u => u.emailVerified ≠ some true && !u.deletionPending)
      (fun u => { u with emailVerified := some true }) .verify).2) :
    Inv requests s₀ s' ∧ Evolves run s s' := by
  subst hs'
  rcases updateUser_cases (fun u => u.emailVerified ≠ some true && !u.deletionPending)
    (fun u => { u with emailVerified := some true }) .verify s with
    ⟨u, hu, hfilter, heq⟩ | ⟨hrefused, heq⟩
  · rw [heq]
    simp only [ne_eq, decide_not, and_eq_true, not_eq_true', decide_eq_false_iff_not]
      at hfilter
    exact ⟨h.verified hu hfilter.2 hfilter.1, .verified hu⟩
  · rw [heq]
    refine ⟨h.note ⟨rfl, rfl, nofun⟩ (follows_of_erasedBy rfl) fun _ => ?_,
      .note _⟩
    refine h.lost hu₀ hlive fun u hu => ?_
    have hfilter := hrefused u hu
    simp only [ne_eq, decide_not, and_eq_false_iff, not_eq_false', decide_eq_true_eq]
      at hfilter
    refine hfilter.symm.imp_right fun hverified => ?_
    obtain ⟨v₀, horigin⟩ := h.origin u hu
    cases hu₀.symm.trans horigin.row
    by_contra hin
    exact hunverified ((horigin.unverified hin).symm.trans hverified)

/-- A claim, after a read that found the account provisional. -/
theorem Inv.claimStep (h : Inv requests s₀ s) {cutoff : ℤ} (hu₀ : s₀.user = some u₀)
    (hprovisional : u₀.provisional cutoff = true) {r : Option User × Store}
    (hr : r = s.updateUser (User.provisional cutoff) (fun u => { u with deletionPending := true })
      (.claim run)) :
    Inv requests s₀ r.2 ∧ Evolves run s r.2 ∧ ∀ u, r.1 = some u → .claim run true ∈ r.2.log := by
  subst hr
  simp only [User.provisional, and_eq_true, decide_eq_true_eq, not_eq_true']
    at hprovisional
  rcases updateUser_cases (User.provisional cutoff) (fun u => { u with deletionPending := true })
    (.claim run) s with ⟨u, hu, hfilter, heq⟩ | ⟨hrefused, heq⟩
  · rw [heq]
    simp only [User.provisional, and_eq_true, decide_eq_true_eq, not_eq_true'] at hfilter
    exact ⟨h.claim hu hfilter.2 hfilter.1.1, .raised hu _, fun _ _ => mem_cons_self⟩
  · rw [heq]
    refine ⟨h.note ⟨rfl, rfl, nofun⟩ (follows_of_erasedBy rfl) fun _ => ?_,
      .note _, nofun⟩
    refine h.lost hu₀ hprovisional.2 fun u hu => ?_
    obtain ⟨v₀, horigin⟩ := h.origin u hu
    cases hu₀.symm.trans horigin.row
    by_cases hin : .verify true ∈ s.log
    · exact .inr hin
    · have hfilter := hrefused u hu
      rw [User.provisional, horigin.unverified hin, horigin.createdAt] at hfilter
      exact .inl (by simpa [hprovisional.1.1, hprovisional.1.2] using hfilter)

/-! ### The last sweep and the removal -/

/-- A reaper's cascade has its claim. -/
def Erasing (requests : ℕ → Request) (run : ℕ) (s : Store) : Prop :=
  (requests run).reaps = true → .claim run true ∈ s.log

/-- The deletes of the sweep that `run` has made, and the rows stored when it began: those that a
delete of the sweep matches are gone. -/
structure SweptBy (env : Deployment) (run : ℕ) (made : List Sweep) (s : Store) : Prop where
  noted : ∀ sw ∈ made, ∃ found, .sweep run sw found ∈ s.log
  gone : ∃ found, .sweep run (.owned .auditLog) found ∈ s.log ∧ ∀ r ∈ found, r.id < s.nextId ∧
    ∀ sw ∈ made, sw.matches env.userId r = true → r ∉ s.rows

variable {env : Deployment} {made : List Sweep}

theorem Evolves.erasing {j : ℕ} (h : Evolves j s s') (he : Erasing requests run s) :
    Erasing requests run s' := fun hreaps => h.log.subset (he hreaps)

theorem Evolves.marked {j : ℕ} (h : Evolves j s s') (hm : Marked s) : Marked s' := by
  intro u hu
  obtain ⟨v, hv, hpending⟩ := h.user u hu
  exact hpending (hm v hv)

theorem Evolves.sweptBy {j : ℕ} (h : Evolves j s s') (hs : SweptBy env run made s) :
    SweptBy env run made s' := by
  obtain ⟨found, hfound, hgone⟩ := hs.gone
  refine ⟨fun sw hsw => ?_, found, h.log.subset hfound, fun r hr => ?_⟩
  · obtain ⟨rows, hrows⟩ := hs.noted sw hsw
    exact ⟨rows, h.log.subset hrows⟩
  · obtain ⟨hid, hrow⟩ := hgone r hr
    refine ⟨lt_of_lt_of_le hid h.ids, fun sw hsw hmatch hin => ?_⟩
    -- a row that is back would have a fresh id
    rcases h.rows r hin with hin | hfresh
    · exact hrow sw hsw hmatch hin
    · exact not_le.2 hid hfresh

/-- No row that the delete matches is left by it. -/
theorem not_mem_sweep {sw : Sweep} {r : Row} (hmatch : sw.matches env.userId r = true) :
    r ∉ (s.sweep env.userId run sw).rows := by
  intro hin
  have hnot := (mem_filter.1 hin).2
  rw [hmatch] at hnot
  cases hnot

/-- The delete that begins the sweep. -/
theorem Inv.sweptBy_first (h : Inv requests s₀ s) :
    SweptBy env run [.owned .auditLog] (s.sweep env.userId run (.owned .auditLog)) := by
  refine ⟨fun sw hsw => ?_, s.rows, mem_cons_self, fun r hr => ⟨h.fresh r hr, fun sw hsw => ?_⟩⟩
  · rw [mem_singleton.1 hsw]
    exact ⟨s.rows, mem_cons_self⟩
  · rw [mem_singleton.1 hsw]
    exact not_mem_sweep

theorem SweptBy.sweep (h : SweptBy env run made s) (sw : Sweep) :
    SweptBy env run (sw :: made) (s.sweep env.userId run sw) := by
  have hevolves : Evolves run s (s.sweep env.userId run sw) := .sweep env.userId sw
  have hafter := hevolves.sweptBy h
  obtain ⟨found, hfound, hgone⟩ := hafter.gone
  refine ⟨fun sw' hsw => ?_, found, hfound, fun r hr => ⟨(hgone r hr).1, fun sw' hsw hmatch => ?_⟩⟩
  · rcases mem_cons.1 hsw with rfl | hsw
    · exact ⟨s.rows, mem_cons_self⟩
    · exact hafter.noted sw' hsw
  · rcases mem_cons.1 hsw with rfl | hsw
    · exact not_mem_sweep hmatch
    · exact (hgone r hr).2 sw' hsw hmatch

/-- `run` has swept the whole account. -/
def AllSwept (env : Deployment) (run : ℕ) (s : Store) : Prop :=
  ∃ made, SweptBy env run made s ∧ ∀ c, .owned c ∈ made

theorem Evolves.allSwept {j : ℕ} (h : Evolves j s s') (hs : AllSwept env run s) :
    AllSwept env run s' := by
  obtain ⟨made, hswept, hall⟩ := hs
  exact ⟨made, h.sweptBy hswept, hall⟩

theorem AllSwept.noted (h : AllSwept env run s) (c : Collection) :
    ∃ found, .sweep run (.owned c) found ∈ s.log := by
  obtain ⟨made, hswept, hall⟩ := h
  exact hswept.noted _ (hall c)

/-- No row of the account that was stored when the sweep began is left. -/
theorem AllSwept.gone (h : AllSwept env run s) :
    ∃ found, .sweep run (.owned .auditLog) found ∈ s.log ∧
      ∀ r ∈ found, r.userId = some env.userId → r ∉ s.rows := by
  obtain ⟨made, hswept, hall⟩ := h
  obtain ⟨found, hfound, hgone⟩ := hswept.gone
  refine ⟨found, hfound, fun r hr howner => (hgone r hr).2 _ (hall r.collection) ?_⟩
  simp [Sweep.matches, Row.ownedBy, howner]

theorem allSwept_of_sweptBy (email : String)
    (h : ∀ sw ∈ remainingRows env email, sw ∈ made) (hs : SweptBy env run made s) :
    AllSwept env run s := by
  refine ⟨made, hs, fun c => h _ ?_⟩
  cases c with
  | _ => simp [remainingRows]

theorem mem_made {sw : Sweep} {email : String} (h : sw ∈ remainingRows env email) :
    sw ∈ (remainingRows env email).tail.reverse ++ [.owned .auditLog] := by
  rcases mem_cons.1 h with rfl | h
  · exact mem_append_right _ mem_cons_self
  · exact mem_append_left _ (mem_reverse.2 h)

/-- The removal, after the flag and the sweep. -/
theorem Inv.remove (h : Inv requests s₀ s) (hclaimed : Erasing requests run s) (hmarked : Marked s)
    (hswept : AllSwept env run s) :
    Inv requests s₀ (s.remove run).2 ∧ Evolves run s (s.remove run).2 ∧
      ((s.remove run).1 = true → (∃ u, .remove run u ∈ (s.remove run).2.log) ∧
        (s.remove run).2.records = []) := by
  unfold Store.remove
  cases hu : s.user with
  | none => exact ⟨h, .refl run s, nofun⟩
  | some u =>
    have hfollows : (Event.remove run u).Follows requests s.log := by
      refine ⟨fun i hi => ?_, fun i v heq => ?_⟩
      · cases hi
        exact hclaimed
      · cases heq
        exact ⟨hmarked u hu, hswept.noted⟩
    exact ⟨h.withoutUser hu hfollows, .withoutUser u, fun _ => ⟨⟨u, mem_cons_self⟩,
      h.unrecorded u hu⟩⟩

/-- The rest of the sweep, in one statement. -/
theorem Inv.sweeps (h : Inv requests s₀ s) (hclaimed : Erasing requests run s)
    (hswept : SweptBy env run made s) (sws : List Sweep) :
    Inv requests s₀ (sws.foldl (fun s sw => s.sweep env.userId run sw) s) ∧
      Evolves run s (sws.foldl (fun s sw => s.sweep env.userId run sw) s) ∧
      SweptBy env run (sws.reverse ++ made)
        (sws.foldl (fun s sw => s.sweep env.userId run sw) s) := by
  induction sws generalizing s made with
  | nil => exact ⟨h, .refl run s, hswept⟩
  | cons sw sws ih =>
    have hstep : Evolves run s (s.sweep env.userId run sw) := .sweep env.userId sw
    obtain ⟨hinv, hevolves, hall⟩ := ih (h.sweep env.userId sw hclaimed) (hstep.erasing hclaimed)
      (hswept.sweep sw)
    refine ⟨hinv, hstep.trans hevolves, ?_⟩
    rw [reverse_cons, append_assoc]
    exact hall

/-- The whole sweep, in one statement. -/
theorem Inv.sweepAll (h : Inv requests s₀ s) (env : Deployment) (email : String)
    (hclaimed : Erasing requests run s) :
    Inv requests s₀ ((remainingRows env email).foldl (fun s sw => s.sweep env.userId run sw) s) ∧
      Evolves run s ((remainingRows env email).foldl (fun s sw => s.sweep env.userId run sw) s) ∧
      AllSwept env run
        ((remainingRows env email).foldl (fun s sw => s.sweep env.userId run sw) s) := by
  have hcons : remainingRows env email = .owned .auditLog :: (remainingRows env email).tail := rfl
  have hfirst : Evolves run s (s.sweep env.userId run (.owned .auditLog)) := .sweep env.userId _
  obtain ⟨hinv, hevolves, hswept⟩ := (h.sweep env.userId (.owned .auditLog) hclaimed).sweeps
    (hfirst.erasing hclaimed) h.sweptBy_first (remainingRows env email).tail
  have hall := allSwept_of_sweptBy email (fun _ => mem_made) hswept
  rw [hcons, foldl_cons]
  exact ⟨hinv, hfirst.trans hevolves, hall⟩

/-- The transaction. -/
theorem Inv.commitErasure (h : Inv requests s₀ s) (hclaimed : Erasing requests run s)
    (hmarked : Marked s) (opts : CascadeDeleteOptions) :
    Inv requests s₀ (s.commitErasure env run opts) ∧
      Evolves run s (s.commitErasure env run opts) ∧
      AllSwept env run (s.commitErasure env run opts) := by
  obtain ⟨hinv, hbefore, hall⟩ := h.sweepAll env opts.userEmail hclaimed
  obtain ⟨hinv', hevolves', hremoved⟩ := hinv.remove (hbefore.erasing hclaimed)
    (hbefore.marked hmarked) hall
  unfold Store.commitErasure
  dsimp only
  split
  · rename_i hrecord
    obtain ⟨⟨u, hu⟩, hnone⟩ := hremoved (and_eq_true_iff.1 hrecord).1
    have hrecorded := Evolves.record hu (deletionRecord env opts)
    refine ⟨hinv'.record hu hnone _, (hbefore.trans hevolves').trans hrecorded, ?_⟩
    exact (hevolves'.trans hrecorded).allSwept hall
  · exact ⟨hinv', hbefore.trans hevolves', hevolves'.allSwept hall⟩

end Statements

/-! ## The programs -/

/-- A batch loop that has run out of fuel made more batches than rows have been deleted for. -/
def erasureProtocol (requests : ℕ → Request) (s₀ : Store) : Protocol ℕ Store Site Unit where
  inv s _ := Inv requests s₀ s
  guar i l s _ s' _ := Evolves i s s' ∧
    ∀ c, l = some (.exhausted c) → (requests i).fuel < 2 * s.history.deleted + 2

section Programs

variable {env : Deployment} {requests : ℕ → Request} {s₀ : Store}
  {faults : Site → ErasureError → Bool → Prop} {i : ℕ} {α β : Type}

/-- An assertion that no statement of another run breaks. -/
def Persists (requests : ℕ → Request) (s₀ : Store) (i : ℕ) (P : Store → Prop) : Prop :=
  ∀ j s s', j ≠ i → P s → Evolves j s s' → Inv requests s₀ s' → P s'

variable {P : Store → Prop}

theorem persists_of_evolves (h : ∀ j s s', Evolves j s s' → P s → P s') :
    Persists requests s₀ i P := fun j s s' _ hP he _ => h j s s' he hP

theorem Persists.stable (h : Persists requests s₀ i P) :
    (erasureProtocol requests s₀).Stable i fun s _ => P s :=
  fun j hj _ s _ s' _ _ hP hguar hinv => h j s s' hj hP hguar.1 hinv

variable (requests s₀ faults i) in
/-- From `P`, an answer `a` of the program leaves `M a`. -/
def Leads (P : Store → Prop) (p : Req α) (M : α → Store → Prop) : Prop :=
  Yields (erasureProtocol requests s₀) faults (fun _ _ _ _ => True) i (fun s _ => P s) p
    fun a s _ => M a s

variable {M : β → Store → Prop}

theorem leads_db {l : Site} {f : Store → β × Store} (hP : Persists requests s₀ i P)
    (hl : ∀ c, l ≠ .exhausted c)
    (hstep : ∀ s, Inv requests s₀ s → P s → Inv requests s₀ (f s).2 ∧ Evolves i s (f s).2 ∧
      M (f s).1 (f s).2) : Leads requests s₀ faults i P (db l f) M := by
  have hsite : ∀ (s : Store) c, some l = some (.exhausted c) →
      (requests i).fuel < 2 * s.history.deleted + 2 :=
    fun _ c h => (hl c (some.inj h)).elim
  refine yields_db hP.stable (fun s _ _ _ _ => ⟨.refl i s, hsite s⟩) fun s _ hinv hs _ => ?_
  obtain ⟨hinv', hevolves, hM⟩ := hstep s hinv hs
  exact ⟨(), hinv', ⟨hevolves, hsite s⟩, hM⟩

theorem leads_read {l : Site} {f : Store → β} (hP : Persists requests s₀ i P)
    (hl : ∀ c, l ≠ .exhausted c) (hM : ∀ s, Inv requests s₀ s → P s → M (f s) s) :
    Leads requests s₀ faults i P (read l f) M :=
  leads_db hP hl fun s hinv hs => ⟨hinv, .refl i s, hM s hinv hs⟩

/-- An access whose failure is only logged. -/
theorem leads_attempt_db {M : Store → Prop} {l : Site} {f : Store → β × Store}
    (hP : Persists requests s₀ i P) (hl : ∀ c, l ≠ .exhausted c) (hskip : ∀ s, P s → M s)
    (hstep : ∀ s, Inv requests s₀ s → P s → Inv requests s₀ (f s).2 ∧ Evolves i s (f s).2 ∧
      M (f s).2) : Leads requests s₀ faults i P (db l f).attempt fun _ => M := by
  have hsite : ∀ (s : Store) c, some l = some (.exhausted c) →
      (requests i).fuel < 2 * s.history.deleted + 2 :=
    fun _ c h => (hl c (some.inj h)).elim
  refine yields_attempt_db hP.stable (fun s _ _ hs _ => ⟨⟨.refl i s, hsite s⟩, hskip s hs⟩)
    fun s _ hinv hs _ => ?_
  obtain ⟨hinv', hevolves, hM⟩ := hstep s hinv hs
  exact ⟨(), hinv', ⟨hevolves, hsite s⟩, hM⟩

theorem Leads.bind {N : α → Store → Prop} {p : Req β} {k : β → Req α}
    (hp : Leads requests s₀ faults i P p M) (hk : ∀ b, Leads requests s₀ faults i (M b) (k b) N) :
    Leads requests s₀ faults i P (p.bind k) N := Yields.bind hp hk

/-- A part whose failure the rest of the program goes on from. -/
theorem Leads.attempt_bind {N : α → Store → Prop} {p : Req β} {k : Except ErasureError β → Req α}
    (hp : Leads requests s₀ faults i P p M)
    (hok : ∀ b, Leads requests s₀ faults i (M b) (k (.ok b)) N)
    (herror : ∀ e, Leads requests s₀ faults i (fun _ => True) (k (.error e)) N) :
    Leads requests s₀ faults i P (p.attempt.bind k) N := by
  refine Yields.bind (Yields.attempt hp) fun r => ?_
  cases r with
  | ok b => exact fun s g h => hok b s g (h b rfl)
  | error e => exact fun s g _ => herror e s g trivial

theorem leads_ret {M : α → Store → Prop} {a : α} (h : ∀ s, P s → M a s) :
    Leads requests s₀ faults i P (.ret a) M := yields_ret fun s _ => h s

theorem leads_raise {M : α → Store → Prop} {e : ErasureError} :
    Leads requests s₀ faults i P (.raise e) M := yields_raise

theorem Leads.weaken {P' : Store → Prop} {M M' : α → Store → Prop} {p : Req α}
    (h : Leads requests s₀ faults i P p M) (hP : ∀ s, P' s → P s) (hM : ∀ a s, M a s → M' a s) :
    Leads requests s₀ faults i P' p M' :=
  Yields.conseq h (fun s _ => hP s) fun a s _ => hM a s

theorem persists_true : Persists requests s₀ i fun _ => True := fun _ _ _ _ h _ _ => h

/-! ### The batches -/

/-- The account is marked, and a reaper's cascade has its claim. -/
def Begun (requests : ℕ → Request) (i : ℕ) (s : Store) : Prop := Erasing requests i s ∧ Marked s

theorem Evolves.begun {j : ℕ} {s s' : Store} (h : Evolves j s s') (hs : Begun requests i s) :
    Begun requests i s' := ⟨h.erasing hs.1, h.marked hs.2⟩

/-- The batches made so far are paid for by deleted rows, two for each, and one for a stall. -/
def Paid (requests : ℕ → Request) (i fuel : ℕ) (stalled : Bool) (s : Store) : Prop :=
  Begun requests i s ∧ (requests i).fuel ≤ fuel + 2 * s.history.deleted + stalled.toNat

theorem Evolves.paid {j fuel : ℕ} {stalled : Bool} {s s' : Store} (h : Evolves j s s')
    (hs : Paid requests i fuel stalled s) : Paid requests i fuel stalled s' := by
  refine ⟨h.begun hs.1, le_trans hs.2 ?_⟩
  have hdeleted := h.deleted
  omega

theorem leads_eraseCollection (c : Collection) (fuel : ℕ) (stalled : Bool) :
    Leads requests s₀ faults i (Paid requests i fuel stalled)
      (eraseCollection env i c fuel stalled) fun _ => Begun requests i := by
  induction fuel generalizing stalled with
  | zero =>
    have hbound : ∀ s, Paid requests i 0 stalled s →
        (requests i).fuel < 2 * s.history.deleted + 2 := by
      intro s hs
      have hpaid := hs.2
      have hstalled := toNat_le stalled
      omega
    refine Leads.bind (M := fun _ => Begun requests i) ?_ fun _ => leads_raise
    refine yields_read (persists_of_evolves fun _ _ _ h => h.paid).stable
      (fun s _ _ hs _ => ⟨.refl i s, fun _ _ => hbound s hs⟩) fun s _ _ hs => hs.1
  | succ fuel ih =>
    refine Leads.bind (M := fun _ => Paid requests i (fuel + 1) stalled)
      (leads_read (persists_of_evolves fun _ _ _ h => h.paid) nofun
        fun s _ hs => hs) fun batch => ?_
    split
    · exact leads_ret fun s hs => hs.1
    · -- what the delete of the batch has paid for
      refine Leads.bind (M := fun deletedCount s => Begun requests i s ∧
        (requests i).fuel + 2 * deletedCount ≤ fuel + 1 + 2 * s.history.deleted + stalled.toNat)
        (leads_db (persists_of_evolves fun _ _ _ h => h.paid) nofun
          fun s hinv hs => ?_) fun deletedCount => ?_
      · have hevolves : Evolves i s (s.deleteBatch env.userId i c batch).2 := .deleteBatch ..
        refine ⟨hinv.deleteBatch env.userId c batch hs.1.1, hevolves, hevolves.begun hs.1, ?_⟩
        have hpaid := hs.2
        show (requests i).fuel + 2 * s.rows.countP _ ≤
          fuel + 1 + 2 * (s.history.deleted + s.rows.countP _) + stalled.toNat
        omega
      · split
        · exact leads_ret fun s hs => hs.1
        · split
          · rename_i hnone
            split
            · exact leads_raise
            · rename_i hstalled
              refine (ih true).weaken (fun s hs => ⟨hs.1, ?_⟩) fun _ _ h => h
              have hpaid := hs.2
              rw [not_eq_true] at hstalled
              rw [hnone, hstalled, toNat_false] at hpaid
              show _ ≤ fuel + 2 * s.history.deleted + 1
              omega
          · rename_i hsome
            refine (ih false).weaken (fun s hs => ⟨hs.1, ?_⟩) fun _ _ h => h
            have hstalled := toNat_le stalled
            show _ ≤ fuel + 2 * s.history.deleted + 0
            omega

variable (fuel : ℕ)

theorem leads_eraseCollections (hfuel : (requests i).fuel = fuel) (cs : List Collection) :
    Leads requests s₀ faults i (Begun requests i)
      (eraseCollections env i fuel cs) fun _ => Begun requests i := by
  induction cs with
  | nil => exact leads_ret fun s hs => hs
  | cons c cs ih =>
    refine Leads.bind ((leads_eraseCollection c fuel false).weaken (fun s hs => ⟨hs, ?_⟩)
      fun _ _ h => h) fun _ => ih
    rw [hfuel]
    exact le_trans (le_add_right fuel _) (le_add_right _ _)

theorem leads_eraseInBatches (hfuel : (requests i).fuel = fuel) :
    Leads requests s₀ faults i (Erasing requests i) (eraseInBatches env i fuel)
      fun _ => Begun requests i := by
  refine Leads.bind (leads_db (persists_of_evolves fun _ _ _ h => h.erasing) nofun
    fun s hinv hs => ?_) fun _ => leads_eraseCollections fuel hfuel _
  obtain ⟨hinv', hevolves, hmarked⟩ := hinv.pend i
  exact ⟨hinv', hevolves, hevolves.erasing hs, hmarked⟩

/-! ### The last sweep -/

theorem leads_sweepRows (sws made : List Sweep) :
    Leads requests s₀ faults i (fun s => Begun requests i s ∧ SweptBy env i made s)
      (sweepRows env i sws)
      fun _ s => Begun requests i s ∧ SweptBy env i (sws.reverse ++ made) s := by
  induction sws generalizing made with
  | nil => exact leads_ret fun s hs => hs
  | cons sw sws ih =>
    refine Leads.bind (leads_db (M := fun _ s => Begun requests i s ∧ SweptBy env i (sw :: made) s)
      (persists_of_evolves fun _ _ _ h hs => ⟨h.begun hs.1, h.sweptBy hs.2⟩) nofun
      fun s hinv hs => ?_) fun _ => ?_
    · have hevolves : Evolves i s (s.sweep env.userId i sw) := .sweep env.userId sw
      exact ⟨hinv.sweep env.userId sw hs.1.1, hevolves, hevolves.begun hs.1, hs.2.sweep sw⟩
    · rw [reverse_cons, append_assoc]
      exact ih (sw :: made)

theorem leads_sweepRemainingRows (userEmail : String) :
    Leads requests s₀ faults i (Begun requests i) (sweepRemainingRows env i userEmail)
      fun _ s => Begun requests i s ∧ AllSwept env i s := by
  refine Leads.bind (leads_db (M := fun _ s =>
    Begun requests i s ∧ SweptBy env i [.owned .auditLog] s)
    (persists_of_evolves fun _ _ _ h => h.begun) nofun fun s hinv hs => ?_)
    fun _ => ?_
  · have hevolves : Evolves i s (s.sweep env.userId i (.owned .auditLog)) := .sweep env.userId _
    exact ⟨hinv.sweep env.userId _ hs.1, hevolves, hevolves.begun hs, hinv.sweptBy_first⟩
  · exact (leads_sweepRows (remainingRows env userEmail).tail _).weaken (fun s hs => hs)
      fun _ s hs => ⟨hs.1, allSwept_of_sweptBy userEmail (fun _ => mem_made) hs.2⟩

/-! ### The cascade -/

/-- The right to write the record: nobody else has removed the row, and none is written yet. -/
def Records (i : ℕ) (s : Store) : Prop := (∃ u, .remove i u ∈ s.log) ∧ s.records = []

theorem persists_records : Persists requests s₀ i (Records i) := by
  rintro j s s' hj ⟨⟨u, hu⟩, hnone⟩ hevolves hinv
  have hu' := hevolves.log.subset hu
  refine ⟨⟨u, hu'⟩, ?_⟩
  rcases hevolves.records with heq | ⟨v, hv⟩
  · exact heq.trans hnone
  · exact (hj (hinv.one_removal j i v u hv hu')).elim

variable (opts : CascadeDeleteOptions)

theorem leads_removeUser :
    Leads requests s₀ faults i (fun s => Begun requests i s ∧ AllSwept env i s)
      (removeUser env i opts) fun _ s => AllSwept env i s := by
  refine Leads.bind (leads_db (M := fun removed s => AllSwept env i s ∧
    (removed = true → Records i s)) (persists_of_evolves fun _ _ _ h hs =>
      ⟨h.begun hs.1, h.allSwept hs.2⟩) nofun fun s hinv hs => ?_) fun removed => ?_
  · obtain ⟨hinv', hevolves, hremoved⟩ := hinv.remove hs.1.1 hs.1.2 hs.2
    exact ⟨hinv', hevolves, hevolves.allSwept hs.2, hremoved⟩
  · split
    · rename_i htrue
      have hpersists : Persists requests s₀ i fun s => AllSwept env i s ∧ Records i s := by
        intro j s s' hj hs hevolves hinv
        exact ⟨hevolves.allSwept hs.1, persists_records j s s' hj hs.2 hevolves hinv⟩
      have hrecord : Leads requests s₀ faults i (fun s => AllSwept env i s ∧ Records i s)
          (createDeletionRecord env opts) fun _ s => AllSwept env i s := by
        refine Leads.bind (leads_attempt_db hpersists nofun
          (fun s hs => hs.1) fun s hinv hs => ?_) fun _ => leads_ret fun s hs => hs
        obtain ⟨⟨u, hu⟩, hnone⟩ := hs.2
        have hevolves := Evolves.record hu (deletionRecord env opts)
        exact ⟨hinv.record hu hnone _, hevolves, hevolves.allSwept hs.1⟩
      exact hrecord.weaken (fun s hs => ⟨hs.1, hs.2 htrue⟩) fun _ _ h => h
    · exact leads_ret fun s hs => hs.1

variable {N : Store → Prop}

theorem leads_reassertDeletionPending :
    Leads requests s₀ faults i (fun _ => True) (reassertDeletionPending i)
      fun erased s => erased = true → N s := by
  refine Leads.bind (leads_attempt_db persists_true nofun
    (fun _ _ => trivial) fun s hinv _ => ?_) fun _ => leads_ret nofun
  obtain ⟨hinv', hevolves, -⟩ := hinv.pend i
  exact ⟨hinv', hevolves, trivial⟩

theorem leads_cascadeDeleteSequential (hfuel : (requests i).fuel = opts.fuel) :
    Leads requests s₀ faults i (Erasing requests i) (cascadeDeleteSequential env i opts)
      fun erased s => erased = true → AllSwept env i s := by
  refine Leads.attempt_bind ?_
    (fun _ => leads_ret fun s hs _ => hs) fun _ => leads_reassertDeletionPending
  refine (leads_eraseInBatches opts.fuel hfuel).bind fun _ => ?_
  exact (leads_sweepRemainingRows opts.userEmail).bind fun _ => leads_removeUser opts

theorem leads_cascadeDeleteTransactional (hfuel : (requests i).fuel = opts.fuel) :
    Leads requests s₀ faults i (Erasing requests i) (cascadeDeleteTransactional env i opts)
      fun erased s => erased = true → AllSwept env i s := by
  have hbegun : Persists requests s₀ i (Begun requests i) := persists_of_evolves fun _ _ _ h => h.begun
  have hend : ∀ erased : Bool, Leads requests s₀ faults i (fun s => erased = true → AllSwept env i s)
      ((read .endSession fun _ => ()).bind fun _ => .ret erased)
      fun erased s => erased = true → AllSwept env i s := by
    intro erased
    refine (leads_read (M := fun _ s => erased = true → AllSwept env i s) (l := .endSession)
      (persists_of_evolves fun _ _ _ h hs herased => h.allSwept (hs herased)) nofun
      fun s _ hs => hs).bind fun _ => leads_ret fun s hs => hs
  refine (leads_eraseInBatches opts.fuel hfuel).attempt_bind (fun _ => ?_)
    fun _ => leads_reassertDeletionPending
  refine (leads_read (M := fun _ => Begun requests i) (l := .startSession) hbegun
    nofun fun s _ hs => hs).attempt_bind (fun _ => ?_)
    fun _ => leads_reassertDeletionPending
  refine Leads.attempt_bind (M := fun _ s => AllSwept env i s) (leads_db hbegun
    nofun fun s hinv hs => hinv.commitErasure hs.1 hs.2 opts) (fun _ => ?_) fun _ => ?_
  · exact Leads.bind (leads_ret fun s hs _ => hs) hend
  · exact leads_reassertDeletionPending.bind hend

theorem leads_cascadeDeleteUser (hfuel : (requests i).fuel = opts.fuel) :
    Leads requests s₀ faults i (Erasing requests i) (cascadeDeleteUser env i opts)
      fun erased s => erased = true → AllSwept env i s := by
  unfold cascadeDeleteUser
  split
  · exact leads_cascadeDeleteTransactional opts hfuel
  · exact leads_cascadeDeleteSequential opts hfuel

/-! ### The requests -/

theorem leads_createAuditLog (hN : ∀ s, N s) :
    Leads requests s₀ faults i (fun _ => True) (createAuditLog env) fun _ => N :=
  Leads.bind (leads_attempt_db persists_true
    nofun (fun _ _ => trivial) fun _ hinv _ =>
      ⟨hinv.insert _ _ _, .insert _ _ _, trivial⟩) fun _ => leads_ret fun s _ => hN s

theorem leads_verifyEmail (r : VerifyRequest) :
    Leads requests s₀ faults i (fun _ => True) (verifyEmail env r) fun _ _ => True := by
  unfold verifyEmail
  split
  · exact leads_raise
  · split
    · exact leads_raise
    · -- the read has seen an account that was live and unverified from the start
      refine Leads.bind (leads_read (M := fun user _ => ∀ u, user = some u →
        u.deletionPending = false → u.isVerified = false → ∃ u₀, s₀.user = some u₀ ∧
          u₀.deletionPending = false ∧ u₀.emailVerified ≠ some true) persists_true
        nofun fun s hinv _ u hu hlive hverified => ?_) fun user => ?_
      · obtain ⟨u₀, hu₀, hlive₀, -, hsame⟩ := hinv.live hu hlive
        have hunverified : u.emailVerified ≠ some true := by
          intro heq
          rw [User.isVerified, heq] at hverified
          cases hverified
        rw [hsame hunverified] at hunverified
        exact ⟨u₀, hu₀, hlive₀, hunverified⟩
      · split
        · exact leads_raise
        · split
          · exact leads_raise
          · split
            · exact leads_raise
            · split
              · exact leads_ret fun _ _ => trivial
              · rename_i u hlive _ hverified
                refine Leads.bind (leads_db (M := fun _ _ => True)
                  (persists_of_evolves fun _ _ _ _ h => h) nofun
                  fun s hinv hseen => ?_) fun matched => ?_
                · obtain ⟨u₀, hu₀, hlive₀, hunverified⟩ := hseen u rfl (by simpa using hlive)
                    (by simpa using hverified)
                  have hstep := hinv.verifyStep i hu₀ hlive₀ hunverified rfl
                  exact ⟨hstep.1, hstep.2, trivial⟩
                · split
                  · exact leads_raise
                  · exact leads_createAuditLog fun _ => trivial

/-- A cascade whose failure is only logged. -/
theorem Leads.swallow {p : Req Bool}
    (hp : Leads requests s₀ faults i P p fun erased s => erased = true → N s) :
    Leads requests s₀ faults i P (p.attempt.bind fun
      | .ok erased => .ret erased
      | .error _ => .ret false) fun erased s => erased = true → N s :=
  hp.attempt_bind (fun _ => leads_ret fun _ hs => hs) fun _ => leads_ret nofun

theorem leads_deleteAccount (r : DeleteRequest) (hfuel : (requests i).fuel = r.fuel)
    (hreaps : (requests i).reaps = false) :
    Leads requests s₀ faults i (fun _ => True) (deleteAccount env i r)
      fun erased s => erased = true → AllSwept env i s := by
  have herasing : ∀ s, Erasing requests i s := by
    intro s htrue
    exact nomatch hreaps.symm.trans htrue
  refine Leads.bind (leads_read (M := fun _ _ => True) persists_true
    nofun fun _ _ _ => trivial) fun user => ?_
  split
  · exact leads_raise
  · split
    · have hchecked : Leads requests s₀ faults i (fun _ => True)
          (ofExcept (r.secondFactor.getD (.ok ()))) fun _ _ => True := by
        cases r.secondFactor.getD (.ok ()) with
        | ok _ => exact leads_ret fun _ _ => trivial
        | error _ => exact leads_raise
      refine hchecked.bind fun _ => ?_
      refine Leads.bind (leads_db (M := fun _ _ => True) persists_true
        nofun fun s hinv _ => ?_) fun marked => ?_
      · have hstep := hinv.mark i (fun u => !u.deletionPending &&
          (r.secondFactor.isNone || r.codeUnspent))
        exact ⟨hstep.1, hstep.2, trivial⟩
      · split
        · refine Leads.bind (leads_read (M := fun _ _ => True) persists_true
            nofun fun _ _ _ => trivial) fun live => ?_
          split
          · exact leads_raise
          · exact leads_raise
        · refine Leads.bind ((leads_cascadeDeleteUser _ hfuel).weaken (fun s _ => herasing s)
            fun _ _ h => h) fun deleted => ?_
          split
          · rename_i htrue
            exact leads_ret fun s hs _ => hs htrue
          · exact leads_raise
    · exact (leads_createAuditLog fun _ => trivial).bind fun _ => leads_raise

theorem leads_finishPendingDeletion (recordStored : Bool) (hfuel : (requests i).fuel = fuel)
    (hreaps : (requests i).reaps = false) :
    Leads requests s₀ faults i (fun _ => True) (finishPendingDeletion env i fuel recordStored)
      fun erased s => erased = true → AllSwept env i s := by
  refine Leads.bind (leads_read (M := fun _ _ => True) persists_true
    nofun fun _ _ _ => trivial) fun zombie => ?_
  split
  · exact leads_ret nofun
  · refine ((leads_cascadeDeleteUser _ hfuel).weaken (fun s _ htrue => ?_) fun _ _ h => h).swallow
    exact nomatch hreaps.symm.trans htrue

theorem leads_ownsRows {P : Prop} (cs : List Collection) :
    Leads requests s₀ faults i (fun _ => P) (ownsRows env cs) fun _ _ => P := by
  induction cs with
  | nil => exact leads_ret fun _ h => h
  | cons c cs ih =>
    refine Leads.bind (leads_read (M := fun _ _ => P)
      (persists_of_evolves fun _ _ _ _ h => h) nofun fun _ _ h => h) fun found => ?_
    split
    · exact leads_ret fun _ h => h
    · exact ih

theorem leads_reapAccount (r : ReapRequest) (cutoff : ℤ) (hfuel : (requests i).fuel = r.fuel) :
    Leads requests s₀ faults i
      (fun _ => ∃ u₀, s₀.user = some u₀ ∧ u₀.provisional cutoff = true)
      (reapAccount env i r cutoff) fun erased s => erased = true → AllSwept env i s := by
  refine (leads_ownsRows ownedRowModels).bind fun owns => ?_
  split
  · exact leads_ret nofun
  · refine Leads.bind (leads_db (M := fun claimed s =>
      ∀ u, claimed = some u → .claim i true ∈ s.log) (persists_of_evolves fun _ _ _ _ h => h)
      nofun fun s hinv hseen => ?_) fun claimed => ?_
    · obtain ⟨u₀, hu₀, hprovisional⟩ := hseen
      exact hinv.claimStep hu₀ hprovisional rfl
    · split
      · exact leads_ret nofun
      · exact (leads_cascadeDeleteUser _ hfuel).weaken (fun s hs _ => hs _ rfl) fun _ _ h => h

/-- An account on the reaper's page was provisional from the start. -/
theorem Inv.provisional {s : Store} (h : Inv requests s₀ s) {u : User} (hu : s.user = some u)
    {cutoff : ℤ} (hprovisional : u.provisional cutoff = true) :
    ∃ u₀, s₀.user = some u₀ ∧ u₀.provisional cutoff = true := by
  simp only [User.provisional, and_eq_true, decide_eq_true_eq, not_eq_true']
    at hprovisional
  obtain ⟨u₀, hu₀, hlive, hcreated, hverified⟩ := h.live hu hprovisional.2
  have hunverified : u.emailVerified ≠ some true := by
    rw [hprovisional.1.1]
    exact nofun
  refine ⟨u₀, hu₀, ?_⟩
  simp [User.provisional, hlive, ← hcreated, ← hverified hunverified, hprovisional.1.1,
    hprovisional.1.2]

theorem leads_reapUnverifiedAccounts (r : ReapRequest) (hfuel : (requests i).fuel = r.fuel) :
    Leads requests s₀ faults i (fun _ => True) (reapUnverifiedAccounts env i r)
      fun erased s => erased = true → AllSwept env i s := by
  refine Leads.bind (leads_read (M := fun picked _ => picked = true →
    ∃ u₀, s₀.user = some u₀ ∧ u₀.provisional (r.now - env.unverifiedAccountTtlDays * dayMs) = true)
    persists_true nofun fun s hinv _ hpicked => ?_) fun picked => ?_
  · cases hu : s.user with
    | none =>
      rw [hu] at hpicked
      cases hpicked
    | some u =>
      rw [hu] at hpicked
      exact hinv.provisional hu hpicked
  · split
    · rename_i hpicked
      exact ((leads_reapAccount r _ hfuel).weaken
        (fun s hs => hs (and_eq_true_iff.1 hpicked).1) fun _ _ h => h).swallow
    · exact leads_ret nofun

theorem leads_prog (request : Request) (hrequest : requests i = request) :
    Leads requests s₀ faults i (fun _ => True) (request.prog env i)
      fun erased s => erased = true → AllSwept env i s := by
  have hfuel : (requests i).fuel = request.fuel := congrArg _ hrequest
  have hreaps : (requests i).reaps = request.reaps := congrArg _ hrequest
  cases request with
  | verifyEmail r => exact (leads_verifyEmail r).bind fun _ => leads_ret nofun
  | deleteAccount r => exact leads_deleteAccount r hfuel hreaps
  | finishPendingDeletion fuel recordStored =>
    exact leads_finishPendingDeletion fuel recordStored hfuel hreaps
  | reap r => exact leads_reapUnverifiedAccounts r hfuel
  | cascade opts =>
    refine (leads_cascadeDeleteUser opts hfuel).weaken (fun s _ htrue => ?_) fun _ _ h => h
    exact nomatch hreaps.symm.trans htrue
  | write collection userId email =>
    exact leads_db persists_true nofun fun _ hinv _ =>
      ⟨hinv.insert _ _ _, .insert _ _ _, nofun⟩
  | drop id =>
    exact leads_db persists_true nofun fun _ hinv _ =>
      ⟨hinv.deleteMany _, .deleteMany _, nofun⟩

end Programs

end HVault.Erasure
