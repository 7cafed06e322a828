import HVault.Erasure.Runs

/-!
# What an erasure guarantees

The laws of the erasure in every run, with whatever failures: the reaper takes only accounts that were
never verified, the account's row goes last, its record is written once, and a cascade that is run
again ends with the account's rows gone.
-/

namespace HVault.Erasure

open Interleave Prog List Ends

/-! ## A cascade on its own -/

section Alone

variable {env : Deployment} {run : ℕ}

/-- A batch that nobody else has touched is removed. -/
theorem deleteBatch_pos {c : Collection} {s : Store} (h : (s.batch env.userId c).length ≠ 0) :
    0 < (s.deleteBatch env.userId run c (s.batch env.userId c)).1 := by
  obtain ⟨id, hid⟩ := exists_mem_of_length_pos (Nat.pos_of_ne_zero h)
  obtain ⟨r, hr, rfl⟩ := mem_map.1 hid
  obtain ⟨hrow, howned⟩ := mem_filter.1 (mem_of_mem_take hr)
  refine countP_pos_iff.2 ⟨r, hrow, ?_⟩
  simp only [howned, Bool.true_and, contains_iff_mem]
  exact hid

theorem ends_eraseCollection (c : Collection) (fuel : ℕ) (stalled : Bool) (s : Store)
    (hfuel : s.rows.length < fuel) :
    (eraseCollection env run c fuel stalled).Ends s fun _ s' =>
      s'.rows.length ≤ s.rows.length := by
  induction fuel generalizing s stalled with
  | zero => exact (Nat.not_lt_zero _ hfuel).elim
  | succ fuel ih =>
    refine bind (ends_db (Q := fun batch s' => batch = s.batch env.userId c ∧ s' = s)
      ⟨rfl, rfl⟩) ?_
    rintro _ _ ⟨rfl, rfl⟩
    split
    · exact ends_ret (Nat.le_refl _)
    · rename_i s hbatch
      refine bind (ends_db (Q := fun deletedCount s' =>
        0 < deletedCount ∧ s'.rows.length + deletedCount = s.rows.length)
        ⟨deleteBatch_pos hbatch, length_deleteMany _ s⟩) ?_
      rintro deletedCount s' ⟨hpos, hlength⟩
      have hle : s'.rows.length ≤ s.rows.length := by omega
      split
      · exact ends_ret hle
      · split
        · omega
        · obtain ⟨a, s'', halone, hless⟩ := ih false s' (by omega)
          exact ⟨a, s'', halone, Nat.le_trans hless hle⟩

theorem ends_eraseCollections (fuel : ℕ) (cs : List Collection) (s : Store)
    (hfuel : s.rows.length < fuel) :
    (eraseCollections env run fuel cs).Ends s fun _ _ => True := by
  induction cs generalizing s with
  | nil => exact ends_ret trivial
  | cons c cs ih =>
    refine (ends_eraseCollection c fuel false s hfuel).bind fun _ s' hlength => ?_
    exact ih s' (Nat.lt_of_le_of_lt hlength hfuel)

theorem ends_eraseInBatches (fuel : ℕ) (s : Store) (hfuel : s.rows.length < fuel) :
    (eraseInBatches env run fuel).Ends s fun _ _ => True :=
  bind (ends_db (Q := fun _ s' => s' = s.pend run) rfl) fun _ s' heq =>
    ends_eraseCollections fuel _ s' (heq ▸ hfuel)

/-- No row that a delete of `sws` matches is stored. -/
def Clear (env : Deployment) (sws : List Sweep) (s : Store) : Prop :=
  ∀ r ∈ s.rows, ∀ sw ∈ sws, sw.matches env.userId r = false

theorem Clear.sweep {made : List Sweep} {s : Store} (h : Clear env made s) (sw : Sweep) :
    Clear env (sw :: made) (s.sweep env.userId run sw) := by
  intro r hr sw' hsw
  obtain ⟨hrow, hnot⟩ := mem_filter.1 hr
  rcases mem_cons.1 hsw with rfl | hsw
  · simpa using hnot
  · exact h r hrow sw' hsw

theorem clear_foldl (run : ℕ) {made : List Sweep} {s : Store} (h : Clear env made s) (sws : List Sweep) :
    Clear env (sws.reverse ++ made) (sws.foldl (fun s sw => s.sweep env.userId run sw) s) := by
  induction sws generalizing s made with
  | nil => exact h
  | cons sw sws ih =>
    rw [reverse_cons, append_assoc]
    exact ih (h.sweep sw)

theorem ends_sweepRows (sws : List Sweep) (s : Store) :
    (sweepRows env run sws).Ends s fun _ s' =>
      s' = sws.foldl (fun s sw => s.sweep env.userId run sw) s := by
  induction sws generalizing s with
  | nil => exact ends_ret rfl
  | cons sw sws ih =>
    refine bind (ends_db (Q := fun _ s' => s' = s.sweep env.userId run sw) rfl) ?_
    rintro _ _ rfl
    exact ih _

/-- The account is gone, and every row it owned. -/
def Erased (env : Deployment) (s : Store) : Prop :=
  s.user = none ∧ ∀ r ∈ s.rows, r.userId ≠ some env.userId

theorem erased_of_clear {s : Store} (email : String) (hnone : s.user = none)
    (h : Clear env (remainingRows env email) s) : Erased env s := by
  refine ⟨hnone, fun r hr howner => ?_⟩
  have hin : .owned r.collection ∈ remainingRows env email := by
    cases r.collection with
    | _ => simp [remainingRows]
  have hnot := h r hr _ hin
  simp [Sweep.matches, Row.ownedBy, howner] at hnot

theorem clear_remainingRows (run : ℕ) (email : String) (s : Store) :
    Clear env (remainingRows env email)
      ((remainingRows env email).foldl (fun s sw => s.sweep env.userId run sw) s) := by
  have hnothing : Clear env [] s := nofun
  have hall := clear_foldl run hnothing (remainingRows env email)
  intro r hr sw hsw
  exact hall r hr sw (mem_append_left _ (mem_reverse.2 hsw))

theorem user_remove (s : Store) : (s.remove run).2.user = none := by
  unfold Store.remove
  cases hu : s.user with
  | none => exact hu
  | some u => rfl

theorem rows_remove (s : Store) : (s.remove run).2.rows = s.rows := by
  unfold Store.remove
  cases hu : s.user with
  | none => rfl
  | some u => rfl

theorem erased_remove (run : ℕ) {s : Store} {email : String} (h : Clear env (remainingRows env email) s) :
    Erased env (s.remove run).2 := by
  refine erased_of_clear email (user_remove s) fun r hr => ?_
  rw [rows_remove] at hr
  exact h r hr

theorem erased_commitErasure (opts : CascadeDeleteOptions) (s : Store) :
    Erased env (s.commitErasure env run opts) := by
  have herased : Erased env _ := erased_remove run (clear_remainingRows run opts.userEmail s)
  unfold Store.commitErasure
  dsimp only
  split
  · exact herased
  · exact herased

theorem ends_removeUser (opts : CascadeDeleteOptions) {s : Store}
    (h : Clear env (remainingRows env opts.userEmail) s) :
    (removeUser env run opts).Ends s fun _ => Erased env := by
  refine bind (ends_db (Q := fun _ => Erased env) (erased_remove run h)) fun removed s' hs' => ?_
  split
  · exact attempt_bind (ends_db hs') fun _ _ h => ends_ret h
  · exact ends_ret hs'

/-- Whatever state an earlier failure has left, a cascade that runs alone without a failure erases
the account. -/
theorem ends_cascadeDeleteUser (opts : CascadeDeleteOptions) (s : Store)
    (hfuel : s.rows.length < opts.fuel) :
    (cascadeDeleteUser env run opts).Ends s fun erased s' => erased = true ∧ Erased env s' := by
  unfold cascadeDeleteUser
  split
  · refine (ends_eraseInBatches opts.fuel s hfuel).attempt_bind fun _ s' _ => ?_
    refine attempt_bind (ends_db (Q := fun _ _ => True) trivial) fun _ s' _ => ?_
    refine attempt_bind (ends_db (Q := fun _ => Erased env) (erased_commitErasure opts s'))
      fun _ s' hs' => ?_
    refine bind (ends_ret (Q := fun erased s' => erased = true ∧ Erased env s') ⟨rfl, hs'⟩)
      fun erased s' hs' => ?_
    exact bind (ends_db hs') fun _ _ h =>
      ends_ret h
  · refine attempt_bind ?_ fun _ _ h => ends_ret ⟨rfl, h⟩
    refine (ends_eraseInBatches opts.fuel s hfuel).bind fun _ s' _ => ?_
    refine (ends_sweepRows (remainingRows env opts.userEmail) s').bind ?_
    rintro _ _ rfl
    exact ends_removeUser opts (clear_remainingRows run opts.userEmail s')

end Alone

/-! ## The law of the runs -/

/-- The requests of one account: the request `i` may arrive once. -/
def erasureSystem (env : Deployment) (requests : ℕ → Request)
    (faults : Site → ErasureError → Bool → Prop) : System ℕ Store Site ErasureError Bool where
  admits i p := p = (requests i).prog env i
  faults

/-- A store that nothing of the run has touched yet: ids are taken from below `nextId`, and an
account that is there has no record of its erasure. -/
structure Store.Untouched (s : Store) : Prop where
  log : s.log = []
  written : s.history.written = 0
  deleted : s.history.deleted = 0
  fresh : ∀ r ∈ s.rows, r.id < s.nextId
  one_record : s.records.length ≤ 1
  unrecorded : ∀ u, s.user = some u → s.records = []

theorem Store.Untouched.inv {requests : ℕ → Request} {s : Store} (h : s.Untouched) :
    Inv requests s s where
  fresh := h.fresh
  stored := by rw [h.written, h.deleted]
  origin u hu := by
    refine ⟨u, hu, rfl, fun hin => ?_, fun _ => rfl, ?_⟩
    · rw [h.log] at hin
      cases hin
    · simp [h.log]
  gone hnone u hu := nomatch hnone.symm.trans hu
  removed run u hin := by
    rw [h.log] at hin
    exact nomatch hin
  one_removal i j u v hin := by
    rw [h.log] at hin
    cases hin
  one_record := h.one_record
  unrecorded := h.unrecorded
  lawful := by
    rw [h.log]
    exact trivial
  one_winner := by simp [h.log]
  decided e hin := by
    rw [h.log] at hin
    exact nomatch hin
  claimed run hin := by
    rw [h.log] at hin
    cases hin

/-- What holds of a configuration that a run from `s₀` has reached. -/
structure ErasureLaw (env : Deployment) (requests : ℕ → Request) (s₀ : Store)
    (c : Config ℕ Store Site ErasureError Bool) : Prop where
  /-- The account's flags are what the log says, -/
  account : ∀ u, c.store.user = some u → ∃ u₀, Origin s₀ c.store.log u u₀
  /-- and its row is gone only where a run has removed it. -/
  removed : ∀ u₀, s₀.user = some u₀ → c.store.user = none →
    ∃ run u, .remove run u ∈ c.store.log
  /-- A reaper's cascade deletes nothing before its claim. -/
  claimed_first : ∀ newer e older run, c.store.log = newer ++ e :: older →
    e.erasedBy = some run → (requests run).reaps = true → .claim run true ∈ older
  /-- An account that a reaper has claimed was never verified, and never is. -/
  never_verified : ∀ run, .claim run true ∈ c.store.log → .verify true ∉ c.store.log ∧
    ∃ u₀, s₀.user = some u₀ ∧ u₀.emailVerified = some false
  /-- Of the verifications and the claims at most one succeeds, -/
  at_most_one : c.store.log.countP Event.wins ≤ 1
  /-- and one does, once one was tried, unless another erasure has put the flag up. -/
  exactly_one : (∃ e ∈ c.store.log, e.contends = true) →
    (∀ e ∈ c.store.log, e.preempts = false) → c.store.log.countP Event.wins = 1
  /-- The account's row was removed pending, after the same run had swept every collection. -/
  removed_last : ∀ newer run u older, c.store.log = newer ++ .remove run u :: older →
    u.deletionPending = true ∧ ∀ col, ∃ found, .sweep run (.owned col) found ∈ older
  one_record : c.store.records.length ≤ 1
  /-- A run that has erased the account left none of its rows that were stored when the run's sweep
  began. -/
  swept : ∀ run, c.resultOf run = some (.ok true) →
    ∃ found, .sweep run (.owned .auditLog) found ∈ c.store.log ∧
      ∀ r ∈ found, r.userId = some env.userId → r ∉ c.store.rows
  /-- A batch loop ends, whatever the other runs delete: it makes at most two batches for each row
  that was ever stored, and one more. -/
  batches_end : ∀ run col, c.nextSite run = some (.exhausted col) →
    (requests run).fuel < 2 * (s₀.rows.length + c.store.history.written) + 2
  /-- Run again from here, alone and without a failure, the cascade erases the account. -/
  rerun : ∀ run opts, c.store.rows.length < opts.fuel →
    (cascadeDeleteUser env run opts).Ends c.store fun erased s => erased = true ∧ Erased env s

section Runs

variable {env : Deployment} {requests : ℕ → Request} {faults : Site → ErasureError → Bool → Prop}
  {s₀ : Store} {c : Config ℕ Store Site ErasureError Bool}

theorem erasure_sound :
    Sound (erasureSystem env requests faults) (erasureProtocol requests s₀) (fun _ _ _ _ => True)
      (fun _ _ _ => True) (fun _ _ _ => True)
      fun i r s _ => ∀ erased, r = .ok erased → erased = true → AllSwept env i s := by
  refine ⟨fun i p hp s g _ _ => ?_, fun _ => .const True, fun i r => ?_, fun _ _ _ _ _ _ _ => trivial⟩
  · have hp' : p = (requests i).prog env i := hp
    rw [hp']
    refine (leads_prog (requests i) rfl s g trivial).mono fun r s _ hr hinv => ?_
    exact ⟨(), hinv, ⟨.refl i s, nofun⟩, hr⟩
  · intro j _ l s _ s' _ _ hs hguar _ erased hr herased
    exact hguar.1.allSwept (hs erased hr herased)

/-- **Account erasure is idempotent and takes no verified account by mistake**, in every
interleaving of the requests and whatever fails. -/
theorem erasure_law (hstart : s₀.Untouched)
    (hrun : Reach (erasureSystem env requests faults) (Config.start s₀) c) :
    ErasureLaw env requests s₀ c := by
  have hS : Sound (erasureSystem env requests faults) (erasureProtocol requests s₀) _ _ _ _ :=
    erasure_sound
  have hinv₀ : (erasureProtocol requests s₀).inv s₀ () := hstart.inv
  obtain ⟨g, hat⟩ := hS.reaches_start hinv₀ (fun _ => trivial) hrun
  have hinv : Inv requests s₀ c.store := hat.1
  refine ⟨hinv.origin, fun u₀ hu₀ hnone => (hinv.gone hnone u₀ hu₀).2,
    fun newer e older run hlog hrun => ?_, hinv.claimed, hinv.one_winner, ?_,
    fun newer run u older hlog => ?_, hinv.one_record, fun run hresult => ?_, fun run col hsite => ?_,
    fun run opts hfuel => ends_cascadeDeleteUser opts c.store hfuel⟩
  · have hlawful := hinv.lawful
    rw [hlog] at hlawful
    exact hlawful.split.claimed run hrun
  · rintro ⟨e, hin, hcontends⟩ hfirst
    refine (hinv.decided e hin hcontends).resolve_right ?_
    rintro ⟨e', hin', hpreempts⟩
    rw [hfirst e' hin'] at hpreempts
    cases hpreempts
  · have hlawful := hinv.lawful
    rw [hlog] at hlawful
    exact hlawful.split.swept run u rfl
  · obtain ⟨p, hp, hresult⟩ := Option.bind_eq_some_iff.1 hresult
    have hknown := (hat.2 run).known
    rw [hp] at hknown
    exact (hknown _ hresult true rfl rfl).gone
  · obtain ⟨_, _, hguar, -⟩ := hS.run hat trivial (CStep.advance hsite)
    have hfuel := hguar.2 col rfl
    have hstored := hinv.stored
    omega

end Runs

/-! ### A verification that comes too late -/

def plainDeployment : Deployment where
  userId := "owner"
  supportsTransactions := false
  unverifiedAccountTtlDays := 1
  generateStateHash := id
  canonicalEmail := id

/-- An account that was never verified, a row of its log, and a row of another account. -/
def lapsedStore : Store where
  user := some ⟨"owner@example.org", some false, false, 0⟩
  rows := [⟨0, .auditLog, some "owner", none⟩, ⟨1, .vaultItem, some "other", none⟩]
  nextId := 2
  records := []
  history := ⟨[], 0, 0⟩

/-- The reaper (`0`) and the owner's verification. -/
def reaperAndOwner : ℕ → Request
  | 0 => .reap ⟨2 * dayMs, false, 4, true⟩
  | _ => .verifyEmail ⟨some ⟨"email_verification", "false"⟩⟩

/-- The owner's request has read the account; the reaper has claimed and erased it; the owner's
write finds nothing. -/
def lapsed : Config ℕ Store Site ErasureError Bool :=
  (((Config.start lapsedStore).join 0 ((reaperAndOwner 0).prog plainDeployment 0)).join 1
    ((reaperAndOwner 1).prog plainDeployment 1)).follow ([1] ++ List.replicate 32 0 ++ [1])

theorem erasure_law_lapsed :
    Reach (erasureSystem plainDeployment reaperAndOwner fun _ _ _ => False)
        (Config.start lapsedStore) lapsed ∧
      lapsed.resultOf 0 = some (.ok true) ∧ lapsed.resultOf 1 = some (.error .tokenInvalid) ∧
      ErasureLaw plainDeployment reaperAndOwner lapsedStore lapsed := by
  have harrived := (Reaches.opened (erasureSystem plainDeployment reaperAndOwner
    fun _ _ _ => False) (fun _ _ _ => True) lapsedStore (i := 0) rfl).join (i := 1) rfl rfl
  have hrun := Reach.follow harrived ([1] ++ replicate 32 0 ++ [1])
  have hstart : lapsedStore.Untouched :=
    ⟨rfl, rfl, rfl, by decide, Nat.zero_le 1, fun _ _ => rfl⟩
  exact ⟨hrun, rfl, rfl, erasure_law hstart hrun⟩

end HVault.Erasure
