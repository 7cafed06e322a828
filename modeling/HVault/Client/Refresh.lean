import HVault.Client.Interceptor

/-!
# Requests, the refresh and its queue

The law of the interceptor (`interceptor_handles`), as long as no fetch of a CSRF token is answered
401. Without that a refresh may wait for itself: the guard of the refresh endpoint looks at the
configuration of the token fetch and does not see a refresh (`interceptor_handles_token`).

`Inv` says that queue, flag and driver agree; the marks and the counters of a single request are
`Request.Sound`.
-/

namespace HVault.Interceptor

open Interleave Client List Option Tab Nat Request

/-! ## One request -/

namespace Request

/-- What the marks and the counters of a request are at each stage. -/
def Marked (req : Request) : Prop :=
  match req.stage with
  | .preparing | .sent =>
    req.csrfReplays ≤ req.config.csrfRetry.toNat ∧ req.refreshReplays ≤ req.config.retry.toNat
  | .replaying _ => req.config.csrfRetry = true ∧ req.csrfReplays = 0 ∧
    req.refreshReplays ≤ req.config.retry.toNat
  | .queued | .resumed => req.csrfReplays ≤ req.config.csrfRetry.toNat ∧ req.refreshReplays = 0
  | .driving _ => req.csrfReplays ≤ req.config.csrfRetry.toNat ∧ req.refreshReplays = 0 ∧
    req.config.retry = true
  | .loggingOut _ | .fulfilled _ | .rejected _ => req.csrfReplays ≤ 1 ∧ req.refreshReplays ≤ 1

/-- A request that neither waits for a refresh nor drives one. -/
def Plain (req : Request) : Prop := req.stage ≠ .queued ∧ req.stage.isDriving = false

/-- What holds of every request, whatever the others do. -/
structure Sound (req : Request) : Prop where
  sends : req.sends + (if req.stage = .preparing then 1 else 0)
    ≤ 1 + req.csrfReplays + req.refreshReplays
  marked : req.Marked
  released : req.queuings = req.releases + if req.stage = .queued then 1 else 0
  /-- A refresh never waits for a refresh. -/
  refresh : req.config.url = "/auth/refresh" → req.Plain ∧ req.stage ≠ .resumed

variable {req : Request}

theorem Sound.replays (h : req.Sound) : req.csrfReplays ≤ 1 ∧ req.refreshReplays ≤ 1 := by
  have hmarked := h.marked
  have hbool : ∀ b : Bool, b.toNat ≤ 1 := Bool.toNat_le
  have hcsrf := hbool req.config.csrfRetry
  have hretry := hbool req.config.retry
  unfold Marked at hmarked
  split at hmarked <;> omega

/-- A request that is sent, or about to be. -/
theorem send_cases (req : Request) :
    req.send = { req with stage := .preparing } ∨
      req.send = { req with stage := .sent, sends := req.sends + 1 } := by
  unfold send
  split
  · exact .inl rfl
  · exact .inr rfl

/-- Another sending, within the allowance. -/
theorem Sound.send (hsends : req.sends + 1 ≤ 1 + req.csrfReplays + req.refreshReplays)
    (hcsrf : req.csrfReplays ≤ req.config.csrfRetry.toNat)
    (hretry : req.refreshReplays ≤ req.config.retry.toNat)
    (hreleased : req.queuings = req.releases) : Sound req.send ∧ Plain req.send := by
  obtain hsend | hsend := send_cases req
  all_goals
    rw [hsend]
    exact ⟨⟨hsends, ⟨hcsrf, hretry⟩, hreleased, fun _ => ⟨⟨nofun, rfl⟩, nofun⟩⟩, nofun, rfl⟩

/-- A request that has not been queued has been released as often as queued. -/
theorem Sound.settled (h : req.Sound) (hnot : req.stage ≠ .queued) : req.queuings = req.releases := by
  have hreleased := h.released
  rw [if_neg hnot] at hreleased
  exact hreleased

/-- The end of a request. -/
theorem Sound.close (h : req.Sound) (hnot : req.stage ≠ .queued) {stage : Stage}
    (hstage : stage.isSettled = true ∨ ∃ failure, stage = .loggingOut failure) (config : Config) :
    Sound { req with config, stage } ∧ Plain { req with config, stage } := by
  have hreplays := h.replays
  have hsends := h.sends
  have hreleased := h.settled hnot
  cases stage <;>
    first
    | exact ⟨⟨le_trans (Nat.le_add_right ..) hsends, hreplays, hreleased,
        fun _ => ⟨⟨nofun, rfl⟩, nofun⟩⟩, nofun, rfl⟩
    | simp [Stage.isSettled] at hstage

/-- A request leaves the queue. -/
theorem Sound.release (h : req.Sound) (hqueued : req.stage = .queued) {stage : Stage}
    (hstage : stage = .resumed ∨ ∃ failure, stage = .rejected failure) :
    Sound { req with stage, releases := req.releases + 1 } := by
  have hsends := h.sends
  have hmarked := h.marked
  have hreleased := h.released
  have hreplays := h.replays
  unfold Marked at hmarked
  rw [hqueued] at hsends hmarked hreleased
  have hurl : req.config.url ≠ "/auth/refresh" := fun hurl => (h.refresh hurl).1.1 hqueued
  rcases hstage with rfl | ⟨failure, rfl⟩
  · exact ⟨hsends, hmarked, hreleased, fun h => (hurl h).elim⟩
  · exact ⟨hsends, hreplays, hreleased, fun h => (hurl h).elim⟩

end Request

/-! ## The requests of a tab -/

/-- A refresh waits for it, and it settles without waiting for one itself. -/
def Request.Answers (req : Request) : Prop :=
  req.config.url = "/auth/refresh" ∨ req.stage.isSettled = true

/-- Queue, flag and driver agree, and every request is sound. -/
structure Inv (s : Tab) : Prop where
  counted : ∀ r, s.requestCount ≤ r → s.requests r = none
  single : ∀ r r', s.Drives r → s.Drives r' → r = r'
  flag : s.isRefreshing = true ↔ ∃ r, s.Drives r
  queued : ∀ r, r ∈ s.pendingRequests ↔ ∃ req, s.requests r = some req ∧ req.stage = .queued
  waits : s.pendingRequests ≠ [] → s.isRefreshing = true
  sound : ∀ r req, s.requests r = some req → req.Sound
  posts : ∀ r req p, s.requests r = some req → req.stage = .driving (some p) →
    ∃ post, s.requests p = some post ∧ post.Answers

section Tabs

variable {s : Tab} {r : ℕ} {req req' : Request}

theorem set_self : (s.set r req).requests r = some req := Function.update_self ..

theorem set_of_ne {x : ℕ} (h : x ≠ r) : (s.set r req).requests x = s.requests x :=
  Function.update_of_ne h _ _

theorem drives_set_of_ne {x : ℕ} (h : x ≠ r) : (s.set r req).Drives x ↔ s.Drives x := by
  unfold Tab.Drives
  rw [set_of_ne h]

theorem drives_of (hr : s.requests r = some req) : s.Drives r ↔ req.stage.isDriving = true := by
  unfold Tab.Drives
  rw [hr]
  exact ⟨fun ⟨_, h, hd⟩ => some.inj h ▸ hd, fun h => ⟨req, rfl, h⟩⟩

/-- The drivers stay the same when a request that does not drive is written. -/
theorem drives_set (hnot' : req'.stage.isDriving = false)
    (hnot : ∀ req, s.requests r = some req → req.stage.isDriving = false) (x : ℕ) :
    (s.set r req').Drives x ↔ s.Drives x := by
  by_cases hxr : x = r
  · subst hxr
    rw [drives_of set_self, hnot']
    refine iff_of_false nofun ?_
    rintro ⟨req, hreq, hdriving⟩
    rw [hnot req hreq] at hdriving
    cases hdriving
  · exact drives_set_of_ne hxr

theorem Inv.lt_count (h : Inv s) (hr : s.requests r = some req) : r < s.requestCount := by
  by_cases hlt : r < s.requestCount
  · exact hlt
  · rw [h.counted r (Nat.le_of_not_lt hlt)] at hr
    cases hr

theorem Inv.set_counted (h : Inv s) (hcount : r < s.requestCount) (x : ℕ)
    (hx : s.requestCount ≤ x) : (s.set r req').requests x = none := by
  have hne : x ≠ r := by
    rintro rfl
    exact Nat.not_le_of_lt hcount hx
  rw [set_of_ne hne]
  exact h.counted x hx

theorem Inv.set_sound (h : Inv s) (hsound : req'.Sound) (x : ℕ) (req₁ : Request)
    (hx : (s.set r req').requests x = some req₁) : req₁.Sound := by
  by_cases hxr : x = r
  · subst hxr
    rw [set_self] at hx
    cases hx
    exact hsound
  · rw [set_of_ne hxr] at hx
    exact h.sound x req₁ hx

/-- The request of a refresh goes on answering when another request, or it itself, is written. -/
theorem Inv.set_posts (h : Inv s)
    (hanswers : ∀ req, s.requests r = some req → req.Answers → req'.Answers) {x p : ℕ}
    (hx : s.requests x = some req) (hdriving : req.stage = .driving (some p)) :
    ∃ post, (s.set r req').requests p = some post ∧ post.Answers := by
  obtain ⟨post, hp, hpost⟩ := h.posts x req p hx hdriving
  by_cases hpr : p = r
  · subst hpr
    exact ⟨req', set_self, hanswers post hp hpost⟩
  · exact ⟨post, (set_of_ne hpr).trans hp, hpost⟩

/-- A request that stays out of queue and refresh changes nothing for the others. -/
theorem Inv.set (h : Inv s) (hcount : r < s.requestCount) (hplain' : req'.Plain)
    (hbefore : ∀ req, s.requests r = some req → req.Plain ∧ (req.Answers → req'.Answers))
    (hsound : req'.Sound) : Inv (s.set r req') where
  counted := h.set_counted hcount
  single x y hx hy := by
    have hdrives := drives_set hplain'.2 fun req hreq => (hbefore req hreq).1.2
    exact h.single x y ((hdrives x).1 hx) ((hdrives y).1 hy)
  flag := by
    refine h.flag.trans (exists_congr fun x => ?_)
    exact (drives_set hplain'.2 (fun req hreq => (hbefore req hreq).1.2) x).symm
  queued x := by
    by_cases hxr : x = r
    · subst hxr
      rw [set_self]
      refine (h.queued x).trans (iff_of_false ?_ ?_)
      · rintro ⟨req, hreq, hqueued⟩
        exact (hbefore req hreq).1.1 hqueued
      · rintro ⟨req, hreq, hqueued⟩
        cases hreq
        exact hplain'.1 hqueued
    · rw [set_of_ne hxr]
      exact h.queued x
  waits := h.waits
  sound := h.set_sound hsound
  posts x req p hx hdriving := by
    have hxr : x ≠ r := by
      rintro rfl
      rw [set_self] at hx
      cases hx
      have hnot := hplain'.2
      rw [hdriving] at hnot
      cases hnot
    rw [set_of_ne hxr] at hx
    exact h.set_posts (fun req hreq => (hbefore req hreq).2) hx hdriving

theorem Inv.set_old (h : Inv s) (hr : s.requests r = some req) (hplain : req.Plain)
    (hplain' : req'.Plain) (hanswers : req.Answers → req'.Answers) (hsound : req'.Sound) :
    Inv (s.set r req') := by
  refine h.set (h.lt_count hr) hplain' (fun req₁ hreq₁ => ?_) hsound
  rw [hr] at hreq₁
  cases hreq₁
  exact ⟨hplain, hanswers⟩

/-- A new request. -/
theorem Inv.request (h : Inv s) (config : Config) : Inv (s.request config) := by
  have hnone := h.counted s.requestCount (le_refl _)
  have hnew : Request.Sound (send { config, stage := .preparing }) ∧
      Request.Plain (send { config, stage := .preparing }) :=
    Request.Sound.send (le_refl 1) (zero_le _) (zero_le _) rfl
  have hgrown : Inv { s with requestCount := s.requestCount + 1 } :=
    { h with counted := fun x hx => h.counted x (le_of_succ_le hx) }
  refine hgrown.set (lt_succ_self _) hnew.2 (fun req hreq => ?_) hnew.1
  rw [show s.requests s.requestCount = some req from hreq] at hnone
  cases hnone

/-- A request queues behind the refresh under way. -/
theorem Inv.enqueue (h : Inv s) (hr : s.requests r = some req) (hplain : req.Plain)
    (hanswers : ¬ req.Answers) (hrefreshing : s.isRefreshing = true)
    (hqueued : req'.stage = .queued) (hsound : req'.Sound) :
    Inv { s.set r req' with pendingRequests := s.pendingRequests ++ [r] } := by
  have hnot : ∀ req, s.requests r = some req → req.stage.isDriving = false := by
    intro req₁ hreq₁
    rw [hr] at hreq₁
    cases hreq₁
    exact hplain.2
  have hnot' : req'.stage.isDriving = false := by
    rw [hqueued]
    rfl
  have hdrives : ∀ x, (s.set r req').Drives x ↔ s.Drives x := drives_set hnot' hnot
  refine ⟨h.set_counted (h.lt_count hr), fun x y hx hy => ?_, ?_, fun x => ?_, fun _ => hrefreshing,
    h.set_sound hsound, fun x req₁ p hx hdriving => ?_⟩
  · exact h.single x y ((hdrives x).1 hx) ((hdrives y).1 hy)
  · exact h.flag.trans (exists_congr fun x => (hdrives x).symm)
  · show x ∈ s.pendingRequests ++ [r] ↔ ∃ req, (s.set r req').requests x = some req ∧ _
    rw [mem_append, mem_singleton]
    by_cases hxr : x = r
    · subst hxr
      rw [set_self]
      exact iff_of_true (.inr rfl) ⟨req', rfl, hqueued⟩
    · rw [set_of_ne hxr, or_iff_left hxr]
      exact h.queued x
  · have hxr : x ≠ r := by
      rintro rfl
      have hself : (s.set x req').requests x = some req₁ := hx
      rw [set_self] at hself
      cases hself
      rw [hdriving] at hqueued
      cases hqueued
    refine h.set_posts (fun req₂ hreq₂ hans => ?_) ((set_of_ne hxr).symm.trans hx) hdriving
    rw [hr] at hreq₂
    cases hreq₂
    exact (hanswers hans).elim

/-- A request starts a refresh. -/
theorem Inv.drive (h : Inv s) (hr : s.requests r = some req) (hplain : req.Plain)
    (hidle : s.isRefreshing = false) (hdriving : req'.stage = .driving none) (hsound : req'.Sound) :
    Inv { s.set r req' with isRefreshing := true } := by
  have hnone : ∀ x, ¬ s.Drives x := by
    intro x hx
    rw [h.flag.2 ⟨x, hx⟩] at hidle
    cases hidle
  have honly : ∀ x, (s.set r req').Drives x → x = r := by
    intro x hx
    by_cases hxr : x = r
    · exact hxr
    · exact (hnone x ((drives_set_of_ne hxr).1 hx)).elim
  refine ⟨h.set_counted (h.lt_count hr), fun x y hx hy => ?_, ?_, fun x => ?_, fun _ => rfl,
    h.set_sound hsound, fun x req₁ p hx hdriving₁ => ?_⟩
  · exact (honly x hx).trans (honly y hy).symm
  · refine iff_of_true rfl ⟨r, req', set_self, ?_⟩
    rw [hdriving]
    rfl
  · by_cases hxr : x = r
    · subst hxr
      refine (h.queued x).trans (iff_of_false ?_ ?_)
      · rintro ⟨req₁, hreq₁, hqueued⟩
        rw [hr] at hreq₁
        cases hreq₁
        exact hplain.1 hqueued
      · rintro ⟨req₁, hreq₁, hqueued⟩
        have hself : some req₁ = some req' := hreq₁.symm.trans set_self
        cases hself
        rw [hdriving] at hqueued
        cases hqueued
    · refine (h.queued x).trans ?_
      rw [show s.requests x = (s.set r req').requests x from (set_of_ne hxr).symm]
  · have hdrives : (s.set r req').Drives x := by
      refine ⟨req₁, hx, ?_⟩
      rw [hdriving₁]
      rfl
    obtain rfl := honly x hdrives
    have hself : some req₁ = some req' := hx.symm.trans set_self
    cases hself
    rw [hdriving] at hdriving₁
    cases hdriving₁

/-- The driver of a refresh has the lock and makes the request. -/
theorem Inv.lock (h : Inv s) (hr : s.requests r = some req) (hdriving : req.stage = .driving none) :
    Inv (s.request refreshConfig |>.set r { req with stage := .driving (some s.requestCount) }) := by
  have hnew := h.request refreshConfig
  have hlt := h.lt_count hr
  have hne : s.requestCount ≠ r := fun heq => lt_irrefl r (heq ▸ hlt)
  have hold : (s.request refreshConfig).requests r = some req :=
    (set_of_ne (Ne.symm hne)).trans hr
  have hdrives : ∀ x, ((s.request refreshConfig).set r
      { req with stage := .driving (some s.requestCount) }).Drives x
        ↔ (s.request refreshConfig).Drives x := by
    intro x
    by_cases hxr : x = r
    · subst hxr
      rw [drives_of set_self, drives_of hold, hdriving]
      exact Iff.rfl
    · exact drives_set_of_ne hxr
  have hsound := h.sound r req hr
  have hmarked := hsound.marked
  unfold Request.Marked at hmarked
  rw [hdriving] at hmarked
  refine ⟨hnew.set_counted (lt_succ_of_lt hlt), fun x y hx hy => ?_, ?_, fun x => ?_,
    hnew.waits, hnew.set_sound ⟨?_, hmarked, ?_, fun hurl => ?_⟩, fun x req₁ p hx hdriving₁ => ?_⟩
  · exact hnew.single x y ((hdrives x).1 hx) ((hdrives y).1 hy)
  · exact hnew.flag.trans (exists_congr fun x => (hdrives x).symm)
  · by_cases hxr : x = r
    · subst hxr
      refine (hnew.queued x).trans (iff_of_false ?_ ?_)
      · rintro ⟨req₁, hreq₁, hqueued⟩
        rw [hold] at hreq₁
        cases hreq₁
        rw [hdriving] at hqueued
        cases hqueued
      · rintro ⟨req₁, hreq₁, hqueued⟩
        rw [set_self] at hreq₁
        cases hreq₁
        cases hqueued
    · rw [set_of_ne hxr]
      exact hnew.queued x
  · have hsends := hsound.sends
    rw [hdriving] at hsends
    exact hsends
  · exact hsound.settled (by rw [hdriving]; nofun)
  · have hnever := (hsound.refresh hurl).1.2
    rw [hdriving] at hnever
    cases hnever
  · have hx' := (hdrives x).1 ⟨req₁, hx, by rw [hdriving₁]; rfl⟩
    obtain rfl := hnew.single x r hx' ⟨req, hold, by rw [hdriving]; rfl⟩
    rw [set_self] at hx
    cases hx
    cases hdriving₁
    refine ⟨send { config := refreshConfig, stage := .preparing },
      (set_of_ne hne).trans set_self, .inl ?_⟩
    obtain hsend | hsend := send_cases { config := refreshConfig, stage := .preparing }
    · rw [hsend]
      rfl
    · rw [hsend]
      rfl

variable {stage : Stage}

/-- The refresh is over: the queue is released, and nothing drives a refresh any more. -/
theorem Inv.flush (h : Inv s) (hr : s.requests r = some req)
    (hdriving : req.stage.isDriving = true)
    (hstage : stage = .resumed ∨ ∃ failure, stage = .rejected failure) (hplain : req'.Plain)
    (hsound : req'.Sound) : Inv ((s.flush stage).set r req') := by
  have hlt := h.lt_count hr
  have hstage' : stage ≠ .queued ∧ stage.isDriving = false := by
    rcases hstage with rfl | ⟨failure, rfl⟩
    · exact ⟨nofun, rfl⟩
    · exact ⟨nofun, rfl⟩
  -- what the others are afterwards
  have hothers : ∀ x, x ≠ r → ∀ req₁, ((s.flush stage).set r req').requests x = some req₁ →
      req₁.Plain ∧ req₁.Sound := by
    intro x hxr req₁ hx
    rw [set_of_ne hxr] at hx
    unfold Tab.flush at hx
    dsimp only at hx
    split at hx
    · rename_i hmem
      obtain ⟨req₀, hreq₀, hqueued⟩ := (h.queued x).1 hmem
      rw [hreq₀] at hx
      cases hx
      exact ⟨hstage', (h.sound x req₀ hreq₀).release hqueued hstage⟩
    · rename_i hmem
      have hsound₁ := h.sound x req₁ hx
      refine ⟨⟨fun hqueued => hmem ((h.queued x).2 ⟨req₁, hx, hqueued⟩), ?_⟩, hsound₁⟩
      cases hdriving₁ : req₁.stage.isDriving with
      | false => rfl
      | true => exact (hxr (h.single x r ⟨req₁, hx, hdriving₁⟩ ⟨req, hr, hdriving⟩)).elim
  have hall : ∀ x req₁, ((s.flush stage).set r req').requests x = some req₁ →
      req₁.Plain ∧ req₁.Sound := by
    intro x req₁ hx
    by_cases hxr : x = r
    · subst hxr
      rw [set_self] at hx
      cases hx
      exact ⟨hplain, hsound⟩
    · exact hothers x hxr req₁ hx
  have hnone : ∀ x, ¬ ((s.flush stage).set r req').Drives x := by
    rintro x ⟨req₁, hx, hdriving₁⟩
    rw [(hall x req₁ hx).1.2] at hdriving₁
    cases hdriving₁
  refine ⟨fun x hx => ?_, fun x _ hx => (hnone x hx).elim, ?_, fun x => ?_, nofun,
    fun x req₁ hx => (hall x req₁ hx).2, fun x req₁ p hx hdriving₁ => ?_⟩
  · have hne : x ≠ r := by
      rintro rfl
      exact Nat.not_le_of_lt hlt hx
    have hnone' := h.counted x hx
    rw [set_of_ne hne]
    unfold Tab.flush
    dsimp only
    rw [hnone']
    exact ite_self _
  · refine iff_of_false nofun ?_
    rintro ⟨x, hx⟩
    exact hnone x hx
  · refine iff_of_false nofun ?_
    rintro ⟨req₁, hx, hqueued⟩
    exact (hall x req₁ hx).1.1 hqueued
  · refine (hnone x ⟨req₁, hx, ?_⟩).elim
    rw [hdriving₁]
    rfl

/-- A request that neither waits for a refresh nor drives one settles. -/
theorem Inv.settle (h : Inv s) (hr : s.requests r = some req) (hplain : req.Plain)
    (hstage : stage.isSettled = true) (config : Config) :
    Inv (s.set r { req with config, stage }) := by
  obtain ⟨hsound', hplain'⟩ := (h.sound r req hr).close hplain.1 (.inl hstage) config
  exact h.set_old hr hplain hplain' (fun _ => .inr hstage) hsound'

/-! ## The events -/

theorem plain_of (hstage : req.stage = stage) (hqueued : stage ≠ .queued)
    (hdriving : stage.isDriving = false) : req.Plain := by
  unfold Request.Plain
  rw [hstage]
  exact ⟨hqueued, hdriving⟩

/-- The error handler, on the refusal of a request that was sent. -/
theorem Inv.onError (h : Inv s) (hr : s.requests r = some req) (hsent : req.stage = .sent)
    (failure : Failure) : Inv (s.onError r req failure) := by
  have hsound := h.sound r req hr
  have hplain : req.Plain := plain_of hsent nofun rfl
  have hsends := hsound.sends
  have hmarked := hsound.marked
  have hreleased := hsound.settled hplain.1
  unfold Request.Marked at hmarked
  rw [hsent] at hsends hmarked
  have hclose : Inv (s.set r { req with stage := .rejected failure }) :=
    h.settle hr hplain rfl req.config
  unfold Tab.onError
  split
  · rename_i hcsrf
    refine h.set_old hr hplain ⟨nofun, rfl⟩ (fun hanswers => ?_) ⟨hsends, ⟨rfl, ?_, hmarked.2⟩,
      hreleased, fun _ => ⟨⟨nofun, rfl⟩, nofun⟩⟩
    · rcases hanswers with hurl | hsettled
      · exact .inl hurl
      · rw [hsent] at hsettled
        cases hsettled
    · have hle := hmarked.1
      rw [hcsrf.2.2.1] at hle
      exact le_zero.1 hle
  · split
    · exact hclose
    · rename_i hmarks
      split
      · exact hclose
      · rename_i hurl
        have hfresh : req.refreshReplays = 0 := by
          have hle := hmarked.2
          rw [Bool.eq_false_iff.2 fun hretry => hmarks (.inr hretry)] at hle
          exact le_zero.1 hle
        have hanswers : ¬ req.Answers := by
          rintro (hrefresh | hsettled)
          · exact hurl (.inl hrefresh)
          · rw [hsent] at hsettled
            cases hsettled
        split
        · exact hclose
        · split
          · exact hclose
          · split
            · exact hclose
            · split
              · rename_i hrefreshing
                exact h.enqueue hr hplain hanswers hrefreshing rfl ⟨hsends, ⟨hmarked.1, hfresh⟩,
                  congrArg (· + 1) hreleased, fun hrefresh => (hurl (.inl hrefresh)).elim⟩
              · rename_i hidle
                exact h.drive hr hplain (Bool.eq_false_iff.2 hidle) rfl ⟨hsends,
                  ⟨hmarked.1, hfresh, rfl⟩, hreleased, fun hrefresh => (hurl (.inl hrefresh)).elim⟩

/-- A failed token fetch that was not answered 401 rejects the request. -/
theorem onError_token {failure : Failure} (hf : failure.status ≠ some 401) :
    s.onError r { req with config := tokenConfig } failure
      = s.set r { req with config := tokenConfig, stage := .rejected failure } := by
  have hsafe : tokenConfig.isStateChanging = false := by decide
  unfold onError
  split
  · rename_i hcsrf
    cases hsafe.symm.trans hcsrf.2.1
  · split
    · rfl
    · rename_i hnot
      exact (hnot (.inl hf)).elim

theorem Inv.refreshSettled (h : Inv s) (hr : s.requests r = some req)
    {post : Option ℕ} (hdriving : req.stage = .driving post) (outcome : Except Failure Unit) :
    Inv (s.refreshSettled r req outcome) := by
  have hdrives : req.stage.isDriving = true := by
    rw [hdriving]
    rfl
  have hsound := h.sound r req hr
  have hnot : req.stage ≠ .queued := by
    rw [hdriving]
    nofun
  have hsends := hsound.sends
  have hmarked := hsound.marked
  unfold Request.Marked at hmarked
  rw [hdriving] at hsends hmarked
  cases outcome with
  | ok _ =>
    have hagain : Request.Sound (send { req with
        refreshReplays := req.refreshReplays + 1 }) ∧ Request.Plain (send { req with
        refreshReplays := req.refreshReplays + 1 }) := by
      apply Request.Sound.send
      · show req.sends + 1 ≤ 1 + req.csrfReplays + (req.refreshReplays + 1)
        omega
      · exact hmarked.1
      · show req.refreshReplays + 1 ≤ req.config.retry.toNat
        rw [hmarked.2.1, hmarked.2.2]
        exact le_refl 1
      · exact hsound.settled hnot
    have hflush := h.flush hr hdrives (.inl rfl) hagain.2 hagain.1
    exact { hflush with }
  | error failure =>
    unfold Tab.refreshSettled
    dsimp only
    split
    · obtain ⟨hsound', hplain'⟩ := hsound.close hnot (.inr ⟨failure, rfl⟩) req.config
      have hflush := h.flush hr hdrives (.inr ⟨failure, rfl⟩) hplain' hsound'
      exact { hflush with }
    · obtain ⟨hsound', hplain'⟩ := hsound.close hnot
        (.inl (rfl : (Stage.rejected failure).isSettled = true)) req.config
      have hflush := h.flush hr hdrives (.inr ⟨failure, rfl⟩) hplain' hsound'
      exact { hflush with }

/-- What an event does to the request it is about. -/
theorem Inv.advance (h : Inv s) (hr : s.requests r = some req) {s' : Tab} {e : Event}
    (hok : TokensNotRefused s e) (hs : s.advance r req e = some s') : Inv s' := by
  have hsound := h.sound r req hr
  have hsends := hsound.sends
  have hmarked := hsound.marked
  unfold Request.Marked at hmarked
  unfold Tab.advance at hs
  split at hs
  · -- the token is there: the request is sent
    rename_i hstage
    rw [hstage] at hsends hmarked
    cases hs
    have hplain : req.Plain := plain_of hstage nofun rfl
    refine h.set_old hr hplain ⟨nofun, rfl⟩ (fun hanswers => ?_)
      ⟨hsends, hmarked, hsound.settled hplain.1, fun _ => ⟨⟨nofun, rfl⟩, nofun⟩⟩
    exact hanswers.imp_right fun hsettled => by rw [hstage] at hsettled; cases hsettled
  · -- its fetch has failed
    rename_i failure hstage
    cases hs
    rw [onError_token hok]
    exact h.settle hr (plain_of hstage nofun rfl) rfl tokenConfig
  · rename_i body hstage
    cases hs
    exact h.settle hr (plain_of hstage nofun rfl) rfl req.config
  · rename_i failure hstage
    cases hs
    exact h.onError hr hstage failure
  · -- the CSRF replay
    rename_i refusal _ hstage
    rw [hstage] at hsends hmarked
    cases hs
    have hplain : req.Plain := plain_of hstage nofun rfl
    have hagain : Request.Sound (send { req with csrfReplays := req.csrfReplays + 1 }) ∧
        Request.Plain (send { req with csrfReplays := req.csrfReplays + 1 }) := by
      apply Request.Sound.send
      · show req.sends + 1 ≤ 1 + (req.csrfReplays + 1) + req.refreshReplays
        omega
      · show req.csrfReplays + 1 ≤ req.config.csrfRetry.toNat
        rw [hmarked.1, hmarked.2.1]
        exact le_refl 1
      · exact hmarked.2.2
      · exact hsound.settled hplain.1
    refine h.set_old hr hplain hagain.2 (fun hanswers => ?_) hagain.1
    rcases hanswers with hurl | hsettled
    · refine .inl ?_
      obtain hsend | hsend := send_cases { req with csrfReplays := req.csrfReplays + 1 }
      · rw [hsend]
        exact hurl
      · rw [hsend]
        exact hurl
    · rw [hstage] at hsettled
      cases hsettled
  · rename_i refusal _ hstage
    cases hs
    exact h.settle hr (plain_of hstage nofun rfl) rfl req.config
  · rename_i hstage
    cases hs
    exact h.lock hr hstage
  · rename_i post _ hstage
    obtain ⟨outcome, -, rfl⟩ := map_eq_some_iff.1 hs
    exact h.refreshSettled hr hstage outcome
  · -- the replay after a refresh it queued behind
    rename_i hstage
    rw [hstage] at hsends hmarked
    cases hs
    have hplain : req.Plain := plain_of hstage nofun rfl
    have hagain : Request.Sound (send { req with
        config := { req.config with retry := true }, refreshReplays := req.refreshReplays + 1 }) ∧
        Request.Plain (send { req with
          config := { req.config with retry := true }
          refreshReplays := req.refreshReplays + 1 }) := by
      apply Request.Sound.send
      · show req.sends + 1 ≤ 1 + req.csrfReplays + (req.refreshReplays + 1)
        omega
      · exact hmarked.1
      · show req.refreshReplays + 1 ≤ 1
        omega
      · exact hsound.settled hplain.1
    refine h.set_old hr hplain hagain.2 (fun hanswers => ?_) hagain.1
    rcases hanswers with hurl | hsettled
    · exact ((hsound.refresh hurl).2 hstage).elim
    · rw [hstage] at hsettled
      cases hsettled
  · rename_i failure _ hstage
    cases hs
    exact h.settle hr (plain_of hstage nofun rfl) rfl req.config
  · cases hs

end Tabs

variable {s : Tab}

/-- Every event that is no refused token fetch keeps the requests in order. -/
theorem Inv.step {s' : Tab} {e : Event} (h : Inv s) (hok : TokensNotRefused s e)
    (hs : s.step e = some s') : Inv s' := by
  unfold Tab.step at hs
  split at hs
  · cases hs
    exact h.request _
  · cases hs
    exact { h with }
  · obtain ⟨r, -, hs⟩ := bind_eq_some_iff.1 hs
    obtain ⟨req, hr, hs⟩ := bind_eq_some_iff.1 hs
    exact h.advance hr hok hs

theorem inv_start : Inv freshTab where
  counted _ _ := rfl
  single _ _ := nofun
  flag := iff_of_false nofun nofun
  queued _ := iff_of_false nofun nofun
  waits h := (h rfl).elim
  sound _ _ := nofun
  posts _ _ _ := nofun

/-! ## Logouts -/

/-- A logout has its reason. -/
def Reasoned (s : Tab) : Prop :=
  ∀ failure ∈ s.logouts, failure ∈ s.refreshFailures ∧ failure.isSessionGone = true

theorem onError_logs (s : Tab) (r : ℕ) (req : Request) (failure : Failure) :
    (s.onError r req failure).logouts = s.logouts ∧
      (s.onError r req failure).refreshFailures = s.refreshFailures := by
  unfold onError
  repeat (split; exact ⟨rfl, rfl⟩)
  exact ⟨rfl, rfl⟩

theorem Reasoned.refreshSettled (h : Reasoned s) (r : ℕ) (req : Request)
    (outcome : Except Failure Unit) : Reasoned (s.refreshSettled r req outcome) := by
  unfold Tab.refreshSettled
  cases outcome with
  | ok _ => exact h
  | error failure =>
    have hold : ∀ old ∈ s.logouts,
        old ∈ s.refreshFailures ++ [failure] ∧ old.isSessionGone = true :=
      fun old hlog => ⟨mem_append_left _ (h old hlog).1, (h old hlog).2⟩
    dsimp only
    split
    · rename_i hgone
      intro old hlog
      rcases mem_append.1 hlog with hlog | hlog
      · exact hold old hlog
      · rw [mem_singleton.1 hlog]
        exact ⟨mem_append_right _ (mem_singleton_self failure), hgone⟩
    · exact hold

theorem Reasoned.step {s' : Tab} {e : Event} (h : Reasoned s) (hs : s.step e = some s') :
    Reasoned s' := by
  have herror : ∀ r req failure, Reasoned (s.onError r req failure) := by
    intro r req failure
    obtain ⟨hlogouts, hfailures⟩ := onError_logs s r req failure
    unfold Reasoned
    rw [hlogouts, hfailures]
    exact h
  unfold Tab.step at hs
  split at hs
  · cases hs
    exact h
  · cases hs
    exact h
  · obtain ⟨r, -, hs⟩ := bind_eq_some_iff.1 hs
    obtain ⟨req, hr, hs⟩ := bind_eq_some_iff.1 hs
    unfold advance at hs
    split at hs
    · cases hs
      exact h
    · cases hs
      exact herror _ _ _
    · cases hs
      exact h
    · cases hs
      exact herror _ _ _
    · cases hs
      exact h
    · cases hs
      exact h
    · cases hs
      exact h
    · obtain ⟨outcome, -, rfl⟩ := map_eq_some_iff.1 hs
      exact h.refreshSettled _ _ _
    · cases hs
      exact h
    · cases hs
      exact h
    · cases hs

/-! ## The law of the interceptor -/

variable {req : Request}

/-- An event about a request that was made. -/
theorem Tab.Quiet.advance (h : s.Quiet) {r : ℕ} (hr : s.requests r = some req) {e : Event}
    (he : e.target = some r) :
    s.advance r req e = none := by
  have hstep := h e (by rw [he]; rfl)
  unfold step at hstep
  split at hstep
  · cases he
  · cases he
  · rw [he, bind_some, hr, bind_some] at hstep
    exact hstep

/-- In a quiet tab only the queue and a refresh that has not answered are still open. -/
theorem Tab.Quiet.cases (h : s.Quiet) {r : ℕ} (hr : s.requests r = some req) :
    req.stage.isSettled = true ∨ req.stage = .queued ∨
      ∃ post, req.stage = .driving (some post) ∧
        ((s.requests post).bind fun p => refreshOutcome p.stage) = none := by
  cases hstage : req.stage with
  | preparing =>
    have hnone := h.advance hr (e := .token r) rfl
    unfold Tab.advance at hnone
    rw [hstage] at hnone
    cases hnone
  | sent =>
    have hnone := h.advance hr (e := .answer r ⟨false, none⟩) rfl
    unfold Tab.advance at hnone
    rw [hstage] at hnone
    cases hnone
  | replaying refusal =>
    have hnone := h.advance hr (e := .freshToken r) rfl
    unfold Tab.advance at hnone
    rw [hstage] at hnone
    cases hnone
  | queued => exact .inr (.inl rfl)
  | resumed =>
    have hnone := h.advance hr (e := .resume r) rfl
    unfold Tab.advance at hnone
    rw [hstage] at hnone
    cases hnone
  | driving post =>
    cases post with
    | none =>
      have hnone := h.advance hr (e := .lock r) rfl
      unfold Tab.advance at hnone
      rw [hstage] at hnone
      cases hnone
    | some post =>
      have hnone := h.advance hr (e := .refreshSettled r) rfl
      unfold Tab.advance at hnone
      rw [hstage] at hnone
      exact .inr (.inr ⟨post, rfl, map_eq_none_iff.1 hnone⟩)
  | loggingOut failure =>
    have hnone := h.advance hr (e := .loggedOut r) rfl
    unfold Tab.advance at hnone
    rw [hstage] at hnone
    cases hnone
  | fulfilled body | rejected failure => exact .inl rfl

/-- When everything has answered, every request is settled: a refresh never waits for itself. -/
theorem Inv.settles (h : Inv s) (hquiet : s.Quiet) {r : ℕ} (hr : s.requests r = some req) :
    req.stage.isSettled = true := by
  have hnone : ∀ x, ¬ s.Drives x := by
    rintro x ⟨driver, hx, hdriving⟩
    rcases hquiet.cases hx with hsettled | hqueued | ⟨p, hstage, hopen⟩
    · cases hstage : driver.stage <;> rw [hstage] at hsettled hdriving <;> cases hsettled <;>
        cases hdriving
    · rw [hqueued] at hdriving
      cases hdriving
    · obtain ⟨post, hp, hanswers⟩ := h.posts x driver p hx hstage
      rw [hp, bind_some] at hopen
      have hsettled : post.stage.isSettled = true := by
        rcases hanswers with hurl | hsettled
        · obtain ⟨hplain, -⟩ := (h.sound p post hp).refresh hurl
          rcases hquiet.cases hp with hsettled | hqueued | ⟨q, hdriving', -⟩
          · exact hsettled
          · exact (hplain.1 hqueued).elim
          · have hnot := hplain.2
            rw [hdriving'] at hnot
            cases hnot
        · exact hsettled
      cases hstage' : post.stage <;> rw [hstage'] at hsettled hopen <;> cases hsettled <;>
        cases hopen
  rcases hquiet.cases hr with hsettled | hqueued | ⟨p, hstage, -⟩
  · exact hsettled
  · have hmem := (h.queued r).2 ⟨req, hr, hqueued⟩
    obtain ⟨x, hx⟩ := h.flag.1 (h.waits (ne_nil_of_mem hmem))
    exact (hnone x hx).elim
  · refine (hnone r ⟨req, hr, ?_⟩).elim
    rw [hstage]
    rfl

/-- **401 handling**, as long as no fetch of a CSRF token is answered 401: one refresh at a time, the
flag says when, every queued request is released once, no request is sent more than three times,
every request gets its answer, and only a refused session is logged out. -/
theorem interceptor_handles {s : Tab} (h : Run Tab.step TokensNotRefused freshTab s) :
    Handles s := by
  have hinv : Inv s := h.invariant inv_start fun _ _ _ hinv hok hs => hinv.step hok hs
  have hreasoned : Reasoned s := h.invariant nofun fun _ _ _ hreasoned _ hs => hreasoned.step hs
  exact
    { single := hinv.single
      flag := hinv.flag
      queued := hinv.queued
      waits := hinv.waits
      released := fun r req hr => (hinv.sound r req hr).released
      sends := fun r req hr => ⟨le_trans (Nat.le_add_right ..) (hinv.sound r req hr).sends,
        (hinv.sound r req hr).replays⟩
      settles := fun hquiet _ _ hr => hinv.settles hquiet hr
      logouts := hreasoned }

theorem interceptor_handles_refresh :
    ∃ s, Handles s ∧ s.isRefreshing = false ∧
      (s.requests 0).map (·.stage) = some (.fulfilled ⟨false, none⟩) := by
  have hrun : replay step TokensNotRefused freshTab
      [.accessToken true, .request "/vault" "get" false, .refusal 0 (.response 401 none), .lock 0,
        .token 1, .answer 1 ⟨false, some "fresh"⟩, .refreshSettled 0, .answer 0 ⟨false, none⟩]
      = some _ := rfl
  exact ⟨_, interceptor_handles (Run.of_replay hrun), rfl, rfl⟩

/-- A tab is quiet when only its queue and a refresh that has not answered are still open. -/
theorem Tab.quiet_of (h : ∀ r req, s.requests r = some req → req.stage = .queued ∨
    ∃ post, req.stage = .driving (some post) ∧
      ((s.requests post).bind fun p => refreshOutcome p.stage) = none) : s.Quiet := by
  intro e he
  unfold step
  split
  · cases he
  · cases he
  · rw [bind_eq_none_iff]
    intro r _
    rw [bind_eq_none_iff]
    intro req hr
    rcases h r req hr with hqueued | ⟨post, hdriving, hopen⟩
    · unfold advance
      rw [hqueued]
    · unfold advance
      rw [hdriving]
      cases e with
      | refreshSettled x => exact map_eq_none_iff.2 hopen
      | _ => rfl

/-- The refresh needs a CSRF token, and the fetch of one is answered 401: the refresh queues behind
itself, and neither it nor the request that drives it ever settles. -/
theorem interceptor_handles_token :
    ∃ s, Run Tab.step (fun _ _ => True) freshTab s ∧ ¬ Handles s := by
  have hrun : replay step (fun _ _ => True) freshTab
      [.accessToken true, .request "/vault" "get" false, .refusal 0 (.response 401 none), .lock 0,
        .tokenFailure 1 (.response 401 none)] = some _ := rfl
  refine ⟨_, Run.of_replay hrun, fun hhandles => ?_⟩
  have hsettled := hhandles.settles (quiet_of fun r req hr => ?_) 0 _ rfl
  · cases hsettled
  · match r with
    | 0 =>
      cases hr
      exact .inr ⟨1, rfl, rfl⟩
    | 1 =>
      cases hr
      exact .inl rfl
    | _ + 2 => cases hr

end HVault.Interceptor
