import Mathlib.Logic.Function.Basic
import HVault.Interleave.Runs

/-!
# The cached CSRF token of a tab

The API client keeps one CSRF token and, while a fetch for one is under way, the promise of that
fetch, which later callers share. An invalidation (this tab's own `clearCsrfToken` or the signal of
another tab) forgets both; it cannot cancel the fetch, whose handlers still run when it completes.
`.then` and `.finally` are two handlers, and other code may run between them.

`invalidation_stands`: as long as no fetch completes after an invalidation that came after its
start, a token fetched before an invalidation is never handed out after it. A fetch that does
complete late undoes the invalidation (`invalidation_stands_late`).
-/

namespace HVault.Csrf

open Interleave Function Option

/-! ## The client -/

/-- How far the fetch of a token has come. -/
inductive FetchStage where
  | pending
  /-- `.then` has cached the token; `.finally` is still to run. -/
  | answered (token : String)
  | rejected
  | fulfilled (token : String)
  | failed
  deriving DecidableEq, Repr

/-- A fetch, with the number of invalidations that came before its start. -/
structure Fetch where
  startedAfter : ℕ
  stage : FetchStage
  deriving DecidableEq, Repr

/-- A token, with the fetch that delivered it. -/
structure CachedToken where
  token : String
  fetch : ℕ
  deriving DecidableEq, Repr

/-- What has become of a call of `ensureCsrfToken`. -/
inductive CallOutcome where
  | awaiting (fetch : ℕ)
  | returned (token : CachedToken)
  | rejected (fetch : ℕ)
  deriving DecidableEq, Repr

/-- A call, with the number of invalidations that came before it began. -/
structure Call where
  begunAfter : ℕ
  outcome : CallOutcome
  deriving DecidableEq, Repr

/-- The module state of one tab, and what has been started in it. -/
structure Client where
  csrfToken : Option CachedToken
  csrfFetchPromise : Option ℕ
  fetches : ℕ → Option Fetch
  fetchCount : ℕ
  calls : ℕ → Option Call
  callCount : ℕ
  invalidations : ℕ

def freshClient : Client := ⟨none, none, fun _ => none, 0, fun _ => none, 0, 0⟩

/-- What may happen to the token of a tab. -/
inductive Event where
  | ensureCsrfToken
  | answer (fetch : ℕ) (token : String)
  | reject (fetch : ℕ)
  /-- The `.finally` of a fetch. -/
  | settle (fetch : ℕ)
  /-- A caller goes on with the result of the fetch it awaited. -/
  | resume (call : ℕ)
  | clearCsrfToken
  /-- A storage event of another tab; only the invalidation key means anything. -/
  | storage (isInvalidation : Bool)
  deriving DecidableEq, Repr

def Client.setFetch (s : Client) (f : ℕ) (fetch : Fetch) : Client :=
  { s with fetches := Function.update s.fetches f (some fetch) }

def Client.setCall (s : Client) (c : ℕ) (call : Call) : Client :=
  { s with calls := Function.update s.calls c (some call) }

/-- A new call, with what it returned or awaits. -/
def Client.newCall (s : Client) (outcome : CallOutcome) : Client :=
  { s.setCall s.callCount ⟨s.invalidations, outcome⟩ with callCount := s.callCount + 1 }

/-- The cached token, if there is one to use: an empty string is none. -/
def Client.usableToken (s : Client) : Option CachedToken :=
  s.csrfToken.filter fun cached => cached.token ≠ ""

def Client.ensureCsrfToken (s : Client) : Client :=
  match s.usableToken with
  | some cached => s.newCall (.returned cached)
  | none =>
    match s.csrfFetchPromise with
    | some f => s.newCall (.awaiting f)
    | none => { (s.setFetch s.fetchCount ⟨s.invalidations, .pending⟩).newCall
        (.awaiting s.fetchCount) with
          csrfFetchPromise := some s.fetchCount
          fetchCount := s.fetchCount + 1 }

/-- Forgets the token and the shared promise. -/
def Client.invalidate (s : Client) : Client :=
  { s with
    csrfToken := none
    csrfFetchPromise := none
    invalidations := s.invalidations + 1 }

/-- What a fetch whose handlers have run leaves its callers with. -/
def FetchStage.settled : FetchStage → Option FetchStage
  | answered token => some (fulfilled token)
  | rejected => some failed
  | _ => none

/-- The result a caller gets of a fetch that is over. -/
def FetchStage.result (f : ℕ) : FetchStage → Option CallOutcome
  | fulfilled token => some (.returned ⟨token, f⟩)
  | failed => some (.rejected f)
  | _ => none

/-- One event; `none` where it cannot happen. -/
def Client.step (s : Client) : Event → Option Client
  | .ensureCsrfToken => some s.ensureCsrfToken
  | .answer f token =>
    match s.fetches f with
    | some ⟨startedAfter, .pending⟩ =>
      some { s.setFetch f ⟨startedAfter, .answered token⟩ with csrfToken := some ⟨token, f⟩ }
    | _ => none
  | .reject f =>
    match s.fetches f with
    | some ⟨startedAfter, .pending⟩ => some (s.setFetch f ⟨startedAfter, .rejected⟩)
    | _ => none
  | .settle f =>
    match s.fetches f with
    | some ⟨startedAfter, stage⟩ =>
      match stage.settled with
      | some stage => some { s.setFetch f ⟨startedAfter, stage⟩ with csrfFetchPromise := none }
      | none => none
    | none => none
  | .resume c =>
    match s.calls c with
    | some ⟨begunAfter, .awaiting f⟩ =>
      match (s.fetches f).bind fun fetch => fetch.stage.result f with
      | some outcome => some (s.setCall c ⟨begunAfter, outcome⟩)
      | none => none
    | _ => none
  | .clearCsrfToken => some s.invalidate
  | .storage isInvalidation => some (if isInvalidation then s.invalidate else s)

theorem Client.setFetch_self (s : Client) (f : ℕ) (fetch : Fetch) :
    (s.setFetch f fetch).fetches f = some fetch := update_self ..

theorem Client.setFetch_of_ne (s : Client) {f g : ℕ} (fetch : Fetch) (h : g ≠ f) :
    (s.setFetch f fetch).fetches g = s.fetches g := update_of_ne h _ _

theorem Client.setCall_self (s : Client) (c : ℕ) (call : Call) :
    (s.setCall c call).calls c = some call := update_self ..

theorem Client.setCall_of_ne (s : Client) {c c' : ℕ} (call : Call) (h : c' ≠ c) :
    (s.setCall c call).calls c' = s.calls c' := update_of_ne h _ _

/-! ## What is asked of it -/

/-- Whether a fetch is under way: its handlers have not all run. -/
def FetchStage.inFlight : FetchStage → Bool
  | pending | answered _ | rejected => true
  | fulfilled _ | failed => false

/-- How many invalidations came before the start of a fetch. -/
def Client.start (s : Client) (f : ℕ) : Option ℕ := (s.fetches f).map (·.startedAfter)

theorem Client.start_of_fetch {s : Client} {f : ℕ} {fetch : Fetch}
    (h : s.fetches f = some fetch) : s.start f = some fetch.startedAfter := by
  unfold Client.start
  rw [h]
  rfl

/-- A fetch started since the last invalidation is under way. -/
def Client.CurrentFetch (s : Client) (f : ℕ) : Prop :=
  ∃ fetch, s.fetches f = some fetch ∧ fetch.startedAfter = s.invalidations ∧ fetch.stage.inFlight

/-- No call returned a token fetched before an invalidation that preceded the call, and at most one
fetch started since the last invalidation is under way. -/
structure Stands (s : Client) : Prop where
  returned : ∀ c begunAfter cached, s.calls c = some ⟨begunAfter, .returned cached⟩ →
    ∃ startedAfter, s.start cached.fetch = some startedAfter ∧ begunAfter ≤ startedAfter
  single : ∀ f g, s.CurrentFetch f → s.CurrentFetch g → f = g

/-- A handler of a fetch runs before any invalidation that comes after the start of the fetch. -/
def InTime (s : Client) : Event → Prop
  | .answer f _ | .settle f => ∀ startedAfter ∈ s.start f, startedAfter = s.invalidations
  | _ => True

instance : ∀ (s : Client) (e : Event), Decidable (InTime s e)
  | s, .answer f _ | s, .settle f => inferInstanceAs
    (Decidable (∀ startedAfter ∈ s.start f, startedAfter = s.invalidations))
  | _, .ensureCsrfToken | _, .reject _ | _, .resume _ | _, .clearCsrfToken | _, .storage _ =>
    inferInstanceAs (Decidable True)

/-! ## The invariant -/

/-- What a call that began after `begunAfter` invalidations may await or have returned. -/
def Client.Recent (s : Client) (begunAfter : ℕ) : CallOutcome → Prop
  | .awaiting f => ∃ startedAfter, s.start f = some startedAfter ∧ begunAfter ≤ startedAfter
  | .returned cached =>
    ∃ startedAfter, s.start cached.fetch = some startedAfter ∧ begunAfter ≤ startedAfter
  | .rejected _ => True

/-- Token, promise and callers know only fetches that no invalidation has overtaken. -/
structure Fresh (s : Client) : Prop where
  counted : ∀ f, s.fetchCount ≤ f → s.fetches f = none
  started : ∀ f startedAfter, s.start f = some startedAfter → startedAfter ≤ s.invalidations
  token : ∀ cached, s.csrfToken = some cached → s.start cached.fetch = some s.invalidations
  promise : ∀ f, s.csrfFetchPromise = some f ↔ s.CurrentFetch f
  calls : ∀ c begunAfter outcome, s.calls c = some ⟨begunAfter, outcome⟩ →
    s.Recent begunAfter outcome

theorem Fresh.stands {s : Client} (h : Fresh s) : Stands s where
  returned c begunAfter cached hc := h.calls c begunAfter _ hc
  single f g hf hg := by
    have hpromise := ((h.promise f).2 hf).symm.trans ((h.promise g).2 hg)
    exact some.inj hpromise

theorem fresh_start : Fresh freshClient where
  counted _ _ := rfl
  started _ _ := nofun
  token _ := nofun
  promise f := by
    refine ⟨nofun, ?_⟩
    rintro ⟨_, h, -⟩
    cases h
  calls _ _ _ := nofun

section Steps

variable {s : Client}

/-- A new call may return the cached token or await a current fetch. -/
theorem Fresh.newCall (h : Fresh s) {outcome : CallOutcome}
    (hrecent : s.Recent s.invalidations outcome) : Fresh (s.newCall outcome) where
  counted := h.counted
  started := h.started
  token := h.token
  promise := h.promise
  calls c begunAfter outcome' hc := by
    by_cases hnew : c = s.callCount
    · subst hnew
      cases (s.setCall_self _ _).symm.trans hc
      exact hrecent
    · apply h.calls c
      exact (s.setCall_of_ne _ hnew).symm.trans hc

/-- A new fetch starts only when no current one is under way. -/
theorem Fresh.newFetch (h : Fresh s) (hpromise : s.csrfFetchPromise = none) :
    Fresh { s.setFetch s.fetchCount ⟨s.invalidations, .pending⟩ with
      csrfFetchPromise := some s.fetchCount
      fetchCount := s.fetchCount + 1 } := by
  have hself := s.setFetch_self s.fetchCount ⟨s.invalidations, .pending⟩
  have hother := fun f (hf : f ≠ s.fetchCount) =>
    s.setFetch_of_ne ⟨s.invalidations, .pending⟩ hf
  have hnone : ∀ f, ¬ s.CurrentFetch f := by
    intro f hf
    have hsome := (h.promise f).2 hf
    rw [hpromise] at hsome
    cases hsome
  have hstart : ∀ f startedAfter, s.start f = some startedAfter →
      (s.setFetch s.fetchCount ⟨s.invalidations, .pending⟩).start f = some startedAfter := by
    intro f startedAfter hf
    have hne : f ≠ s.fetchCount := by
      rintro rfl
      unfold Client.start at hf
      rw [h.counted _ (Nat.le_refl _)] at hf
      cases hf
    unfold Client.start
    rw [hother f hne]
    exact hf
  refine ⟨?_, ?_, ?_, ?_, ?_⟩
  · intro f hf
    have hlt : s.fetchCount + 1 ≤ f := hf
    show (s.setFetch s.fetchCount _).fetches f = none
    rw [hother f (by omega)]
    exact h.counted f (by omega)
  · intro f startedAfter hf
    by_cases hnew : f = s.fetchCount
    · subst hnew
      cases (Client.start_of_fetch hself).symm.trans hf
      exact Nat.le_refl _
    · apply h.started f
      rw [← hf]
      exact congrArg _ (hother f hnew).symm
  · intro cached hcached
    exact hstart _ _ (h.token cached hcached)
  · intro f
    constructor
    · intro hf
      cases hf
      exact ⟨_, hself, rfl, rfl⟩
    · rintro ⟨fetch, hfetch, hcurrent⟩
      by_cases hnew : f = s.fetchCount
      · rw [hnew]
      · refine (hnone f ⟨fetch, ?_, hcurrent⟩).elim
        rw [← hother f hnew]
        exact hfetch
  · intro c begunAfter outcome hc
    have hrecent := h.calls c begunAfter outcome hc
    cases outcome with
    | awaiting f =>
      obtain ⟨startedAfter, hf, hle⟩ := hrecent
      exact ⟨startedAfter, hstart f _ hf, hle⟩
    | returned cached =>
      obtain ⟨startedAfter, hf, hle⟩ := hrecent
      exact ⟨startedAfter, hstart _ _ hf, hle⟩
    | rejected f => exact trivial

theorem Fresh.ensure (h : Fresh s) : Fresh s.ensureCsrfToken := by
  unfold Client.ensureCsrfToken
  split
  · rename_i cached hcached
    apply h.newCall
    exact ⟨_, h.token cached (filter_eq_some_iff.1 hcached).1, Nat.le_refl _⟩
  · split
    · rename_i f hf
      apply h.newCall
      obtain ⟨fetch, hfetch, hstart, -⟩ := (h.promise f).1 hf
      exact ⟨_, Client.start_of_fetch hfetch, Nat.le_of_eq hstart.symm⟩
    · rename_i hpromise
      have hfresh := h.newFetch hpromise
      have hself := s.setFetch_self s.fetchCount ⟨s.invalidations, .pending⟩
      exact hfresh.newCall ⟨s.invalidations, Client.start_of_fetch hself, Nat.le_refl _⟩

/-- A fetch goes on to its next stage. -/
theorem Fresh.setStage (h : Fresh s) {f startedAfter : ℕ} {stage stage' : FetchStage}
    (hf : s.fetches f = some ⟨startedAfter, stage⟩) (hin : stage.inFlight)
    (token : Option CachedToken) (promise : Option ℕ)
    (htoken : ∀ cached, token = some cached → s.start cached.fetch = some s.invalidations)
    (hpromise : promise = if stage'.inFlight then s.csrfFetchPromise else none)
    (htime : stage'.inFlight = false → startedAfter = s.invalidations) :
    Fresh { s.setFetch f ⟨startedAfter, stage'⟩ with
      csrfToken := token
      csrfFetchPromise := promise } := by
  have hstart : ∀ g, (s.setFetch f ⟨startedAfter, stage'⟩).start g = s.start g := by
    intro g
    by_cases hg : g = f
    · subst hg
      rw [Client.start_of_fetch hf]
      have hself := Client.start_of_fetch (s.setFetch_self g ⟨startedAfter, stage'⟩)
      exact hself
    · exact congrArg _ (s.setFetch_of_ne _ hg)
  have hself := s.setFetch_self f ⟨startedAfter, stage'⟩
  have hother := fun g (hg : g ≠ f) => s.setFetch_of_ne ⟨startedAfter, stage'⟩ hg
  refine ⟨?_, ?_, ?_, ?_, ?_⟩
  · intro g hg
    have hne : g ≠ f := by
      rintro rfl
      rw [h.counted g hg] at hf
      cases hf
    exact (hother g hne).trans (h.counted g hg)
  · intro g n hg
    exact h.started g n ((hstart g).symm.trans hg)
  · intro cached hcached
    exact (hstart _).trans (htoken cached hcached)
  · intro g
    show promise = some g ↔ _
    cases hstage : stage'.inFlight with
    | true =>
      -- still under way: the shared promise stays
      rw [hpromise, hstage, if_pos rfl, h.promise g]
      by_cases hg : g = f
      · subst hg
        constructor
        · rintro ⟨fetch, hfetch, hcurrent, -⟩
          rw [hf] at hfetch
          cases hfetch
          exact ⟨_, hself, hcurrent, hstage⟩
        · rintro ⟨fetch, hfetch, hcurrent, -⟩
          rw [show _ = some fetch from hfetch] at hself
          cases hself
          exact ⟨_, hf, hcurrent, hin⟩
      · constructor
        · rintro ⟨fetch, hfetch, hcurrent⟩
          exact ⟨fetch, (hother g hg).trans hfetch, hcurrent⟩
        · rintro ⟨fetch, hfetch, hcurrent⟩
          exact ⟨fetch, (hother g hg).symm.trans hfetch, hcurrent⟩
    | false =>
      -- over: it was the current one, and there is no other
      rw [hpromise, hstage, if_neg (by simp)]
      refine ⟨nofun, ?_⟩
      rintro ⟨fetch, hfetch, hcurrent, hflight⟩
      by_cases hg : g = f
      · subst hg
        rw [show _ = some fetch from hfetch] at hself
        cases hself
        rw [hstage] at hflight
        cases hflight
      · have hboth := ((h.promise g).2 ⟨fetch, (hother g hg).symm.trans hfetch, hcurrent,
          hflight⟩).symm.trans ((h.promise f).2 ⟨_, hf, htime hstage, hin⟩)
        exact (hg (some.inj hboth)).elim
  · intro c begunAfter outcome hc
    have hrecent := h.calls c begunAfter outcome hc
    cases outcome with
    | awaiting g =>
      obtain ⟨n, hn, hle⟩ := hrecent
      exact ⟨n, (hstart g).trans hn, hle⟩
    | returned cached =>
      obtain ⟨n, hn, hle⟩ := hrecent
      exact ⟨n, (hstart _).trans hn, hle⟩
    | rejected g => exact trivial

theorem Fresh.invalidate (h : Fresh s) : Fresh s.invalidate where
  counted := h.counted
  started f n hf := Nat.le_trans (h.started f n hf) (Nat.le_succ _)
  token _ := nofun
  promise f := by
    refine ⟨nofun, ?_⟩
    rintro ⟨fetch, hfetch, hcurrent, -⟩
    have hle : fetch.startedAfter ≤ s.invalidations := by
      apply h.started f
      show (s.fetches f).map _ = _
      rw [show s.fetches f = some fetch from hfetch]
      rfl
    have heq : fetch.startedAfter = s.invalidations + 1 := hcurrent
    omega
  calls := h.calls

/-- A caller goes on with the result of a fetch that is over. -/
theorem Fresh.resume (h : Fresh s) {c begunAfter f : ℕ} {fetch : Fetch} {outcome : CallOutcome}
    (hc : s.calls c = some ⟨begunAfter, .awaiting f⟩)
    (hresult : fetch.stage.result f = some outcome) : Fresh (s.setCall c ⟨begunAfter, outcome⟩) where
  counted := h.counted
  started := h.started
  token := h.token
  promise := h.promise
  calls c' begunAfter' outcome' hc' := by
    by_cases hcc : c' = c
    · subst hcc
      cases (s.setCall_self _ _).symm.trans hc'
      have hrecent := h.calls _ _ _ hc
      unfold FetchStage.result at hresult
      split at hresult
      · cases hresult
        exact hrecent
      · cases hresult
        exact trivial
      · cases hresult
    · apply h.calls c'
      exact (s.setCall_of_ne _ hcc).symm.trans hc'

end Steps

/-- Every event of a run whose fetches complete in time keeps the invariant. -/
theorem Fresh.step {s s' : Client} {e : Event} (h : Fresh s) (hok : InTime s e)
    (hs : s.step e = some s') : Fresh s' := by
  cases e with
  | ensureCsrfToken =>
    cases hs
    exact h.ensure
  | answer f token =>
    dsimp only [Client.step] at hs
    split at hs
    · rename_i startedAfter hf
      cases hs
      have hstart := Client.start_of_fetch hf
      refine h.setStage hf rfl (some ⟨token, f⟩) s.csrfFetchPromise ?_ rfl nofun
      rintro _ ⟨⟩
      rw [hstart, hok startedAfter hstart]
    · cases hs
  | reject f =>
    dsimp only [Client.step] at hs
    split at hs
    · rename_i startedAfter hf
      cases hs
      exact h.setStage hf rfl s.csrfToken s.csrfFetchPromise h.token rfl nofun
    · cases hs
  | settle f =>
    dsimp only [Client.step] at hs
    split at hs
    · rename_i startedAfter stage hf
      split at hs
      · rename_i stage' hstage
        cases hs
        have hstart := Client.start_of_fetch hf
        have hin : stage.inFlight ∧ stage'.inFlight = false := by
          cases stage <;> cases hstage <;> exact ⟨rfl, rfl⟩
        refine h.setStage hf hin.1 s.csrfToken none h.token ?_ fun _ => hok _ hstart
        rw [hin.2, if_neg (by simp)]
      · cases hs
    · cases hs
  | resume c =>
    dsimp only [Client.step] at hs
    split at hs
    · rename_i begunAfter f hc
      split at hs
      · rename_i outcome hresult
        cases hs
        obtain ⟨fetch, -, hresult⟩ := bind_eq_some_iff.1 hresult
        exact h.resume hc hresult
      · cases hs
    · cases hs
  | clearCsrfToken =>
    cases hs
    exact h.invalidate
  | storage isInvalidation =>
    cases hs
    split
    · exact h.invalidate
    · exact h

/-! ## The claim of an invalidation -/

/-- **An invalidation stands**, whatever calls, invalidations and completions are interleaved, as
long as no handler of a fetch runs after an invalidation that overtook the fetch. -/
theorem invalidation_stands {s : Client} (h : Run Client.step InTime freshClient s) : Stands s :=
  (h.invariant fresh_start fun _ _ _ hfresh hok hs => hfresh.step hok hs).stands

theorem invalidation_stands_answered :
    ∃ s, replay Client.step InTime freshClient
        [.ensureCsrfToken, .answer 0 "a", .settle 0, .resume 0, .clearCsrfToken, .ensureCsrfToken]
          = some s ∧ Stands s := by
  have hrun : replay Client.step InTime freshClient
      [.ensureCsrfToken, .answer 0 "a", .settle 0, .resume 0, .clearCsrfToken, .ensureCsrfToken]
        = some _ := rfl
  exact ⟨_, hrun, invalidation_stands (Run.of_replay hrun)⟩

/-- The fetch of the first call completes after the invalidation: its token is cached again, and
handed to the next caller. -/
theorem invalidation_stands_late :
    ∃ s, Run Client.step (fun _ _ => True) freshClient s ∧ ¬ Stands s := by
  have hrun : replay Client.step (fun _ _ => True) freshClient
      [.ensureCsrfToken, .clearCsrfToken, .answer 0 "a", .settle 0, .ensureCsrfToken]
        = some _ := rfl
  refine ⟨_, Run.of_replay hrun, fun h => ?_⟩
  obtain ⟨startedAfter, hstart, hle⟩ := h.returned 1 1 ⟨"a", 0⟩ rfl
  cases hstart
  exact absurd hle (by decide)

end HVault.Csrf
