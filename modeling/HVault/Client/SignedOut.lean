import HVault.Client.AuthStore

/-!
# A signed-out store holds nothing

After the reset of a logout the store holds no token and no key until a sign-in completes, as long as
no refresh of the access token stores its token in between (`signed_out_holds_nothing`). An unlock
looks whether its session is still there before it writes; a refresh does not
(`signed_out_holds_nothing_refresh`). The master key is held only in a session or for a pending
second factor, whatever the refreshes do (`mek_guarded`).
-/

namespace HVault.AuthStore

open Interleave Client Tab

/-! ## What is asked of it -/

/-- The master key belongs to a session or to a pending second factor. -/
def Guarded (s : Tab) : Prop :=
  s.store.mek ≠ none → s.store.isAuthenticated = true ∨ s.store.twoFactorRequired = true

structure HoldsNothing (s : Tab) : Prop where
  empty : s.signedOut = true → s.store.accessToken = none ∧ s.store.vaultKey = none
  mek : s.signedOut = true → s.store.twoFactorRequired = false → s.store.mek = none
  guarded : Guarded s

/-- A refresh does not store its token in a store that a logout has reset. -/
def InSession (s : Tab) : Event → Prop
  | .refreshed _ _ => s.signedOut = false
  | _ => True

instance (s : Tab) (e : Event) : Decidable (InSession s e) := by
  unfold InSession
  split <;> infer_instance

/-! ## The master key -/

variable {s : Tab}

theorem Guarded.of_none (h : s.store.mek = none) : Guarded s := fun hmek => (hmek h).elim

theorem Guarded.loginAnswered (s : Tab) (a : ℕ) (email : String) (rememberMe : Bool)
    (answer : LoginAnswer) : Guarded (s.loginAnswered a email rememberMe answer) := by
  cases answer with
  | twoFactorRequired tempToken => exact fun _ => .inr rfl
  | session data => exact fun _ => .inl rfl

theorem Guarded.verifyFailed (h : Guarded s) (failure : Failure) :
    Guarded (s.verifyFailed failure) := by
  unfold Tab.verifyFailed
  split
  · exact h
  · exact .of_none rfl

theorem Guarded.timer (h : Guarded s) (t mekRef : ℕ) : Guarded (s.timer t mekRef) := by
  unfold Tab.timer
  dsimp only
  split
  · exact .of_none rfl
  · exact h

theorem Guarded.unlockOpened (h : Guarded s) (a : ℕ) (frame : Unlocking) :
    Guarded (s.unlockOpened a frame) := by
  unfold Tab.unlockOpened
  split
  · rename_i hsame
    cases frame.live with
    | some live | none => exact fun _ => .inl hsame.2.1
  · exact h

theorem Guarded.begins (h : Guarded s) :
    (∀ email rememberMe, Guarded (s.login email rememberMe)) ∧ Guarded s.verify2fa ∧
      (∀ live, Guarded (s.unlock live)) ∧ Guarded s.logout := by
  refine ⟨fun email rememberMe => ?_, ?_, fun live => ?_, ?_⟩
  · unfold login
    split
    · exact h
    · exact h
  · unfold verify2fa
    split
    · exact h
    · split
      · exact h
      · exact .of_none rfl
  · unfold unlock
    split
    · split
      · exact h
      · exact h
    · exact h
  · unfold logout
    split
    · exact .of_none rfl
    · exact h

variable {s' : Tab} {e : Event}

theorem Guarded.resume {a : ℕ} {action : Action} (h : Guarded s)
    (hs : s.resume a action e = some s') : Guarded s' := by
  unfold Tab.resume at hs
  split at hs
  · cases hs
    exact Guarded.loginAnswered _ _ _ _ _
  · cases hs
    exact h
  · cases hs
    exact fun _ => .inl rfl
  · cases hs
    exact h.verifyFailed _
  · cases hs
    exact h.unlockOpened _ _
  · cases hs
    exact h
  · cases hs
    exact h
  · cases hs
    exact .of_none rfl
  · cases hs
    exact h
  · cases hs
    exact h
  · cases hs

theorem Guarded.step (h : Guarded s) (hs : s.step e = some s') : Guarded s' := by
  obtain ⟨hlogin, hverify, hunlock, hlogout⟩ := h.begins
  cases e with
  | login email rememberMe =>
    cases hs
    exact hlogin email rememberMe
  | verify2fa =>
    cases hs
    exact hverify
  | timer t =>
    obtain ⟨mekRef, -, rfl⟩ := Option.map_eq_some_iff.1 hs
    exact h.timer t mekRef
  | unlock live =>
    cases hs
    exact hunlock live
  | lock reason =>
    cases hs
    exact .of_none rfl
  | logout =>
    cases hs
    exact hlogout
  | refresh =>
    cases hs
    exact h
  | _ =>
    obtain ⟨action, ha, hr⟩ := step_target rfl hs
    exact h.resume hr

/-! ## The reset store -/

/-- A store that a logout has reset stays empty and unauthenticated. -/
def Out (s : Tab) : Prop :=
  s.signedOut = true → s.store.isAuthenticated = false ∧ s.store.accessToken = none ∧
    s.store.vaultKey = none

theorem Out.of_in (h : s.signedOut = false) : Out s :=
  fun hout => nomatch h.symm.trans hout

theorem Out.verifyFailed (h : Out s) (failure : Failure) : Out (s.verifyFailed failure) := by
  unfold Tab.verifyFailed
  split
  · exact h
  · exact h

/-- An unlock stores its key only into a session. -/
theorem Out.unlockOpened (h : Out s) (a : ℕ) (frame : Unlocking) :
    Out (s.unlockOpened a frame) := by
  unfold Tab.unlockOpened
  split
  · rename_i hsame
    intro hout
    have hauthenticated := (h hout).1
    rw [hsame.2.1] at hauthenticated
    cases hauthenticated
  · exact h

theorem Out.resume {a : ℕ} {action : Action} (h : Out s) (hok : InSession s e)
    (hs : s.resume a action e = some s') : Out s' := by
  unfold Tab.resume at hs
  split at hs
  · rename_i answer
    cases hs
    cases answer with
    | twoFactorRequired tempToken => exact h
    | session data => exact .of_in rfl
  · cases hs
    exact h
  · cases hs
    exact .of_in rfl
  · cases hs
    exact h.verifyFailed _
  · cases hs
    exact h.unlockOpened _ _
  · cases hs
    exact h
  · cases hs
    exact h
  · cases hs
    exact fun _ => ⟨rfl, rfl, rfl⟩
  · cases hs
    exact .of_in hok
  · cases hs
    exact h
  · cases hs

theorem Out.begins (h : Out s) :
    (∀ email rememberMe, Out (s.login email rememberMe)) ∧ Out s.verify2fa ∧
      (∀ live, Out (s.unlock live)) ∧ Out s.logout := by
  refine ⟨fun email rememberMe => ?_, ?_, fun live => ?_, ?_⟩
  · unfold login
    split
    · exact h
    · exact h
  · unfold verify2fa
    split
    · exact h
    · split
      · exact h
      · exact h
  · unfold unlock
    split
    · split
      · exact h
      · exact h
    · exact h
  · unfold logout
    split
    · exact fun _ => ⟨rfl, rfl, rfl⟩
    · exact h

theorem Out.step (h : Out s) (hok : InSession s e) (hs : s.step e = some s') : Out s' := by
  obtain ⟨hlogin, hverify, hunlock, hlogout⟩ := h.begins
  cases e with
  | login email rememberMe =>
    cases hs
    exact hlogin email rememberMe
  | verify2fa =>
    cases hs
    exact hverify
  | timer t =>
    obtain ⟨mekRef, -, rfl⟩ := Option.map_eq_some_iff.1 hs
    unfold timer
    dsimp only
    split
    · exact h
    · exact h
  | unlock live =>
    cases hs
    exact hunlock live
  | lock reason =>
    cases hs
    exact fun hout => ⟨(h hout).1, (h hout).2.1, rfl⟩
  | logout =>
    cases hs
    exact hlogout
  | refresh =>
    cases hs
    exact h
  | _ =>
    obtain ⟨action, -, hr⟩ := step_target rfl hs
    exact h.resume hok hr

/-- **A signed-out store** holds nothing, in every run in which no refresh stores its token after the
reset of a logout and before the next sign-in. -/
theorem signed_out_holds_nothing {persisted : Persisted} {rememberHint : Bool} {s : Tab}
    (h : Run Tab.step InSession (Tab.load persisted rememberHint) s) : HoldsNothing s := by
  have hout : Out s := h.invariant (.of_in rfl) fun _ _ _ hout hok hs => hout.step hok hs
  have hguarded : Guarded s :=
    h.invariant (.of_none rfl) fun _ _ _ hguarded _ hs => hguarded.step hs
  refine ⟨fun hsigned => (hout hsigned).2, fun hsigned hpending => ?_, hguarded⟩
  cases hmek : s.store.mek with
  | none => rfl
  | some mek =>
    have hheld := hguarded (by rw [hmek]; nofun)
    rw [(hout hsigned).1, hpending] at hheld
    simp at hheld

theorem signed_out_holds_nothing_unlock :
    ∃ s, HoldsNothing s ∧ s.signedOut = true := by
  have hrun : replay step InSession (load .none false)
      [.login "a@b.c" false, .loginAnswered 0 (.session firstLogin), .lock none, .unlock none,
        .logout, .reset 2, .unlockOpened 1] = some _ := rfl
  exact ⟨_, signed_out_holds_nothing (Run.of_replay hrun), rfl⟩

/-- A refresh is under way when the session is signed out, and its token is stored all the same. -/
theorem signed_out_holds_nothing_refresh :
    ∃ s, Run Tab.step (fun _ _ => True) (Tab.load .none false) s ∧ ¬ HoldsNothing s := by
  have hrun : replay step (fun _ _ => True) (load .none false)
      [.login "a@b.c" false, .loginAnswered 0 (.session firstLogin), .refresh, .logout, .reset 2,
        .refreshed 1 "fresh"] = some _ := rfl
  refine ⟨_, Run.of_replay hrun, fun hholds => ?_⟩
  have htoken := (hholds.empty rfl).1
  cases htoken

end HVault.AuthStore
