import HVault.Client.CrossTab

/-!
# What a sign-out sets off

The law of signing out across tabs (`sign_out_spares`). A requested logout is followed by its number,
its root, through the logouts that it sets off: `Finished` says that nothing of a root is left, and
`Clear` that nothing of it concerns a session. While a sign-out spreads no session arrives, so that
the roots that came before a session are finished by the time it does.
-/

namespace HVault.CrossTab

open Interleave List Function Option

/-! ## The numbers of sessions -/

/-- Every session that is named anywhere was made before. -/
structure Bounded (s : Origin) : Prop where
  cookie : ∀ n ∈ s.cookie, n < s.sessionCount
  session : ∀ t, ∀ n ∈ (s.tabs t).session, n < s.sessionCount
  scope : ∀ t, ∀ n ∈ (s.tabs t).scope, n < s.sessionCount
  logins : ∀ i login n, s.logins i = some login →
    login.stage = .answered n ∨ login.stage = .scoped n → n < s.sessionCount
  calls : ∀ i logout, s.logouts i = some logout → ∀ n ∈ logout.call, n < s.sessionCount
  harms : ∀ h ∈ s.harms, h.session < s.sessionCount

section Maps

variable {s : Origin} {i t : ℕ}

theorem setTab_cases {tab : Tab} {P : Tab → Prop} (h : ∀ t, P (s.tabs t)) (hself : P tab) (x : ℕ) :
    P ((s.setTab t tab).tabs x) := by
  by_cases hx : x = t
  · subst hx
    rw [show (s.setTab x tab).tabs x = tab from update_self ..]
    exact hself
  · rw [show (s.setTab t tab).tabs x = s.tabs x from update_of_ne hx ..]
    exact h x

theorem setLogin_cases {login login' : Login} {x : ℕ}
    (h : (s.setLogin i login).logins x = some login') :
    (x = i ∧ login' = login) ∨ (x ≠ i ∧ s.logins x = some login') := by
  by_cases hx : x = i
  · subst hx
    rw [show (s.setLogin x login).logins x = some login from update_self ..] at h
    exact .inl ⟨rfl, (some.inj h).symm⟩
  · rw [show (s.setLogin i login).logins x = s.logins x from update_of_ne hx ..] at h
    exact .inr ⟨hx, h⟩

theorem setLogout_cases {logout logout' : Logout} {x : ℕ}
    (h : (s.setLogout i logout).logouts x = some logout') :
    (x = i ∧ logout' = logout) ∨ (x ≠ i ∧ s.logouts x = some logout') := by
  by_cases hx : x = i
  · subst hx
    rw [show (s.setLogout x logout).logouts x = some logout from update_self ..] at h
    exact .inl ⟨rfl, (some.inj h).symm⟩
  · rw [show (s.setLogout i logout).logouts x = s.logouts x from update_of_ne hx ..] at h
    exact .inr ⟨hx, h⟩

theorem mem_harm {root : ℕ} {session : Option ℕ} {h : Harm}
    (hmem : h ∈ (s.harm root session).harms) :
    h ∈ s.harms ∨ (h.root = root ∧ session = some h.session) := by
  rcases mem_append.1 hmem with hold | hnew
  · exact .inl hold
  · cases session with
    | none => cases hnew
    | some n =>
      rw [mem_singleton.1 hnew]
      exact .inr ⟨rfl, rfl⟩

end Maps

section Bounds

variable {s : Origin} {i t : ℕ}

theorem Bounded.setTab (h : Bounded s) (tab : Tab)
    (hsession : ∀ n ∈ tab.session, n < s.sessionCount)
    (hscope : ∀ n ∈ tab.scope, n < s.sessionCount) : Bounded (s.setTab t tab) :=
  { h with
    session := setTab_cases (P := fun tab => ∀ n ∈ tab.session, n < s.sessionCount) h.session hsession
    scope := setTab_cases (P := fun tab => ∀ n ∈ tab.scope, n < s.sessionCount) h.scope hscope }

theorem Bounded.setLogin (h : Bounded s) (login : Login)
    (hlogin : ∀ n, login.stage = .answered n ∨ login.stage = .scoped n → n < s.sessionCount) :
    Bounded (s.setLogin i login) := by
  refine { h with logins := fun x login' n hx hn => ?_ }
  rcases setLogin_cases hx with ⟨-, rfl⟩ | ⟨-, hold⟩
  · exact hlogin n hn
  · exact h.logins x login' n hold hn

theorem Bounded.setLogout (h : Bounded s) (logout : Logout)
    (hcall : ∀ n ∈ logout.call, n < s.sessionCount) : Bounded (s.setLogout i logout) := by
  refine { h with calls := fun x logout' hx => ?_ }
  rcases setLogout_cases hx with ⟨-, rfl⟩ | ⟨-, hold⟩
  · exact hcall
  · exact h.calls x logout' hold

theorem Bounded.harm (h : Bounded s) {root : ℕ} {session : Option ℕ}
    (hsession : ∀ n ∈ session, n < s.sessionCount) : Bounded (s.harm root session) := by
  refine { h with harms := fun harm hmem => ?_ }
  rcases mem_harm hmem with hold | ⟨-, hnew⟩
  · exact h.harms harm hold
  · exact hsession harm.session hnew

theorem Bounded.resetStore (h : Bounded s) {logout : Logout}
    (hcall : ∀ n ∈ logout.call, n < s.sessionCount) : Bounded (s.resetStore i logout) := by
  have hharm : Bounded (s.harm logout.root (s.tabs logout.tab).session) := h.harm (h.session _)
  have htab : Bounded ((s.harm logout.root (s.tabs logout.tab).session).setTab logout.tab
      { signedOutTab with scope := (s.tabs logout.tab).scope }) := hharm.setTab _ nofun (h.scope _)
  have hlogout := htab.setLogout (i := i) { logout with stage := .storeReset } hcall
  exact { hlogout with }

end Bounds

/-! ## The invariant -/

/-- Nothing of the root `r` concerns the session `n`: no call that was sent with its cookie, and
nothing that was done. -/
structure Clear (s : Origin) (r n : ℕ) : Prop where
  calls : ∀ i logout, s.logouts i = some logout → logout.root = r → logout.call ≠ some n
  harms : ∀ h ∈ s.harms, h.root = r → h.session ≠ n

/-- Nothing that the requested logout `r` set off is left. -/
structure Finished (s : Origin) (r : ℕ) : Prop where
  logouts : ∀ i logout, s.logouts i = some logout → logout.root = r → logout.stage = .over
  signals : ∀ signal ∈ s.signals, signal.root ≠ r

section Congruence

variable {s s' : Origin} {r n : ℕ}

theorem Clear.congr (h : Clear s r n) (hlogouts : s'.logouts = s.logouts)
    (hharms : s'.harms = s.harms) : Clear s' r n := by
  refine ⟨?_, ?_⟩
  · rw [hlogouts]
    exact h.calls
  · rw [hharms]
    exact h.harms

theorem Finished.congr (h : Finished s r) (hlogouts : s'.logouts = s.logouts)
    (hsignals : s'.signals = s.signals) : Finished s' r := by
  refine ⟨?_, ?_⟩
  · rw [hlogouts]
    exact h.logouts
  · rw [hsignals]
    exact h.signals

end Congruence

/-- A login that has been answered with the session `n`. -/
def Login.Brings (login : Login) (n : ℕ) : Prop :=
  login.stage = .answered n ∨ login.stage = .scoped n

structure Kept (s : Origin) : Prop where
  bounded : Bounded s
  numbered : ∀ i, s.logoutCount ≤ i → s.logouts i = none
  resets : ∀ r ∈ s.resets, r < s.logoutCount
  /-- A logout whose root has not reset its store is that root, and awaits the server. -/
  rooted : ∀ i logout, s.logouts i = some logout →
    logout.root ∈ s.resets ∨ logout.root = i ∧ logout.stage = .calling
  signalled : ∀ signal ∈ s.signals, signal.root ∈ s.resets
  apart : s.Spreads → ¬ s.Arrives
  arriving : ∀ i login n, s.logins i = some login → login.Brings n → ∀ r ∈ s.resets, Clear s r n
  done : ∀ n before, s.completed n = some before → ∀ r ∈ before,
    r ∈ s.resets ∧ Finished s r ∧ Clear s r n

section Steps

variable {s s' : Origin} {i : ℕ}

theorem Kept.spares (h : Kept s) : Spares s := by
  intro harm hharm before hbefore hroot
  obtain ⟨-, -, hclear⟩ := h.done harm.session before hbefore harm.root hroot
  exact hclear.harms harm hharm rfl rfl

/-- A root with a logout that is not over came after every completed session it could harm. -/
theorem Kept.not_before (h : Kept s) {logout : Logout} (hi : s.logouts i = some logout)
    (hactive : logout.stage ≠ .over) {n : ℕ} {before : List ℕ}
    (hn : s.completed n = some before) : logout.root ∉ before := fun hroot =>
  hactive ((h.done n before hn logout.root hroot).2.1.logouts i logout hi rfl)

/-! ## Logins -/

/-- A step of a login that brings no session that was not there before. -/
theorem Kept.of_logins (h : Kept s) (hlogouts : s'.logouts = s.logouts)
    (hcount : s'.logoutCount = s.logoutCount) (hsignals : s'.signals = s.signals)
    (hresets : s'.resets = s.resets) (hharms : s'.harms = s.harms)
    (hcompleted : s'.completed = s.completed) (hbounded : Bounded s')
    (hbrings : ∀ x login n, s'.logins x = some login → login.Brings n →
      ∃ y login', s.logins y = some login' ∧ login'.Brings n) : Kept s' := by
  refine ⟨hbounded, ?_, ?_, ?_, ?_, ?_, fun x login n hx hn r hr => ?_, fun n before hn r hr => ?_⟩
  · rw [hlogouts, hcount]
    exact h.numbered
  · rw [hresets, hcount]
    exact h.resets
  · rw [hlogouts, hresets]
    exact h.rooted
  · rw [hsignals, hresets]
    exact h.signalled
  · unfold Origin.Spreads Origin.Arrives
    rw [hlogouts, hresets, hsignals]
    rintro hspreads ⟨x, login, n, hx, hn⟩
    obtain ⟨y, login', hy, hn'⟩ := hbrings x login n hx hn
    exact h.apart hspreads ⟨y, login', n, hy, hn'⟩
  · obtain ⟨y, login', hy, hn'⟩ := hbrings x login n hx hn
    rw [hresets] at hr
    exact (h.arriving y login' n hy hn' r hr).congr hlogouts hharms
  · rw [hcompleted] at hn
    obtain ⟨hreset, hfinished, hclear⟩ := h.done n before hn r hr
    refine ⟨?_, hfinished.congr hlogouts hsignals, hclear.congr hlogouts hharms⟩
    rw [hresets]
    exact hreset

theorem Kept.loginAnswered (h : Kept s) {login : Login} (hspreads : ¬ s.Spreads) :
    Kept (s.loginAnswered i login) := by
  have hclear : ∀ r, Clear s r s.sessionCount := by
    intro r
    refine ⟨fun x logout hx _ hcall => ?_, fun harm hmem _ hsession => ?_⟩
    · exact absurd (h.bounded.calls x logout hx s.sessionCount hcall) (Nat.lt_irrefl _)
    · exact absurd (hsession ▸ h.bounded.harms harm hmem) (Nat.lt_irrefl _)
  have hcongr : ∀ r n, Clear s r n → Clear (s.loginAnswered i login) r n :=
    fun r n hc => hc.congr rfl rfl
  have hbounded : Bounded (s.loginAnswered i login) := by
    have hlt : ∀ n, n < s.sessionCount → n < s.sessionCount + 1 := fun n => Nat.lt_succ_of_lt
    refine ⟨?_, fun t n hn => hlt n (h.bounded.session t n hn),
      fun t n hn => hlt n (h.bounded.scope t n hn), fun x login' n hx hn => ?_,
      fun x logout hx n hn => hlt n (h.bounded.calls x logout hx n hn),
      fun harm hmem => hlt _ (h.bounded.harms harm hmem)⟩
    · intro n hn
      rw [← some.inj hn]
      exact Nat.lt_succ_self _
    · rcases setLogin_cases hx with ⟨-, rfl⟩ | ⟨-, hold⟩
      · rcases hn with hn | hn
        · rw [← LoginStage.answered.inj hn]
          exact Nat.lt_succ_self _
        · cases hn
      · exact hlt n (h.bounded.logins x login' n hold hn)
  refine ⟨hbounded, h.numbered, h.resets, h.rooted, h.signalled, fun hs => absurd hs hspreads,
    fun x login' n hx hn r hr => ?_, fun n before hbefore r hr => ?_⟩
  · rcases setLogin_cases hx with ⟨-, rfl⟩ | ⟨-, hold⟩
    · rcases hn with hn | hn
      · rw [← LoginStage.answered.inj hn]
        exact hcongr r _ (hclear r)
      · cases hn
    · exact hcongr r n (h.arriving x login' n hold hn r hr)
  · obtain ⟨hreset, hfinished, hc⟩ := h.done n before hbefore r hr
    exact ⟨hreset, hfinished.congr rfl rfl, hcongr r n hc⟩

/-- What has reset its store before a session is completed is finished: otherwise a sign-out would
spread while the login arrives. -/
theorem Kept.complete (h : Kept s) {login : Login} {n : ℕ} (hi : s.logins i = some login)
    (hn : login.Brings n) :
    Kept { s with completed := Function.update s.completed n (some s.resets) } := by
  have hquiet : ¬ s.Spreads := fun hs => h.apart hs ⟨i, login, n, hi, hn⟩
  have hfinished : ∀ r ∈ s.resets, Finished s r := by
    intro r hr
    refine ⟨fun x logout hx hroot => ?_, fun signal hmem _ => ?_⟩
    · by_contra hactive
      exact hquiet (.inl ⟨x, logout, hx, hroot ▸ hr, hactive⟩)
    · exact hquiet (.inr (ne_nil_of_mem hmem))
  refine ⟨{ h.bounded with }, h.numbered, h.resets, h.rooted, h.signalled, h.apart,
    fun x login' m hx hm r hr => (h.arriving x login' m hx hm r hr).congr rfl rfl,
    fun m before hbefore r hr => ?_⟩
  change update s.completed n (some s.resets) m = some before at hbefore
  by_cases hm : m = n
  · rw [hm, update_self] at hbefore
    rw [← some.inj hbefore] at hr
    rw [hm]
    exact ⟨hr, (hfinished r hr).congr rfl rfl, (h.arriving i login n hi hn r hr).congr rfl rfl⟩
  · rw [update_of_ne hm] at hbefore
    obtain ⟨hreset, hfin, hc⟩ := h.done m before hbefore r hr
    exact ⟨hreset, hfin.congr rfl rfl, hc.congr rfl rfl⟩

/-- After a step of a login that is over or brings what it brought, nothing new is brought. -/
theorem brings_of_setLogin {login login' : Login} (hi : s.logins i = some login)
    (h : ∀ n, login'.Brings n → login.Brings n) :
    ∀ x l n, (s.setLogin i login').logins x = some l → l.Brings n →
      ∃ y l', s.logins y = some l' ∧ l'.Brings n := by
  intro x l n hx hn
  rcases setLogin_cases hx with ⟨-, rfl⟩ | ⟨-, hold⟩
  · exact ⟨i, login, hi, h n hn⟩
  · exact ⟨x, l, hold, hn⟩

theorem not_brings_over {t n : ℕ} : ¬ Login.Brings ⟨t, .over⟩ n := by
  rintro (h | h) <;> cases h

theorem Kept.stepLogin (h : Kept s) {login : Login} {e : Event} (hi : s.logins i = some login)
    (hok : ∀ x, e = .loginAnswered x → ¬ s.Spreads) (hs : s.stepLogin i login e = some s') :
    Kept s' := by
  have hover : ∀ n, Login.Brings ⟨login.tab, .over⟩ n → login.Brings n :=
    fun n hn => absurd hn not_brings_over
  have hfailed : Kept (s.loginFailed i login) := by
    have htab := h.bounded.setTab (t := login.tab) { s.tabs login.tab with
      isLoading := false } (h.bounded.session _) (h.bounded.scope _)
    exact h.of_logins rfl rfl rfl rfl rfl rfl
      (htab.setLogin _ fun n hn => absurd hn not_brings_over) (brings_of_setLogin hi hover)
  have hscoped : ∀ n, login.Brings n → Kept (s.loginScoped i login n) := by
    intro n hn
    have hlt : n < s.sessionCount := h.bounded.logins i login n hi hn
    have hbrings : ∀ m, Login.Brings ⟨login.tab, .scoped n⟩ m → m = n := by
      rintro m (hm | hm)
      · cases hm
      · exact (LoginStage.scoped.inj hm).symm
    have htab := h.bounded.setTab (t := login.tab) { s.tabs login.tab with
      scope := some n } (h.bounded.session _) fun m hm => some.inj hm ▸ hlt
    refine h.of_logins rfl rfl rfl rfl rfl rfl (htab.setLogin _ fun m hm => ?_)
      (brings_of_setLogin hi fun m hm => ?_)
    · rw [hbrings m hm]
      exact hlt
    · rw [hbrings m hm]
      exact hn
  have hcompleted : ∀ n, login.Brings n → Kept (s.loginCompleted i login n) := by
    intro n hn
    have hlt : n < s.sessionCount := h.bounded.logins i login n hi hn
    have hcomplete := h.complete hi hn
    have htab := hcomplete.bounded.setTab (t := login.tab) { s.tabs login.tab with
      accessToken := true, isAuthenticated := true, isLocked := false, isLoading := false,
      session := some n } (fun m hm => some.inj hm ▸ hlt) (h.bounded.scope _)
    exact hcomplete.of_logins rfl rfl rfl rfl rfl rfl
      { htab.setLogin ⟨login.tab, .over⟩ fun n hn =>
        absurd hn not_brings_over with } (brings_of_setLogin hi hover)
  unfold Origin.stepLogin at hs
  split at hs
  · rename_i x hstage
    cases hs
    exact h.loginAnswered (hok x rfl)
  · cases hs
    exact hfailed
  · rename_i n x hstage
    cases hs
    exact hscoped n (.inl hstage)
  · rename_i n x hstage
    cases hs
    exact hcompleted n (.inl hstage)
  · cases hs
    exact hfailed
  · rename_i n x hstage
    cases hs
    exact hcompleted n (.inr hstage)
  · cases hs
    exact hfailed
  · cases hs

/-! ## Logouts -/

/-- A logout that is not over takes a step while no session arrives: whatever is new has its root. -/
theorem Kept.spread (h : Kept s) {logout : Logout} (hi : s.logouts i = some logout)
    (hactive : logout.stage ≠ .over) (harrives : ¬ s.Arrives)
    (logout' : Logout) (hroot : logout'.root = logout.root)
    (hlogouts : s'.logouts = Function.update s.logouts i (some logout'))
    (hcount : s'.logoutCount = s.logoutCount) (hlogins : s'.logins = s.logins)
    (hcompleted : s'.completed = s.completed)
    (hsignals : ∀ signal ∈ s'.signals, signal ∈ s.signals ∨ signal.root = logout.root)
    (hresets : ∀ r ∈ s'.resets, r ∈ s.resets ∨ r = logout.root)
    (hkept : ∀ r ∈ s.resets, r ∈ s'.resets) (hreset : logout.root ∈ s'.resets)
    (hharms : ∀ harm ∈ s'.harms, harm ∈ s.harms ∨ harm.root = logout.root)
    (hbounded : Bounded s') : Kept s' := by
  have hcases : ∀ x l, s'.logouts x = some l →
      (x = i ∧ l = logout') ∨ (x ≠ i ∧ s.logouts x = some l) := by
    intro x l hx
    rw [hlogouts] at hx
    exact setLogout_cases hx
  have hlt : i < s.logoutCount := by
    by_contra hge
    rw [h.numbered i (Nat.le_of_not_lt hge)] at hi
    cases hi
  have harrives' : ¬ s'.Arrives := by
    unfold Origin.Arrives
    rw [hlogins]
    exact harrives
  refine ⟨hbounded, fun x hx => ?_, fun r hr => ?_, fun x l hx => ?_, fun signal hmem => ?_,
    fun _ => harrives', fun x login n hx hn => ?_, fun n before hn r hr => ?_⟩
  · rw [hcount] at hx
    rw [hlogouts, update_of_ne (Nat.ne_of_gt (Nat.lt_of_lt_of_le hlt hx))]
    exact h.numbered x hx
  · rw [hcount]
    rcases hresets r hr with hold | rfl
    · exact h.resets r hold
    · rcases h.rooted i logout hi with hin | ⟨hself, -⟩
      · exact h.resets _ hin
      · rw [hself]
        exact hlt
  · rcases hcases x l hx with ⟨-, rfl⟩ | ⟨-, hold⟩
    · rw [hroot]
      exact .inl hreset
    · exact (h.rooted x l hold).imp_left (hkept _)
  · rcases hsignals signal hmem with hold | hnew
    · exact hkept _ (h.signalled signal hold)
    · rw [hnew]
      exact hreset
  · exact absurd ⟨x, login, n, hx, hn⟩ harrives'
  · rw [hcompleted] at hn
    -- A root that came before a completed session is finished, so it is not this one.
    have hne : logout.root ≠ r := fun heq => h.not_before hi hactive hn (heq ▸ hr)
    obtain ⟨hin, hfinished, hclear⟩ := h.done n before hn r hr
    refine ⟨hkept r hin, ⟨fun x l hx hl => ?_, fun signal hmem hl => ?_⟩,
      ⟨fun x l hx hl => ?_, fun harm hmem hl => ?_⟩⟩
    · rcases hcases x l hx with ⟨-, rfl⟩ | ⟨-, hold⟩
      · exact absurd (hroot.symm.trans hl) hne
      · exact hfinished.logouts x l hold hl
    · rcases hsignals signal hmem with hold | hnew
      · exact hfinished.signals signal hold hl
      · exact hne (hnew.symm.trans hl)
    · rcases hcases x l hx with ⟨-, rfl⟩ | ⟨-, hold⟩
      · exact absurd (hroot.symm.trans hl) hne
      · exact hclear.calls x l hold hl
    · rcases hharms harm hmem with hold | hnew
      · exact hclear.harms harm hold hl
      · exact absurd (hnew.symm.trans hl) hne

theorem Kept.cookie (h : Kept s) (cookie : Option ℕ) (hcookie : ∀ n ∈ cookie, n < s.sessionCount) :
    Kept { s with cookie := cookie } :=
  h.of_logins rfl rfl rfl rfl rfl rfl { h.bounded with cookie := hcookie }
    fun x login _ hx hn => ⟨x, login, hx, hn⟩

theorem mem_harm_root {root : ℕ} {session : Option ℕ} {h : Harm}
    (hmem : h ∈ (s.harm root session).harms) : h ∈ s.harms ∨ h.root = root :=
  (mem_harm hmem).imp_right And.left

theorem Kept.resetStore (h : Kept s) {logout : Logout} (hi : s.logouts i = some logout)
    (hcalling : logout.stage = .calling) (harrives : ¬ s.Arrives) :
    Kept (s.resetStore i logout) := by
  have hactive : logout.stage ≠ .over := by
    rw [hcalling]
    nofun
  refine h.spread hi hactive harrives { logout with stage := .storeReset } rfl rfl rfl
    rfl rfl (fun _ => .inl) (fun r hr => ?_) (fun r hr => ?_) ?_ (fun _ => mem_harm_root)
    (h.bounded.resetStore (h.bounded.calls i logout hi))
  · change r ∈ (if logout.root = i then s.resets ++ [i] else s.resets) at hr
    split at hr
    · rename_i hroot
      rcases mem_append.1 hr with hold | hnew
      · exact .inl hold
      · exact .inr ((mem_singleton.1 hnew).trans hroot.symm)
    · exact .inl hr
  · change r ∈ (if logout.root = i then s.resets ++ [i] else s.resets)
    split
    · exact mem_append_left _ hr
    · exact hr
  · change logout.root ∈ (if logout.root = i then s.resets ++ [i] else s.resets)
    split
    · rename_i hroot
      rw [hroot]
      exact mem_append_right _ (mem_singleton_self i)
    · rename_i hroot
      exact (h.rooted i logout hi).resolve_right fun hself => hroot hself.1

/-- A logout past its store reset spreads, so no session arrives. -/
theorem Kept.past_reset (h : Kept s) {logout : Logout} (hi : s.logouts i = some logout)
    (hcalling : logout.stage ≠ .calling) (hactive : logout.stage ≠ .over) :
    logout.root ∈ s.resets ∧ ¬ s.Arrives := by
  have hroot : logout.root ∈ s.resets :=
    (h.rooted i logout hi).resolve_right fun hself => hcalling hself.2
  exact ⟨hroot, h.apart (.inl ⟨i, logout, hi, hroot, hactive⟩)⟩

theorem Kept.resetScope (h : Kept s) {logout : Logout} (hi : s.logouts i = some logout)
    (hstage : logout.stage = .storeReset) : Kept (s.resetScope i logout) := by
  have hactive : logout.stage ≠ .over := by
    rw [hstage]
    nofun
  obtain ⟨hroot, harrives⟩ := h.past_reset hi (by rw [hstage]; nofun) hactive
  have hharm : Bounded (s.harm logout.root (s.tabs logout.tab).scope) :=
    h.bounded.harm (h.bounded.scope _)
  have htab : Bounded ((s.harm logout.root (s.tabs logout.tab).scope).setTab logout.tab
      { s.tabs logout.tab with scope := none }) := hharm.setTab _ (h.bounded.session _) nofun
  exact h.spread hi hactive harrives { logout with stage := .scopeReset } rfl rfl rfl
    rfl rfl (fun _ => .inl) (fun _ => .inl) (fun _ => id) hroot (fun _ => mem_harm_root)
    (htab.setLogout _ (h.bounded.calls i logout hi))

theorem Kept.broadcast (h : Kept s) {logout : Logout} (hi : s.logouts i = some logout)
    (hstage : logout.stage = .scopeReset) : Kept (s.broadcast i logout) := by
  have hactive : logout.stage ≠ .over := by
    rw [hstage]
    nofun
  obtain ⟨hroot, harrives⟩ := h.past_reset hi (by rw [hstage]; nofun) hactive
  refine h.spread hi hactive harrives { logout with stage := .over } rfl rfl rfl
    rfl rfl (fun signal hmem => ?_) (fun _ => .inl) (fun _ => id) hroot (fun _ => .inl)
    { h.bounded.setLogout { logout with stage := .over }
      (h.bounded.calls i logout hi) with }
  rcases mem_append.1 hmem with hold | hnew
  · exact .inl hold
  · obtain ⟨target, -, rfl⟩ := mem_map.1 hnew
    exact .inr rfl

/-- The call of a logout is processed: it does not concern a session that its root is clear of. -/
theorem Kept.revoke (h : Kept s) {logout : Logout} {n : ℕ} (hi : s.logouts i = some logout)
    (hcall : logout.call = some n) : Kept (s.revoke i logout n) := by
  have hcases : ∀ x l, (s.revoke i logout n).logouts x = some l →
      ∃ l', s.logouts x = some l' ∧ l'.root = l.root ∧ l'.stage = l.stage ∧
        (l.call = none ∨ l.call = l'.call) := by
    intro x l hx
    rcases setLogout_cases hx with ⟨rfl, rfl⟩ | ⟨-, hold⟩
    · exact ⟨logout, hi, rfl, rfl, .inl rfl⟩
    · exact ⟨l, hold, rfl, rfl, .inr rfl⟩
  have hfinished : ∀ r, Finished s r → Finished (s.revoke i logout n) r := by
    refine fun r hf => ⟨fun x l hx hl => ?_, hf.signals⟩
    obtain ⟨l', hx', hroot, hstage, -⟩ := hcases x l hx
    rw [← hstage]
    exact hf.logouts x l' hx' (hroot.trans hl)
  have hclear : ∀ r m, Clear s r m → Clear (s.revoke i logout n) r m := by
    refine fun r m hc => ⟨fun x l hx hl hm => ?_, fun harm hmem hl hm => ?_⟩
    · obtain ⟨l', hx', hroot, -, hnone | hsame⟩ := hcases x l hx
      · rw [hnone] at hm
        cases hm
      · exact hc.calls x l' hx' (hroot.trans hl) (hsame ▸ hm)
    · rcases mem_harm hmem with hold | ⟨hnew, hn⟩
      · exact hc.harms harm hold hl hm
      · refine hc.calls i logout hi (hnew.symm.trans hl) (hcall.trans ?_)
        rw [hn, hm]
  have hspreads : (s.revoke i logout n).Spreads → s.Spreads := by
    rintro (⟨x, l, hx, hroot, hactive⟩ | hsignals)
    · obtain ⟨l', hx', hroot', hstage, -⟩ := hcases x l hx
      exact .inl ⟨x, l', hx', hroot' ▸ hroot, hstage ▸ hactive⟩
    · exact .inr hsignals
  have hharm : Bounded (s.harm logout.root (some n)) :=
    h.bounded.harm fun m hm => h.bounded.calls i logout hi m (hcall.trans hm)
  refine ⟨{ hharm.setLogout { logout with call := none } nofun with },
    fun x hx => ?_, h.resets, fun x l hx => ?_, h.signalled,
    fun hs => h.apart (hspreads hs), fun x login m hx hm r hr => ?_, fun m before hm r hr => ?_⟩
  · have hold := h.numbered x hx
    have hne : x ≠ i := fun heq => by
      rw [heq, hi] at hold
      cases hold
    exact (update_of_ne hne ..).trans hold
  · obtain ⟨l', hx', hroot, hstage, -⟩ := hcases x l hx
    rw [← hroot, ← hstage]
    exact h.rooted x l' hx'
  · exact hclear r m (h.arriving x login m hx hm r hr)
  · obtain ⟨hreset, hf, hc⟩ := h.done m before hm r hr
    exact ⟨hreset, hfinished r hf, hclear r m hc⟩

/-- A logout begins: one that the user requested, or one that is set off while no session arrives by
a root that came before no completed session. -/
theorem Kept.begin (h : Kept s) (logout : Logout) (hstage : logout.stage = .calling)
    (hroot : logout.root = s.logoutCount ∨ logout.root ∈ s.resets ∧ ¬ s.Arrives ∧
      ∀ n before, s.completed n = some before → logout.root ∉ before)
    (hcall : ∀ n ∈ logout.call, n < s.sessionCount) :
    Kept { s.setLogout s.logoutCount logout with logoutCount := s.logoutCount + 1 } := by
  have hself : ∀ r ∈ s.resets, logout.root = s.logoutCount → logout.root ≠ r := by
    intro r hr hcount heq
    have hlt := h.resets r hr
    omega
  have hne : ∀ n before, s.completed n = some before → ∀ r ∈ before, logout.root ≠ r := by
    intro n before hn r hr heq
    rcases hroot with hcount | ⟨-, -, hfresh⟩
    · exact hself r (h.done n before hn r hr).1 hcount heq
    · exact hfresh n before hn (heq ▸ hr)
  have hclear : ∀ r n, logout.root ≠ r → Clear s r n →
      Clear { s.setLogout s.logoutCount logout with logoutCount := s.logoutCount + 1 } r n := by
    refine fun r n hr hc => ⟨fun x l hx hl => ?_, hc.harms⟩
    rcases setLogout_cases hx with ⟨-, rfl⟩ | ⟨-, hold⟩
    · exact absurd hl hr
    · exact hc.calls x l hold hl
  refine ⟨{ h.bounded.setLogout logout hcall with },
    fun x hx => ?_, fun r hr => Nat.lt_succ_of_lt (h.resets r hr), fun x l hx => ?_, h.signalled,
    ?_, fun x login n hx hn r hr => ?_, fun n before hn r hr => ?_⟩
  · have hx' : s.logoutCount + 1 ≤ x := hx
    exact (update_of_ne (by omega) ..).trans (h.numbered x (by omega))
  · rcases setLogout_cases hx with ⟨rfl, rfl⟩ | ⟨-, hold⟩
    · rcases hroot with hcount | ⟨hin, -, -⟩
      · exact .inr ⟨hcount, hstage⟩
      · exact .inl hin
    · exact h.rooted x l hold
  · intro hspreads harrives
    have harrives : s.Arrives := harrives
    refine h.apart ?_ harrives
    rcases hspreads with ⟨x, l, hx, hin, hactive⟩ | hsignals
    · rcases setLogout_cases hx with ⟨-, rfl⟩ | ⟨-, hold⟩
      · rcases hroot with hcount | ⟨-, hno, -⟩
        · exact absurd rfl (hself l.root hin hcount)
        · exact absurd harrives hno
      · exact .inl ⟨x, l, hold, hin, hactive⟩
    · exact .inr hsignals
  · refine hclear r n ?_ (h.arriving x login n hx hn r hr)
    rcases hroot with hcount | ⟨-, hno, -⟩
    · exact hself r hr hcount
    · exact absurd ⟨x, login, n, hx, hn⟩ hno
  · obtain ⟨hreset, hf, hc⟩ := h.done n before hn r hr
    refine ⟨hreset, ⟨fun x l hx hl => ?_, hf.signals⟩, hclear r n (hne n before hn r hr) hc⟩
    rcases setLogout_cases hx with ⟨-, rfl⟩ | ⟨-, hold⟩
    · exact absurd hl (hne n before hn r hr)
    · exact hf.logouts x l hold hl

theorem Kept.logout (h : Kept s) {t root : ℕ}
    (hroot : root = s.logoutCount ∨ root ∈ s.resets ∧ ¬ s.Arrives ∧
      ∀ n before, s.completed n = some before → root ∉ before)
    (hok : (s.tabs t).accessToken = false → ¬ s.Arrives) : Kept (s.logout t root) := by
  unfold Origin.logout
  split
  · exact h.begin ⟨t, root, .calling, s.cookie⟩ rfl hroot h.bounded.cookie
  · rename_i htoken
    have hbegun := h.begin ⟨t, root, .calling, none⟩ rfl hroot nofun
    exact hbegun.resetStore (update_self ..) rfl (hok (Bool.eq_false_iff.2 htoken))

/-- A message is taken off the wire. -/
theorem Kept.erase (h : Kept s) {signal : Signal} :
    Kept { s with signals := s.signals.erase signal } := by
  refine ⟨{ h.bounded with }, h.numbered, h.resets, h.rooted,
    fun sig hmem => h.signalled sig (mem_of_mem_erase hmem), ?_,
    fun x login n hx hn r hr => (h.arriving x login n hx hn r hr).congr rfl rfl,
    fun n before hn r hr => ?_⟩
  · rintro (hlogouts | hsignals)
    · exact h.apart (.inl hlogouts)
    · refine h.apart (.inr fun hnil => hsignals ?_)
      rw [hnil]
      rfl
  · obtain ⟨hreset, hf, hc⟩ := h.done n before hn r hr
    exact ⟨hreset, ⟨hf.logouts, fun sig hmem => hf.signals sig (mem_of_mem_erase hmem)⟩,
      hc.congr rfl rfl⟩

theorem Kept.deliver (h : Kept s) {signal : Signal} (hmem : signal ∈ s.signals) :
    Kept (s.deliver signal) := by
  have harrives : ¬ s.Arrives := h.apart (.inr (ne_nil_of_mem hmem))
  -- The message is on its way, so its root is not among those that a session came after.
  have hfresh : ∀ n before, s.completed n = some before → signal.root ∉ before :=
    fun n before hn hr => (h.done n before hn _ hr).2.1.signals signal hmem rfl
  unfold Origin.deliver
  simp only
  split
  · exact h.erase.logout (.inr ⟨h.signalled signal hmem, harrives, hfresh⟩) fun _ => harrives
  · exact h.erase

theorem Kept.stepLogout (h : Kept s) {logout : Logout} {e : Event} (hi : s.logouts i = some logout)
    (hok : ∀ x answered, e = .resetStore x answered → logout.root = i → ¬ s.Arrives)
    (hs : s.stepLogout i logout e = some s') : Kept s' := by
  unfold Origin.stepLogout at hs
  split at hs
  · rename_i x answered hcalling
    cases hs
    have harrives : ¬ s.Arrives := by
      rcases h.rooted i logout hi with hin | ⟨hself, -⟩
      · refine h.apart (.inl ⟨i, logout, hi, hin, ?_⟩)
        rw [hcalling]
        nofun
      · exact hok x answered rfl hself
    refine (h.cookie (if answered then none else s.cookie) ?_).resetStore hi hcalling
      harrives
    split
    · nofun
    · exact h.bounded.cookie
  · rename_i x hstage
    cases hs
    exact h.resetScope hi hstage
  · rename_i x hstage
    cases hs
    exact h.broadcast hi hstage
  · obtain ⟨n, hcall, rfl⟩ := map_eq_some_iff.1 hs
    exact h.revoke hi hcall
  · cases hs

theorem Kept.login (h : Kept s) {t : ℕ} : Kept (s.login t) := by
  unfold Origin.login
  split
  · exact h
  · have htab := h.bounded.setTab (t := t) { s.tabs t with isLoading := true }
      (h.bounded.session _) (h.bounded.scope _)
    have hrequested : ∀ n, ¬ Login.Brings ⟨t, .requested⟩ n := by
      rintro n (hn | hn) <;> cases hn
    refine h.of_logins rfl rfl rfl rfl rfl rfl
      { htab.setLogin ⟨t, .requested⟩
        fun n hn => absurd hn (hrequested n) with } fun x login n hx hn => ?_
    rcases setLogin_cases hx with
      ⟨-, rfl⟩ | ⟨-, hold⟩
    · exact absurd hn (hrequested n)
    · exact ⟨x, login, hold, hn⟩

theorem Kept.step (h : Kept s) {e : Event} (hok : Apart s e) (hs : s.step e = some s') :
    Kept s' := by
  have hlogin : ∀ x, (∀ y, e = .loginAnswered y → ¬ s.Spreads) →
      ((s.logins x).bind fun login => s.stepLogin x login e) = some s' → Kept s' := by
    intro x hspreads hx
    obtain ⟨login, hlogin, hs⟩ := bind_eq_some_iff.1 hx
    exact h.stepLogin hlogin hspreads hs
  have hlogout : ∀ x, (∀ y answered, e = .resetStore y answered →
        (∃ logout, s.logouts x = some logout ∧ logout.root = x) → ¬ s.Arrives) →
      ((s.logouts x).bind fun logout => s.stepLogout x logout e) = some s' → Kept s' := by
    intro x harrives hx
    obtain ⟨logout, hlogout, hs⟩ := bind_eq_some_iff.1 hx
    exact h.stepLogout hlogout
      (fun y answered he hroot => harrives y answered he ⟨logout, hlogout, hroot⟩) hs
  cases e with
  | login t =>
    cases hs
    exact h.login
  | loginAnswered x => exact hlogin x (fun _ _ => hok) hs
  | loginScoped x | loginCompleted x | loginFailed x => exact hlogin x nofun hs
  | logout t =>
    cases hs
    exact h.logout (.inl rfl) hok
  | revoke x => exact hlogout x nofun hs
  | resetStore x answered => exact hlogout x (fun _ _ _ => hok) hs
  | resetScope x | broadcast x => exact hlogout x nofun hs
  | deliver signal =>
    change (if signal ∈ s.signals then some (s.deliver signal) else none) = some s' at hs
    split at hs
    · rename_i hmem
      cases hs
      exact h.deliver hmem
    · cases hs

end Steps

theorem kept_fresh (peers : List ℕ) : Kept (freshOrigin peers) where
  bounded := ⟨nofun, nofun, nofun, nofun, nofun, nofun⟩
  numbered _ _ := rfl
  resets := nofun
  rooted := nofun
  signalled := nofun
  apart := by
    rintro (⟨_, _, h, -⟩ | h)
    · cases h
    · exact absurd rfl h
  arriving := nofun
  done := nofun

/-! ## The law -/

/-- In every run in which no login is between the server's answer and its end while a sign-out
spreads, a logout touches no session that was completed after the store reset of the requested
logout behind it. -/
theorem sign_out_spares {peers : List ℕ} {s : Origin}
    (h : Run Origin.step Apart (freshOrigin peers) s) : Spares s := by
  have hkept : Kept s := h.invariant (kept_fresh peers) fun _ _ _ hkept hok hs => hkept.step hok hs
  exact hkept.spares

/-- A tab signs out, and then a session arrives that has the sign-out before it. -/
theorem sign_out_spares_login :
    ∃ s, Spares s ∧ s.completed 0 = some [0] ∧ (s.tabs 0).scope = some 0 := by
  have hout : Run Origin.step Apart (freshOrigin [0, 1]) ((freshOrigin [0, 1]).logout 0 0) := by
    refine Run.next (e := Event.logout 0) .refl (fun _ => ?_) rfl
    rintro ⟨i, login, n, hi, -⟩
    cases hi
  have hover := (hout.next (e := Event.resetScope 0) trivial rfl).next (e := Event.broadcast 0)
    trivial rfl
  have hasked := (hover.next (e := Event.deliver ⟨0, 1⟩) trivial rfl).next (e := Event.login 0)
    trivial rfl
  have hanswered := hasked.next (e := Event.loginAnswered 0)
    (by
      rintro (⟨i, logout, hi, -, hactive⟩ | hsignals)
      · by_cases h0 : i = 0
        · subst h0
          cases hi
          exact hactive rfl
        · have hnone := (hasked.invariant (kept_fresh _) fun _ _ _ hk hok hs => hk.step hok hs)
            |>.numbered i (Nat.one_le_iff_ne_zero.2 h0)
          rw [hnone] at hi
          cases hi
      · exact hsignals rfl) rfl
  have hdone := (hanswered.next (e := Event.loginScoped 0) trivial rfl).next
    (e := Event.loginCompleted 0) trivial rfl
  exact ⟨_, sign_out_spares hdone, rfl, rfl⟩

/-- A tab signs out and in again while the teardown awaits its databases: the rest of the teardown
resets the scope of the new session. -/
theorem sign_out_spares_late :
    ∃ s, Run Origin.step (fun _ _ => True) (freshOrigin [0]) s ∧ ¬ Spares s := by
  have hrun : replay Origin.step (fun _ _ => True) (freshOrigin [0])
      [.login 0, .loginAnswered 0, .loginScoped 0, .loginCompleted 0, .logout 0,
        .resetStore 0 true, .login 0, .loginAnswered 1, .loginScoped 1, .loginCompleted 1,
        .resetScope 0] = some _ := rfl
  exact ⟨_, Run.of_replay hrun, fun hspares =>
    hspares ⟨0, 1⟩ (by decide) [0] rfl (mem_singleton_self 0)⟩

end HVault.CrossTab
