import HVault.Client.AuthStore

/-!
# The held vault key, its wrapper and its generation

Whatever is under way, the key that the store holds is the one inside the wrapper it holds, and the
number is the generation of that wrapper (`held_key_agrees`), as long as an unlock that stores its
key has seen no lock since it began and, without a live wrapper, finds the wrapper it began with.
Two unlocks that overlap can break the second part (`held_key_agrees_overlap`): the one without a
live wrapper leaves the wrapper of the other where it is.
-/

namespace HVault.AuthStore

open Interleave Client Function Tab

/-! ## What is asked of it -/

/-- Key, wrapper and generation agree, and every unlock that stored its key saw no lock, logout or
sign-in take effect since it began. -/
structure Agrees (s : Tab) : Prop where
  held : ∀ key ∈ s.store.vaultKey, ∃ w ∈ s.store.encryptedVaultKeyData,
    w.key = key ∧ s.store.vaultKeyVersion = w.generation
  undisturbed : ∀ u ∈ s.unlocks, u.1 = u.2

/-- The unlock under way as action `a`. -/
def Tab.unlocking (s : Tab) (a : ℕ) : Option Unlocking :=
  match s.actions a with
  | some (.unlock frame) => some frame
  | _ => none

/-- An unlock that stores its key has seen no lock, and finds its wrapper if it brings none. -/
def Undisturbed (s : Tab) : Event → Prop
  | .unlockOpened a => ∀ frame ∈ s.unlocking a, s.SameSession frame → frame.locks = s.locks ∧
    (frame.live = none → s.store.encryptedVaultKeyData = some frame.wrapper)
  | _ => True

instance (s : Tab) (e : Event) : Decidable (Undisturbed s e) := by
  unfold Undisturbed
  split <;> infer_instance

/-! ## The invariant -/

/-- The wrapper moves with its number, and an unlock that has seen no lock in a locked tab has seen
nothing at all. -/
structure Held (s : Tab) : Prop where
  version : ∀ w ∈ s.store.encryptedVaultKeyData, s.store.vaultKeyVersion = w.generation
  key : ∀ key ∈ s.store.vaultKey, ∃ w ∈ s.store.encryptedVaultKeyData, w.key = key
  seen : ∀ a frame, s.actions a = some (.unlock frame) → frame.locks ≤ s.locks ∧
    (s.store.isLocked = true → frame.locks = s.locks → frame.effects = s.effects)
  live : ∀ a frame, s.actions a = some (.unlock frame) → ∀ live ∈ frame.live,
    live.wrapper = frame.wrapper
  undisturbed : ∀ u ∈ s.unlocks, u.1 = u.2

variable {s : Tab}

theorem Held.agrees (h : Held s) : Agrees s where
  held key hkey := by
    obtain ⟨w, hw, hkeyed⟩ := h.key key hkey
    exact ⟨w, hw, hkeyed, h.version w hw⟩
  undisturbed := h.undisturbed

/-- An action that is no unlock begins, goes on or ends. -/
theorem Held.setAction (h : Held s) (a : ℕ) (action : Action)
    (haction : ∀ frame, action ≠ .unlock frame) : Held (s.setAction a action) := by
  have hold : ∀ x frame, (s.setAction a action).actions x = some (.unlock frame) →
      s.actions x = some (.unlock frame) := by
    intro x frame hx
    by_cases hxa : x = a
    · subst hxa
      rw [show (s.setAction x action).actions x = some action from update_self ..] at hx
      exact (haction frame (Option.some.inj hx)).elim
    · rwa [show (s.setAction a action).actions x = s.actions x from
        update_of_ne hxa ..] at hx
  exact
    { version := h.version
      key := h.key
      seen := fun x frame hx => h.seen x frame (hold x frame hx)
      live := fun x frame hx => h.live x frame (hold x frame hx)
      undisturbed := h.undisturbed }

variable {s' : Tab}

/-- A step that leaves wrapper, number and actions alone and keeps the key or drops it. -/
theorem Held.of_same (h : Held s)
    (hwrapper : s'.store.encryptedVaultKeyData = s.store.encryptedVaultKeyData)
    (hversion : s'.store.vaultKeyVersion = s.store.vaultKeyVersion)
    (hkey : s'.store.vaultKey = s.store.vaultKey) (hlocked : s'.store.isLocked = s.store.isLocked)
    (hactions : s'.actions = s.actions) (heffects : s'.effects = s.effects)
    (hlocks : s'.locks = s.locks) (hunlocks : s'.unlocks = s.unlocks) : Held s' where
  version := by
    rw [hwrapper, hversion]
    exact h.version
  key := by
    rw [hwrapper, hkey]
    exact h.key
  seen := by
    rw [hactions, hlocked, heffects, hlocks]
    exact h.seen
  live := by
    rw [hactions]
    exact h.live
  undisturbed := by
    rw [hunlocks]
    exact h.undisturbed

/-- A step that leaves the tab unlocked, with a wrapper, a number and a key that agree. -/
theorem Held.of_unlocked (h : Held s)
    (hversion : ∀ w ∈ s'.store.encryptedVaultKeyData, s'.store.vaultKeyVersion = w.generation)
    (hkey : ∀ key ∈ s'.store.vaultKey, ∃ w ∈ s'.store.encryptedVaultKeyData, w.key = key)
    (hlocked : s'.store.isLocked = false) (hactions : s'.actions = s.actions)
    (hlocks : s'.locks = s.locks) (hunlocks : s'.unlocks = s.unlocks) : Held s' where
  version := hversion
  key := hkey
  seen a frame ha := by
    rw [hactions] at ha
    rw [hlocks, hlocked]
    exact ⟨(h.seen a frame ha).1, nofun⟩
  live := by
    rw [hactions]
    exact h.live
  undisturbed := by
    rw [hunlocks]
    exact h.undisturbed

/-! ## The actions -/

theorem Held.begin (h : Held s) (action : Action) (haction : ∀ frame, action ≠ .unlock frame) :
    Held (s.begin action) :=
  { h.setAction s.actionCount action haction with }

theorem Held.abandon2fa (h : Held s) : Held s.abandon2fa :=
  h.of_same rfl rfl rfl rfl rfl rfl rfl rfl

theorem Held.loginAnswered (h : Held s) (a : ℕ) (email : String) (rememberMe : Bool)
    (answer : LoginAnswer) : Held (s.loginAnswered a email rememberMe answer) := by
  cases answer with
  | twoFactorRequired tempToken => exact h.of_same rfl rfl rfl rfl rfl rfl rfl rfl
  | session data =>
    refine h.of_unlocked (fun w hw => ?_) (fun key hkey => ?_) rfl rfl rfl rfl
    · cases hw
      exact data.genuine
    · cases hkey
      exact ⟨data.wrapper, rfl, rfl⟩

theorem Held.verified (h : Held s) (frame : Verifying) (data : LoginData) :
    Held (s.verified frame data) := by
  refine h.of_unlocked (fun w hw => ?_) (fun key hkey => ?_) rfl rfl rfl rfl
  · cases hw
    exact data.genuine
  · cases hkey
    exact ⟨data.wrapper, rfl, rfl⟩

theorem Held.reset (h : Held s) : Held s.reset :=
  h.of_unlocked nofun nofun rfl rfl rfl rfl

theorem Held.lock (h : Held s) (reason : Option String) : Held (s.lock reason) where
  version := h.version
  key := nofun
  seen a frame ha := by
    have hle := (h.seen a frame ha).1
    refine ⟨Nat.le_succ_of_le hle, fun _ hlocks => ?_⟩
    have hlt : frame.locks = s.locks + 1 := hlocks
    omega
  live := h.live
  undisturbed := h.undisturbed

theorem Held.unlock (h : Held s) (live : Option VerifyUnlockResult) : Held (s.unlock live) := by
  unfold Tab.unlock
  split
  · rename_i user wrapper huser hwrapper
    split
    · exact h
    · -- the new frame has seen nothing yet
      have hnew : ∀ x frame, (s.begin (.unlock ⟨user, wrapper, live, s.effects, s.locks⟩)).actions x
          = some (.unlock frame) → s.actions x = some (.unlock frame) ∨
            frame = ⟨user, wrapper, live, s.effects, s.locks⟩ := by
        intro x frame hx
        by_cases hxa : x = s.actionCount
        · subst hxa
          rw [show (s.begin _).actions s.actionCount = _ from update_self ..] at hx
          cases hx
          exact .inr rfl
        · rw [show (s.begin _).actions x = s.actions x from update_of_ne hxa ..] at hx
          exact .inl hx
      refine ⟨h.version, h.key, fun x frame hx => ?_, fun x frame hx answer hlive => ?_,
        h.undisturbed⟩
      · rcases hnew x frame hx with hold | rfl
        · exact h.seen x frame hold
        · exact ⟨Nat.le_refl _, fun _ _ => rfl⟩
      · rcases hnew x frame hx with hold | rfl
        · exact h.live x frame hold answer hlive
        · have hsome : live = some answer := hlive
          rw [hsome] at hwrapper
          exact Option.some.inj hwrapper
  · exact h

/-- The key of an unlock arrives: its wrapper is the stored one, or is stored with it. -/
theorem Held.unlockOpened (h : Held s) {a : ℕ} {frame : Unlocking}
    (ha : s.actions a = some (.unlock frame)) (hok : Undisturbed s (.unlockOpened a)) :
    Held (s.unlockOpened a frame) := by
  unfold Tab.unlockOpened
  split
  · rename_i hsame
    have hframe : s.unlocking a = some frame := by
      unfold unlocking
      rw [ha]
    obtain ⟨hlocks, hcached⟩ := hok frame hframe hsame
    have heffects := (h.seen a frame ha).2 hsame.2.2 hlocks
    have hthen := h.setAction a .unlocked nofun
    have hundisturbed : ∀ u ∈ s.unlocks ++ [(frame.effects, s.effects)], u.1 = u.2 := by
      intro u hu
      rcases List.mem_append.1 hu with hu | hu
      · exact h.undisturbed u hu
      · rw [List.mem_singleton.1 hu]
        exact heffects
    cases hlive : frame.live with
    | some live =>
      refine ⟨fun w hw => ?_, fun key hkey => ?_, hthen.seen, hthen.live, hundisturbed⟩
      · cases hw
        rw [← h.live a frame ha live hlive]
        exact live.genuine
      · cases hkey
        exact ⟨frame.wrapper, rfl, rfl⟩
    | none =>
      refine ⟨h.version, fun key hkey => ?_, hthen.seen, hthen.live, hundisturbed⟩
      cases hkey
      exact ⟨frame.wrapper, hcached hlive, rfl⟩
  · exact h.setAction a .over nofun

/-- The end of an await. -/
theorem Held.resume {a : ℕ} {action : Action} {e : Event} (h : Held s)
    (ha : s.actions a = some action) (htarget : e.target = some a) (hok : Undisturbed s e)
    (hs : s.resume a action e = some s') : Held s' := by
  unfold Tab.resume at hs
  split at hs
  · cases hs
    exact (h.loginAnswered ..).setAction a .over nofun
  · cases hs
    exact (h.of_same rfl rfl rfl rfl rfl rfl rfl rfl : Held s.loginFailed).setAction a .over nofun
  · cases hs
    exact (h.verified ..).setAction a .over nofun
  · rename_i failure
    cases hs
    have hfailed : Held (s.verifyFailed failure) := by
      unfold verifyFailed
      split
      · exact h.of_same rfl rfl rfl rfl rfl rfl rfl rfl
      · exact h.abandon2fa
    exact hfailed.setAction a .over nofun
  · rename_i frame x
    cases hs
    cases htarget
    exact h.unlockOpened ha hok
  · cases hs
    exact h.setAction a .over nofun
  · cases hs
    have hover := h.setAction a .over nofun
    exact hover.of_unlocked h.version h.key rfl rfl rfl rfl
  · cases hs
    exact h.reset.setAction a .over nofun
  · rename_i token
    cases hs
    exact (h.of_same rfl rfl rfl rfl rfl rfl rfl rfl : Held (s.setAccessToken token)).setAction a
      .over nofun
  · cases hs
    exact h.setAction a .over nofun
  · cases hs

/-- Every event keeps key, wrapper and number together. -/
theorem Held.step {e : Event} (h : Held s) (hok : Undisturbed s e) (hs : s.step e = some s') :
    Held s' := by
  cases e with
  | login email rememberMe =>
    cases hs
    unfold login
    split
    · exact h
    · exact (h.begin (.login email rememberMe) nofun).of_same rfl rfl rfl rfl rfl rfl rfl rfl
  | verify2fa =>
    cases hs
    unfold verify2fa
    split
    · exact h
    · split
      · rename_i tempToken mek _ _
        exact (h.begin (.verify2fa ⟨tempToken, mek, s.store.user, s.store.twoFactorTimeoutId,
          s.store.rememberMe⟩) nofun).of_same rfl rfl rfl rfl rfl rfl rfl rfl
      · exact h.abandon2fa
  | timer t =>
    obtain ⟨mekRef, -, rfl⟩ := Option.map_eq_some_iff.1 hs
    unfold timer
    dsimp only
    split
    all_goals exact h.of_same rfl rfl rfl rfl rfl rfl rfl rfl
  | unlock live =>
    cases hs
    exact h.unlock live
  | lock reason =>
    cases hs
    exact h.lock reason
  | logout =>
    cases hs
    unfold logout
    split
    · exact h.reset
    · exact h.begin .logout nofun
  | refresh =>
    cases hs
    exact h.begin .refresh nofun
  | _ =>
    obtain ⟨action, ha, hr⟩ := step_target rfl hs
    exact h.resume ha rfl hok hr

/-! ## The held key -/

theorem held_load (persisted : Persisted) (rememberHint : Bool) :
    Held (load persisted rememberHint) where
  version := persisted.genuine
  key := nofun
  seen _ _ := nofun
  live _ _ := nofun
  undisturbed := nofun

/-- **The held key** is the one in the held wrapper, under its generation, and an unlock stores it
only into the session it began for: in every run in which an unlock that stores its key has seen no
lock and, without a live wrapper, finds the wrapper it began with. -/
theorem held_key_agrees {persisted : Persisted} {rememberHint : Bool} {s : Tab}
    (h : Run Tab.step Undisturbed (Tab.load persisted rememberHint) s) : Agrees s :=
  (h.invariant (held_load persisted rememberHint) fun _ _ _ hheld hok hs => hheld.step hok hs).agrees

/-- What `verify-unlock` answers with after it. -/
def rotated : VerifyUnlockResult := ⟨⟨"new", 11, 1⟩, 1, rfl⟩

theorem held_key_agrees_unlock :
    ∃ s, Agrees s ∧ s.store.vaultKey = some 11 ∧ s.store.vaultKeyVersion = 1 := by
  have hrun : replay step Undisturbed (load .none false)
      [.login "a@b.c" false, .loginAnswered 0 (.session firstLogin), .lock none,
        .unlock (some rotated), .unlockOpened 1] = some _ := rfl
  exact ⟨_, held_key_agrees (Run.of_replay hrun), rfl, rfl⟩

/-- Two unlocks overlap, and the one without a live wrapper ends last: the old key is held under the
new wrapper and the new number. -/
theorem held_key_agrees_overlap :
    ∃ s, Run Tab.step (fun _ _ => True) (Tab.load .none false) s ∧ ¬ Agrees s := by
  have hrun : replay step (fun _ _ => True) (load .none false)
      [.login "a@b.c" false, .loginAnswered 0 (.session firstLogin), .lock none, .unlock none,
        .unlock (some rotated), .unlockOpened 2, .unlockOpened 1] = some _ := rfl
  refine ⟨_, Run.of_replay hrun, fun hagrees => ?_⟩
  obtain ⟨w, hw, hkey, -⟩ := hagrees.held 10 rfl
  cases hw
  cases hkey

end HVault.AuthStore
