import Mathlib.Logic.Function.Basic
import HVault.Data.Utf8
import HVault.Interleave.Runs

/-!
# The encrypted storage behind the persisted state

Values are encrypted under a key that lives in `sessionStorage` and is generated at the first call
that finds none. The calls are not awaited: each has awaits of its own, for the key and for the
encryption, and these end in any order.

Once every call has settled, a name reads back what was last written (`reads_back`), as long as no
generated key replaces another, no ciphertext lands over one of a later call, the name of the flag
for a degraded storage is not used for a value, and every value survives UTF-8 (`Survives`). Two
calls that find no key both generate one (`reads_back_keys`).

A key is the number of the call that generated it, and an encryption is the key together with the
bytes of the value: another key does not open it.
-/

namespace HVault.EncryptedStorage

open Interleave Function Json

def storageDegradedKey : Utf16 := utf16 "__hv_storage_degraded".toList

/-! ## The storage -/

/-- What `localStorage` holds under a name: text of an earlier session, or what was encrypted in
this one. -/
inductive Stored where
  | stale (text : Utf16)
  | encrypted (key : ℕ) (encoded : List UInt8)
  deriving DecidableEq

/-- What a call of `setItem` awaits. -/
inductive Stage where
  | generating
  | importing (raw : ℕ)
  | encrypting (key : ℕ)
  | settled
  deriving DecidableEq, Repr

structure Call where
  name : Utf16
  value : Utf16
  stage : Stage
  deriving DecidableEq

/-- The last call that was made for a name. -/
inductive LastCall where
  | setItem (call : ℕ)
  | removeItem
  deriving DecidableEq, Repr

/-- The two storages, the module's cache, and the calls made. -/
structure Tab where
  sessionKey : Option ℕ
  cachedKey : Option ℕ
  cachedKeyRaw : Option ℕ
  localStorage : Utf16 → Option Stored
  calls : ℕ → Option Call
  callCount : ℕ
  last : Utf16 → Option LastCall

/-- A tab with an empty `sessionStorage`; `localStorage` may hold what earlier sessions left. -/
def freshTab (left : Utf16 → Option Utf16) : Tab where
  sessionKey := none
  cachedKey := none
  cachedKeyRaw := none
  localStorage name := (left name).map .stale
  calls _ := none
  callCount := 0
  last _ := none

namespace Tab

def setCall (c : ℕ) (call : Call) (s : Tab) : Tab :=
  { s with calls := Function.update s.calls c (some call) }

/-- How `getOrCreateKey` begins. -/
def keyStage (s : Tab) : Stage :=
  match s.sessionKey with
  | none => .generating
  | some stored =>
    match s.cachedKey with
    | some cached => if s.cachedKeyRaw = some stored then .encrypting cached else .importing stored
    | none => .importing stored

def setItem (name value : Utf16) (s : Tab) : Tab :=
  { s.setCall s.callCount ⟨name, value, s.keyStage⟩ with
    callCount := s.callCount + 1
    last := Function.update s.last name (some (.setItem s.callCount)) }

def removeItem (name : Utf16) (s : Tab) : Tab :=
  { s with
    localStorage := Function.update s.localStorage name none
    last := Function.update s.last name (some .removeItem) }

/-- A key has been generated: it is stored and cached, whatever is there by now. -/
def generated (c : ℕ) (call : Call) (s : Tab) : Tab :=
  { s.setCall c { call with stage := .encrypting c } with
    sessionKey := some c, cachedKey := some c, cachedKeyRaw := some c }

def imported (c : ℕ) (call : Call) (raw : ℕ) (s : Tab) : Tab :=
  { s.setCall c { call with stage := .encrypting raw } with
    cachedKey := some raw, cachedKeyRaw := some raw }

/-- The ciphertext lands, and the flag for a degraded storage is cleared. -/
def landed (c : ℕ) (call : Call) (key : ℕ) (s : Tab) : Tab :=
  { s.setCall c { call with stage := .settled } with
    localStorage := Function.update
      (Function.update s.localStorage call.name (some (.encrypted key (Utf8.encode call.value))))
      storageDegradedKey none }

/-- What `getItem` resolves to. -/
def getItem (name : Utf16) (s : Tab) : Option Utf16 :=
  match s.localStorage name with
  | some (.encrypted key encoded) =>
    if s.sessionKey = some key then some (Utf8.decode encoded) else none
  | _ => none

end Tab

inductive Event where
  | setItem (name value : Utf16)
  | removeItem (name : Utf16)
  | generated (c : ℕ)
  | imported (c : ℕ)
  | encrypted (c : ℕ)
  deriving DecidableEq

def Tab.step (s : Tab) (e : Event) : Option Tab :=
  match e with
  | .setItem name value => some (s.setItem name value)
  | .removeItem name => some (s.removeItem name)
  | .generated c =>
    match s.calls c with
    | some ⟨name, value, .generating⟩ => some (s.generated c ⟨name, value, .generating⟩)
    | _ => none
  | .imported c =>
    match s.calls c with
    | some ⟨name, value, .importing raw⟩ => some (s.imported c ⟨name, value, .importing raw⟩ raw)
    | _ => none
  | .encrypted c =>
    match s.calls c with
    | some ⟨name, value, .encrypting key⟩ => some (s.landed c ⟨name, value, .encrypting key⟩ key)
    | _ => none

/-! ## What is asked of it -/

/-- Every call has settled. -/
def Tab.Settled (s : Tab) : Prop := ∀ c call, s.calls c = some call → call.stage = .settled

/-- Once every call has settled, a name reads back the value of its last call. -/
def ReadsBack (s : Tab) : Prop :=
  s.Settled → ∀ name,
    (∀ c, s.last name = some (.setItem c) →
      ∃ call, s.calls c = some call ∧ call.name = name ∧ s.getItem name = some call.value) ∧
    (s.last name = some .removeItem → s.getItem name = none)

/-- Call `c` is the last one for the name, or the last one is still to land. -/
def Tab.Newest (s : Tab) (c : ℕ) (name : Utf16) : Prop :=
  ∃ c', s.last name = some (.setItem c') ∧
    (c' = c ∨ ∃ call ∈ s.calls c', call.stage ≠ .settled)

/-- The text encoder keeps the value, which has no lone surrogates, and the decoder drops no byte
order mark of it. -/
structure Survives (value : Utf16) : Prop where
  wellFormed : Utf8.isWellFormed value
  unmarked : value.head? ≠ some 0xFEFF

/-- No generated key replaces another, no ciphertext lands over one of a later call or after a later
removal, the name of the flag is not used, and values survive UTF-8. -/
def InOrder (s : Tab) : Event → Prop
  | .setItem name value => name ≠ storageDegradedKey ∧ Survives value
  | .generated _ => s.sessionKey = none
  | .encrypted c => ∀ call ∈ s.calls c, s.Newest c call.name
  | .removeItem _ | .imported _ => True

/-! ## The invariant -/

/-- There is one key: every call that has a key has this one, and so has every ciphertext that is the
last of its name. -/
structure Ordered (s : Tab) : Prop where
  counted : ∀ c, s.callCount ≤ c → s.calls c = none
  cached : s.cachedKey = s.sessionKey ∧ s.cachedKeyRaw = s.sessionKey
  key : ∀ c call k, s.calls c = some call → call.stage = .encrypting k → s.sessionKey = some k
  imports : ∀ c call k, s.calls c = some call → call.stage ≠ .importing k
  last : ∀ name c, s.last name = some (.setItem c) → name ≠ storageDegradedKey ∧
    ∃ call, s.calls c = some call ∧ (call.name = name ∧ Survives call.value) ∧
      (call.stage = .settled → ∃ k, s.sessionKey = some k ∧
        s.localStorage name = some (.encrypted k (Utf8.encode call.value)))
  removed : ∀ name, s.last name = some .removeItem → s.localStorage name = none

variable {s : Tab}

/-- What the invariant says once every call has settled. -/
theorem Ordered.readsBack (h : Ordered s) : ReadsBack s := by
  intro hsettled name
  refine ⟨fun c hc => ?_, fun hremoved => ?_⟩
  · obtain ⟨-, call, hcall, ⟨hname, hsurvives⟩, hstored⟩ := h.last name c hc
    obtain ⟨k, hk, hlocal⟩ := hstored (hsettled c call hcall)
    refine ⟨call, hcall, hname, ?_⟩
    have hvalue := Utf8.decode_encode hsurvives.wellFormed hsurvives.unmarked
    unfold Tab.getItem
    rw [hlocal]
    dsimp only
    rw [if_pos hk, hvalue]
  · unfold Tab.getItem
    rw [h.removed name hremoved]

/-- A call begins with the key there is, or generates one. -/
theorem Ordered.keyStage (h : Ordered s) :
    (s.sessionKey = none ∧ s.keyStage = .generating) ∨
      ∃ k, s.sessionKey = some k ∧ s.keyStage = .encrypting k := by
  unfold Tab.keyStage
  rw [h.cached.1, h.cached.2]
  cases s.sessionKey with
  | none => exact .inl ⟨rfl, rfl⟩
  | some k => exact .inr ⟨k, rfl, if_pos rfl⟩

theorem Ordered.lt_count (h : Ordered s) {c : ℕ} {call : Call} (hc : s.calls c = some call) :
    c < s.callCount := by
  by_cases hlt : c < s.callCount
  · exact hlt
  · rw [h.counted c (Nat.le_of_not_lt hlt)] at hc
    cases hc

theorem Ordered.setItem (h : Ordered s) {name : Utf16} (value : Utf16)
    (hname : name ≠ storageDegradedKey) (hvalue : Survives value) :
    Ordered (s.setItem name value) := by
  have hnew : (s.setItem name value).calls s.callCount = some ⟨name, value, s.keyStage⟩ :=
    update_self ..
  have hold : ∀ c, c ≠ s.callCount → (s.setItem name value).calls c = s.calls c :=
    fun c hc => update_of_ne hc ..
  refine ⟨fun c hc => ?_, h.cached, fun c call k hcall hstage => ?_, fun c call k hcall hstage => ?_,
    fun name' c hlast => ?_, fun name' hlast => ?_⟩
  · rw [hold c (Nat.ne_of_gt hc)]
    exact h.counted c (Nat.le_of_succ_le hc)
  · by_cases hc : c = s.callCount
    · subst hc
      rw [hnew] at hcall
      cases hcall
      rcases h.keyStage with ⟨-, hgenerating⟩ | ⟨k', hk', hencrypting⟩
      · cases hstage.symm.trans hgenerating
      · cases hstage.symm.trans hencrypting
        exact hk'
    · rw [hold c hc] at hcall
      exact h.key c call k hcall hstage
  · by_cases hc : c = s.callCount
    · subst hc
      rw [hnew] at hcall
      cases hcall
      rcases h.keyStage with ⟨-, hgenerating⟩ | ⟨k', -, hencrypting⟩
      · cases hstage.symm.trans hgenerating
      · cases hstage.symm.trans hencrypting
    · rw [hold c hc] at hcall
      exact h.imports c call k hcall hstage
  · by_cases hn : name' = name
    · subst hn
      have hself : (s.setItem name' value).last name' = some (.setItem s.callCount) :=
        update_self ..
      rw [hself] at hlast
      cases hlast
      refine ⟨hname, _, hnew, ⟨rfl, hvalue⟩, fun hsettled => ?_⟩
      rcases h.keyStage with ⟨-, hgenerating⟩ | ⟨k', -, hencrypting⟩
      · cases hsettled.symm.trans hgenerating
      · cases hsettled.symm.trans hencrypting
    · have hother : (s.setItem name value).last name' = s.last name' :=
        update_of_ne hn ..
      rw [hother] at hlast
      obtain ⟨hdegraded, call, hcall, hrest⟩ := h.last name' c hlast
      exact ⟨hdegraded, call, (hold c (Nat.ne_of_lt (h.lt_count hcall))).trans hcall, hrest⟩
  · by_cases hn : name' = name
    · subst hn
      have hself : (s.setItem name' value).last name' = some (.setItem s.callCount) :=
        update_self ..
      rw [hself] at hlast
      cases hlast
    · have hother : (s.setItem name value).last name' = s.last name' :=
        update_of_ne hn ..
      rw [hother] at hlast
      exact h.removed name' hlast

theorem Ordered.removeItem (h : Ordered s) (name : Utf16) : Ordered (s.removeItem name) := by
  refine ⟨h.counted, h.cached, h.key, h.imports, fun name' c hlast => ?_, fun name' hlast => ?_⟩
  · have hn : name' ≠ name := by
      rintro rfl
      have hself : (s.removeItem name').last name' = some .removeItem := update_self ..
      rw [hself] at hlast
      cases hlast
    have hother : (s.removeItem name).last name' = s.last name' := update_of_ne hn ..
    rw [hother] at hlast
    have hlocal : (s.removeItem name).localStorage name' = s.localStorage name' :=
      update_of_ne hn ..
    rw [hlocal]
    exact h.last name' c hlast
  · by_cases hn : name' = name
    · subst hn
      exact update_self ..
    · have hother : (s.removeItem name).last name' = s.last name' := update_of_ne hn ..
      rw [hother] at hlast
      have hlocal : (s.removeItem name).localStorage name' = s.localStorage name' :=
        update_of_ne hn ..
      rw [hlocal]
      exact h.removed name' hlast

/-- The first key is stored. -/
theorem Ordered.generated (h : Ordered s) {c : ℕ} {name value : Utf16}
    (hc : s.calls c = some ⟨name, value, .generating⟩) (hfirst : s.sessionKey = none) :
    Ordered (s.generated c ⟨name, value, .generating⟩) := by
  -- without a key nothing is encrypted yet, and nothing has settled
  have hnone : ∀ x call k, s.calls x = some call → call.stage ≠ .encrypting k := by
    intro x call k hx hstage
    rw [h.key x call k hx hstage] at hfirst
    cases hfirst
  have hself : (s.generated c ⟨name, value, .generating⟩).calls c
      = some ⟨name, value, .encrypting c⟩ := update_self ..
  have hold : ∀ x, x ≠ c → (s.generated c ⟨name, value, .generating⟩).calls x = s.calls x :=
    fun x hx => update_of_ne hx ..
  refine ⟨fun x hx => ?_, ⟨rfl, rfl⟩, fun x call k hcall hstage => ?_,
    fun x call k hcall hstage => ?_, fun name' x hlast => ?_, h.removed⟩
  · rw [hold x (Nat.ne_of_gt (Nat.lt_of_lt_of_le (h.lt_count hc) hx))]
    exact h.counted x hx
  · by_cases hx : x = c
    · subst hx
      rw [hself] at hcall
      cases hcall
      cases hstage
      rfl
    · rw [hold x hx] at hcall
      exact (hnone x call k hcall hstage).elim
  · by_cases hx : x = c
    · subst hx
      rw [hself] at hcall
      cases hcall
      cases hstage
    · rw [hold x hx] at hcall
      exact h.imports x call k hcall hstage
  · obtain ⟨hdegraded, call, hcall, hname, hstored⟩ := h.last name' x hlast
    refine ⟨hdegraded, ?_⟩
    by_cases hx : x = c
    · subst hx
      rw [hc] at hcall
      cases hcall
      exact ⟨_, hself, hname, nofun⟩
    · refine ⟨call, (hold x hx).trans hcall, hname, fun hsettled => ?_⟩
      obtain ⟨k, hk, -⟩ := hstored hsettled
      rw [hfirst] at hk
      cases hk

/-- A ciphertext lands: the one of the last call, or one that the last call will write over. -/
theorem Ordered.landed (h : Ordered s) {c k : ℕ} {name value : Utf16}
    (hc : s.calls c = some ⟨name, value, .encrypting k⟩) (hnewest : s.Newest c name) :
    Ordered (s.landed c ⟨name, value, .encrypting k⟩ k) := by
  have hkey := h.key c _ k hc rfl
  obtain ⟨c', hc', hcase⟩ := hnewest
  have hself : (s.landed c ⟨name, value, .encrypting k⟩ k).calls c
      = some ⟨name, value, .settled⟩ := update_self ..
  have hold : ∀ x, x ≠ c → (s.landed c ⟨name, value, .encrypting k⟩ k).calls x = s.calls x :=
    fun x hx => update_of_ne hx ..
  have hother : ∀ name', name' ≠ name → name' ≠ storageDegradedKey →
      (s.landed c ⟨name, value, .encrypting k⟩ k).localStorage name' = s.localStorage name' := by
    intro name' hn hdegraded
    exact (update_of_ne hdegraded ..).trans (update_of_ne hn ..)
  refine ⟨fun x hx => ?_, h.cached, fun x call k' hcall hstage => ?_,
    fun x call k' hcall hstage => ?_, fun name' x hlast => ?_, fun name' hlast => ?_⟩
  · rw [hold x (Nat.ne_of_gt (Nat.lt_of_lt_of_le (h.lt_count hc) hx))]
    exact h.counted x hx
  · by_cases hx : x = c
    · subst hx
      rw [hself] at hcall
      cases hcall
      cases hstage
    · rw [hold x hx] at hcall
      exact h.key x call k' hcall hstage
  · by_cases hx : x = c
    · subst hx
      rw [hself] at hcall
      cases hcall
      cases hstage
    · rw [hold x hx] at hcall
      exact h.imports x call k' hcall hstage
  · obtain ⟨hdegraded, call, hcall, hname, hstored⟩ := h.last name' x hlast
    refine ⟨hdegraded, ?_⟩
    by_cases hx : x = c
    · subst hx
      rw [hc] at hcall
      cases hcall
      obtain ⟨rfl, hvalue⟩ := hname
      refine ⟨_, hself, ⟨rfl, hvalue⟩, fun _ => ⟨k, hkey, ?_⟩⟩
      exact (update_of_ne hdegraded ..).trans (update_self ..)
    · refine ⟨call, (hold x hx).trans hcall, hname, fun hsettled => ?_⟩
      by_cases hn : name' = name
      · -- the last call of the name is another one, and it is still to land
        subst hn
        have hsame : some (LastCall.setItem c') = some (.setItem x) := hc'.symm.trans hlast
        cases hsame
        rcases hcase with rfl | ⟨open', hopen, hnot⟩
        · exact (hx rfl).elim
        · rw [Option.mem_def.1 hopen] at hcall
          cases hcall
          exact (hnot hsettled).elim
      · rw [hother name' hn hdegraded]
        exact hstored hsettled
  · by_cases hn : name' = name
    · subst hn
      rw [show (s.landed c ⟨name', value, .encrypting k⟩ k).last name' = s.last name' from rfl,
        hc'] at hlast
      cases hlast
    · by_cases hdegraded : name' = storageDegradedKey
      · subst hdegraded
        simp [Tab.landed]
      · rw [hother name' hn hdegraded]
        exact h.removed name' hlast

theorem Ordered.step (h : Ordered s) {s' : Tab} {e : Event} (hok : InOrder s e)
    (hs : s.step e = some s') : Ordered s' := by
  cases e with
  | setItem name value =>
    cases hs
    exact h.setItem value hok.1 hok.2
  | removeItem name =>
    cases hs
    exact h.removeItem name
  | generated c =>
    unfold Tab.step at hs
    dsimp only at hs
    split at hs
    · rename_i name value hc
      cases hs
      exact h.generated hc hok
    · cases hs
  | imported c =>
    unfold Tab.step at hs
    dsimp only at hs
    split at hs
    · rename_i name value raw hc
      exact (h.imports c _ raw hc rfl).elim
    · cases hs
  | encrypted c =>
    unfold Tab.step at hs
    dsimp only at hs
    split at hs
    · rename_i name value k hc
      cases hs
      exact h.landed hc (hok _ hc)
    · cases hs

theorem ordered_start (left : Utf16 → Option Utf16) : Ordered (freshTab left) where
  counted _ _ := rfl
  cached := ⟨rfl, rfl⟩
  key _ _ _ := nofun
  imports _ _ _ := nofun
  last _ _ := nofun
  removed _ := nofun

/-! ## Reading back -/

/-- **Encrypted persistence** reads back what was last written, in every run whose keys and
ciphertexts land in order and whose values survive UTF-8. -/
theorem reads_back {left : Utf16 → Option Utf16} {s : Tab}
    (h : Run Tab.step InOrder (freshTab left) s) : ReadsBack s :=
  (h.invariant (ordered_start left) fun _ _ _ hordered hok hs => hordered.step hok hs).readsBack

def authName : Utf16 := utf16 "hvault-auth".toList

def uiName : Utf16 := utf16 "hvault-ui".toList

/-- A value of two bytes a character is written and read. -/
theorem reads_back_setItem :
    ∃ s, ReadsBack s ∧ s.getItem authName = some (utf16 "é".toList) := by
  have hvalue : Survives (utf16 "é".toList) := ⟨by decide, by decide⟩
  have hset : Run Tab.step InOrder (freshTab fun _ => none) _ :=
    Run.next (e := .setItem authName (utf16 "é".toList)) .refl ⟨by decide, hvalue⟩ rfl
  have hkey : Run Tab.step InOrder (freshTab fun _ => none) _ :=
    Run.next (e := .generated 0) hset rfl rfl
  refine ⟨_, reads_back (Run.next (e := .encrypted 0) hkey (fun call hcall => ?_) rfl), by decide⟩
  cases hcall
  exact ⟨0, rfl, .inl rfl⟩

/-- Two calls find no key, and each generates one: what was encrypted under the first is lost. -/
theorem reads_back_keys :
    ∃ s, Run Tab.step (fun _ _ => True) (freshTab fun _ => none) s ∧ ¬ ReadsBack s := by
  have hrun : replay Tab.step (fun _ _ => True) (freshTab fun _ => none)
      [.setItem authName (utf16 ['a']), .setItem uiName (utf16 ['b']), .generated 0, .generated 1,
        .encrypted 0, .encrypted 1] = some _ := rfl
  refine ⟨_, Run.of_replay hrun, fun hreads => ?_⟩
  have hsettled := hreads fun c call hcall => by
    match c with
    | 0 | 1 =>
      cases hcall
      rfl
    | _ + 2 => cases hcall
  obtain ⟨call, hcall, -, hread⟩ := (hsettled authName).1 0 rfl
  cases hcall
  cases hread

end HVault.EncryptedStorage
