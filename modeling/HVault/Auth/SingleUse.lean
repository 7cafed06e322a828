import Mathlib.Data.Set.Basic
import HVault.Auth.SecondFactor

/-!
# Second-factor codes are single use

Every write of the account is `Legal`: it enrols a secret only by moving the pending one,
records the step it spends, and takes the backup code it spends out of the list. `Ledger`
collects what legal writes keep of the account and of the log, and the requests are shown to
make legal writes only, in any interleaving.
-/

namespace HVault.Auth

open Interleave DocStore List Option Verdict OrderedMap Cond Store

/-! ## Reading an account document -/

/-- The account has the secret at `p`. -/
def SecretAt (p : Path) (secret : String) (row : Option User) : Prop :=
  row.bind (· p) = some (.text secret)

/-- The stored backup codes. -/
def codesOf (row : Option User) : List String := (row.map fun u => u.texts .backupCodes).getD []

/-- The stored fields have the types of the schema. -/
structure WellTyped (row : Option User) : Prop where
  secret : ∀ l, row.bind (· .twoFactorSecret) ≠ some (.texts l)
  pending : ∀ l, row.bind (· .pendingTwoFactorSecret) ≠ some (.texts l)
  codes : ∀ s, row.bind (· .backupCodes) ≠ some (.text s)

/-- A step lies after the last one accepted, if any. -/
def Unspent (step : ℤ) (row : Option User) : Prop :=
  row.bind (· .lastTotpTimestamp) = none ∨
    ∃ last, row.bind (· .lastTotpTimestamp) = some (.number last) ∧ last < step

/-- The path a TOTP verdict checked its secret at. -/
def secretPath (enrolment : Bool) : Path :=
  if enrolment then .pendingTwoFactorSecret else .twoFactorSecret

/-! ## Legal writes -/

/-- A write that may mint the given secrets and codes. -/
structure Legal (newSecrets newCodes : String → Prop) (w : Applied) : Prop where
  typed : WellTyped (some w.before) → WellTyped w.after
  /-- A secret is pending because it was, or was just minted. -/
  pending : ∀ secret, SecretAt .pendingTwoFactorSecret secret w.after →
    SecretAt .pendingTwoFactorSecret secret (some w.before) ∨ newSecrets secret
  /-- Without a TOTP verdict the enrolled secret and the last step stay. -/
  kept : (∀ e s step, w.verdict ≠ some (.totp e s step)) → ∀ secret,
    SecretAt .twoFactorSecret secret w.after →
      SecretAt .twoFactorSecret secret (some w.before) ∧
      w.after.bind (· .lastTotpTimestamp) = w.before .lastTotpTimestamp
  /-- A TOTP verdict finds its secret where it checked it and its step unspent; what is enrolled
  afterwards is that secret, with that step. -/
  spends : ∀ e s step, w.verdict = some (.totp e s step) → WellTyped (some w.before) →
    SecretAt (secretPath e) s (some w.before) ∧ Unspent step (some w.before) ∧
      (∀ secret, SecretAt .twoFactorSecret secret w.after →
        secret = s ∧ w.after.bind (· .lastTotpTimestamp) = some (.number step)) ∧
      (e = true → ∀ secret, ¬ SecretAt .pendingTwoFactorSecret secret w.after)
  /-- A backup code is stored because it was, or was just generated. -/
  codes : ∀ code ∈ codesOf w.after, code ∈ codesOf (some w.before) ∨ newCodes code
  /-- A spent backup code was stored and is no longer. -/
  pulls : ∀ code, w.verdict = some (.backupCode code) → WellTyped (some w.before) →
    code ∈ codesOf (some w.before) ∧ code ∉ codesOf w.after

/-! ## What legal writes keep -/

/-- What is known of the account and the log: `knownSecrets` and `knownCodes` are those stored at
the start or minted since. -/
structure Ledger (knownSecrets knownCodes : String → Prop) (s : Store) : Prop where
  typed : WellTyped s.user
  secrets : ∀ secret, HasSecret secret s.user → knownSecrets secret
  codes : ∀ code ∈ codesOf s.user, knownCodes code
  /-- What is pending is not enrolled and has not been used. -/
  apart : ∀ secret, SecretAt .pendingTwoFactorSecret secret s.user →
    ¬ SecretAt .twoFactorSecret secret s.user
  unused : ∀ secret, SecretAt .pendingTwoFactorSecret secret s.user → totpSteps secret s.log = []
  /-- The stored step is at or after every step of the enrolled secret. -/
  last : ∀ secret, SecretAt .twoFactorSecret secret s.user → ∀ step ∈ totpSteps secret s.log,
    ∃ last, s.user.bind (· .lastTotpTimestamp) = some (.number last) ∧ step ≤ last
  used : ∀ secret, totpSteps secret s.log ≠ [] → knownSecrets secret
  increasing : ∀ secret, (totpSteps secret s.log).Pairwise (· < ·)
  /-- A spent code is gone. -/
  gone : ∀ code ∈ spentCodes s.log, knownCodes code ∧ code ∉ codesOf s.user
  once : (spentCodes s.log).Nodup
  /-- A secret that a write took away is known and stays away. -/
  removed : ∀ w ∈ s.log, ∀ secret, HasSecret secret (some w.before) → ¬ HasSecret secret w.after →
    knownSecrets secret ∧ ¬ HasSecret secret s.user
  after_removal : ∀ l₁ w l₂ secret, s.log = l₁ ++ w :: l₂ → HasSecret secret (some w.before) →
    ¬ HasSecret secret w.after → totpSteps secret l₂ = []
  /-- A step was spent while its secret was where it had been checked. -/
  found : ∀ w ∈ s.log, ∀ e secret step, w.verdict = some (.totp e secret step) →
    SecretAt (secretPath e) secret (some w.before)

variable {knownSecrets knownCodes newSecrets newCodes : String → Prop}

theorem totpSteps_append (secret : String) (log : List Applied) (w : Applied) :
    totpSteps secret (log ++ [w]) =
      totpSteps secret log ++ (w.verdict.bind (stepOf secret)).toList := by
  rw [totpSteps, filterMap_append]
  cases h : w.verdict.bind (stepOf secret) with
  | none | some step => simp [totpSteps, h]

theorem spentCodes_append (log : List Applied) (w : Applied) :
    spentCodes (log ++ [w]) = spentCodes log ++ (w.verdict.bind codeOf).toList := by
  rw [spentCodes, filterMap_append]
  cases h : w.verdict.bind codeOf with
  | none | some code => simp [spentCodes, h]

theorem stepOf_eq_some {w : Applied} {secret : String} {step : ℤ}
    (h : w.verdict.bind (stepOf secret) = some step) :
    ∃ e, w.verdict = some (.totp e secret step) := by
  obtain ⟨v, hv, hstep⟩ := bind_eq_some_iff.1 h
  cases v with
  | backupCode _ => cases hstep
  | totp e s step' =>
    simp only [stepOf] at hstep
    split at hstep
    · rename_i hs
      cases hstep
      exact ⟨e, by rw [hv, hs]⟩
    · cases hstep

theorem codeOf_eq_some {w : Applied} {code : String}
    (h : w.verdict.bind codeOf = some code) : w.verdict = some (.backupCode code) := by
  obtain ⟨v, hv, hcode⟩ := bind_eq_some_iff.1 h
  cases v with
  | totp _ _ _ => cases hcode
  | backupCode stored =>
    cases hcode
    exact hv

namespace Legal

variable {w : Applied}

/-- Whether a write spends a TOTP step, and which. -/
theorem totp_or (w : Applied) :
    (∃ e s step, w.verdict = some (.totp e s step)) ∨ ∀ e s step, w.verdict ≠ some (.totp e s step) := by
  by_cases h : ∃ e s step, w.verdict = some (.totp e s step)
  · exact .inl h
  · exact .inr fun e s step hv => h ⟨e, s, step, hv⟩

variable {secret : String}

/-- A secret enrolled after a write was there before it. -/
theorem hasSecret_of_enrolled (h : Legal newSecrets newCodes w) (ht : WellTyped (some w.before))
    (hs : SecretAt .twoFactorSecret secret w.after) :
    HasSecret secret (some w.before) := by
  rcases totp_or w with ⟨e, s, step, hv⟩ | hnone
  · obtain ⟨hfound, -, henrolled, -⟩ := h.spends e s step hv ht
    rw [(henrolled secret hs).1]
    cases e with
    | true => exact .inr hfound
    | false => exact .inl hfound
  · exact .inl (h.kept hnone secret hs).1

/-- A secret there after a write was there before it, or is minted by it. -/
theorem hasSecret_after (h : Legal newSecrets newCodes w) (ht : WellTyped (some w.before))
    (hs : HasSecret secret w.after) :
    HasSecret secret (some w.before) ∨ newSecrets secret := by
  rcases hs with hs | hs
  · exact .inl (h.hasSecret_of_enrolled ht hs)
  · exact (h.pending secret hs).imp_left .inr

/-- A step is spent by a write that found its secret. -/
theorem hasSecret_of_step (h : Legal newSecrets newCodes w) (ht : WellTyped (some w.before))
    {step : ℤ} (hstep : w.verdict.bind (stepOf secret) = some step) :
    HasSecret secret (some w.before) := by
  obtain ⟨e, hv⟩ := stepOf_eq_some hstep
  obtain ⟨hfound, -⟩ := h.spends e secret step hv ht
  cases e with
  | true => exact .inr hfound
  | false => exact .inl hfound

end Legal

section Write

variable {knownSecrets' knownCodes' : String → Prop} {s : Store} {w : Applied}

/-- The store after a write. -/
def Store.after (s : Store) (w : Applied) : Store := { s with user := w.after, log := s.log ++ [w] }

variable (h : Ledger knownSecrets knownCodes s) (hbefore : s.user = some w.before)
  (hlegal : Legal newSecrets newCodes w) (hnewSecrets : ∀ x, newSecrets x → ¬ knownSecrets x)

include h hbefore hlegal

omit hlegal in
theorem Ledger.typed_before : WellTyped (some w.before) := hbefore ▸ h.typed

/-- A secret that is not there is not used by the write. -/
theorem Ledger.totpSteps_of_not_hasSecret {secret : String}
    (hnot : ¬ HasSecret secret (some w.before)) :
    totpSteps secret (s.log ++ [w]) = totpSteps secret s.log := by
  rw [totpSteps_append]
  cases hstep : w.verdict.bind (stepOf secret) with
  | none => simp
  | some step => exact (hnot (hlegal.hasSecret_of_step (h.typed_before hbefore) hstep)).elim

include hnewSecrets

variable (secret : String)

theorem Ledger.apart_after (hpending : SecretAt .pendingTwoFactorSecret secret w.after) :
    ¬ SecretAt .twoFactorSecret secret w.after := by
  intro henrolled
  have ht := h.typed_before hbefore
  rcases hlegal.pending secret hpending with hp | hnew
  · rcases Legal.totp_or w with ⟨e, s', step, hv⟩ | hnone
    · obtain ⟨hfound, -, henrolled', hmoved⟩ := hlegal.spends e s' step hv ht
      cases e with
      | true => exact hmoved rfl secret hpending
      | false =>
        obtain ⟨rfl, -⟩ := henrolled' secret henrolled
        exact h.apart secret (hbefore ▸ hp) (hbefore ▸ hfound)
    · exact h.apart secret (hbefore ▸ hp) (hbefore ▸ (hlegal.kept hnone secret henrolled).1)
  · refine hnewSecrets secret hnew (h.secrets secret ?_)
    rw [hbefore]
    exact hlegal.hasSecret_of_enrolled ht henrolled

theorem Ledger.unused_after (hpending : SecretAt .pendingTwoFactorSecret secret w.after) :
    totpSteps secret (s.log ++ [w]) = [] := by
  have ht := h.typed_before hbefore
  rcases hlegal.pending secret hpending with hp | hnew
  · rw [totpSteps_append, h.unused secret (hbefore ▸ hp)]
    cases hstep : w.verdict.bind (stepOf secret) with
    | none => rfl
    | some step =>
      obtain ⟨e, hv⟩ := stepOf_eq_some hstep
      obtain ⟨hfound, -, -, hmoved⟩ := hlegal.spends e secret step hv ht
      cases e with
      | true => exact (hmoved rfl secret hpending).elim
      | false => exact (h.apart secret (hbefore ▸ hp) (hbefore ▸ hfound)).elim
  · have hunknown := hnewSecrets secret hnew
    rw [h.totpSteps_of_not_hasSecret hbefore hlegal fun hs =>
      hunknown (h.secrets secret (hbefore ▸ hs))]
    by_contra hne
    exact hunknown (h.used secret hne)

omit hnewSecrets

/-- The steps of a secret before a write that spends another of its steps all lie before it. -/
theorem Ledger.lt_of_spends {secret : String} {step : ℤ} {e : Bool}
    (hv : w.verdict = some (.totp e secret step)) :
    ∀ earlier ∈ totpSteps secret s.log, earlier < step := by
  intro earlier hearlier
  obtain ⟨hfound, hunspent, -, -⟩ := hlegal.spends e secret step hv (h.typed_before hbefore)
  cases e with
  | true =>
    rw [h.unused secret (hbefore ▸ hfound)] at hearlier
    cases hearlier
  | false =>
    obtain ⟨last, hlast, hle⟩ := h.last secret (hbefore ▸ hfound) earlier hearlier
    rw [hbefore] at hlast
    rcases hunspent with hnone | ⟨last', hlast', hlt⟩
    · rw [hnone] at hlast
      cases hlast
    · rw [hlast'] at hlast
      cases hlast
      exact lt_of_le_of_lt hle hlt

theorem Ledger.last_after (henrolled : SecretAt .twoFactorSecret secret w.after) :
    ∀ step ∈ totpSteps secret (s.log ++ [w]),
      ∃ last, w.after.bind (· .lastTotpTimestamp) = some (.number last) ∧ step ≤ last := by
  intro step hstep
  have ht := h.typed_before hbefore
  rw [totpSteps_append] at hstep
  rcases Legal.totp_or w with ⟨e, s', step', hv⟩ | hnone
  · obtain ⟨-, -, henrolled', -⟩ := hlegal.spends e s' step' hv ht
    obtain ⟨rfl, hlast⟩ := henrolled' secret henrolled
    refine ⟨step', hlast, ?_⟩
    rcases mem_append.1 hstep with hearlier | hnew
    · exact le_of_lt (h.lt_of_spends hbefore hlegal hv step hearlier)
    · simp [hv, stepOf] at hnew
      exact le_of_eq hnew
  · obtain ⟨hbefore', hlast⟩ := hlegal.kept hnone secret henrolled
    rcases mem_append.1 hstep with hearlier | hnew
    · obtain ⟨last, hlast', hle⟩ := h.last secret (hbefore ▸ hbefore') step hearlier
      rw [hbefore] at hlast'
      exact ⟨last, hlast.trans hlast', hle⟩
    · obtain ⟨e, hv⟩ := stepOf_eq_some (mem_toList.1 hnew)
      exact (hnone _ _ _ hv).elim

theorem Ledger.increasing_after : (totpSteps secret (s.log ++ [w])).Pairwise (· < ·) := by
  rw [totpSteps_append]
  refine pairwise_append.2 ⟨h.increasing secret, ?_, fun earlier hearlier step hstep => ?_⟩
  · cases w.verdict.bind (stepOf secret) with
    | none => exact List.Pairwise.nil
    | some step => exact pairwise_singleton _ _
  · obtain ⟨e, hv⟩ := stepOf_eq_some (mem_toList.1 hstep)
    exact h.lt_of_spends hbefore hlegal hv earlier hearlier

theorem Ledger.gone_after (hnewCodes : ∀ x, newCodes x → ¬ knownCodes x) :
    ∀ code ∈ spentCodes (s.log ++ [w]), knownCodes code ∧ code ∉ codesOf w.after := by
  intro code hcode
  have ht := h.typed_before hbefore
  rw [spentCodes_append] at hcode
  rcases mem_append.1 hcode with hearlier | hnew
  · obtain ⟨hknown, hgone⟩ := h.gone code hearlier
    refine ⟨hknown, fun hback => ?_⟩
    rcases hlegal.codes code hback with hold | hnew
    · exact hgone (hbefore ▸ hold)
    · exact hnewCodes code hnew hknown
  · obtain ⟨hstored, hpulled⟩ :=
      hlegal.pulls code (codeOf_eq_some (mem_toList.1 hnew)) ht
    exact ⟨h.codes code (hbefore ▸ hstored), hpulled⟩

theorem Ledger.once_after : (spentCodes (s.log ++ [w])).Nodup := by
  rw [spentCodes_append]
  refine nodup_append.2 ⟨h.once, ?_, fun earlier hearlier code hcode => ?_⟩
  · cases w.verdict.bind codeOf with
    | none => exact nodup_nil
    | some code => exact pairwise_singleton _ _
  · rintro rfl
    obtain ⟨hstored, -⟩ := hlegal.pulls earlier (codeOf_eq_some (mem_toList.1 hcode))
      (h.typed_before hbefore)
    exact (h.gone earlier hearlier).2 (hbefore ▸ hstored)

include hnewSecrets in
/-- A removed secret is not there after a further write. -/
theorem Ledger.not_hasSecret_after {secret : String} (hknown : knownSecrets secret)
    (hnot : ¬ HasSecret secret s.user) : ¬ HasSecret secret w.after := fun hs => by
  rcases hlegal.hasSecret_after (h.typed_before hbefore) hs with hold | hnew
  · exact hnot (hbefore ▸ hold)
  · exact hnewSecrets secret hnew hknown

/-- **A legal write keeps the ledger.** -/
theorem Ledger.write (hnewSecrets : ∀ x, newSecrets x → ¬ knownSecrets x)
    (hnewCodes : ∀ x, newCodes x → ¬ knownCodes x)
    (hsecrets : ∀ x, knownSecrets x ∨ newSecrets x → knownSecrets' x)
    (hcodes : ∀ x, knownCodes x ∨ newCodes x → knownCodes' x) :
    Ledger knownSecrets' knownCodes' (s.after w) where
  typed := hlegal.typed (h.typed_before hbefore)
  secrets secret hs := hsecrets secret <|
    (hlegal.hasSecret_after (h.typed_before hbefore) hs).imp_left fun hold =>
      h.secrets secret (hbefore ▸ hold)
  codes code hcode := hcodes code <|
    (hlegal.codes code hcode).imp_left fun hold => h.codes code (hbefore ▸ hold)
  apart := h.apart_after hbefore hlegal hnewSecrets
  unused := h.unused_after hbefore hlegal hnewSecrets
  last := h.last_after hbefore hlegal
  used secret hne := by
    refine hsecrets secret (.inl ?_)
    by_cases hs : HasSecret secret (some w.before)
    · exact h.secrets secret (hbefore ▸ hs)
    · refine h.used secret ?_
      rwa [← h.totpSteps_of_not_hasSecret hbefore hlegal hs]
  increasing := h.increasing_after hbefore hlegal
  gone code hcode := (h.gone_after hbefore hlegal hnewCodes code hcode).imp_left fun hknown =>
    hcodes code (.inl hknown)
  once := h.once_after hbefore hlegal
  removed w' hw' secret hs hnot := by
    rcases mem_append.1 hw' with hearlier | hnew
    · obtain ⟨hknown, hgone⟩ := h.removed w' hearlier secret hs hnot
      exact ⟨hsecrets secret (.inl hknown),
        h.not_hasSecret_after hbefore hlegal hnewSecrets hknown hgone⟩
    · rw [mem_singleton.1 hnew] at hs hnot
      exact ⟨hsecrets secret (.inl (h.secrets secret (hbefore ▸ hs))), hnot⟩
  after_removal l₁ w' l₂ secret hlog hs hnot := by
    rcases eq_nil_or_concat l₂ with rfl | ⟨l₃, last, rfl⟩
    · rfl
    · have hsplit : s.log ++ [w] = (l₁ ++ w' :: l₃) ++ [last] := by
        simpa [Store.after] using hlog
      obtain ⟨hlog', hlast⟩ := append_inj' hsplit rfl
      cases hlast
      have hgone : ¬ HasSecret secret (some w.before) := by
        rw [← hbefore]
        exact (h.removed w' (by rw [hlog']; simp) secret hs hnot).2
      have hunused := h.totpSteps_of_not_hasSecret hbefore hlegal hgone
      rw [concat_eq_append, totpSteps_append]
      rw [totpSteps_append] at hunused
      rw [h.after_removal l₁ w' l₃ secret hlog' hs hnot, nil_append]
      exact append_right_eq_self.1 hunused
  found w' hw' e secret step hv := by
    rcases mem_append.1 hw' with hearlier | hnew
    · exact h.found w' hearlier e secret step hv
    · rw [mem_singleton.1 hnew] at hv ⊢
      exact (hlegal.spends e secret step hv (h.typed_before hbefore)).1

end Write

/-! ## The writes of the requests are legal -/

section Writes

/-- A merged write is made only where the verdict's own conditions hold. -/
theorem casFilter_of_merged (filter : DocStore.Filter Path) (hfilter : filter.paths.Unique)
    (update : Update Path) (verdict : Verdict) {u : User}
    (h : (withSecondFactorCas filter update verdict).1.selects u = true) :
    verdict.casFilter.selects u = true := by
  have hunique : verdict.casFilter.paths.Unique := by
    cases verdict with
    | totp e s step => cases e <;> exact unique_ofList _
    | backupCode stored => exact unique_ofList _
  have hpaths : (withSecondFactorCas filter update verdict).1.paths =
      filter.paths.spread verdict.casFilter.paths := by
    unfold withSecondFactorCas
    split <;> rfl
  have hall : ∀ e ∈ verdict.casFilter.paths.entries, e.2.holds (u e.1) = true := by
    intro e he
    have hget : verdict.casFilter.paths.get e.1 = some e.2 :=
      (getIn_eq_some_iff hunique e.1 e.2).2 he
    refine DocStore.Filter.holds_of_selects h ?_ ?_
    · rw [hpaths]
      exact hfilter.spread _
    · rw [hpaths, get_spread _ hunique, hget]
      rfl
  have hor : ∀ alternatives, verdict.casFilter.or = some alternatives →
      DocStore.Filter.anyHolds alternatives u = true := by
    intro alternatives hor
    cases hcaller : filter.or with
    | none =>
      refine DocStore.Filter.anyHolds_of_selects h ?_
      simp [withSecondFactorCas, hcaller, hor]
    | some callerOr =>
      have hclauses : (withSecondFactorCas filter update verdict).1.and =
          some (filter.and.getD [] ++ [callerOr, alternatives]) := by
        simp [withSecondFactorCas, hcaller, hor]
      exact DocStore.Filter.anyHolds_of_selects_and h hclauses (by simp)
  have hand : verdict.casFilter.and = none := by
    cases verdict <;> rfl
  rw [DocStore.Filter.selects, hand]
  cases hc : verdict.casFilter.or with
  | none => simpa using hall
  | some alternatives => simpa [hor alternatives hc] using hall

theorem of_isValue_text {x : Option Value} {t : String} (h : isValue (.text t) x = true)
    (hx : ∀ l, x ≠ some (.texts l)) : x = some (.text t) := by
  match x with
  | none => cases h
  | some (.texts l) => exact (hx l rfl).elim
  | some (.text t') =>
    have : Value.text t = .text t' := by simpa [isValue] using h
    rw [this]
  | some (.bool b) | some (.number n) => simp [isValue] at h

variable {secret : String}

/-- What the conditions of a TOTP verdict say of the account. -/
theorem of_selects_totp {e : Bool} {step : ℤ} {u : User}
    (h : (totp e secret step).casFilter.selects u = true) (ht : WellTyped (some u)) :
    SecretAt (secretPath e) secret (some u) ∧ Unspent step (some u) := by
  constructor
  · have hcond : isValue (.text secret) (u (secretPath e)) = true := by
      refine DocStore.Filter.holds_of_selects (c := .eq (.text secret)) h ?_ ?_
      · cases e <;> exact unique_ofList _
      · cases e <;> rfl
    refine of_isValue_text hcond ?_
    cases e with
    | true => exact ht.pending
    | false => exact ht.secret
  · have hany := DocStore.Filter.anyHolds_of_selects h (by cases e <;> rfl)
    simp only [DocStore.Filter.anyHolds, any_cons, any_nil, Bool.or_false,
      Bool.or_eq_true] at hany
    rcases hany with hnone | hnone | hlt
    · exact .inl (by simpa [holds] using hnone)
    · exact .inl (by simpa [holds] using hnone)
    · refine .inr ?_
      cases hlast : u .lastTotpTimestamp with
      | none => simp [hlast, holds] at hlt
      | some v =>
        cases v with
        | number last => exact ⟨last, hlast, by simpa [hlast, holds] using hlt⟩
        | bool b | text t | texts l => simp [hlast, holds] at hlt

theorem of_selects_backupCode {code : String} {u : User}
    (h : (backupCode code).casFilter.selects u = true) (ht : WellTyped (some u)) :
    ∃ l, u .backupCodes = some (.texts l) ∧ code ∈ l := by
  have hcond : isValue (.text code) (u .backupCodes) = true := by
    refine DocStore.Filter.holds_of_selects (c := .eq (.text code)) h (unique_ofList _) ?_
    rfl
  have hcodes := ht.codes code
  match hx : u .backupCodes with
  | none =>
    rw [hx] at hcond
    cases hcond
  | some (.texts l) => exact ⟨l, rfl, by simpa [hx, isValue] using hcond⟩
  | some (.text t) =>
    have : Value.text code = .text t := by simpa [hx, isValue] using hcond
    exact (hcodes (by rw [bind_some, hx, this])).elim
  | some (.bool b) | some (.number n) => simp [hx, isValue] at hcond

/-- The paths of the account that decide which codes are accepted. -/
def Path.guarded : Path → Bool
  | twoFactorSecret | pendingTwoFactorSecret | backupCodes | lastTotpTimestamp => true
  | _ => false

variable {u u' : User}

theorem WellTyped.congr (h : WellTyped (some u)) (hsecret : u' .twoFactorSecret = u .twoFactorSecret)
    (hpending : u' .pendingTwoFactorSecret = u .pendingTwoFactorSecret)
    (hcodes : u' .backupCodes = u .backupCodes) : WellTyped (some u') :=
  ⟨fun l => by simpa [hsecret] using h.secret l, fun l => by simpa [hpending] using h.pending l,
    fun t => by simpa [hcodes] using h.codes t⟩

theorem codesOf_congr (h : u' .backupCodes = u .backupCodes) :
    codesOf (some u') = codesOf (some u) := by
  simp [codesOf, User.texts, h]

/-- A write that leaves the guarded paths alone. -/
theorem legal_neutral (h : ∀ p, p.guarded = true → u' p = u p) :
    Legal newSecrets newCodes ⟨none, u, some u'⟩ where
  typed ht := ht.congr (h _ rfl) (h _ rfl) (h _ rfl)
  pending secret hs := .inl (by simpa [SecretAt, h .pendingTwoFactorSecret rfl] using hs)
  kept _ secret hs :=
    ⟨by simpa [SecretAt, h .twoFactorSecret rfl] using hs, h .lastTotpTimestamp rfl⟩
  spends _ _ _ hv := nomatch hv
  codes code hcode := .inl (by rwa [codesOf_congr (h _ rfl)] at hcode)
  pulls _ hv := nomatch hv

theorem legal_erase : Legal newSecrets newCodes ⟨none, u, none⟩ where
  typed _ := ⟨nofun, nofun, nofun⟩
  pending _ hs := nomatch hs
  kept _ _ hs := nomatch hs
  spends _ _ _ hv := nomatch hv
  codes _ hcode := nomatch hcode
  pulls _ hv := nomatch hv

/-- A write of the pending secret alone: cleared, or newly minted. -/
theorem legal_pending (secret : Option String) (hnew : ∀ t, secret = some t → newSecrets t)
    (hpending : u' .pendingTwoFactorSecret = secret.map .text)
    (hsecret : u' .twoFactorSecret = u .twoFactorSecret)
    (hlast : u' .lastTotpTimestamp = u .lastTotpTimestamp)
    (hcodes : u' .backupCodes = u .backupCodes) :
    Legal newSecrets newCodes ⟨none, u, some u'⟩ where
  typed ht := by
    refine ⟨fun l => by simpa [hsecret] using ht.secret l, fun l => ?_,
      fun t => by simpa [hcodes] using ht.codes t⟩
    cases secret <;> simp [hpending]
  pending t hs := by
    refine .inr (hnew t ?_)
    cases secret with
    | none => simp [SecretAt, hpending] at hs
    | some t' => simpa [SecretAt, hpending] using hs
  kept _ t hs := ⟨by simpa [SecretAt, hsecret] using hs, hlast⟩
  spends _ _ _ hv := nomatch hv
  codes code hcode := .inl (by rwa [codesOf_congr hcodes] at hcode)
  pulls _ hv := nomatch hv

/-- A write of new backup codes alone. -/
theorem legal_publish {hashes : List String} (hnew : ∀ code ∈ hashes, newCodes code)
    (hcodes : u' .backupCodes = some (.texts hashes))
    (hpending : u' .pendingTwoFactorSecret = u .pendingTwoFactorSecret)
    (hsecret : u' .twoFactorSecret = u .twoFactorSecret)
    (hlast : u' .lastTotpTimestamp = u .lastTotpTimestamp) :
    Legal newSecrets newCodes ⟨none, u, some u'⟩ where
  typed ht := ⟨fun l => by simpa [hsecret] using ht.secret l,
    fun l => by simpa [hpending] using ht.pending l, fun t => by simp [hcodes]⟩
  pending t hs := .inl (by simpa [SecretAt, hpending] using hs)
  kept _ t hs := ⟨by simpa [SecretAt, hsecret] using hs, hlast⟩
  spends _ _ _ hv := nomatch hv
  codes code hcode := .inr (hnew code (by simpa [codesOf, User.texts, hcodes] using hcode))
  pulls _ hv := nomatch hv

/-- A write that spends a step of the enrolled secret: the secret stays with that step recorded,
or goes. -/
theorem legal_spend {step : ℤ}
    (hfilter : (totp false secret step).casFilter.selects u = true)
    (hsecret : u' .twoFactorSecret = none ∨ u' .twoFactorSecret = u .twoFactorSecret ∧
      u' .lastTotpTimestamp = some (.number step))
    (hpending : u' .pendingTwoFactorSecret = u .pendingTwoFactorSecret)
    (hcodes : u' .backupCodes = none ∨ u' .backupCodes = u .backupCodes ∨
      ∃ hashes, u' .backupCodes = some (.texts hashes) ∧ ∀ code ∈ hashes, newCodes code) :
    Legal newSecrets newCodes ⟨some (.totp false secret step), u, some u'⟩ where
  typed ht := by
    refine ⟨fun l => ?_, fun l => by simpa [hpending] using ht.pending l, fun t => ?_⟩
    · rcases hsecret with hnone | ⟨hsame, -⟩
      · simp [hnone]
      · simpa [hsame] using ht.secret l
    · rcases hcodes with hnone | hsame | ⟨hashes, hset, -⟩
      · simp [hnone]
      · simpa [hsame] using ht.codes t
      · simp [hset]
  pending t hs := .inl (by simpa [SecretAt, hpending] using hs)
  kept hnone := (hnone _ _ _ rfl).elim
  spends e s step' hv ht := by
    cases hv
    obtain ⟨hfound, hunspent⟩ := of_selects_totp hfilter ht
    refine ⟨hfound, hunspent, fun t hs => ?_, nofun⟩
    rcases hsecret with hnone | ⟨hsame, hlast⟩
    · simp [SecretAt, hnone] at hs
    · have hfound' : u .twoFactorSecret = some (.text secret) := hfound
      refine ⟨?_, hlast⟩
      have : some (Value.text secret) = some (.text t) := by
        simpa [SecretAt, hsame, hfound'] using hs
      simpa using this.symm
  codes code hcode := by
    rcases hcodes with hnone | hsame | ⟨hashes, hset, hnew⟩
    · simp [codesOf, User.texts, hnone] at hcode
    · exact .inl (by rwa [codesOf_congr hsame] at hcode)
    · exact .inr (hnew code (by simpa [codesOf, User.texts, hset] using hcode))
  pulls _ hv := nomatch hv

/-- The write that enrols the pending secret. -/
theorem legal_enrol {step : ℤ} {hashes : List String}
    (hfilter : (totp true secret step).casFilter.selects u = true)
    (hsecret : u' .twoFactorSecret = some (.text secret))
    (hlast : u' .lastTotpTimestamp = some (.number step))
    (hpending : u' .pendingTwoFactorSecret = none)
    (hcodes : u' .backupCodes = some (.texts hashes)) (hnew : ∀ code ∈ hashes, newCodes code) :
    Legal newSecrets newCodes ⟨some (.totp true secret step), u, some u'⟩ where
  typed _ := ⟨fun l => by simp [hsecret], fun l => by simp [hpending], fun t => by simp [hcodes]⟩
  pending t hs := by simp [SecretAt, hpending] at hs
  kept hnone := (hnone _ _ _ rfl).elim
  spends e s step' hv ht := by
    cases hv
    obtain ⟨hfound, hunspent⟩ := of_selects_totp hfilter ht
    refine ⟨hfound, hunspent, fun t hs => ⟨?_, hlast⟩, fun _ t hs => ?_⟩
    · have : secret = t := by simpa [SecretAt, hsecret] using hs
      exact this.symm
    · simp [SecretAt, hpending] at hs
  codes code hcode := .inr (hnew code (by simpa [codesOf, User.texts, hcodes] using hcode))
  pulls _ hv := nomatch hv

/-- The write that spends a backup code. -/
theorem legal_pull {code : String}
    (hfilter : (backupCode code).casFilter.selects u = true)
    (hcodes : u' .backupCodes = Update.pulled (.text code) (u .backupCodes))
    (hpending : u' .pendingTwoFactorSecret = u .pendingTwoFactorSecret)
    (hsecret : u' .twoFactorSecret = u .twoFactorSecret)
    (hlast : u' .lastTotpTimestamp = u .lastTotpTimestamp) :
    Legal newSecrets newCodes ⟨some (.backupCode code), u, some u'⟩ where
  typed ht := by
    obtain ⟨l, hl, -⟩ := of_selects_backupCode hfilter ht
    refine ⟨fun l => by simpa [hsecret] using ht.secret l,
      fun l => by simpa [hpending] using ht.pending l, fun t => ?_⟩
    simp [hcodes, hl, Update.pulled]
  pending t hs := .inl (by simpa [SecretAt, hpending] using hs)
  kept _ t hs := ⟨by simpa [SecretAt, hsecret] using hs, hlast⟩
  spends _ _ _ hv := nomatch hv
  codes c hc := by
    refine .inl ?_
    cases hx : u .backupCodes with
    | none => simp [codesOf, User.texts, hcodes, hx, Update.pulled] at hc
    | some v =>
      cases v with
      | texts l =>
        simp only [codesOf, User.texts, hcodes, hx, Update.pulled, map_some,
          getD_some] at hc ⊢
        exact mem_of_mem_filter hc
      | bool b | number n | text t => simp [codesOf, User.texts, hcodes, hx, Update.pulled] at hc
  pulls c hv ht := by
    cases hv
    obtain ⟨l, hl, hmem⟩ := of_selects_backupCode hfilter ht
    simp [codesOf, User.texts, hcodes, hl, Update.pulled, hmem]

end Writes

/-! ## The protocol -/

section Protocol

variable {ι : Type} (start : User) (requests : ι → Env × Request)

/-- A secret stored at the start or minted by one of `published`. -/
def KnownSecret (published : Set ι) (secret : String) : Prop :=
  HasSecret secret (some start) ∨ ∃ i ∈ published, secret ∈ (requests i).2.newSecrets

/-- A backup code stored at the start or generated by one of `published`. -/
def KnownCode (published : Set ι) (code : String) : Prop :=
  code ∈ codesOf (some start) ∨ ∃ i ∈ published, code ∈ (requests i).2.newCodes

/-- The random material of the requests: no two requests draw the same, and none draws what is
stored at the start. -/
structure Fresh : Prop where
  secrets : ∀ i j secret, secret ∈ (requests i).2.newSecrets → secret ∈ (requests j).2.newSecrets →
    i = j
  codes : ∀ i j code, code ∈ (requests i).2.newCodes → code ∈ (requests j).2.newCodes → i = j
  secrets_start : ∀ i, ∀ secret ∈ (requests i).2.newSecrets, ¬ HasSecret secret (some start)
  codes_start : ∀ i, ∀ code ∈ (requests i).2.newCodes, code ∉ codesOf (some start)

/-- The ledger, with the requests that have written what they drew as the ghost. -/
def singleUse : Protocol ι Store Site (Set ι) where
  inv s published := Ledger (KnownSecret start requests published)
    (KnownCode start requests published) s
  guar i _ _ published _ published' := ∀ k ∈ published', k ∈ published ∨ k = i

variable {start requests} {faults : Site → AuthError → Bool → Prop} {i : ι} {α β : Type}

theorem stable_unpublished :
    (singleUse start requests).Stable i fun _ published => i ∉ published :=
  fun _ hj _ _ _ _ _ _ hi hg _ hpub => (hg i hpub).elim hi fun h => hj h.symm

variable {s : Store}

theorem Ledger.mono {knownSecrets' knownCodes' : String → Prop}
    (h : Ledger knownSecrets knownCodes s) (hs : ∀ x, knownSecrets x → knownSecrets' x)
    (hc : ∀ x, knownCodes x → knownCodes' x) : Ledger knownSecrets' knownCodes' s :=
  { h with
    secrets := fun x hx => hs x (h.secrets x hx)
    codes := fun x hx => hc x (h.codes x hx)
    used := fun x hx => hs x (h.used x hx)
    gone := fun x hx => (h.gone x hx).imp_left (hc x)
    removed := fun w hw x hb ha => (h.removed w hw x hb ha).imp_left (hs x) }

theorem Ledger.congr {s' : Store} (h : Ledger knownSecrets knownCodes s)
    (huser : s'.user = s.user) (hlog : s'.log = s.log) : Ledger knownSecrets knownCodes s' := by
  obtain ⟨user, challenges, log⟩ := s
  obtain ⟨user', challenges', log'⟩ := s'
  cases huser
  cases hlog
  exact { h with }

variable {verdict : Option Verdict} {filter : DocStore.Filter Path} {change : User → User}

/-- The account statement of a legal write keeps the ledger, whether it applies or not. -/
theorem ledger_write {knownSecrets' knownCodes' : String → Prop}
    (h : Ledger knownSecrets knownCodes s) (hlegal : ∀ u, filter.selects u = true →
      Legal newSecrets newCodes ⟨verdict, u, some (change u)⟩)
    (hnewSecrets : ∀ x, newSecrets x → ¬ knownSecrets x)
    (hnewCodes : ∀ x, newCodes x → ¬ knownCodes x)
    (hsecrets : ∀ x, knownSecrets x ∨ newSecrets x → knownSecrets' x)
    (hcodes : ∀ x, knownCodes x ∨ newCodes x → knownCodes' x) :
    Ledger knownSecrets' knownCodes' (s.write verdict filter change).2 := by
  have hmono : Ledger knownSecrets' knownCodes' s :=
    h.mono (fun x hx => hsecrets x (.inl hx)) fun x hx => hcodes x (.inl hx)
  unfold write
  cases huser : s.user with
  | none => exact hmono
  | some u =>
    dsimp only
    split
    · rename_i hsel
      exact h.write huser (hlegal u hsel) hnewSecrets hnewCodes
        hsecrets hcodes
    · exact hmono

theorem ledger_erase (h : Ledger knownSecrets knownCodes s) :
    Ledger knownSecrets knownCodes s.erase.2 := by
  unfold erase
  cases huser : s.user with
  | none => exact h
  | some u =>
    have hlegal : Legal (fun _ => False) (fun _ => False) ⟨none, u, none⟩ := legal_erase
    exact h.write huser hlegal (fun _ hx => hx.elim) (fun _ hx => hx.elim)
      (fun _ hx => hx.elim id False.elim) fun _ hx => hx.elim id False.elim

variable (start requests faults i) in
/-- Run by `i`, `p` makes legal writes of nothing it drew, and ends in `A`. -/
def Steady (A : Except AuthError α → Prop) (p : AuthReq α) : Prop :=
  ∀ s published, i ∉ published →
    Safe (singleUse start requests) faults (fun _ _ _ _ => True) i
      (fun r _ published => i ∉ published ∧ A r) p s published

variable (start requests faults i) in
/-- Run by `i`, `p` makes legal writes. -/
def Lawful (p : AuthReq α) : Prop :=
  ∀ s published, i ∉ published →
    Safe (singleUse start requests) faults (fun _ _ _ _ => True) i (fun _ _ _ => True) p s published

theorem steady_ret {A : Except AuthError α → Prop} {a : α} (h : A (.ok a)) :
    Steady start requests faults i A (.ret a) := fun _ _ hi => ⟨hi, h⟩

theorem steady_raise {A : Except AuthError α → Prop} {e : AuthError} (h : A (.error e)) :
    Steady start requests faults i A (.raise e) := fun _ _ hi => ⟨hi, h⟩

theorem lawful_ret {a : α} : Lawful start requests faults i (.ret a) := fun _ _ _ => trivial

theorem lawful_raise {e : AuthError} : Lawful start requests faults i (.raise e : AuthReq α) :=
  fun _ _ _ => trivial

theorem Steady.bind {A : Except AuthError β → Prop} {B : Except AuthError α → Prop} {p : AuthReq β}
    {h : β → AuthReq α} (hp : Steady start requests faults i A p)
    (hh : ∀ b, A (.ok b) → Steady start requests faults i B (h b)) (he : ∀ e, B (.error e)) :
    Steady start requests faults i B (p.bind h) := fun s published hi =>
  Safe.bind ((hp s published hi).mono fun r s published ⟨hi, ha⟩ => by
    cases r with
    | ok b => exact hh b ha s published hi
    | error e => exact ⟨hi, he e⟩)

theorem Steady.then {A : Except AuthError β → Prop} {p : AuthReq β} {h : β → AuthReq α}
    (hp : Steady start requests faults i A p)
    (hh : ∀ b, A (.ok b) → Lawful start requests faults i (h b)) :
    Lawful start requests faults i (p.bind h) := fun s published hi =>
  Safe.bind ((hp s published hi).mono fun r s published ⟨hi, ha⟩ => by
    cases r with
    | ok b => exact hh b ha s published hi
    | error e => trivial)

variable {l : Site}

/-- An access that keeps the ledger without anything drawn. -/
theorem steady_access {A : Except AuthError α → Prop} {f : Store → β × Store}
    {k : Except AuthError β → AuthReq α}
    (hf : ∀ published s, (singleUse start requests).inv s published →
      (singleUse start requests).inv (f s).2 published)
    (hk : ∀ r, Steady start requests faults i A (k r)) :
    Steady start requests faults i A (.access l f k) := by
  intro s published hi
  refine ⟨fun _ published => i ∉ published, stable_unpublished, hi, ?_⟩
  intro s published hinv hi _ r s' ho
  refine ⟨published, ?_, fun k hk => .inl hk, hk r s' published hi⟩
  rcases ho.store_eq with rfl | rfl
  · exact hinv
  · exact hf published s hinv

theorem steady_db {f : Store → β × Store}
    (hf : ∀ published s, (singleUse start requests).inv s published →
      (singleUse start requests).inv (f s).2 published) :
    Steady start requests faults i (fun _ => True) (.db l f : AuthReq β) :=
  steady_access hf fun r => match r with
    | .ok _ => steady_ret trivial
    | .error _ => steady_raise trivial

theorem steady_read {f : Store → β} :
    Steady start requests faults i (fun _ => True) (.read l f : AuthReq β) :=
  steady_db fun _ _ h => h

theorem steady_write (hlegal : ∀ u, filter.selects u = true →
      Legal (fun _ => False) (fun _ => False) ⟨verdict, u, some (change u)⟩) :
    Steady start requests faults i (fun _ => True)
      (.db l (write verdict filter change) : AuthReq (Option User)) :=
  steady_db fun _ _ h => ledger_write h hlegal (fun _ hx => hx.elim) (fun _ hx => hx.elim)
    (fun _ hx => hx.elim id False.elim) fun _ hx => hx.elim id False.elim

/-- The write that publishes what the request drew, and the answer after it. -/
theorem lawful_publish (hfresh : Fresh start requests) {h : Option User → AuthReq α}
    (hlegal : ∀ u, filter.selects u = true → Legal (· ∈ (requests i).2.newSecrets)
      (· ∈ (requests i).2.newCodes) ⟨verdict, u, some (change u)⟩)
    (hh : ∀ after, (h after).Finished) :
    Lawful start requests faults i ((Prog.db l (write verdict filter change)).bind h) := by
  intro s published hi
  have hend : ∀ after s published, Safe (singleUse start requests) faults (fun _ _ _ _ => True) i
      (fun _ _ _ => True) (h after) s published := by
    intro after s published
    have hfin := hh after
    generalize h after = p at hfin
    cases p with
    | ret a => trivial
    | raise e => trivial
    | access l f k => exact hfin.elim
  have hpublish : ∀ s published, (singleUse start requests).inv s published → i ∉ published →
      (singleUse start requests).inv (s.write verdict filter change).2 (insert i published) := by
    intro s published hinv hi
    refine ledger_write hinv hlegal ?_ ?_ ?_ ?_
    · rintro x hx (hx' | ⟨j, hj, hx'⟩)
      · exact hfresh.secrets_start i x hx hx'
      · exact hi (hfresh.secrets i j x hx hx' ▸ hj)
    · rintro x hx (hx' | ⟨j, hj, hx'⟩)
      · exact hfresh.codes_start i x hx hx'
      · exact hi (hfresh.codes i j x hx hx' ▸ hj)
    all_goals
      rintro x ((hx | ⟨j, hj, hx⟩) | hx)
      · exact .inl hx
      · exact .inr ⟨j, .inr hj, hx⟩
      · exact .inr ⟨i, .inl rfl, hx⟩
  have hguar : ∀ published : Set ι, ∀ k ∈ insert i published, k ∈ published ∨ k = i :=
    fun published k hk => hk.elim .inr .inl
  refine Safe.db_bind (fun _ published => i ∉ published) stable_unpublished hi ?_ ?_ ?_
  · exact fun s published hinv hi _ =>
      ⟨insert i published, hpublish s published hinv hi, hguar published, hend _ _ _⟩
  · exact fun s published e hinv _ _ _ => ⟨published, hinv, fun k hk => .inl hk, trivial⟩
  · exact fun s published e hinv hi _ _ =>
      ⟨insert i published, hpublish s published hinv hi, hguar published, trivial⟩

end Protocol

/-! ## The requests make legal writes -/

section Requests

variable {ι : Type} {start : User} {requests : ι → Env × Request}
  {faults : Site → AuthError → Bool → Prop} {i : ι}

/-- What the brake puts back leaves the guarded paths alone. -/
theorem legal_withState (u : User) (state : Lockout.FactorState) :
    Legal (fun _ => False) (fun _ => False) ⟨none, u, some (u.withState state)⟩ :=
  legal_neutral fun p h => by cases p <;> first | rfl | cases h

/-- A request of the brake touches nothing that decides which codes are accepted. -/
theorem steady_onLockout {α : Type} (userId : String) (p : Lockout.Req AuthError α) :
    Steady start requests faults i (fun _ => True) (onLockout userId p) := by
  induction p with
  | ret a => exact steady_ret trivial
  | raise e => exact steady_raise trivial
  | access l f k ih =>
    refine steady_access (fun published s h => ?_) ih
    unfold putLockout
    split
    · rename_i u l huser hafter
      exact h.write huser (legal_withState u _) (fun _ hx => hx.elim) (fun _ hx => hx.elim)
        (fun _ hx => hx.elim id False.elim) fun _ hx => hx.elim id False.elim
    · exact h

theorem steady_secondFactorDeadline (enrolment : Bool) :
    Steady start requests faults i (fun _ => True) (secondFactorDeadline enrolment) := by
  unfold secondFactorDeadline
  split
  · exact steady_ret trivial
  · exact steady_read

theorem steady_dischargeIfServed (env : Env) (userId : String) (deadline : Option ℤ) :
    Steady start requests faults i (fun _ => True) (dischargeIfServed env userId deadline) := by
  unfold dischargeIfServed
  split
  · exact steady_onLockout _ _
  · exact steady_ret trivial

theorem steady_answerCheck (env : Env) (userId : String) (enrolment : Bool)
    (checked : Except AuthError (Option Verdict)) :
    Steady start requests faults i
      (fun r => ∀ verdict, r = .ok (.ok verdict) → checked = .ok (some verdict))
      (answerCheck env userId enrolment checked) := by
  unfold answerCheck
  split
  · exact steady_raise nofun
  · refine steady_ret fun v h => ?_
    cases h
    rfl
  · split
    · exact steady_ret nofun
    · refine Steady.bind (steady_onLockout _ _) (fun _ _ => ?_) ?_
      · exact steady_ret nofun
      · exact nofun

/-- The verifier writes lockout state alone and answers what the check decided. -/
theorem steady_verifySecondFactor (K : Crypto) (env : Env) (userId : String) (user : User)
    (code : String) (site : SecondFactorSite) (acceptBackupCodes : Bool) :
    Steady start requests faults i
      (fun r => ∀ verdict, r = .ok (.ok verdict) →
        checkCode K (env.clock .verify) user code (decide (site = .verify2fa)) acceptBackupCodes =
          .ok (some verdict))
      (verifySecondFactor K env userId user code site acceptBackupCodes) := by
  refine Steady.bind (steady_secondFactorDeadline _) (fun deadline _ => ?_) ?_
  · split
    · exact steady_ret nofun
    · refine Steady.bind (steady_dischargeIfServed _ _ _) (fun _ _ => steady_answerCheck _ _ _ _) ?_
      exact nofun
  · exact nofun

/-- A verdict is for the secret of the loaded document, at the path the site checks; it is a
backup code only where those are accepted. -/
theorem of_checkCode {K : Crypto} {now : ℤ} {user : User} {code : String} {enrolment : Bool}
    {acceptBackupCodes : Bool} {verdict : Verdict}
    (h : checkCode K now user code enrolment acceptBackupCodes = .ok (some verdict)) :
    (∃ secret step, verdict = .totp enrolment secret step ∧
      user.text (secretPath enrolment) = some secret) ∨
      acceptBackupCodes = true ∧ ∃ stored, verdict = .backupCode stored := by
  unfold checkCode at h
  split at h
  · split at h
    · cases h
    rename_i secret hsecret
    split at h
    · cases h
    split at h
    · cases h
    dsimp only at h
    split at h
    · cases h
    · cases h
      exact .inl ⟨secret, _, rfl, hsecret⟩
  · split at h
    · rename_i haccept
      injection h with h
      obtain ⟨stored, -, rfl⟩ := map_eq_some_iff.1 h
      exact .inr ⟨haccept, stored, rfl⟩
    · cases h

/-- At a site that takes no backup codes, a verdict spends a step of the loaded secret. -/
theorem totp_of_checkCode {K : Crypto} {now : ℤ} {user : User} {code : String} {enrolment : Bool}
    {verdict : Verdict} (h : checkCode K now user code enrolment false = .ok (some verdict)) :
    ∃ secret step, verdict = .totp enrolment secret step ∧
      user.text (secretPath enrolment) = some secret :=
  (of_checkCode h).resolve_right fun h => nomatch h.1

variable (K : Crypto) (env : Env) (userId : String)

theorem lawful_login2fa (challengeId code : String) :
    Lawful start requests faults i (login2fa K env userId challengeId code) := by
  refine Steady.then steady_read fun isOpen _ => ?_
  split
  · exact lawful_raise
  refine Steady.then steady_read fun loaded _ => ?_
  cases loaded with
  | none => exact lawful_raise
  | some user =>
    dsimp only
    split
    · exact lawful_raise
    split
    · exact lawful_raise
    refine Steady.then (steady_verifySecondFactor _ _ _ _ _ _ _) fun checked hchecked => ?_
    match checked with
    | .error .locked | .error (.invalid _) => exact lawful_raise
    | .ok verdict =>
      have hverdict := hchecked verdict rfl
      refine Steady.then (steady_db fun published s h => ?_) fun consumed _ => ?_
      · unfold consume
        split
        · exact h.congr rfl rfl
        · exact h
      split
      · exact lawful_raise
      refine Steady.then (steady_write fun u hselects => ?_) fun after _ => ?_
      · have hcas : verdict.casFilter.selects u = true := by
          refine casFilter_of_merged (DocStore.Filter.ofList (byId userId))
            (unique_ofList _) .none verdict ?_
          rw [← hselects]
          rcases verdict with ⟨e, secret, step⟩ | stored
          · cases e <;> rfl
          · rfl
        rcases of_checkCode hverdict with ⟨secret, step, rfl, -⟩ | ⟨-, stored, rfl⟩
        · exact legal_spend hcas (.inr ⟨rfl, rfl⟩) rfl (.inr (.inl rfl))
        · exact legal_pull hcas rfl rfl rfl rfl
      · cases after with
        | none => exact lawful_raise
        | some after =>
          exact (steady_onLockout _ _).then fun _ _ => lawful_ret

theorem lawful_disable2fa (password code : String) :
    Lawful start requests faults i (disable2fa K env userId password code) := by
  refine Steady.then steady_read fun loaded _ => ?_
  cases loaded with
  | none => exact lawful_raise
  | some user =>
    dsimp only
    split
    · exact lawful_raise
    split
    · exact lawful_raise
    refine Steady.then (steady_verifySecondFactor _ _ _ _ _ _ _) fun checked hchecked => ?_
    match checked with
    | .error .locked | .error (.invalid _) => exact lawful_raise
    | .ok verdict =>
      refine Steady.then (steady_write fun u hselects => ?_) fun disabled _ => ?_
      · obtain ⟨secret, step, rfl, -⟩ := totp_of_checkCode (hchecked verdict rfl)
        exact legal_spend (casFilter_of_merged _ (unique_ofList _) _ _ hselects) (.inl rfl)
          rfl (.inl rfl)
      · cases disabled with
        | none => exact lawful_raise
        | some _ => exact lawful_ret

theorem lawful_finishDeletion (marked : Option User) :
    Lawful start requests faults i (finishDeletion marked) := by
  cases marked with
  | some _ =>
    exact Steady.then (steady_db fun _ _ h => ledger_erase h) fun _ _ => lawful_ret
  | none =>
    refine Steady.then steady_read fun present _ => ?_
    split
    · exact lawful_raise
    · exact lawful_raise

theorem lawful_deleteAccount (password : String) (code : Option String) :
    Lawful start requests faults i (deleteAccount K env userId password code) := by
  refine Steady.then steady_read fun loaded _ => ?_
  cases loaded with
  | none => exact lawful_raise
  | some user =>
    dsimp only
    split
    · exact lawful_raise
    split
    · cases code with
      | none => exact lawful_raise
      | some code =>
        refine Steady.then (steady_verifySecondFactor _ _ _ _ _ _ _) fun checked hchecked => ?_
        match checked with
        | .error .locked | .error (.invalid _) => exact lawful_raise
        | .ok verdict =>
          refine Steady.then (steady_write fun u hselects => ?_) fun marked _ =>
            lawful_finishDeletion marked
          obtain ⟨secret, step, rfl, -⟩ := totp_of_checkCode (hchecked verdict rfl)
          exact legal_spend (casFilter_of_merged _ (unique_ofList _) _ _ hselects)
            (.inr ⟨rfl, rfl⟩) rfl (.inr (.inl rfl))
    · refine Steady.then (steady_write fun u _ => legal_neutral fun p h => ?_) fun marked _ =>
        lawful_finishDeletion marked
      cases p <;> first | rfl | cases h

variable (hfresh : Fresh start requests)

include hfresh

theorem lawful_setup2fa {password newSecret : String} {expiry : ℤ}
    (hi : (requests i).2 = .setup2fa password newSecret expiry) :
    Lawful start requests faults i (setup2fa K userId password newSecret expiry) := by
  refine Steady.then steady_read fun loaded _ => ?_
  cases loaded with
  | none => exact lawful_raise
  | some user =>
    dsimp only
    split
    · exact lawful_raise
    split
    · exact lawful_raise
    refine lawful_publish hfresh (fun u _ => ?_) fun _ => trivial
    refine legal_pending (some newSecret) (fun t ht => ?_) rfl rfl rfl rfl
    cases ht
    simp [hi, Request.newSecrets]

theorem lawful_verify2fa {code : String} {generated : ℕ → String × String}
    (hi : (requests i).2 = .verify2fa code generated) :
    Lawful start requests faults i (verify2fa K env userId code generated) := by
  refine Steady.then steady_read fun loaded _ => ?_
  cases loaded with
  | none => exact lawful_raise
  | some user =>
    dsimp only
    split
    · exact lawful_raise
    split
    · rename_i encryptedSecret expiry hsecret hexpiry
      split
      · refine Steady.then (steady_write fun u _ => ?_) fun _ _ => lawful_raise
        exact legal_pending none nofun rfl rfl rfl rfl
      refine Steady.then (steady_verifySecondFactor _ _ _ _ _ _ _) fun checked hchecked => ?_
      match checked with
      | .error _ => exact lawful_raise
      | .ok verdict =>
        refine lawful_publish hfresh (fun u hselects => ?_) fun updated => by
          cases updated <;> exact trivial
        obtain ⟨secret, step, rfl, hloaded⟩ := totp_of_checkCode (hchecked verdict rfl)
        -- the secret enrolled is the one the code was checked against
        obtain rfl : encryptedSecret = secret := some.inj (hsecret.symm.trans hloaded)
        refine legal_enrol (casFilter_of_merged _ (unique_ofList _) _ _ hselects) rfl rfl rfl
          rfl fun c hc => ?_
        simpa [hi, Request.newCodes] using hc
    · exact lawful_raise

theorem lawful_regenerateBackupCodes {password : String} {code : Option String}
    {generated : ℕ → String × String}
    (hi : (requests i).2 = .regenerateBackupCodes password code generated) :
    Lawful start requests faults i (regenerateBackupCodes K env userId password code generated) := by
  have hnew : ∀ c ∈ (generateBackupCodes generated).2, c ∈ (requests i).2.newCodes := fun c hc => by
    simpa [hi, Request.newCodes] using hc
  refine Steady.then steady_read fun loaded _ => ?_
  cases loaded with
  | none => exact lawful_raise
  | some user =>
    dsimp only
    split
    · exact lawful_raise
    split
    · exact lawful_raise
    split
    · cases code with
      | none => exact lawful_raise
      | some code =>
        refine Steady.then (steady_verifySecondFactor _ _ _ _ _ _ _) fun checked hchecked => ?_
        match checked with
        | .error .locked | .error (.invalid _) => exact lawful_raise
        | .ok verdict =>
          refine lawful_publish hfresh (fun u hselects => ?_) fun updated => by
            cases updated <;> exact trivial
          obtain ⟨secret, step, rfl, -⟩ := totp_of_checkCode (hchecked verdict rfl)
          exact legal_spend (casFilter_of_merged _ (unique_ofList _) _ _ hselects)
            (.inr ⟨rfl, rfl⟩) rfl (.inr (.inr ⟨_, rfl, hnew⟩))
    · refine lawful_publish hfresh (fun u _ => ?_) fun updated => by
        cases updated <;> exact trivial
      exact legal_publish hnew rfl rfl rfl rfl

theorem lawful_prog :
    Lawful start requests faults i ((requests i).2.prog K env userId) := by
  cases hrequest : (requests i).2 with
  | login2fa challengeId code => exact lawful_login2fa K env userId challengeId code
  | setup2fa password newSecret expiry => exact lawful_setup2fa K userId hfresh hrequest
  | verify2fa code generated => exact lawful_verify2fa K env userId hfresh hrequest
  | disable2fa password code => exact lawful_disable2fa K env userId password code
  | regenerateBackupCodes password code generated =>
    exact lawful_regenerateBackupCodes K env userId hfresh hrequest
  | deleteAccount password code => exact lawful_deleteAccount K env userId password code

end Requests

/-! ## Every run -/

section Runs

variable {ι : Type} {start : User} {requests : ι → Env × Request}

theorem sound_authSystem (K : Crypto) (userId : String) (faults : Site → AuthError → Bool → Prop)
    (hfresh : Fresh start requests) :
    Sound (authSystem K userId faults requests) (singleUse start requests)
      (fun _ _ _ _ => True) (fun _ _ _ => True) (fun i _ published => i ∉ published)
      (fun _ _ _ _ => True) where
  safe i p hp s published _ hi := by
    obtain rfl := hp
    refine (lawful_prog K (requests i).1 userId hfresh s published hi).mono ?_
    exact fun _ _ published _ hinv => ⟨published, hinv, fun k hk => .inl hk, trivial⟩
  stable_pre _ := stable_unpublished
  stable_post _ _ := Protocol.Stable.const True
  side _ _ _ _ _ _ _ := trivial

/-- The books before any request. -/
theorem ledger_start {challenges : List String} (htyped : WellTyped (some start))
    (hapart : ∀ secret, start .pendingTwoFactorSecret = some (.text secret) →
      start .twoFactorSecret ≠ some (.text secret)) :
    Ledger (KnownSecret start requests ∅) (KnownCode start requests ∅)
      ⟨some start, challenges, []⟩ where
  typed := htyped
  secrets _ hs := .inl hs
  codes _ hc := .inl hc
  apart := hapart
  unused _ _ := rfl
  last _ _ step hstep := nomatch hstep
  used _ hne := (hne rfl).elim
  increasing _ := List.Pairwise.nil
  gone _ hcode := nomatch hcode
  once := nodup_nil
  removed _ hw := nomatch hw
  after_removal l₁ w l₂ _ hlog := by simp at hlog
  found _ hw := nomatch hw

/-- **Second-factor codes are single use.** In every interleaving of any number of requests on
one account: the steps of a secret whose writes were applied increase strictly, a backup code's
write is applied once, a step is spent only while its secret is where it was checked, and never
after the secret was replaced or removed. -/
theorem codes_single_use [DecidableEq ι] (K : Crypto) (userId : String)
    (faults : Site → AuthError → Bool → Prop) (hfresh : Fresh start requests)
    (htyped : WellTyped (some start))
    (hapart : ∀ secret, start .pendingTwoFactorSecret = some (.text secret) →
      start .twoFactorSecret ≠ some (.text secret))
    {challenges : List String} {c : Config ι Store Site AuthError Answer}
    (h : Reach (authSystem K userId faults requests)
      (Config.start ⟨some start, challenges, []⟩) c) :
    (∀ secret, (totpSteps secret c.store.log).Pairwise (· < ·)) ∧
      (spentCodes c.store.log).Nodup ∧
      (∀ w ∈ c.store.log, ∀ e secret step, w.verdict = some (.totp e secret step) →
        SecretAt (secretPath e) secret (some w.before)) ∧
      ∀ l₁ w l₂ secret, c.store.log = l₁ ++ w :: l₂ → HasSecret secret (some w.before) →
        ¬ HasSecret secret w.after → totpSteps secret l₂ = [] := by
  obtain ⟨published, hledger, -⟩ := (sound_authSystem K userId faults hfresh).reaches_start
    (ledger_start htyped hapart) (fun i hi => (hi : i ∈ (∅ : Set ι)).elim) h
  exact ⟨hledger.increasing, hledger.once, hledger.found, hledger.after_removal⟩

/-! ### A sign-in -/

/-- An account with two-factor on. -/
def enrolledUser : User
  | .id => some (.text "user")
  | .twoFactorEnabled => some (.bool true)
  | .twoFactorSecret => some (.text "sealed")
  | .backupCodes => some (.texts [])
  | _ => none

/-- The secret `GEZDGNBVGY3TQOJQGEZDGNBVGY3TQOJQ`, whose code in its second step is `287082`. -/
def exampleCrypto : Crypto where
  compare _ _ := false
  decryptText ciphertext :=
    if ciphertext = "sealed" then some "GEZDGNBVGY3TQOJQGEZDGNBVGY3TQOJQ" else none
  validate secret code now :=
    if secret = "GEZDGNBVGY3TQOJQGEZDGNBVGY3TQOJQ" ∧ code = "287082" then
      let delta := 1 - now / 30000
      if -1 ≤ delta ∧ delta ≤ 1 then some delta else none
    else none

/-- Two sign-ins with the same code, each with a challenge of its own. -/
def twoSignIns (second : Bool) : Env × Request :=
  (⟨fun _ => 59000, "episode"⟩, .login2fa (if second then "b" else "a") "287082")

/-- The first sign-in spends the step, and no run spends it twice. -/
theorem first_signIn_spends :
    ∃ c, Reach (authSystem exampleCrypto "user" (fun _ _ _ => True) twoSignIns)
        (Config.start ⟨some enrolledUser, ["a", "b"], []⟩) c ∧
      totpSteps "sealed" c.store.log = [1] ∧
      (totpSteps "sealed" c.store.log).Pairwise (· < ·) := by
  obtain ⟨c, hreach, hstore, -⟩ := Reach.first
    (S := authSystem exampleCrypto "user" (fun _ _ _ => True) twoSignIns) (i := false)
    rfl
  refine ⟨c, hreach, ?_, (codes_single_use exampleCrypto "user" _ ?_ ?_ ?_ hreach).1 "sealed"⟩
  · rw [hstore]
    decide
  · exact ⟨nofun, fun _ _ _ => nofun, nofun,
      fun _ _ => nofun⟩
  · exact ⟨nofun, fun _ => nofun, fun _ h => (nomatch h)⟩
  · exact fun _ h => (nomatch h)

end Runs

end HVault.Auth
