import HVault.Vault.Store

/-!
# What a pin on a row keeps

A pinned write names the `__v` and `createdAt` its row was measured with. Between the measure
and the write other requests may rewrite the row, delete it, or create another under its id.
`Evolves` says what all of them do to the rows: a row that stays keeps its `createdAt` and
either gains a higher `__v` or changes only as `Neutral` allows, and a row that appears is
dated later than the clock. So whatever held of the measured row, and no neutral write can
break, still holds of any row the pin matches: `Pinned`.
-/

namespace HVault

open Finmap

variable {K : Type} {Neutral : RowKey → Row K → Row K → Prop} {s s' : Store K} {key : RowKey}
  {row row' : Row K}

/-- Every stored row was created before now. -/
def Dated (s : Store K) : Prop :=
  ∀ key row t, s.rows.lookup key = some row → row.createdAt = some t → t < s.clock

/-- What becomes of a stored row that is not removed. -/
def Succeeds (Neutral : RowKey → Row K → Row K → Prop) (key : RowKey) (row row' : Row K) : Prop :=
  row'.createdAt = row.createdAt ∧
    (row.version.getD 0 < row'.version.getD 0 ∨
      row'.version = row.version ∧ (row' = row ∨ Neutral key row row'))

/-- What the accesses of the vault do to the rows. -/
def Evolves (Neutral : RowKey → Row K → Row K → Prop) (s s' : Store K) : Prop :=
  s.clock ≤ s'.clock ∧ ∀ key row', s'.rows.lookup key = some row' →
    (∃ row, s.rows.lookup key = some row ∧ Succeeds Neutral key row row') ∨
      ∃ t, row'.createdAt = some t ∧ s.clock ≤ t ∧ t < s'.clock

theorem Succeeds.refl (key : RowKey) (row : Row K) : Succeeds Neutral key row row :=
  ⟨rfl, .inr ⟨rfl, .inl rfl⟩⟩

theorem succeeds_written (key : RowKey) (update : CountedUpdate K) (now : ℕ) (row : Row K) :
    Succeeds Neutral key row (row.written update now) :=
  ⟨rfl, .inl (Nat.lt_succ_self _)⟩

theorem Evolves.of_rows_eq (hrows : s'.rows = s.rows) (hclock : s'.clock = s.clock) :
    Evolves Neutral s s' := by
  refine ⟨hclock.ge, fun key row' h => .inl ⟨row', ?_, .refl key row'⟩⟩
  rwa [← hrows]

theorem Evolves.refl (s : Store K) : Evolves Neutral s s := .of_rows_eq rfl rfl

theorem Evolves.replace (hrow : s.rows.lookup key = some row)
    (hsucc : Succeeds Neutral key row row') :
    Evolves Neutral s { s with rows := s.rows.insert key row' } := by
  refine ⟨le_rfl, fun k r hr => .inl ?_⟩
  by_cases hk : k = key
  · subst hk
    rw [lookup_insert] at hr
    cases hr
    exact ⟨row, hrow, hsucc⟩
  · rw [lookup_insert_of_ne _ hk] at hr
    exact ⟨r, hr, .refl k r⟩

theorem Evolves.insert (hdate : row'.createdAt = some s.clock) :
    Evolves Neutral s { s with rows := s.rows.insert key row', clock := s.clock + 1 } := by
  refine ⟨Nat.le_succ _, fun k r hr => ?_⟩
  by_cases hk : k = key
  · subst hk
    rw [lookup_insert] at hr
    cases hr
    exact .inr ⟨s.clock, hdate, le_rfl, Nat.lt_succ_self _⟩
  · rw [lookup_insert_of_ne _ hk] at hr
    exact .inl ⟨r, hr, .refl k r⟩

theorem Evolves.erase : Evolves Neutral s { s with rows := s.rows.erase key } := by
  refine ⟨le_rfl, fun k r hr => .inl ⟨r, ?_, .refl k r⟩⟩
  by_cases hk : k = key
  · subst hk
    rw [lookup_erase] at hr
    cases hr
  · rwa [lookup_erase_ne hk] at hr

theorem Dated.evolves (h : Dated s) (he : Evolves Neutral s s') : Dated s' := by
  intro key row' t hrow' ht
  rcases he.2 key row' hrow' with ⟨row, hrow, hsucc⟩ | ⟨t', ht', -, hlt⟩
  · rw [hsucc.1] at ht
    exact (h key row t hrow ht).trans_le he.1
  · rw [ht'] at ht
    cases ht
    exact hlt

/-- `D` holds of whatever row the pin `version`, `createdAt` on `key` still matches: a row of
that creation has moved past the version, or is at it and in `D`. -/
def Pinned (key : RowKey) (version createdAt : Option ℕ) (D : Row K → Prop) (s : Store K) : Prop :=
  (∀ t, createdAt = some t → t < s.clock) ∧
    ∀ row, s.rows.lookup key = some row → row.createdAt = createdAt →
      version.getD 0 < row.version.getD 0 ∨ row.version = version ∧ D row

variable {version createdAt : Option ℕ} {D : Row K → Prop}

theorem Pinned.of_lookup (hdated : Dated s) (hrow : s.rows.lookup key = some row) (hD : D row) :
    Pinned key row.version row.createdAt D s := by
  refine ⟨fun t ht => hdated key row t hrow ht, fun row' hrow' _ => ?_⟩
  rw [hrow] at hrow'
  cases hrow'
  exact .inr ⟨rfl, hD⟩

/-- **A pin survives whatever the other requests do to the rows.** -/
theorem Pinned.evolves (h : Pinned key version createdAt D s) (he : Evolves Neutral s s')
    (hD : ∀ row row', row'.version = row.version → row'.createdAt = row.createdAt → D row →
      Neutral key row row' → D row') :
    Pinned key version createdAt D s' := by
  refine ⟨fun t ht => (h.1 t ht).trans_le he.1, fun row' hrow' hcreated => ?_⟩
  rcases he.2 key row' hrow' with ⟨row, hrow, hsame, hver⟩ | ⟨t, ht, hle, -⟩
  · have hold := h.2 row hrow (hsame ▸ hcreated)
    rcases hver with hlt | ⟨heq, hrow'⟩
    · left
      rcases hold with hold | ⟨hold, -⟩
      · exact hold.trans hlt
      · rwa [← hold]
    · rw [heq]
      refine hold.imp_right fun ⟨hv, hd⟩ => ⟨hv, ?_⟩
      rcases hrow' with rfl | hneutral
      · exact hd
      · exact hD row row' heq hsame hd hneutral
  · -- a row created since carries a later date than the pin
    have := h.1 t (hcreated ▸ ht)
    omega

/-- A row the pin matches is in `D`. -/
theorem Pinned.holds (h : Pinned key version createdAt D s) (hrow : s.rows.lookup key = some row)
    (hversion : row.version = version) (hcreated : row.createdAt = createdAt) : D row := by
  rcases h.2 row hrow hcreated with hlt | ⟨-, hd⟩
  · rw [hversion] at hlt
    exact (lt_irrefl _ hlt).elim
  · exact hd

end HVault
