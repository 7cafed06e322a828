import HVault.Vault.Rows

/-!
# The deltas of pinned writes over the life of a row

A pinned write is accounted with a measure taken earlier. In between the row may have been written
by others: `Rewrites` are the writes a stored row can get, those of counted fields, which bump
`__v`, and those of placement fields alone, which do not. A row that still carries the measured
version has only had writes of the second kind, so its counted fields are the measured ones
(`Rewrites.of_pin`); it may carry an `updatedAt` the measured row had not, which the delta has
already in it. `pinned_deltas_exact` prices an update and its rollback that way.
-/

namespace HVault

variable {K : Type} {kind : Kind} {row row' row'' : Row K} {measure : RowMeasure}
  {update next fields : CountedUpdate K}

/-- The writes a stored row can get: `row'` is `row` some of them later. -/
inductive Rewrites (kind : Kind) (row : Row K) : Row K → Prop
  | refl : Rewrites kind row row
  | written {row' : Row K} (h : Rewrites kind row row') (update : CountedUpdate K) (now : ℕ) :
      Rewrites kind row (row'.written update now)
  | placed {row' : Row K} (h : Rewrites kind row row') {update : CountedUpdate K}
      (hw : ¬ writesCountedField kind update) (now : ℕ) : Rewrites kind row (row'.placed update now)

/-- What a measure still knows of a row that has kept its version: all but whether `updatedAt` has
been stamped since. -/
structure Unbumped (kind : Kind) (row row' : Row K) : Prop where
  version : row'.version = row.version
  createdAt : row'.createdAt = row.createdAt
  fields : ∀ f ∈ countedFields kind, row'.fields f = row.fields f

/-- A row keeps its creation, and either its version has gone up or no counted field was written. -/
theorem Rewrites.bumped_or (h : Rewrites kind row row') :
    row.version.getD 0 < row'.version.getD 0 ∧ row'.createdAt = row.createdAt ∨
      Unbumped kind row row' := by
  induction h with
  | refl => exact .inr ⟨rfl, rfl, fun _ _ => rfl⟩
  | @written row' _ update now ih =>
    have hbump : (row'.written update now).version.getD 0 = row'.version.getD 0 + 1 := rfl
    left
    rcases ih with ⟨hlt, hcreated⟩ | hsame
    · exact ⟨by omega, hcreated⟩
    · exact ⟨by rw [hbump, hsame.version]; omega, hsame.createdAt⟩
  | @placed row' _ update hw now ih =>
    rcases ih with hbumped | hsame
    · exact .inl hbumped
    · exact .inr ⟨hsame.version, hsame.createdAt, fun f hf =>
        (fields_placed hw now f hf).trans (hsame.fields f hf)⟩

/-- A row with the measured version has the measured counted fields. -/
theorem Rewrites.of_pin (h : Rewrites kind row row') (hversion : row'.version = row.version) :
    Unbumped kind row row' := by
  rcases h.bumped_or with ⟨hlt, -⟩ | hsame
  · rw [hversion] at hlt
    omega
  · exact hsame

/-- An update leaves the counted fields of both rows alike, and stamps both. -/
theorem Unbumped.written (h : Unbumped kind row row') (update : CountedUpdate K) (now : ℕ) :
    Unbumped kind (row.written update now) (row'.written update now) where
  version := by simp only [Row.written, h.version]
  createdAt := h.createdAt
  fields f hf := by
    simp only [Row.written, CountedUpdate.applyFields]
    rw [h.fields f hf]

theorem Unbumped.countedBytes_eq (h : Unbumped kind row row')
    (hstamped : row'.updatedAt.isSome = row.updatedAt.isSome) :
    countedBytes kind row' = countedBytes kind row :=
  countedBytes_congr h.version h.createdAt hstamped h.fields

/-- What a measure says of a row it says of a row that differs in placement and stamps alone. -/
theorem Measures.unbumped (h : Measures kind row measure update) (hsame : Unbumped kind row row')
    (hstamped : row'.updatedAt.isSome = row.updatedAt.isSome) :
    Measures kind row' measure update := by
  obtain ⟨hversion, hcreated, hcounted, hupdated, hbytes⟩ := h
  refine ⟨hversion.trans hsame.version.symm, hcreated.trans hsame.createdAt.symm, ?_,
    hupdated.trans hstamped.symm, fun f hf => ?_⟩
  · rw [hcounted, hsame.countedBytes_eq hstamped]
  · rw [hbytes f hf, hsame.fields f (countedFieldsOf_subset kind update hf)]

section Pinned

variable (hmeasures : Measures kind row measure update) (hlife : Rewrites kind row row')
  (hpin : versionPin measure row')

include hmeasures hlife hpin

theorem unbumped_of_versionPin : Unbumped kind row row' :=
  hlife.of_pin (hpin.1.trans hmeasures.1)

/-- **The delta is exact whatever was placed since the measure**: the write adds it to what was
measured, not to what the row had come to. -/
theorem countedBytes_written_pinned (now : ℕ) :
    (countedBytes kind (row'.written update now) : ℤ)
      = measure.counted + deltaOfPinnedUpdate kind measure update := by
  have hsame := unbumped_of_versionPin hmeasures hlife hpin
  have hstored : countedBytes kind (row'.written update now)
      = countedBytes kind (row.written update now) :=
    (hsame.written update now).countedBytes_eq rfl
  rw [hstored, countedBytes_written hmeasures now, hmeasures.2.2.1]

/-- The measure recorded after the write measures the row it left. -/
theorem measures_measureAfter_pinned
    (hnext : ∀ f ∈ countedFieldsOf kind next,
      (measure.fieldBytes f).getD 0 = entryBytes f.name (row.fields f)) (now : ℕ) :
    Measures kind (row'.written update now) (measureAfter kind measure update next) next := by
  have hsame := unbumped_of_versionPin hmeasures hlife hpin
  exact (measures_measureAfter hmeasures hnext now).unbumped (hsame.written update now) rfl

end Pinned

/-- A measure with exactly the bytes an update needs is the row's image for it. -/
theorem Measures.eq_measureImage (h : Measures kind row measure update)
    (hbytes : ∀ f, (measure.fieldBytes f).isSome = decide (f ∈ countedFieldsOf kind update)) :
    measure = measureImage kind row update := by
  obtain ⟨hversion, hcreated, hcounted, hupdated, hfields⟩ := h
  obtain ⟨version, createdAt, counted, hasUpdatedAt, fieldBytes⟩ := measure
  have hsame : fieldBytes = (measureImage kind row update).fieldBytes := by
    funext f
    have hsome := hbytes f
    by_cases hf : f ∈ countedFieldsOf kind update
    · have hvalue := hfields f hf
      cases hread : fieldBytes f with
      | none => simp [hread, hf] at hsome
      | some bytes =>
        simp only [hread, Option.getD_some] at hvalue
        simp [measureImage, hf, hvalue]
    · simp only [hf, decide_false, Option.isSome_eq_false_iff, Option.isNone_iff_eq_none] at hsome
      simp [measureImage, hf, hsome]
  simp only at hversion hcreated hcounted hupdated
  rw [hversion, hcreated, hcounted, hupdated, hsame]
  rfl

theorem isSome_fieldBytes_measureAfter (f : Field) :
    ((measureAfter kind measure update next).fieldBytes f).isSome
      = decide (f ∈ countedFieldsOf kind next) := by
  by_cases hf : f ∈ countedFieldsOf kind next
  · simp only [measureAfter, hf, if_true, decide_true]
    cases update.set f with
    | some value => rfl
    | none => cases update.unset f <;> rfl
  · simp [measureAfter, hf]

/-- **The accounting of pinned writes is exact.** A row measured for `fields`, then written by
others in any way, and then by an update whose counted fields were measured and whose pin still
matches, has changed by the delta since the measure; what `measureAfter` records for a second
update is the image of the row the first one left, and a second write that is pinned on it leaves
the two deltas as the whole change. -/
theorem pinned_deltas_exact
    (hfields : countedFieldsOf kind update ⊆ countedFieldsOf kind fields)
    (hlife : Rewrites kind row row') (hpin : versionPin (measureImage kind row fields) row')
    (now : ℕ) :
    let measure := measureImage kind row fields
    (countedBytes kind (row'.written update now) : ℤ) - measure.counted
        = deltaOfPinnedUpdate kind measure update ∧
      ∀ rollback : CountedUpdate K, countedFieldsOf kind rollback ⊆ countedFieldsOf kind fields →
        let after := measureAfter kind measure update rollback
        after = measureImage kind (row'.written update now) rollback ∧
          ∀ (row'' : Row K) (later : ℕ), Rewrites kind (row'.written update now) row'' →
            versionPin after row'' →
              (countedBytes kind (row''.written rollback later) : ℤ) - measure.counted
                = deltaOfPinnedUpdate kind measure update
                  + deltaOfPinnedUpdate kind after rollback := by
  intro measure
  have hmeasures : Measures kind row measure update := measures_measureImage hfields
  have hexact := countedBytes_written_pinned hmeasures hlife hpin now
  refine ⟨by omega, fun rollback hrollback => ?_⟩
  intro after
  have hafter : Measures kind (row'.written update now) after rollback := by
    apply measures_measureAfter_pinned hmeasures hlife hpin
    exact (measures_measureImage hrollback).2.2.2.2
  refine ⟨hafter.eq_measureImage isSome_fieldBytes_measureAfter, fun row'' later hlife' hpin' => ?_⟩
  have hback := countedBytes_written_pinned hafter hlife' hpin' later
  have hcounted : after.counted = measure.counted + deltaOfPinnedUpdate kind measure update := rfl
  rw [hback, hcounted]
  omega

/-- An item an early release stored, without `__v` and without `updatedAt`. -/
def unstampedItem : Row Unit where
  version := none
  createdAt := some 4
  updatedAt := none
  fields
    | .tags => some (.array [])
    | .searchHash => some (.string "aa")
    | _ => none
  sealedUnder := ()

/-- An edit that writes the tags, removes the search hash and moves the item. -/
def retagged : CountedUpdate Unit where
  set
    | .tags => some (.array [.string "home"])
    | .folderId => some (.objectId 2)
    | _ => none
  unset f := f = .searchHash
  sealedUnder := none

/-- The edit that puts both back. -/
def tagsRestored : CountedUpdate Unit where
  set
    | .tags => some (.array [])
    | .searchHash => some (.string "aa")
    | _ => none
  unset _ := false
  sealedUnder := none

/-- A move to the trash, which writes no counted field. -/
def trashing : CountedUpdate Unit where
  set
    | .deletedAt => some (.date 9)
    | _ => none
  unset _ := false
  sealedUnder := none

/-- The early item trashed between its measure and the edit, and the edit taken back. -/
theorem pinned_deltas_exact_unstampedItem :
    (countedBytes .item (((unstampedItem.placed trashing 9).written retagged 10).written
        tagsRestored 11) : ℤ) - countedBytes .item unstampedItem
      = deltaOfPinnedUpdate .item (measureImage .item unstampedItem tagsRestored) retagged
        + deltaOfPinnedUpdate .item
          (measureAfter .item (measureImage .item unstampedItem tagsRestored) retagged tagsRestored)
          tagsRestored :=
  ((pinned_deltas_exact (by decide) (.placed .refl (by decide) 9) ⟨rfl, rfl⟩ 10).2 tagsRestored
    (by decide)).2 _ 11 .refl ⟨rfl, rfl⟩

end HVault
