import HVault.Folders.Depth

/-!
# Folder requests served one after another

What each folder request does to the folders when no other request runs beside it, whichever of its
accesses fail, and what it refuses. Only the checks of a new parent refuse for depth or for a loop
(`VaultError.isNesting`), and these are exact.
-/

namespace HVault

open Interleave ParentGraph Function Option Prog Finmap UpdateFolderInput

variable {K α β : Type} {quota : ℤ}

/-! ## Refusals -/

/-- A refusal of a parent: for depth, or for the loop it would close. -/
def VaultError.isNesting : VaultError → Bool
  | .folderTooDeep => true
  | .ownParent => true
  | .circularReference _ => true
  | _ => false

/-- Any access may fail, whether or not it is applied. -/
def databaseFails : Site → VaultError → Bool → Prop := fun _ e _ => ∃ definite, e = .database definite

/-- The programs that never refuse a parent. -/
abbrev Ordinary (p : Req K α) : Prop := p.Raises databaseFails fun e => e.isNesting = false

theorem ordinary_db (l : Site) (f : Store K → α × Store K) : Ordinary (db l f : Req K α) := by
  apply raises_db
  rintro e b ⟨definite, rfl⟩
  rfl

theorem ordinary_read (l : Site) (f : Store K → α) : Ordinary (read l f : Req K α) :=
  ordinary_db l _

theorem ordinary_readTenantRow : Ordinary (readTenantRow : Req K User) := by
  refine (ordinary_read _ _).bind fun found => ?_
  cases found with
  | none => exact raises_raise rfl
  | some u => exact raises_ret u

variable {e : VaultError}

theorem isNesting_judgeVaultKeyVersion {current : ℕ} {supplied : Option ℕ}
    (h : judgeVaultKeyVersion current supplied = .error e) : e.isNesting = false := by
  unfold judgeVaultKeyVersion at h
  repeat' split at h
  all_goals
    cases h
    try rfl

theorem ordinary_assertVaultNotRotating : Ordinary (assertVaultNotRotating : Req K Unit) := by
  refine ordinary_readTenantRow.bind fun u => ?_
  split
  · exact raises_raise rfl
  · exact raises_ret ()

theorem ordinary_assertVaultKeyVersion (supplied : Option ℕ) :
    Ordinary (assertVaultKeyVersion supplied : Req K ℕ) :=
  ordinary_readTenantRow.bind fun _ =>
    raises_ofExcept fun _ h => isNesting_judgeVaultKeyVersion h

theorem ordinary_assertVaultWritable (supplied : Option ℕ) :
    Ordinary (assertVaultWritable supplied : Req K Unit) := by
  refine ordinary_readTenantRow.bind fun u => ?_
  split
  · exact raises_raise rfl
  · exact Prog.Raises.bind (raises_ofExcept fun _ h => isNesting_judgeVaultKeyVersion h)
      fun _ => raises_ret ()

theorem isNesting_refusalOf {want : Reservation} {stored : Counts}
    (h : refusalOf quota want stored = some e) : e.isNesting = false := by
  unfold refusalOf at h
  repeat' split at h
  all_goals
    cases h
    try rfl

theorem isNesting_lastRefusalOf {want : Reservation} {stored : Counts}
    (h : lastRefusalOf want stored = some e) : e.isNesting = false := by
  unfold lastRefusalOf at h
  repeat' split at h
  all_goals
    cases h
    try rfl

theorem ordinary_reserveVaultWrite (want : Reservation) :
    Ordinary (reserveVaultWrite quota want : Req K Reservation) := by
  unfold reserveVaultWrite
  generalize reserveAttemptCount = n
  have hall : ∀ last : Option VaultError, (∀ e, last = some e → e.isNesting = false) →
      Ordinary (reserveAttempts quota want n last : Req K Reservation) := by
    induction n with
    | zero =>
      intro last hlast
      apply raises_raise
      cases last with
      | none => rfl
      | some e => exact hlast e rfl
    | succ n ih =>
      intro last hlast
      refine (ordinary_db _ _).bind fun matched => ?_
      split
      · exact raises_ret want
      · refine (ordinary_read _ _).bind fun stored => ?_
        cases stored with
        | none => exact raises_raise rfl
        | some counters =>
          dsimp only
          cases installed? counters with
          | none =>
            refine Prog.Raises.bind ?_ fun _ => ih last hlast
            refine Prog.Raises.bind ?_ fun _ => (ordinary_db _ _).bind fun _ => raises_ret ()
            exact (ordinary_read _ _).bind fun _ => (ordinary_read _ _).bind fun _ =>
              raises_ret _
          | some stored =>
            dsimp only
            cases hrefusal : refusalOf quota want stored with
            | some refusal => exact raises_raise (isNesting_refusalOf hrefusal)
            | none => exact ih _ fun e he => isNesting_lastRefusalOf he
  exact hall none nofun

variable (reservation : Reservation)

theorem ordinary_settleVaultWrite (actual : Counts) :
    Ordinary (settleVaultWrite reservation actual : Req K Unit) :=
  (raises_attempt _).bind fun _ => raises_ret ()

/-- A release after a failure ends with an error, the one it is given where nothing else fails. -/
theorem leaves_releaseOnDefiniteFailure (he : e.isNesting = false) :
    (releaseOnDefiniteFailure reservation e : Req K α).Leaves databaseFails fun r =>
      ∃ e, r = .error e ∧ e.isNesting = false := by
  unfold releaseOnDefiniteFailure
  split
  · exact Prog.Leaves.bind (ordinary_settleVaultWrite reservation _) (fun _ _ => ⟨e, rfl, he⟩)
      fun e' h => ⟨e', rfl, h e' rfl⟩
  · exact ⟨e, rfl, he⟩

theorem ordinary_releaseOnDefiniteFailure (he : e.isNesting = false) :
    Ordinary (releaseOnDefiniteFailure reservation e : Req K α) := by
  apply (leaves_releaseOnDefiniteFailure reservation he).mono
  rintro r ⟨e, rfl, he⟩ e' h
  cases h
  exact he

theorem ordinary_updateCountedRow (key : RowKey) (update : CountedUpdate K)
    {beforeWrite : Req K Unit} (hbefore : Ordinary beforeWrite) :
    Ordinary (updateCountedRow quota key update beforeWrite) := by
  unfold updateCountedRow
  split
  · generalize pinnedUpdateAttempts = n
    generalize (none : Option RowMeasure) = first
    induction n generalizing first with
    | zero => exact raises_raise rfl
    | succ n ih =>
      refine (ordinary_read _ _).bind fun measured => ?_
      cases measured with
      | none => exact raises_ret none
      | some measure =>
        dsimp only
        split
        · refine hbefore.bind fun _ => (ordinary_reserveVaultWrite _).bind fun reservation => ?_
          refine Prog.Raises.attempt_bind (ordinary_db _ _) (fun after => ?_) fun e he =>
            ordinary_releaseOnDefiniteFailure reservation he
          cases after with
          | none => exact (ordinary_settleVaultWrite _ _).bind fun _ => ih _
          | some row => exact (ordinary_settleVaultWrite _ _).bind fun _ => raises_ret _
        · exact raises_ret none
  · exact ordinary_db _ _

/-! ## What a part of a request does to the folders -/

/-- The result is no refusal of a parent. -/
def Allowed (r : Except VaultError α) : Prop := ∀ e, r = .error e → e.isNesting = false

theorem allowed_ok (a : α) : Allowed (.ok a) := nofun

theorem allowed_database (definite : Bool) :
    Allowed (.error (.database definite) : Except VaultError α) := by
  intro e he
  cases he
  rfl

theorem Allowed.error (h : Allowed (.error e : Except VaultError β)) :
    Allowed (.error e : Except VaultError α) := by
  intro e' he
  cases he
  exact h e rfl

/-- Every folder is stored with its parent, within the depth. -/
abbrev Nested (s : Store K) : Prop := Leveled maxFolderNestingDepth (folderParents s.rows)

section Parts

variable {s : Store K} {id p : ℕ}

/-- An ordinary program whose accesses all keep `P`. -/
theorem ensures_keeps {T : Site → Store K → Store K → Prop} {P : Store K → Prop} {p : Req K α}
    (hp : p.Each (fun _ => True) T) (hordinary : Ordinary p) (hs : P s)
    (hstep : ∀ l s s', P s → T l s s' → P s') :
    p.Ensures databaseFails s fun r s' => Allowed r ∧ P s' :=
  hp.ensures hordinary hs hstep

variable {g : Parents ℕ}

/-- A part that leaves the rows alone. -/
theorem ensures_counting {p : Req K α}
    (hp : p.Each (fun _ => True) fun _ s s' => s'.rows = s.rows) (hordinary : Ordinary p)
    (hs : folderParents s.rows = g) :
    p.Ensures databaseFails s fun r s' => Allowed r ∧ folderParents s'.rows = g := by
  apply ensures_keeps hp hordinary hs
  intro l s s' hg hrows
  rw [hrows, hg]

theorem allowsCounting_rows : AllowsCounting (K := K) fun _ s s' => s'.rows = s.rows :=
  fun _ _ _ h => h

/-- The two guards in front of a request. -/
theorem ensures_guards {q : Req K α} {Q : Except VaultError α → Store K → Prop}
    (supplied : Option ℕ) (hs : folderParents s.rows = g)
    (hq : ∀ s', folderParents s'.rows = g → q.Ensures databaseFails s' Q)
    (herror : ∀ e s', Allowed (.error e : Except VaultError α) → folderParents s'.rows = g →
      Q (.error e) s') :
    (assertVaultNotRotating.bind fun _ => (assertVaultKeyVersion supplied).bind fun _ => q).Ensures
      databaseFails s Q := by
  have hrotating := ensures_counting
    (allowsCounting_rows.readsAt readsAt_assertVaultNotRotating) ordinary_assertVaultNotRotating hs
  refine hrotating.bind (fun _ s' h => ?_) fun e s' h => herror e s' h.1.error h.2
  have hversion := ensures_counting
    (allowsCounting_rows.readsAt (readsAt_assertVaultKeyVersion supplied))
    (ordinary_assertVaultKeyVersion supplied) h.2
  exact hversion.bind (fun _ s' h => hq s' h.2) fun e s' h => herror e s' h.1.error h.2

/-- A read of the folders. -/
theorem ensures_readFolders {l : Site} {f : Store K → α} :
    (read l f : Req K α).Ensures databaseFails s fun r s' =>
      s' = s ∧ Allowed r ∧ ∀ a, r = .ok a → a = f s := by
  apply ensures_read
  · refine ⟨rfl, allowed_ok _, fun a ha => ?_⟩
    cases ha
    rfl
  · rintro e b ⟨definite, rfl⟩
    refine ⟨rfl, fun e he => ?_, nofun⟩
    cases he
    rfl

theorem ensures_assertParentExists (p : ℕ) :
    (assertParentExists p : Req K Unit).Ensures databaseFails s fun r s' =>
      s' = s ∧ Allowed r ∧ (r = .ok () → (folderParents s.rows p).isSome) := by
  refine ensures_readFolders.bind ?_ ?_
  · rintro parentExists s' ⟨rfl, -, hread⟩
    split
    · rename_i hexists
      refine ensures_ret ⟨rfl, allowed_ok _, fun _ => ?_⟩
      have hmem : (⟨.folder, p⟩ : RowKey) ∈ s'.rows := by
        rw [hread parentExists rfl] at hexists
        simpa using hexists
      rwa [folderParents, isSome_map, lookup_isSome]
    · refine ensures_raise ⟨rfl, fun e he => ?_, by simp⟩
      cases he
      rfl
  · rintro e s' ⟨rfl, hallowed, -⟩
    exact ⟨rfl, hallowed.error, by simp⟩

/-! ## Creating -/

/-- The rows a folder request would leave are a forest within the depth. -/
abbrev Fits (s : Store K) (id : ℕ) (parentId : Option ℕ) : Prop :=
  ForestWithin maxFolderNestingDepth (Function.update (folderParents s.rows) id (some parentId))

/-- **The depth check of a create is exact.** -/
theorem ensures_validateFolderDepth (id : ℕ) (hs : Nested s) (hp : (folderParents s.rows p).isSome) :
    (validateFolderDepth p : Req K Unit).Ensures databaseFails s fun r s' =>
      s' = s ∧ (Fits s id (some p) → Allowed r) ∧
        (r = .ok () → ∃ d < maxFolderNestingDepth, Level (folderParents s.rows) p d) := by
  obtain ⟨d, hd, hlevel⟩ := hs p hp
  refine ensures_readFolders.bind ?_ ?_
  · rintro chain s' ⟨rfl, -, hread⟩
    have hchain : chain.2 = d := by
      rw [hread chain rfl]
      exact (getAncestorChain_of_level hlevel hd).1
    split
    · rename_i hdeep
      refine ensures_raise ⟨rfl, fun hfits => ?_, nofun⟩
      have := (hfits.of_move hs.acyclic hlevel).2 id 0 (.refl id)
      omega
    · rename_i hroom
      exact ensures_ret ⟨rfl, fun _ => allowed_ok _, fun _ => ⟨d, by omega, hlevel⟩⟩
  · rintro e s' ⟨rfl, hallowed, -⟩
    exact ⟨rfl, fun _ => hallowed.error, nofun⟩

/-- The checks of the parent a create names. -/
theorem ensures_checkParent (id : ℕ) (hs : Nested s) (parentId : Option ℕ) :
    (whenNamed parentId fun parentId => (assertParentExists parentId).bind fun _ =>
      validateFolderDepth parentId : Req K Unit).Ensures databaseFails s fun r s' =>
        s' = s ∧ (Fits s id parentId → Allowed r) ∧ (r = .ok () → ∀ p, parentId = some p →
          ∃ d < maxFolderNestingDepth, Level (folderParents s.rows) p d) := by
  cases parentId with
  | none => exact ensures_ret ⟨rfl, fun _ => allowed_ok _, nofun⟩
  | some p =>
    refine (ensures_assertParentExists p).bind ?_ ?_
    · rintro _ s' ⟨rfl, -, hstored⟩
      refine (ensures_validateFolderDepth id hs (hstored rfl)).mono ?_
      rintro r s'' ⟨rfl, hallowed, hlevel⟩
      refine ⟨rfl, hallowed, fun hr q hq => ?_⟩
      cases hq
      exact hlevel hr
    · rintro e s' ⟨rfl, hallowed, -⟩
      exact ⟨rfl, fun _ => hallowed, nofun⟩

/-- What an insert of a folder does: nothing, or it adds the row; the row it answers with is there. -/
def Inserted (g : Parents ℕ) (id : ℕ) (parentId : Option ℕ) (r : Except VaultError (Row K))
    (s' : Store K) : Prop :=
  Allowed r ∧ (folderParents s'.rows = g ∧ (∀ row, r ≠ .ok row) ∨
    g id = none ∧ folderParents s'.rows = Function.update g id (some parentId))

variable {parentId : Option ℕ}

theorem Inserted.same {s' : Store K} (he : e.isNesting = false) (h : folderParents s'.rows = g) :
    Inserted g id parentId (.error e : Except VaultError (Row K)) s' := by
  refine ⟨fun e' he' => ?_, .inl ⟨h, nofun⟩⟩
  cases he'
  exact he

/-- The insert statement itself, answered or not. -/
theorem folderParents_insertRow (body : CreateFolderInput K) (userId : ℕ) :
    let done := s.insertRow ⟨.folder, body.rowId⟩ (body.folderData userId) body.sealedUnder
    (done.1 = none ∧ folderParents done.2.rows = folderParents s.rows) ∨
      folderParents s.rows body.rowId = none ∧ folderParents done.2.rows =
        update (folderParents s.rows) body.rowId (some body.parentId) := by
  rcases s.insertRow_cases ⟨.folder, body.rowId⟩ (body.folderData userId) body.sealedUnder with
    ⟨heq, -⟩ | ⟨hfree, heq⟩
  · rw [heq]
    exact .inl ⟨rfl, rfl⟩
  · rw [heq]
    refine .inr ⟨?_, folderParents_insert s.rows body.rowId _⟩
    rw [folderParents, lookup_eq_none.2 hfree]
    rfl

theorem ensures_insertFolder (userId : ℕ) (body : CreateFolderInput K)
    (hs : folderParents s.rows = g) :
    (insertFolder quota userId body).Ensures databaseFails s
      (Inserted g body.rowId body.parentId) := by
  have hcreated : (createCountedRow quota ⟨.folder, body.rowId⟩ (body.folderData userId)
      body.sealedUnder).Ensures databaseFails s (Inserted g body.rowId body.parentId) := by
    refine (ensures_counting (allowsCounting_rows.reserve _) (ordinary_reserveVaultWrite _)
      hs).bind ?_ fun e s' h => .same (h.1 e rfl) h.2
    rintro reservation s ⟨-, hs⟩
    have hinsert := folderParents_insertRow (s := s) body userId
    rw [hs] at hinsert
    -- the row is there or not, whether or not the answer came through
    have hdb : (db .insertRow fun s : Store K => s.insertRow ⟨.folder, body.rowId⟩
        (body.folderData userId) body.sealedUnder).Ensures databaseFails s fun r s' =>
        Allowed r ∧ (folderParents s'.rows = g ∧ (∀ row, r ≠ .ok (some row)) ∨
          g body.rowId = none ∧
            folderParents s'.rows = update g body.rowId (some body.parentId)) := by
      apply ensures_db
      · refine ⟨allowed_ok _, hinsert.imp_left fun h => ⟨h.2, fun row hrow => ?_⟩⟩
        cases h.1.symm.trans (Except.ok.inj hrow)
      · rintro e b ⟨definite, rfl⟩
        exact ⟨allowed_database _, .inl ⟨hs, nofun⟩⟩
      · rintro e b ⟨definite, rfl⟩
        exact ⟨allowed_database _, hinsert.imp_left fun h => ⟨h.2, nofun⟩⟩
    refine hdb.attempt_bind ?_
    rintro created s' ⟨hallowed, hrows⟩
    have hfail : ∀ e : VaultError, e.isNesting = false → (∀ row, created ≠ .ok (some row)) →
        (releaseOnDefiniteFailure reservation e : Req K (Row K)).Ensures databaseFails s'
          (Inserted g body.rowId body.parentId) := by
      intro e he hnone
      refine ((allowsCounting_rows.releaseOnFailure reservation e).ensures
        (leaves_releaseOnDefiniteFailure reservation he) (P := fun s => folderParents s.rows =
          folderParents s'.rows) rfl fun _ _ _ hP hT => by rw [hT, hP]).mono ?_
      rintro r s'' ⟨⟨e', rfl, he'⟩, hs''⟩
      refine ⟨fun e h => by cases h; exact he', ?_⟩
      rw [hs'']
      exact hrows.imp_left fun h => ⟨h.1, nofun⟩
    rcases created with e | (_ | row)
    · exact hfail e (hallowed e rfl) nofun
    · exact hfail .duplicateId rfl nofun
    · have hthere := hrows.resolve_left fun h => h.2 row rfl
      refine (ensures_counting (allowsCounting_rows.settle _ _) (ordinary_settleVaultWrite _ _)
        hthere.2).bind ?_ fun e s'' h => ⟨h.1.error, .inr ⟨hthere.1, h.2⟩⟩
      rintro _ s'' ⟨-, hs''⟩
      exact ensures_ret ⟨allowed_ok _, .inr ⟨hthere.1, hs''⟩⟩
  refine hcreated.attempt_bind ?_
  rintro (e | row) s' ⟨hallowed, hrows⟩
  · refine ensures_raise ⟨fun e' he' => ?_, hrows.imp_left fun h => ⟨h.1, nofun⟩⟩
    cases he'
    split
    · rfl
    · exact hallowed e rfl
  · exact ensures_ret ⟨allowed_ok _, hrows⟩

theorem ordinary_confirmCreatedRow (key : RowKey) (row : Row K) (supplied : Option ℕ) :
    Ordinary (confirmCreatedRow quota key row supplied : Req K Unit) := by
  refine Prog.Raises.attempt_bind (ordinary_assertVaultWritable supplied)
    (fun _ => raises_ret ()) fun refusal hrefusal => ?_
  exact (raises_attempt _).bind fun _ => raises_raise hrefusal

/-- The row of a create is there and no folder names it, so taking it back leaves the others. -/
theorem ensures_confirmCreatedRow (hs : Nested s) (hfree : ∀ x, ¬ Names (folderParents s.rows) x id)
    (row : Row K) (supplied : Option ℕ) :
    (confirmCreatedRow quota ⟨.folder, id⟩ row supplied).Ensures databaseFails s fun r s' =>
      Allowed r ∧ Nested s' := by
  have hcounting : AllowsCounting (K := K) fun _ s s' => folderParents s'.rows = folderParents s.rows ∨
      folderParents s'.rows = update (folderParents s.rows) id none :=
    fun _ _ _ h => .inl (by rw [h])
  have hdelete : ∀ filter (s : Store K),
      folderParents (s.deleteRow ⟨.folder, id⟩ filter).2.rows = folderParents s.rows ∨
        folderParents (s.deleteRow ⟨.folder, id⟩ filter).2.rows =
          update (folderParents s.rows) id none := by
    intro filter s
    rcases s.deleteRow_cases ⟨.folder, id⟩ filter with ⟨heq, -⟩ | ⟨row, -, -, heq⟩
    · rw [heq]
      exact .inl rfl
    · rw [heq]
      exact .inr (folderParents_erase s.rows id)
  have heach : (confirmCreatedRow quota ⟨.folder, id⟩ row supplied).Each (fun _ => True)
      fun _ s s' => folderParents s'.rows = folderParents s.rows ∨
        folderParents s'.rows = update (folderParents s.rows) id none := by
    refine Prog.Each.orElse (hcounting.readsAt (readsAt_assertVaultWritable _)) fun refusal => ?_
    exact Prog.Each.bind (Prog.Each.attempt (hcounting.withdraw hdelete _)) fun _ => trivial
  refine (ensures_keeps heach (ordinary_confirmCreatedRow _ _ _)
    (P := fun s => Nested s ∧ ∀ x, ¬ Names (folderParents s.rows) x id) ⟨hs, hfree⟩ ?_).mono
      fun r s' h => ⟨h.1, h.2.1⟩
  rintro l s s' ⟨hs, hfree⟩ (h | h)
  · simp only [Nested, h]
    exact ⟨hs, hfree⟩
  · simp only [Nested, h]
    refine ⟨hs.erase hfree, fun x hx => ?_⟩
    unfold Names at hx
    by_cases hxid : x = id
    · simp [hxid] at hx
    · rw [update_of_ne hxid] at hx
      exact hfree x hx

/-- **A create** keeps the folders within the depth, and is refused for none that would be. -/
theorem ensures_createFolder (hs : Nested s) (userId : ℕ) (body : CreateFolderInput K) :
    (createFolder quota userId body).Ensures databaseFails s fun r s' =>
      Nested s' ∧ (Fits s body.rowId body.parentId → Allowed r) := by
  refine ensures_guards body.vaultKeyVersion rfl (fun s₁ hs₁ => ?_)
    fun e s' h hs' => ⟨by rwa [Nested, hs'], fun _ => h⟩
  have hs : Nested s₁ := by rwa [Nested, hs₁]
  simp only [Fits, ← hs₁]
  refine (ensures_checkParent body.rowId hs body.parentId).bind ?_ ?_
  swap
  · rintro e s' ⟨rfl, hallowed, -⟩
    exact ⟨hs, fun hfits => (hallowed hfits).error⟩
  rintro _ s' ⟨rfl, -, hparent⟩
  refine (ensures_insertFolder userId body rfl).bind ?_ ?_
  · rintro folder s₂ ⟨-, hrows⟩
    obtain ⟨hnew, hs₂⟩ := hrows.resolve_left fun h => h.2 folder rfl
    have hnested : Nested s₂ := by
      rw [Nested, hs₂]
      exact hs.insert hnew (hparent rfl) (by decide)
    have hfree : ∀ x, ¬ Names (folderParents s₂.rows) x body.rowId := by
      -- the id was free, so neither an older folder nor the new one names it
      intro x hx
      rw [hs₂] at hx
      unfold Names at hx
      by_cases hxid : x = body.rowId
      · rw [hxid, update_self] at hx
        obtain ⟨d, -, hlevel⟩ := hparent rfl body.rowId (some.inj hx)
        have hstored := hlevel.isSome
        simp [hnew] at hstored
      · rw [update_of_ne hxid] at hx
        have hstored := hs.isSome_of_names hx
        simp [hnew] at hstored
    refine (ensures_confirmCreatedRow hnested hfree folder _).bind ?_ ?_
    · rintro _ s₃ ⟨-, hs₃⟩
      exact ensures_ret ⟨hs₃, fun _ => allowed_ok _⟩
    · rintro e s₃ ⟨hallowed, hs₃⟩
      exact ⟨hs₃, fun _ => hallowed.error⟩
  · rintro e s₂ ⟨hallowed, hrows⟩
    refine ⟨?_, fun _ => hallowed.error⟩
    rcases hrows with ⟨h, -⟩ | ⟨hnew, h⟩
    · rwa [Nested, h]
    · rw [Nested, h]
      exact hs.insert hnew (hparent rfl) (by decide)

/-! ## Moving -/

/-- **The checks of a re-parent are exact.** -/
theorem ensures_checkReparent (hs : Nested s) (id p : ℕ) :
    (checkReparent id p : Req K Unit).Ensures databaseFails s fun r s' =>
      s' = s ∧ (Fits s id (some p) → Allowed r) ∧
        (r = .ok () → ((folderParents s.rows id).isSome →
          Leveled maxFolderNestingDepth
            (update (folderParents s.rows) id (some (some p))))) := by
  unfold checkReparent
  split
  · rename_i hself
    subst hself
    refine ensures_raise ⟨rfl, fun hfits => ?_, nofun⟩
    -- a folder that names itself is on a loop
    have hloop : Names (update (folderParents s.rows) p (some (some p))) p p :=
      update_self ..
    exact (hfits.1 p (looped_of_names hloop .refl)).elim
  rename_i hne
  refine (ensures_assertParentExists p).bind ?_ ?_
  swap
  · rintro e s' ⟨rfl, hallowed, -⟩
    exact ⟨rfl, fun _ => hallowed, nofun⟩
  rintro _ s' ⟨rfl, -, hstored⟩
  obtain ⟨d, hd, hlevel⟩ := hs p (hstored rfl)
  obtain ⟨hdepth, hancestors⟩ := getAncestorChain_of_level hlevel hd
  refine ensures_readFolders.bind ?_ ?_
  swap
  · rintro e s'' ⟨rfl, hallowed, -⟩
    exact ⟨rfl, fun _ => hallowed.error, nofun⟩
  rintro chain s'' ⟨rfl, -, hchain⟩
  refine ensures_readFolders.bind ?_ ?_
  swap
  · rintro e s' ⟨rfl, hallowed, -⟩
    exact ⟨rfl, fun _ => hallowed.error, nofun⟩
  rintro subtreeHeight s' ⟨rfl, -, hheight⟩
  cases hchain chain rfl
  cases hheight subtreeHeight rfl
  rw [hdepth]
  split
  · rename_i hdeep
    refine ensures_raise ⟨rfl, fun hfits => ?_, nofun⟩
    -- the deepest folder of the subtree would come to lie too deep
    obtain ⟨x, hx⟩ := exists_below_getSubtreeHeight s'.rows id
    have := (hfits.of_move hs.acyclic hlevel).2 x _ hx
    omega
  split
  · rename_i hcycle
    refine ensures_raise ⟨rfl, fun hfits => ?_, nofun⟩
    exact ((hfits.of_move hs.acyclic hlevel).1 ((hancestors id (Ne.symm hne)).1 hcycle)).elim
  · rename_i hnotAbove
    refine ensures_ret ⟨rfl, fun _ => allowed_ok _, fun _ hid => ?_⟩
    refine leveled_move hs hlevel (fun h => hnotAbove ((hancestors id (Ne.symm hne)).2 h)) hid ?_
    intro x k hx
    have := below_lt_getSubtreeHeight hs hid hx
    omega

/-- The write of an update gives the folder the parent its body names, or leaves it the old one. -/
def WritesParent (id : ℕ) (parentId : Option ℕ) (s s' : Store K) : Prop :=
  folderParents s'.rows = folderParents s.rows ∨
    ∃ old q, folderParents s.rows id = some old ∧ (q = parentId ∨ parentId = none ∧ q = old) ∧
      folderParents s'.rows = Function.update (folderParents s.rows) id (some q)

theorem parentId_updateOp (body : UpdateFolderInput K) (row : Row K) :
    refOf (body.updateOp.applyFields row.fields .parentId) = body.parentId ∨
      body.parentId = none ∧
        refOf (body.updateOp.applyFields row.fields .parentId) = row.parentId := by
  have hclear : body.clearsParent = true → body.parentId = none := by
    intro h
    unfold clearsParent at h
    unfold parentId
    split at h
    · rename_i hnull
      rw [hnull]
      rfl
    · cases h
  have hallowed : pickAllowedFields body.fields allowedFolderFields .parentId =
      body.fields .parentId := rfl
  cases hclears : body.clearsParent with
  | true =>
    left
    rw [hclear hclears]
    simp [CountedUpdate.applyFields, updateOp, hclears, refOf]
  | false =>
    cases hfield : body.fields .parentId with
    | some value =>
      left
      simp [CountedUpdate.applyFields, updateOp, hclears, hallowed, hfield,
        parentId]
    | none =>
      right
      simp [CountedUpdate.applyFields, updateOp, hclears, hallowed, hfield,
        parentId, Row.parentId, refOf]

theorem writesParent_updateRow (body : UpdateFolderInput K) {write : ℕ → Row K → Row K}
    (hwrite : ∀ now row, (write now row).fields = body.updateOp.applyFields row.fields)
    (filter : Row K → Bool) (s : Store K) :
    WritesParent id body.parentId s (s.updateRow ⟨.folder, id⟩ filter write).2 := by
  rcases s.updateRow_cases ⟨.folder, id⟩ filter write with ⟨heq, -⟩ | ⟨row, hrow, -, heq⟩
  · rw [heq]
    exact .inl rfl
  · rw [heq]
    refine .inr ⟨row.parentId, (write s.clock row).parentId, ?_, ?_, folderParents_insert ..⟩
    · rw [folderParents, hrow]
      rfl
    · rw [Row.parentId, hwrite]
      exact parentId_updateOp body row

/-- The write of an update whose parent passed the checks. -/
theorem ensures_writeFolder (hs : Nested s) (body : UpdateFolderInput K)
    (hparent : ∀ p, body.parentId = some p → (folderParents s.rows id).isSome →
      Leveled maxFolderNestingDepth (update (folderParents s.rows) id (some (some p)))) :
    (updateCountedRow quota ⟨.folder, id⟩ body.updateOp
      (assertVaultWritable body.vaultKeyVersion)).Ensures databaseFails s fun r s' =>
        Allowed r ∧ Nested s' := by
  have hcounting : AllowsCounting (K := K) fun _ => WritesParent id body.parentId :=
    fun _ _ _ h => .inl (by rw [h])
  have heach := @AllowsCounting.update _ _ quota hcounting ⟨.folder, id⟩ body.updateOp _
    (readsAt_assertVaultWritable body.vaultKeyVersion)
    (fun _ filter s => writesParent_updateRow body (fun _ _ => rfl) filter s)
    fun _ filter s => writesParent_updateRow body (fun _ _ => rfl) filter s
  -- what the checks say of the parent still holds after the write
  refine (ensures_keeps heach (ordinary_updateCountedRow _ _ (ordinary_assertVaultWritable _))
    (P := fun s => Nested s ∧ ∀ p, body.parentId = some p → (folderParents s.rows id).isSome →
      Leveled maxFolderNestingDepth (update (folderParents s.rows) id (some (some p))))
    ⟨hs, hparent⟩ ?_).mono fun r s' h => ⟨h.1, h.2.1⟩
  rintro l s s' ⟨hs, hparent⟩ (h | ⟨old, q, hold, hq, h⟩)
  · rw [Nested, h]
    exact ⟨hs, hparent⟩
  · have hstored : (folderParents s.rows id).isSome := by simp [hold]
    rw [Nested, h]
    refine ⟨?_, fun p hp _ => ?_⟩
    · rcases hq with rfl | ⟨-, rfl⟩
      · cases hbody : body.parentId with
        | some p => exact hparent p hbody hstored
        | none =>
          refine hs.lift (fun a q ha => ?_) fun a ha => ?_
          · by_cases haid : a = id
            · simp [haid]
            · simp [haid, ha]
          · by_cases haid : a = id
            · rwa [haid]
            · rwa [update_of_ne haid] at ha
      · rwa [← hold, update_eq_self]
    · rw [update_idem]
      exact hparent p hp hstored

theorem hasCycle_of_acyclic {rows : Table K} (h : Acyclic (folderParents rows)) (id : ℕ) :
    hasCycle (folderParents rows) id = false := by
  rw [hasCycle, decide_eq_false_iff_not, getAncestorChain]
  cases hid : folderParents rows id with
  | none => simp
  | some parent =>
    intro hmem
    rcases mem_graphLookup hmem with hmem | ⟨a, rfl, hreach⟩
    · simp at hmem
    · exact h id (looped_of_names hid hreach)

/-- On a forest the second look finds nothing. -/
theorem ensures_checkCommittedParent (hs : Nested s) (id : ℕ) :
    (checkCommittedParent id : Req K Unit).Ensures databaseFails s fun r s' =>
      Allowed r ∧ Nested s' := by
  refine ensures_readFolders.bind ?_ ?_
  · rintro cyclic s' ⟨rfl, -, hcyclic⟩
    cases hcyclic cyclic rfl
    rw [hasCycle_of_acyclic hs.acyclic]
    exact ensures_ret ⟨allowed_ok _, hs⟩
  · rintro e s' ⟨rfl, hallowed, -⟩
    exact ⟨hallowed.error, hs⟩

/-- **An update** keeps the folders within the depth, and its parent is refused only where they
would not be. -/
theorem ensures_updateFolder (hs : Nested s) (id : ℕ) (body : UpdateFolderInput K) :
    (updateFolder quota id body).Ensures databaseFails s fun r s' =>
      Nested s' ∧ ((∀ p, body.parentId = some p → Fits s id (some p)) → Allowed r) := by
  refine ensures_guards body.vaultKeyVersion rfl (fun s₁ hs₁ => ?_)
    fun e s' h hs' => ⟨by rwa [Nested, hs'], fun _ => h⟩
  have hs : Nested s₁ := by rwa [Nested, hs₁]
  simp only [Fits, ← hs₁]
  have hchecks : (whenNamed body.parentId (checkReparent id) : Req K Unit).Ensures databaseFails s₁
      fun r s' => s' = s₁ ∧ ((∀ p, body.parentId = some p → Fits s₁ id (some p)) → Allowed r) ∧
        (r = .ok () → ∀ p, body.parentId = some p → (folderParents s₁.rows id).isSome →
          Leveled maxFolderNestingDepth
            (update (folderParents s₁.rows) id (some (some p)))) := by
    cases body.parentId with
    | none => exact ensures_ret ⟨rfl, fun _ => allowed_ok _, nofun⟩
    | some p =>
      refine (ensures_checkReparent hs id p).mono ?_
      rintro r s' ⟨rfl, hallowed, hmoved⟩
      refine ⟨rfl, fun hfits => hallowed (hfits p rfl), fun hr q hq => ?_⟩
      cases hq
      exact hmoved hr
  refine hchecks.bind ?_ ?_
  swap
  · rintro e s' ⟨rfl, hallowed, -⟩
    exact ⟨hs, fun hfits => (hallowed hfits).error⟩
  rintro _ s' ⟨rfl, -, hparent⟩
  refine (ensures_writeFolder hs body (hparent rfl)).bind ?_ ?_
  swap
  · rintro e s₂ ⟨hallowed, hs₂⟩
    exact ⟨hs₂, fun _ => hallowed.error⟩
  rintro updated s₂ ⟨-, hs₂⟩
  cases updated with
  | none =>
    refine ensures_raise ⟨hs₂, fun _ e he => ?_⟩
    cases he
    rfl
  | some folder =>
    have hlook : (whenNamed body.parentId fun _ => checkCommittedParent id : Req K Unit).Ensures
        databaseFails s₂ fun r s' => Allowed r ∧ Nested s' := by
      cases body.parentId with
      | none => exact ensures_ret ⟨allowed_ok _, hs₂⟩
      | some p => exact ensures_checkCommittedParent hs₂ id
    refine hlook.bind ?_ fun e s₃ h => ⟨h.2, fun _ => h.1.error⟩
    rintro _ s₃ ⟨-, hs₃⟩
    exact ensures_ret ⟨hs₃, fun _ => allowed_ok _⟩

/-! ## Deleting -/

theorem folderParents_updateRows {filter : RowKey → Row K → Bool} {update : ℕ → Row K → Row K}
    (hfilter : ∀ x row, filter ⟨.folder, x⟩ row = false) (s : Store K) :
    folderParents (s.updateRows filter update).rows = folderParents s.rows := by
  funext x
  simp [folderParents, Store.updateRows, lookup_mapVal, hfilter]

theorem folderParents_rehomeItems (id : ℕ) (parentId : Option ℕ) (action : FolderRemovalAction)
    (s : Store K) : folderParents (rehomeItems id parentId action s).rows = folderParents s.rows := by
  cases action with
  | delete | move => exact folderParents_updateRows (fun _ _ => rfl) s

theorem folderParents_rehomeFolders (id : ℕ) (parentId : Option ℕ) (s : Store K) (x : ℕ) :
    folderParents (rehomeFolders id parentId s).rows x =
      (folderParents s.rows x).map fun q => if q = some id then parentId else q := by
  simp only [folderParents, rehomeFolders, Store.updateRows, lookup_mapVal, map_map]
  congr 1
  funext row
  by_cases hchild : row.parentId = some id
  · simp [hchild, parentId_setOrUnset]
  · simp [hchild]

/-- The children of a folder move up to its parent; nothing is left below it. -/
theorem nested_rehomeFolders (hs : Nested s) (hid : folderParents s.rows id = some parentId) :
    Nested (rehomeFolders id parentId s) ∧
      ∀ x, ¬ Names (folderParents (rehomeFolders id parentId s).rows) x id := by
  have hself : parentId ≠ some id := by
    intro h
    rw [h] at hid
    exact hs.acyclic id (looped_of_names hid .refl)
  have hmoved := folderParents_rehomeFolders id parentId s
  refine ⟨hs.lift (fun a q ha => ?_) (fun a ha => ?_), fun x hx => ?_⟩
  · by_cases hq : q = some id
    · -- a child names what the folder itself names
      refine .inr (.inr ⟨id, hq, ?_⟩)
      simp [hmoved, ha, hid, hq, hself]
    · left
      simp [hmoved, ha, hq]
  · simpa [hmoved] using ha
  · unfold Names at hx
    rw [hmoved, map_eq_some_iff] at hx
    obtain ⟨q, -, hq⟩ := hx
    split at hq
    · exact hself hq
    · contradiction

/-- The removal of a folder nothing is below. -/
theorem nested_deleteRow (hs : Nested s) (hfree : ∀ x, ¬ Names (folderParents s.rows) x id)
    (filter : Row K → Bool) : Nested (s.deleteRow ⟨.folder, id⟩ filter).2 := by
  rcases s.deleteRow_cases ⟨.folder, id⟩ filter with ⟨heq, -⟩ | ⟨row, -, -, heq⟩
  · rwa [heq]
  · rw [heq, Nested, folderParents_erase]
    exact hs.erase hfree

/-- One access whose every outcome keeps the folders within the depth. -/
theorem ensures_db_nested {l : Site} {f : Store K → α × Store K} {P : Store K → Prop}
    (hs : Nested s) (hf : Nested (f s).2 ∧ P (f s).2) :
    (db l f : Req K α).Ensures databaseFails s fun r s' =>
      Nested s' ∧ ((∃ a, r = .ok a) → P s') := by
  apply ensures_db
  · exact ⟨hf.1, fun _ => hf.2⟩
  · exact fun e b _ => ⟨hs, nofun⟩
  · exact fun e b _ => ⟨hf.1, nofun⟩

/-- What a delete does once it has reserved, with or without transactions. -/
theorem ensures_removeRehomed (hs : Nested s) (transactions : Bool)
    (hid : folderParents s.rows id = some parentId) (action : FolderRemovalAction) :
    (removeRehomed transactions id parentId action).Ensures databaseFails s fun _ s' =>
      Nested s' := by
  have hitems : ∀ s : Store K, Nested s → Nested (rehomeItems id parentId action s) := by
    intro s hs
    rwa [Nested, folderParents_rehomeItems]
  cases transactions with
  | true =>
    have hid' : folderParents (rehomeItems id parentId action s).rows id = some parentId := by
      rw [folderParents_rehomeItems, hid]
    obtain ⟨hmoved, hfree⟩ := nested_rehomeFolders (hitems s hs) hid'
    have hdone := nested_deleteRow hmoved hfree fun _ => true
    exact (ensures_db_nested (P := fun _ => True) hs ⟨hdone, trivial⟩).mono fun r s' h => h.1
  | false =>
    refine Prog.Ensures.bind (M := fun r s' => Nested s' ∧ ((∃ a, r = .ok a) →
      ∀ x, ¬ Names (folderParents s'.rows) x id)) ?_ ?_ fun e s' h => h.1
    · have hfirst := ensures_db_nested (l := .rehomeItems)
        (f := fun s => ((), rehomeItems id parentId action s))
        (P := fun s' => folderParents s'.rows = folderParents s.rows) hs
        ⟨hitems s hs, folderParents_rehomeItems id parentId action s⟩
      refine hfirst.bind ?_ fun e s' h => ⟨h.1, nofun⟩
      rintro _ s₁ ⟨hs₁, hsame⟩
      have hid₁ : folderParents s₁.rows id = some parentId := by rw [hsame ⟨_, rfl⟩, hid]
      exact ensures_db_nested hs₁ (nested_rehomeFolders hs₁ hid₁)
    · rintro _ s₂ ⟨hs₂, hfree⟩
      have hdone := nested_deleteRow hs₂ (hfree ⟨_, rfl⟩) fun _ => true
      exact (ensures_db_nested (P := fun _ => True) hs₂ ⟨hdone, trivial⟩).mono fun r s' h => h.1

theorem ensures_sweepOrphanedFolderReferences (hs : Nested s) (id : ℕ) :
    (sweepOrphanedFolderReferences id : Req K Unit).Ensures databaseFails s fun _ s' =>
      Nested s' := by
  have heach : (sweepOrphanedFolderReferences id : Req K Unit).Each (fun _ => True)
      fun _ s s' => folderParents s'.rows = folderParents s.rows :=
    Prog.Each.bind (Prog.Each.attempt (each_db fun s _ =>
      folderParents_updateRows (fun _ _ => rfl) s)) fun _ => trivial
  refine (heach.ensures (leaves_true _) hs fun l s s' h hsame => ?_).mono
    fun r s' h => h.2
  rwa [Nested, hsame]

/-- **A delete** keeps the folders within the depth. -/
theorem ensures_deleteFolder (hs : Nested s) (transactions : Bool) (id : ℕ)
    (action : FolderRemovalAction) :
    (deleteFolder quota transactions id action).Ensures databaseFails s fun _ s' => Nested s' := by
  refine ensures_readFolders.bind ?_ fun e s' h => by rwa [h.1]
  rintro found s' ⟨rfl, -, hread⟩
  cases found with
  | none => exact ensures_raise hs
  | some folder =>
    have hid : folderParents s'.rows id = some folder.parentId := by
      rw [folderParents, ← hread _ rfl]
      rfl
    refine (ensures_counting (allowsCounting_rows.reserve _) (ordinary_reserveVaultWrite _)
      rfl).bind ?_ fun e s₁ h => by rwa [Nested, h.2]
    rintro reservation s₁ ⟨-, hs₁⟩
    refine (ensures_removeRehomed (by rwa [Nested, hs₁]) transactions (by rw [hs₁, hid])
      action).bind ?_ fun e s₂ h => h
    intro gone s₂ hs₂
    refine (ensures_counting (allowsCounting_rows.settle _ _) (ordinary_settleVaultWrite _ _)
      rfl).bind ?_ fun e s₃ h => by rwa [Nested, h.2]
    rintro _ s₃ ⟨-, hs₃⟩
    refine (ensures_sweepOrphanedFolderReferences (by rwa [Nested, hs₃]) id).bind ?_ fun e s h => h
    exact fun _ s₄ hs₄ => ensures_ret hs₄

end Parts

/-! ## Runs -/

/-- The requests of the folder routes themselves: the removal an import makes is none. -/
def FolderRequest.Handled : FolderRequest K → Prop
  | .removeIfUnchanged _ _ => False
  | _ => True

/-- One step of an account whose folder requests are served one after another: a request from its
start to its end, whichever accesses fail, or anything else that leaves the folders where they are. -/
inductive Serves (quota : ℤ) (transactions : Bool) : Store K → Store K → Prop
  | request {request : FolderRequest K} {s s' : Store K} {r : Except VaultError (FolderAnswer K)}
      (hhandled : request.Handled)
      (hrun : Prog.Solo databaseFails (request.prog quota transactions) s r s') :
      Serves quota transactions s s'
  | other {s s' : Store K} (h : folderParents s'.rows = folderParents s.rows) :
      Serves quota transactions s s'

/-- What an account comes to. -/
abbrev OneByOne (quota : ℤ) (transactions : Bool) : Store K → Store K → Prop :=
  Relation.ReflTransGen (Serves quota transactions)

section Runs

variable {transactions : Bool} {s₀ s s' : Store K}

/-- Every step keeps the folders within the depth. -/
theorem Serves.nested (h : Serves quota transactions s s') (hs : Nested s) : Nested s' := by
  cases h with
  | @request request _ _ r hhandled hrun =>
    cases request with
    | create userId body => exact (ensures_createFolder hs userId body r s' hrun).1
    | update id body => exact (ensures_updateFolder hs id body r s' hrun).1
    | delete id action => exact ensures_deleteFolder hs transactions id action r s' hrun
    | removeIfUnchanged id readPin => exact hhandled.elim
  | other h => rwa [Nested, h]

theorem OneByOne.nested (h : OneByOne quota transactions s₀ s) (hempty : s₀.rows = ∅) :
    Nested s := by
  induction h with
  | refl =>
    intro id hid
    simp [folderParents, hempty] at hid
  | tail _ hstep ih => exact hstep.nested ih

/-- **The folder tree stays within its depth.** On an account that started empty and serves its
folder requests one after another the folders are a forest of at most `maxFolderNestingDepth`
levels. And no create or re-parent is refused for depth, or for a loop, that would have left them
one. -/
theorem folders_within_depth (h : OneByOne quota transactions s₀ s) (hempty : s₀.rows = ∅) :
    ForestWithin maxFolderNestingDepth (folderParents s.rows) ∧
      (∀ id ∈ folderIds s.rows, ∃ n, Level (folderParents s.rows) id n) ∧
      (∀ userId body r s', Prog.Solo databaseFails (createFolder quota userId body) s r s' →
        ForestWithin maxFolderNestingDepth
          (update (folderParents s.rows) body.rowId (some body.parentId)) →
        ∀ e, r = .error e → e.isNesting = false) ∧
      ∀ id body r s', Prog.Solo databaseFails (updateFolder quota id body) s r s' →
        (∀ parentId, body.parentId = some parentId → ForestWithin maxFolderNestingDepth
          (update (folderParents s.rows) id (some (some parentId)))) →
        ∀ e, r = .error e → e.isNesting = false := by
  have hs : Nested s := h.nested hempty
  refine ⟨hs.forestWithin, fun id hid => ?_, ?_, ?_⟩
  · obtain ⟨n, -, hlevel⟩ := hs id (mem_folderIds.1 hid)
    exact ⟨n, hlevel⟩
  · exact fun userId body r s' hrun => (ensures_createFolder hs userId body r s' hrun).2
  · exact fun id body r s' hrun => (ensures_updateFolder hs id body r s' hrun).2

/-- An account with no folder. -/
def emptyAccount : Store Unit :=
  { chainAccount with
    user := chainAccount.user.map fun u => { u with counters := fun _ => some 0 }
    rows := ∅ }

/-- The body of a create. -/
def newFolder (rowId : ℕ) (parentId : Option ℕ) : CreateFolderInput Unit where
  fields f := if f = .parentId then parentId.map .objectId else none
  rowId := rowId
  vaultKeyVersion := some 0
  sealedUnder := ()

/-- The account after folder 1 is created, and folder 2 in it. -/
def twoFolders : Store Unit :=
  ((createFolder 1000 7 (newFolder 2 (some 1))).alone
    ((createFolder 1000 7 (newFolder 1 none)).alone emptyAccount).2).2

theorem oneByOne_twoFolders : OneByOne 1000 true emptyAccount twoFolders := by
  have hserve : ∀ (body : CreateFolderInput Unit) (s : Store Unit),
      Serves 1000 true s ((createFolder 1000 7 body).alone s).2 := fun body s =>
    have hhandled : (FolderRequest.create 7 body).Handled := trivial
    .request hhandled (solo_alone _ s)
  exact .tail (.single (hserve (newFolder 1 none) emptyAccount)) (hserve (newFolder 2 (some 1)) _)

/-- Folder 2 is below folder 1, and moving it there again is not refused. -/
theorem folders_within_depth_sample :
    OneByOne 1000 true emptyAccount twoFolders ∧ folderIds twoFolders.rows = {1, 2} ∧
      ForestWithin maxFolderNestingDepth (folderParents twoFolders.rows) ∧
      ∀ e, ((updateFolder 1000 2 (reparent (some 1))).alone twoFolders).1 = .error e →
        e.isNesting = false := by
  obtain ⟨hforest, -, -, hupdate⟩ := folders_within_depth oneByOne_twoFolders rfl
  refine ⟨oneByOne_twoFolders, by decide, hforest, ?_⟩
  refine hupdate 2 (reparent (some 1)) _ _ (solo_alone _ twoFolders) fun parentId hparent => ?_
  have hid : folderParents twoFolders.rows 2 = some (some parentId) := by
    cases hparent
    decide
  rwa [← hid, update_eq_self]

end Runs

end HVault
