import HVault.Folders.Caps
import HVault.Vault.Laws

/-!
# The folder tree stays a forest

`updateFolder` checks a re-parent before its write and looks for a loop again after it. Between
the two, other requests may close one; but then somebody's second look is still to come. So while
requests are in flight every loop passes a folder in whose update that look is outstanding
(`forestProtocol`), and when none is in flight there is no loop.

The invariant needs the other writers to close no loop of their own. A removal moves the children
of a folder to a parent it read before, and a create stores its row under an id that may have been
used before; neither looks again. `ParentClear` says of such a write that the folder is not above
the parent it moves things to, which is what `updateFolder` checks and what these do not.
-/

namespace HVault

open Interleave ParentGraph List Function Option Prog Config

variable {K ι : Type}

/-! ## What the requests do to the parents -/

/-- A removal that moves children to `parentId`, and a create that stores a row under it, find the
folder neither at nor above that parent. -/
def ParentClear (request : FolderRequest K) (l : Site) (s : Store K) : Prop :=
  match l with
  | .rehomeFolders folderId (some parentId) => ¬ Reaches (folderParents s.rows) parentId folderId
  | .removeFolder folderId (some parentId) => ¬ Reaches (folderParents s.rows) parentId folderId
  | .claimFolder folderId =>
    match request with
    | .removeIfUnchanged _ readPin =>
      ∀ row, s.rows.lookup ⟨.folder, folderId⟩ = some row → readPin row = true →
        ¬ Looped (folderParents s.rows) folderId
    | _ => True
  | .insertRow =>
    match request with
    | .create _ body =>
      ⟨.folder, body.rowId⟩ ∉ s.rows → ∀ parentId, body.parentId = some parentId →
        ¬ Reaches (folderParents s.rows) parentId body.rowId
    | _ => True
  | _ => True

/-- The rows name no parent they did not name before. -/
def Lightens (s s' : Store K) : Prop :=
  ∀ x y, Names (folderParents s'.rows) x y → Names (folderParents s.rows) x y

/-- What an access that looks no second time does to the parents: what it adds leads to one parent
and, where that is clear, comes from below it. -/
def MovesUp (request : FolderRequest K) (l : Site) (s s' : Store K) : Prop :=
  ∃ p, ∀ x y, Names (folderParents s'.rows) x y → Names (folderParents s.rows) x y ∨
    y = p ∧ (ParentClear request l s → ¬ Reaches (folderParents s.rows) p x)

section Laws

variable {request : FolderRequest K} {l : Site} {s s' : Store K}

theorem Lightens.of_rows_eq (h : s'.rows = s.rows) : Lightens s s' := by
  intro x y hxy
  rwa [h] at hxy

theorem Lightens.movesUp (h : Lightens s s') : MovesUp request l s s' :=
  ⟨0, fun x y hxy => .inl (h x y hxy)⟩

theorem movesUp_of_rows_eq (h : s'.rows = s.rows) : MovesUp request l s s' :=
  (Lightens.of_rows_eq h).movesUp

theorem lightens_deleteRow (key : RowKey) (filter : Row K → Bool) (s : Store K) :
    Lightens s (s.deleteRow key filter).2 := by
  rcases s.deleteRow_cases key filter with ⟨heq, -⟩ | ⟨row, -, -, heq⟩
  · rw [heq]
    exact .of_rows_eq rfl
  · rw [heq]
    exact fun x y => names_erase

/-- What a bulk write of rows that are no folders does. -/
theorem lightens_updateRows {filter : RowKey → Row K → Bool} {update : ℕ → Row K → Row K}
    (hfilter : ∀ x row, filter ⟨.folder, x⟩ row = false) (s : Store K) :
    Lightens s (s.updateRows filter update) := by
  intro x y hxy
  obtain ⟨row, hrow, hparent⟩ := names_mapVal hxy
  rw [hfilter x row] at hparent
  exact names_of_lookup hrow hparent

variable (folderId : ℕ) (parentId : Option ℕ)

theorem lightens_rehomeItems (action : FolderRemovalAction) (s : Store K) :
    Lightens s (rehomeItems folderId parentId action s) := by
  cases action with
  | delete | move => exact lightens_updateRows (fun _ _ => rfl) s

theorem parentId_setOrUnset (row : Row K) (parentId : Option ℕ) (now : ℕ) :
    (row.placed (setOrUnset .parentId (parentId.map .objectId)) now).parentId = parentId := by
  cases parentId with
  | none => rfl
  | some p => rfl

/-- After the children of a folder have moved, a folder names what it named before, or it was one
of them and names the parent they moved to. -/
theorem names_rehomeFolders {folderId : ℕ} {parentId : Option ℕ} {x y : ℕ}
    (h : Names (folderParents (rehomeFolders folderId parentId s).rows) x y) :
    Names (folderParents s.rows) x y ∨
      parentId = some y ∧ Names (folderParents s.rows) x folderId := by
  obtain ⟨row, hrow, hparent⟩ := names_mapVal h
  by_cases hchild : row.parentId = some folderId
  · rw [if_pos (by simpa using hchild), parentId_setOrUnset] at hparent
    exact .inr ⟨hparent, names_of_lookup hrow hchild⟩
  · rw [if_neg (by simpa using hchild)] at hparent
    exact .inl (names_of_lookup hrow hparent)

theorem names_rehomedContents {folderId : ℕ} {parentId : Option ℕ} {action : FolderRemovalAction}
    {x y : ℕ} (h : Names (folderParents (rehomedContents folderId parentId action s).rows) x y) :
    Names (folderParents s.rows) x y ∨
      parentId = some y ∧ Names (folderParents s.rows) x folderId := by
  have hitems := lightens_rehomeItems folderId parentId action s
  rcases names_rehomeFolders h with hold | ⟨hy, hchild⟩
  · exact .inl (hitems x y hold)
  · exact .inr ⟨hy, hitems x folderId hchild⟩

/-- Moving children of `folderId` to a parent below which it is not. -/
theorem movesUp_of_children (hclear : ∀ p, parentId = some p → ParentClear request l s →
      ¬ Reaches (folderParents s.rows) p folderId)
    (h : ∀ x y, Names (folderParents s'.rows) x y → Names (folderParents s.rows) x y ∨
      parentId = some y ∧ Names (folderParents s.rows) x folderId) : MovesUp request l s s' := by
  refine ⟨parentId.getD 0, fun x y hxy => (h x y hxy).imp_right fun ⟨hy, hchild⟩ => ?_⟩
  subst hy
  refine ⟨rfl, fun hc hreach => hclear y rfl hc ?_⟩
  exact hreach.tail hchild

/-! ### Every access that is not a checked re-parent -/

variable {quota : ℤ} {α : Type}

theorem allowsCounting_movesUp : AllowsCounting (MovesUp request (K := K)) :=
  fun _ _ _ h => movesUp_of_rows_eq h

/-- The programs whose accesses all stay within `MovesUp`. -/
abbrev EachMovesUp (request : FolderRequest K) (p : Req K α) : Prop :=
  p.Each (fun _ => True) (MovesUp request)

theorem eachMovesUp_guards (supplied : Option ℕ) {p : Req K α} (hp : EachMovesUp request p) :
    EachMovesUp request (assertVaultNotRotating.bind fun _ =>
      (assertVaultKeyVersion supplied).bind fun _ => p) := by
  apply Prog.Each.bind (allowsCounting_movesUp.readsAt readsAt_assertVaultNotRotating)
  intro _
  apply Prog.Each.bind (allowsCounting_movesUp.readsAt (readsAt_assertVaultKeyVersion supplied))
  intro _
  exact hp

theorem eachMovesUp_whenNamed {parentId : Option ℕ} {check : ℕ → Req K Unit}
    (hcheck : ∀ p, EachMovesUp request (check p)) :
    EachMovesUp request (whenNamed parentId check) := by
  cases parentId with
  | none => exact trivial
  | some p => exact hcheck p

theorem eachMovesUp_assertParentExists (parentId : ℕ) :
    EachMovesUp request (assertParentExists parentId : Req K Unit) := by
  apply Prog.Each.bind (allowsCounting_movesUp.read _ _)
  intro parentExists
  split
  · exact trivial
  · exact trivial

theorem eachMovesUp_checkReparent (id parentId : ℕ) :
    EachMovesUp request (checkReparent id parentId : Req K Unit) := by
  unfold checkReparent
  split
  · exact trivial
  · apply (eachMovesUp_assertParentExists parentId).bind
    intro _
    apply (allowsCounting_movesUp.read _ _).bind
    intro chain
    apply (allowsCounting_movesUp.read _ _).bind
    intro subtreeHeight
    split
    · exact trivial
    · split
      · exact trivial
      · exact trivial

/-- The insert of a create adds one row, under the parent its body names. -/
theorem movesUp_insertFolder (userId : ℕ) (body : CreateFolderInput K) (s : Store K) :
    MovesUp (.create userId body) .insertRow s
      (s.insertRow ⟨.folder, body.rowId⟩ (body.folderData userId) body.sealedUnder).2 := by
  rcases s.insertRow_cases ⟨.folder, body.rowId⟩ (body.folderData userId) body.sealedUnder with
    ⟨heq, -⟩ | ⟨hfree, heq⟩
  · rw [heq]
    exact movesUp_of_rows_eq rfl
  · rw [heq]
    refine ⟨body.parentId.getD 0, fun x y hxy => ?_⟩
    rcases names_insert hxy with hold | ⟨hkey, hparent⟩
    · exact .inl hold
    · right
      cases hkey
      have hparent : body.parentId = some y := hparent
      rw [hparent]
      exact ⟨rfl, fun hclear => hclear hfree y hparent⟩

theorem eachMovesUp_createFolder (userId : ℕ) (body : CreateFolderInput K) :
    EachMovesUp (.create userId body) (createFolder quota userId body) := by
  apply eachMovesUp_guards
  refine Prog.Each.bind (eachMovesUp_whenNamed fun p => ?_) fun _ => ?_
  · apply (eachMovesUp_assertParentExists p).bind
    intro _
    apply (allowsCounting_movesUp.read _ _).bind
    intro chain
    split
    · exact trivial
    · exact trivial
  · apply Prog.Each.bind
    · exact (allowsCounting_movesUp.create (movesUp_insertFolder userId body)).orElse
        fun e => trivial
    · intro folder
      refine Prog.Each.bind (Prog.Each.orElse ?_ fun refusal => ?_) fun _ => trivial
      · exact allowsCounting_movesUp.readsAt (readsAt_assertVaultWritable _)
      · refine Prog.Each.bind (Prog.Each.attempt ?_) fun _ => trivial
        exact allowsCounting_movesUp.withdraw
          (fun filter s => (lightens_deleteRow _ filter s).movesUp) _

theorem eachMovesUp_sweepOrphanedFolderReferences :
    EachMovesUp request (sweepOrphanedFolderReferences folderId : Req K Unit) := by
  refine Prog.Each.bind (Prog.Each.attempt (each_db fun s _ => ?_)) fun _ => trivial
  exact (lightens_updateRows (fun _ _ => rfl) s).movesUp

theorem eachMovesUp_rehomeFolderContents (action : FolderRemovalAction) :
    EachMovesUp request (rehomeFolderContents folderId parentId action : Req K Unit) := by
  refine Prog.Each.bind (each_db fun s _ => ?_) fun _ => each_db fun s _ => ?_
  · exact (lightens_rehomeItems folderId parentId action s).movesUp
  · refine movesUp_of_children folderId parentId (fun p hp hclear => ?_) fun x y hxy =>
      names_rehomeFolders hxy
    subst hp
    exact hclear

theorem eachMovesUp_deleteFolder (transactions : Bool) (folderId : ℕ)
    (action : FolderRemovalAction) :
    EachMovesUp request (deleteFolder quota transactions folderId action : Req K _) := by
  apply (allowsCounting_movesUp.read _ _).bind
  intro found
  cases found with
  | none => exact trivial
  | some folder =>
    refine (allowsCounting_movesUp.reserve _).bind fun reservation => Prog.Each.bind ?_ fun gone =>
      (allowsCounting_movesUp.settle _ _).bind fun _ =>
        (eachMovesUp_sweepOrphanedFolderReferences folderId).bind fun _ => trivial
    cases transactions with
    | true =>
      refine each_db fun s _ => ?_
      refine movesUp_of_children folderId folder.parentId
        (fun p hp hclear => ?_) fun x y hxy => ?_
      · rw [hp] at hclear
        exact hclear
      · exact names_rehomedContents (lightens_deleteRow _ _ _ x y hxy)
    | false =>
      refine (eachMovesUp_rehomeFolderContents _ _ _).bind fun _ => each_db fun s _ => ?_
      exact (lightens_deleteRow _ _ s).movesUp

/-- The transaction of a claim moves the children of a folder to the parent it names. -/
theorem movesUp_claimFolder {folderId : ℕ} {readPin : Row K → Bool} {row : Row K}
    (hrow : s.rows.lookup ⟨.folder, folderId⟩ = some row) (hpin : readPin row = true) :
    MovesUp (.removeIfUnchanged folderId readPin) (.claimFolder folderId) s
      (rehomedContents folderId row.parentId .move
        { s with rows := s.rows.erase ⟨.folder, folderId⟩ }) := by
  refine movesUp_of_children folderId row.parentId (fun p hp hclear hreach => ?_) fun x y hxy => ?_
  · exact hclear row hrow hpin (looped_of_names (names_of_lookup hrow hp) hreach)
  · exact (names_rehomedContents hxy).imp names_erase fun h => ⟨h.1, names_erase h.2⟩

theorem eachMovesUp_removeFolderIfUnchanged (transactions : Bool) (folderId : ℕ)
    (readPin : Row K → Bool) : EachMovesUp (.removeIfUnchanged folderId readPin)
      (removeFolderIfUnchanged quota transactions folderId readPin) := by
  refine (allowsCounting_movesUp.reserve _).bind fun reservation =>
    Prog.Each.bind (Prog.Each.attempt ?_) fun claim =>
      (allowsCounting_movesUp.settle _ _).bind fun _ =>
        (each_ofExcept _).bind fun _ => ?_
  · unfold claimFolder
    cases transactions with
    | true =>
      refine each_db fun s _ => ?_
      rcases s.deleteRow_cases ⟨.folder, folderId⟩ readPin with ⟨heq, -⟩ | ⟨row, hrow, hpin, heq⟩
      · rw [heq]
        exact movesUp_of_rows_eq rfl
      · rw [heq]
        exact movesUp_claimFolder hrow hpin
    | false =>
      refine Prog.Each.bind (each_db fun s _ => (lightens_deleteRow _ _ s).movesUp)
        fun gone => ?_
      cases gone with
      | none => exact trivial
      | some row => exact (eachMovesUp_rehomeFolderContents _ _ _).attempt.bind fun _ => trivial
  · split
    · exact (eachMovesUp_sweepOrphanedFolderReferences folderId).bind fun _ => trivial
    · exact trivial

/-- An update whose body names no parent adds no edge. -/
theorem lightens_updateRow {id : ℕ} (update : CountedUpdate K) {write : ℕ → Row K → Row K}
    (hwrite : ∀ now row, (write now row).fields = update.applyFields row.fields)
    (hset : refOf (update.set .parentId) = none) (filter : Row K → Bool) (s : Store K) :
    Lightens s (s.updateRow ⟨.folder, id⟩ filter write).2 := by
  rcases s.updateRow_cases ⟨.folder, id⟩ filter write with ⟨heq, -⟩ | ⟨row, hrow, -, heq⟩
  · rw [heq]
    exact .of_rows_eq rfl
  · rw [heq]
    intro x y hxy
    rcases names_insert hxy with hold | ⟨hkey, hparent⟩
    · exact hold
    · -- the row still names the parent it named, or none
      cases hkey
      rw [Row.parentId, hwrite, CountedUpdate.applyFields] at hparent
      cases hvalue : update.set .parentId with
      | some value =>
        rw [hvalue] at hparent hset
        rw [hset] at hparent
        cases hparent
      | none =>
        rw [hvalue] at hparent
        dsimp only at hparent
        split at hparent
        · cases hparent
        · exact names_of_lookup hrow hparent

theorem refOf_updateOp {body : UpdateFolderInput K} (hbody : body.parentId = none) :
    refOf (body.updateOp.set .parentId) = none := by
  show refOf (if Field.parentId = .parentId ∧ body.clearsParent then none
    else pickAllowedFields body.fields allowedFolderFields .parentId) = none
  split
  · rfl
  · exact hbody

theorem eachMovesUp_updateFolder {id : ℕ} {body : UpdateFolderInput K}
    (hbody : body.parentId = none) : EachMovesUp request (updateFolder quota id body) := by
  apply eachMovesUp_guards
  refine Prog.Each.bind (eachMovesUp_whenNamed fun p => eachMovesUp_checkReparent id p) fun _ => ?_
  have hset := refOf_updateOp hbody
  refine Prog.Each.bind (allowsCounting_movesUp.update (readsAt_assertVaultWritable _)
    (fun l filter s => (lightens_updateRow _ (fun _ _ => rfl) hset filter s).movesUp)
    fun l filter s => (lightens_updateRow _ (fun _ _ => rfl) hset filter s).movesUp) fun updated => ?_
  cases updated with
  | none => exact trivial
  | some folder =>
    rw [hbody]
    exact trivial

end Laws

/-! ## The protocol -/

/-- The folders some update is still going to look at. -/
def Pending (g : ι → Option ℕ) (b : ℕ) : Prop := ∃ i, g i = some b

/-- Every loop passes a folder somebody is still going to look at; `g i` is the one request `i`
has written and not yet looked at. -/
def forestProtocol : Protocol ι (Store K) Site (ι → Option ℕ) where
  inv s g := Guarded (folderParents s.rows) (Pending g)
  guar i _ _ g _ g' := ∀ j, j ≠ i → g' j = g j

/-- The side condition of an access of `i`. -/
def Clears (requests : ι → FolderRequest K) (i : ι) (l : Site) (s : Store K)
    (_ : ι → Option ℕ) : Prop :=
  ParentClear (requests i) l s ∧ rowCount .folder s.rows ≤ maxFoldersPerUser

section Protocol

variable {requests : ι → FolderRequest K} {i : ι} {quota : ℤ} {α : Type}

/-- `p` keeps the folders guarded and ends in `Q`. -/
abbrev Guards (requests : ι → FolderRequest K) (i : ι)
    (Q : Except VaultError α → Store K → (ι → Option ℕ) → Prop) (p : Req K α) (s : Store K)
    (g : ι → Option ℕ) : Prop :=
  Safe forestProtocol noFaults (Clears requests) i Q p s g

/-- What request `i` has written and not looked at. -/
def Watches (i : ι) (x : Option ℕ) (_ : Store K) (g : ι → Option ℕ) : Prop := g i = x

theorem stable_watches (x : Option ℕ) :
    (forestProtocol (K := K)).Stable i (Watches i x) :=
  fun _ hj _ _ _ _ _ _ hx hg _ => (hg i hj.symm).trans hx

/-- Accesses within `MovesUp` keep the folders guarded. -/
theorem keeps_eachMovesUp {p : Req K α} (hp : EachMovesUp (requests i) p) (x : Option ℕ) :
    Interleave.Keeps forestProtocol noFaults (Clears requests) i (Watches i x) (fun _ => True) p := by
  refine hp.keeps (stable_watches x) (fun _ _ _ => trivial) ?_
  intro l s g s₁ s' hinv hx hpre hmoves hs'
  refine ⟨g, ?_, fun _ _ => rfl, hx⟩
  rcases hs' with rfl | rfl
  · exact hinv
  · obtain ⟨p, hmoves⟩ := hmoves
    apply Guarded.move hinv
    intro y z hyz
    exact (hmoves y z hyz).imp_right fun ⟨hz, hclear⟩ => ⟨hz, hclear hpre.1⟩

variable [DecidableEq ι]

variable {g : ι → Option ℕ}

theorem pending_update (b : ℕ) (hi : g i = none) {x : ℕ} (hx : Pending g x) :
    Pending (Function.update g i (some b)) x := by
  obtain ⟨j, hj⟩ := hx
  have hne : j ≠ i := by
    intro h
    rw [h, hi] at hj
    cases hj
  exact ⟨j, by rw [update_of_ne hne, hj]⟩

theorem pending_release {b : ℕ} (hi : g i = some b) {x : ℕ} (hx : Pending g x) (hne : x ≠ b) :
    Pending (Function.update g i none) x := by
  obtain ⟨j, hj⟩ := hx
  have hji : j ≠ i := by
    intro h
    rw [h, hi] at hj
    exact hne (some.inj hj).symm
  exact ⟨j, by rw [update_of_ne hji, hj]⟩

variable {s : Store K}

/-- A write of a folder's own row by a request that will look at it. -/
theorem guarded_write (id : ℕ) (filter : Row K → Bool) (write : ℕ → Row K → Row K)
    (hinv : Guarded (folderParents s.rows) (Pending g)) (hi : g i = none) :
    ∃ g', Guarded (folderParents (s.updateRow ⟨.folder, id⟩ filter write).2.rows) (Pending g') ∧
      (∀ j, j ≠ i → g' j = g j) ∧
      g' i = (s.updateRow ⟨.folder, id⟩ filter write).1.map fun _ => id := by
  rcases s.updateRow_cases ⟨.folder, id⟩ filter write with ⟨heq, -⟩ | ⟨row, hrow, -, heq⟩
  · rw [heq]
    exact ⟨g, hinv, fun _ _ => rfl, hi⟩
  · rw [heq]
    refine ⟨update g i (some id), ?_, fun j hj => update_of_ne hj _ _,
      update_self ..⟩
    apply hinv.write
    · intro x y hne hxy
      rcases names_insert hxy with hold | ⟨hkey, -⟩
      · exact hold
      · cases hkey
        exact (hne rfl).elim
    · exact fun x => pending_update id hi
    · exact ⟨i, update_self ..⟩

/-- The post-condition of an update of folder `id`: it watches the folder if it wrote it. -/
def WatchesWritten (i : ι) (id : ℕ) (r : Except VaultError (Option (Row K))) (_ : Store K)
    (g : ι → Option ℕ) : Prop :=
  g i = match r with
    | .ok (some _) => some id
    | _ => none

omit [DecidableEq ι] in
/-- A settle hands no failure on. -/
theorem keeps_settle (reservation : Reservation) (actual : Counts) (x : Option ℕ) :
    Interleave.Keeps forestProtocol noFaults (Clears requests) i (Watches (K := K) i x)
      (fun r => r = .ok ()) (settleVaultWrite reservation actual : Req K Unit) := by
  have hcounting : AllowsCounting (MovesUp (requests i)) := allowsCounting_movesUp
  apply (keeps_eachMovesUp (hcounting.settle reservation actual) x).leaves
  refine (Prog.Leaves.attempt (leaves_true _)).bind (fun _ _ => rfl) ?_
  rintro e ⟨b, h, -⟩
  cases h

theorem guards_updateAttempts {id : ℕ} {update : CountedUpdate K} {beforeWrite : Req K Unit}
    (hreads : beforeWrite.ReadsAt .readAccount) (n : ℕ) (first : Option RowMeasure)
    (hi : g i = none) :
    Guards requests i (WatchesWritten i id)
      (updateAttempts quota ⟨.folder, id⟩ update beforeWrite n first) s g := by
  have hcounting : AllowsCounting (MovesUp (requests i)) := allowsCounting_movesUp
  induction n generalizing first s g with
  | zero => exact hi
  | succ n ih =>
    refine (keeps_eachMovesUp (hcounting.read _ _) none).before hi (fun measured s g _ hi => ?_)
      fun e s g _ hi => hi
    cases measured with
    | none => exact hi
    | some measure =>
      dsimp only
      split
      swap
      · exact hi
      refine (keeps_eachMovesUp (hcounting.readsAt hreads) none).before hi (fun _ s g _ hi => ?_)
        fun e s g _ hi => hi
      refine (keeps_eachMovesUp (hcounting.reserve _) none).before hi
        (fun reservation s g _ hi => ?_) fun e s g _ hi => hi
      refine Safe.attempt_db_bind _ (stable_watches none) hi (fun s g hinv hi _ => ?_)
        (fun s g e _ _ _ h => h.elim) fun s g e _ _ _ h => h.elim
      obtain ⟨g', hinv', hguar, hi'⟩ := guarded_write id
        (fun row => decide (versionPin measure row)) (fun now row => row.written update now) hinv hi
      refine ⟨g', hinv', hguar, ?_⟩
      revert hi'
      generalize (s.updateRow ⟨.folder, id⟩ (fun row => decide (versionPin measure row))
        fun now row => row.written update now) = r
      intro hi'
      obtain ⟨_ | row, s'⟩ := r
      · -- another request changed the row: measure again
        refine (keeps_settle _ _ none).before hi' (fun _ s g _ hi => ih _ hi) ?_
        intro e s g he
        cases he
      · refine (keeps_settle _ _ (some id)).before hi' (fun _ s g _ hi => hi) ?_
        intro e s g he
        cases he

/-- **The write of an update** leaves its request watching the folder it wrote. -/
theorem guards_updateCountedRow {id : ℕ} {update : CountedUpdate K} {beforeWrite : Req K Unit}
    (hreads : beforeWrite.ReadsAt .readAccount) (hi : g i = none) :
    Guards requests i (WatchesWritten i id)
      (updateCountedRow quota ⟨.folder, id⟩ update beforeWrite) s g := by
  unfold updateCountedRow
  split
  · exact guards_updateAttempts hreads _ _ hi
  · apply Safe.access _ (stable_watches none) hi
    intro s g hinv hi _ r s' ho
    cases ho with
    | applied =>
      obtain ⟨g', hinv', hguar, hi'⟩ := guarded_write id (fun _ => true)
        (fun now row => row.placed update now) hinv hi
      refine ⟨g', hinv', hguar, ?_⟩
      show g' i = _
      rw [hi']
      cases (s.updateRow ⟨.folder, id⟩ (fun _ => true) fun now row => row.placed update now).1 with
      | none => rfl
      | some row => rfl
    | refused h | lost h => exact h.elim

/-- A request that has looked at a folder on no loop need not watch it any longer. -/
theorem released {id : ℕ} {s' : Store K} (hinv : Guarded (folderParents s.rows) (Pending g))
    (hi : g i = some id) (hsub : Lightens s s') (hloop : ¬ Looped (folderParents s'.rows) id) :
    Guarded (folderParents s'.rows) (Pending (Function.update g i none)) :=
  hinv.release hsub hloop fun _ hx hne => pending_release hi hx hne

omit [DecidableEq ι] in
/-- After its parent is unset a folder is on no loop. -/
theorem not_looped_detached (id : ℕ) (s : Store K) :
    let s' := (s.updateRow ⟨.folder, id⟩ (fun _ => true)
      fun now row => row.placed (setOrUnset .parentId none) now).2
    Lightens s s' ∧ ¬ Looped (folderParents s'.rows) id := by
  intro s'
  have hlight : Lightens s s' :=
    lightens_updateRow (setOrUnset .parentId none) (fun _ _ => rfl) rfl (fun _ => true) s
  refine ⟨hlight, fun hloop => ?_⟩
  obtain ⟨b, hb, -⟩ := hloop.names
  rcases s.updateRow_cases ⟨.folder, id⟩ (fun _ => true)
    (fun now row => row.placed (setOrUnset .parentId none) now) with ⟨heq, hmiss⟩ | ⟨row, -, -, heq⟩
  · -- the folder is gone
    obtain ⟨row, hrow, -⟩ := map_eq_some_iff.1 (show folderParents s.rows id = _ from
      hlight id b hb)
    cases hmiss row hrow
  · have hb : Names (folderParents (s.updateRow ⟨.folder, id⟩ (fun _ => true)
        fun now row => row.placed (setOrUnset .parentId none) now).2.rows) id b := hb
    rw [heq] at hb
    unfold Names folderParents at hb
    rw [Finmap.lookup_insert] at hb
    cases hb

/-- **The second look** of an update: afterwards nothing is watched. -/
theorem guards_checkCommittedParent {id : ℕ} (hi : g i = some id) :
    Guards requests i (fun _ => Watches i none) (checkCommittedParent id : Req K Unit) s g := by
  refine Safe.sure_bind (fun _ _ h => h) (stable_watches (some id)) hi fun s g hinv hi hpre => ?_
  dsimp only
  cases hcycle : hasCycle (folderParents s.rows) id with
  | false =>
    have hloop : ¬ Looped (folderParents s.rows) id := by
      rw [← hasCycle_rows_iff hpre.2, hcycle]
      exact Bool.false_ne_true
    exact ⟨_, released hinv hi (.of_rows_eq rfl) hloop, fun j hj => update_of_ne hj _ _,
      update_self ..⟩
  | true =>
    -- somebody closed a loop through the folder: its own edge goes
    refine ⟨g, hinv, fun _ _ => rfl, ?_⟩
    refine Safe.sure_bind (fun _ _ h => h) (stable_watches (some id)) hi fun s g hinv hi _ => ?_
    obtain ⟨hsub, hloop⟩ := not_looped_detached id s
    exact ⟨_, released hinv hi hsub hloop, fun j hj => update_of_ne hj _ _,
      update_self ..⟩

theorem guards_updateFolder (id : ℕ) (body : UpdateFolderInput K) (hi : g i = none) :
    Guards requests i (fun _ => Watches i none) (updateFolder quota id body) s g := by
  cases hbody : body.parentId with
  | none =>
    have heach : EachMovesUp (requests i) (updateFolder quota id body) :=
      eachMovesUp_updateFolder hbody
    exact (keeps_eachMovesUp heach none s g hi).mono fun r s g h => h.1
  | some parentId =>
    have hcounting : AllowsCounting (MovesUp (requests i)) := allowsCounting_movesUp
    refine (keeps_eachMovesUp (hcounting.readsAt readsAt_assertVaultNotRotating) none).before hi
      (fun _ s g _ hi => ?_) fun _ _ _ _ h => h
    refine (keeps_eachMovesUp (hcounting.readsAt (readsAt_assertVaultKeyVersion _)) none).before hi
      (fun _ s g _ hi => ?_) fun _ _ _ _ h => h
    rw [hbody]
    refine (keeps_eachMovesUp (eachMovesUp_checkReparent id parentId) none).before hi
      (fun _ s g _ hi => ?_) fun _ _ _ _ h => h
    refine Safe.bind ((guards_updateCountedRow (readsAt_assertVaultWritable _) hi).mono
      fun r s g hr => ?_)
    rcases r with e | (_ | folder)
    · exact hr
    · exact hr
    · refine Safe.bind ((guards_checkCommittedParent hr).mono fun r s g hr => ?_)
      cases r with
      | ok _ => exact hr
      | error e => exact hr

/-- **Every folder request** keeps the folders guarded and ends watching none. -/
theorem guards_prog (transactions : Bool) (request : FolderRequest K)
    (hrequest : requests i = request) (hi : g i = none) :
    Guards requests i (fun _ => Watches i none) (request.prog quota transactions) s g := by
  have hkeeps : ∀ {p : Req K (FolderAnswer K)}, EachMovesUp (requests i) p →
      Guards requests i (fun _ => Watches i none) p s g := fun hp =>
    (keeps_eachMovesUp hp none s g hi).mono fun r s g h => h.1
  cases request with
  | create userId body =>
    apply hkeeps
    rw [hrequest]
    exact eachMovesUp_createFolder userId body
  | update id body => exact guards_updateFolder id body hi
  | delete folderId action => exact hkeeps (eachMovesUp_deleteFolder transactions folderId action)
  | removeIfUnchanged folderId readPin =>
    apply hkeeps
    rw [hrequest]
    exact eachMovesUp_removeFolderIfUnchanged transactions folderId readPin

end Protocol

/-! ## Runs -/

section Runs

variable [DecidableEq ι] {quota : ℤ} {transactions : Bool} {requests : ι → FolderRequest K}
  {s₀ : Store K} {c : Config ι (Store K) Site VaultError (FolderAnswer K)}

/-- The runs in which no access but a checked re-parent puts a folder above itself. That there are
no more folders than the cap need be asked only of an account whose counters did not start right:
see `folders_capped`. -/
def KeepsForest (requests : ι → FolderRequest K) (s₀ : Store K)
    (c : Config ι (Store K) Site VaultError (FolderAnswer K)) (i : ι) (l : Site) : Prop :=
  ParentClear (requests i) l c.store ∧
    (WithinCaps s₀ ∨ rowCount .folder c.store.rows ≤ maxFoldersPerUser)

/-- The folders stay guarded through every run. -/
theorem reaches_guarded (hforest : Acyclic (folderParents s₀.rows))
    (h : Reaches (folderSystem quota transactions requests)
      (fun c i l => ParentClear (requests i) l c.store ∧
        rowCount .folder c.store.rows ≤ maxFoldersPerUser) (start s₀) c) :
    ∃ g : ι → Option ℕ, Guarded (folderParents c.store.rows) (Pending g) ∧
      ∀ i, ¬ c.InFlight i → g i = none := by
  have hsound : Sound (folderSystem quota transactions requests) forestProtocol (Clears requests)
      (fun c i l => ParentClear (requests i) l c.store ∧
        rowCount .folder c.store.rows ≤ maxFoldersPerUser)
      (fun i => Watches i none) (fun i _ => Watches i none) := {
    safe := by
      rintro i p rfl s g - hi
      refine (guards_prog transactions (requests i) rfl hi).mono fun r s g hr hinv => ?_
      exact ⟨g, hinv, fun _ _ => rfl, hr⟩
    stable_pre := fun i => stable_watches none
    stable_post := fun i _ => stable_watches none
    side := fun c i l g _ _ hok => hok }
  have hstart : (forestProtocol).inv s₀ (fun _ : ι => none) := hforest.guarded
  obtain ⟨g, hinv, hplaced⟩ := hsound.reaches_start hstart (fun _ => rfl) h
  refine ⟨g, hinv, fun i hi => ?_⟩
  have hknown := (hplaced i).known
  cases hthread : c.threads i with
  | none =>
    rw [hthread] at hknown
    exact hknown
  | some p =>
    rw [hthread] at hknown
    by_cases hfin : p.Finished
    · obtain ⟨r, hr⟩ := hfin.result_eq
      exact hknown r hr
    · exact (hi ⟨p, hthread, hfin⟩).elim

/-- **The folder tree stays a forest.** In every run of folder requests from a forest in which
no removal moves children to a folder at or below the removed one, and no create stores its row
above the parent it names, there is no loop whenever no request is in flight. -/
theorem folders_stay_forest [Fintype ι] (hforest : Acyclic (folderParents s₀.rows))
    (h : Reaches (folderSystem quota transactions requests) (KeepsForest requests s₀)
      (Config.start s₀) c) (hquiet : c.Quiet) : Acyclic (folderParents c.store.rows) := by
  have hrun : Reaches (folderSystem quota transactions requests)
      (fun c i l => ParentClear (requests i) l c.store ∧
        rowCount .folder c.store.rows ≤ maxFoldersPerUser) (start s₀) c := by
    by_cases hcaps : WithinCaps s₀
    · apply (h.with_invariant fun c hc => folders_capped hcaps hc).mono
      rintro c i l ⟨⟨hclear, -⟩, hcap⟩
      exact ⟨hclear, hcap⟩
    · exact h.mono fun c i l hok => ⟨hok.1, hok.2.resolve_left hcaps⟩
  obtain ⟨g, hinv, hnone⟩ := reaches_guarded hforest hrun
  apply hinv.acyclic
  rintro b ⟨i, hi⟩
  rw [hnone i (hquiet i)] at hi
  cases hi

end Runs

/-! ## Runs on one account -/

/-- A folder row that names a parent. -/
def folderRow (parentId : Option ℕ) : Row Unit where
  version := some 0
  createdAt := some 0
  updatedAt := some 0
  fields f := if f = .parentId then parentId.map .objectId else none
  sealedUnder := ()

/-- Folder 1 with folder 2 in it, and folder 3 in that. -/
def chainRows : Table Unit :=
  ((Finmap.singleton ⟨.folder, 1⟩ (folderRow none)).insert ⟨.folder, 2⟩ (folderRow (some 1))).insert
    ⟨.folder, 3⟩ (folderRow (some 2))

def chainAccount : Store Unit where
  user := some
    { authHash := "", vaultKey := ⟨"", "", ""⟩, pendingVaultKey := none, vaultKeyVersion := none
      rotationInProgress := false, lastRotationKey := none, deletionPending := false
      counters := fun p => some (storedTotals chainRows p), quotaEpoch := none
      vaultBytesWrittenAt := none, quotaRecountedAt := none }
  rows := chainRows
  documents := ∅
  rotationLock := none
  clock := 1

/-- The body of a re-parent. -/
def reparent (parentId : Option ℕ) : UpdateFolderInput Unit where
  fields f := if f = .parentId then some (parentId.elim .null .objectId) else none
  vaultKeyVersion := none
  sealedUnder := none

theorem rowCount_chainAccount : rowCount .folder chainAccount.rows ≤ maxFoldersPerUser := by
  decide

theorem acyclic_chainAccount : Acyclic (folderParents chainAccount.rows) := by
  apply acyclic_of_hasCycle rowCount_chainAccount
  decide

theorem withinCaps_chainAccount : WithinCaps chainAccount where
  counted p := by
    refine ⟨storedTotals chainRows p, rfl, fun hp => ⟨le_rfl, ?_⟩⟩
    have hall : ∀ p, p ≠ .vaultBytes → storedTotals chainRows p ≤ ceiling 0 p := by decide
    exact hall p hp
  dated := by
    intro key row t hrow ht
    have hall : ∀ key ∈ chainRows.keys, ∀ row ∈ chainRows.lookup key,
        row.createdAt = some 0 := by decide
    have hkey : key ∈ chainRows.keys := Finmap.mem_keys.2 (Finmap.mem_of_lookup_eq_some hrow)
    rw [hall key hkey row hrow] at ht
    cases ht
    exact Nat.zero_lt_one

/-- The sites whose accesses move folders without looking, or store new ones. -/
def Site.movesFolders : Site → Bool
  | .rehomeFolders _ _ => true
  | .removeFolder _ _ => true
  | .claimFolder _ => true
  | .insertRow => true
  | _ => false

theorem parentClear_of_site {request : FolderRequest K} {l : Site} {s : Store K}
    (h : l.movesFolders = false) : ParentClear request l s := by
  unfold ParentClear
  split <;> trivial

/-- Folder 3 moves to folder 1 while folder 2, which held it, is deleted. -/
def moveAndDelete : Bool → FolderRequest Unit
  | false => .update 3 (reparent (some 1))
  | true => .delete 2 .move

/-- Both have arrived. -/
def moveAndDeleteArrived : Config Bool (Store Unit) Site VaultError (FolderAnswer Unit) :=
  ((Config.start chainAccount).join false ((moveAndDelete false).prog 100000 true)).join true
    ((moveAndDelete true).prog 100000 true)

/-- The update has been checked, the delete has reserved. -/
def moveAndDeleteChecked : Config Bool (Store Unit) Site VaultError (FolderAnswer Unit) :=
  moveAndDeleteArrived.follow (List.replicate 5 false ++ [true, true])

/-- Both have ended. -/
def moveAndDeleteDone : Config Bool (Store Unit) Site VaultError (FolderAnswer Unit) :=
  (moveAndDeleteChecked.advance true).follow (List.replicate 3 false ++ [true, true])

/-- The delete finds folder 2 not above folder 1. -/
theorem parentClear_moveAndDelete :
    ParentClear (moveAndDelete true) (.removeFolder 2 (some 1)) moveAndDeleteChecked.store := by
  have hroot : folderParents moveAndDeleteChecked.store.rows 1 = some none := by decide
  intro hreach
  rcases Relation.ReflTransGen.cases_head hreach with heq | ⟨b, hb, -⟩
  · cases heq
  · have hb : folderParents moveAndDeleteChecked.store.rows 1 = some (some b) := hb
    rw [hroot] at hb
    cases hb

theorem folders_stay_forest_moveAndDelete : Acyclic (folderParents moveAndDeleteDone.store.rows) := by
  have hfree : ∀ {l : Site}, l.movesFolders = false → ∀ c i,
      KeepsForest moveAndDelete chainAccount c i l := fun hl c i =>
    ⟨parentClear_of_site hl, .inl withinCaps_chainAccount⟩
  have harrived : Reaches (folderSystem 100000 true moveAndDelete)
      (KeepsForest moveAndDelete chainAccount) (start chainAccount) moveAndDeleteArrived :=
    (Reaches.opened _ _ chainAccount rfl).join rfl rfl
  have hchecked := harrived.follow (replicate 5 false ++ [true, true]) (follows_of_sites
    fun l hl => hfree ((by decide : ∀ l ∈ moveAndDeleteArrived.sites
      (replicate 5 false ++ [true, true]), l.movesFolders = false) l hl))
  have hdeleted := hchecked.advance (by decide)
    ⟨parentClear_moveAndDelete, .inl withinCaps_chainAccount⟩
  have hdone := hdeleted.follow (replicate 3 false ++ [true, true]) (follows_of_sites
    fun l hl => hfree ((by decide : ∀ l ∈ (moveAndDeleteChecked.advance true).sites
      (replicate 3 false ++ [true, true]), l.movesFolders = false) l hl))
  apply folders_stay_forest acyclic_chainAccount hdone
  intro i
  have hended : ∀ i, (moveAndDeleteDone.resultOf i).isSome := by decide
  obtain ⟨r, hr⟩ := isSome_iff_exists.1 (hended i)
  exact not_inFlight hr

/-- A folder is deleted while it is taken out of its parent, and that parent is then moved below
it. -/
def staleParent : Fin 3 → FolderRequest Unit
  | 0 => .delete 2 .move
  | 1 => .update 2 (reparent none)
  | 2 => .update 1 (reparent (some 3))

/-- All three have arrived. -/
def staleParentArrived : Config (Fin 3) (Store Unit) Site VaultError (FolderAnswer Unit) :=
  (((Config.start chainAccount).join 0 ((staleParent 0).prog 100000 true)).join 1
    ((staleParent 1).prog 100000 true)).join 2 ((staleParent 2).prog 100000 true)

/-- The delete reads folder 2 and its parent, the two updates run, then the delete goes on. -/
def staleParentDone : Config (Fin 3) (Store Unit) Site VaultError (FolderAnswer Unit) :=
  staleParentArrived.follow
    ([0] ++ List.replicate 4 1 ++ List.replicate 8 2 ++ List.replicate 4 0)

/-- A delete moves what its folder holds to the parent it read, which by then is below it. -/
theorem folders_stay_forest_staleParent :
    ∃ c, Reach (folderSystem 100000 true staleParent) (Config.start chainAccount) c ∧
      Acyclic (folderParents chainAccount.rows) ∧ WithinCaps chainAccount ∧ c.Quiet ∧
        ¬ Acyclic (folderParents c.store.rows) := by
  have harrived : Reach (folderSystem 100000 true staleParent) (start chainAccount)
      staleParentArrived := ((Reaches.opened _ _ chainAccount rfl).join rfl rfl).join rfl rfl
  refine ⟨staleParentDone, Reach.follow harrived _, acyclic_chainAccount, withinCaps_chainAccount,
    fun i => ?_, fun hacyclic => ?_⟩
  · have hended : ∀ i, (staleParentDone.resultOf i).isSome := by decide
    obtain ⟨r, hr⟩ := isSome_iff_exists.1 (hended i)
    exact not_inFlight hr
  · have hup : Names (folderParents staleParentDone.store.rows) 1 3 := by
      show _ = _
      decide
    have hdown : Names (folderParents staleParentDone.store.rows) 3 1 := by
      show _ = _
      decide
    exact hacyclic 1 (looped_of_names hup hdown.reaches)

end HVault
