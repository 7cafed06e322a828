import HVault.Restore.FullDocuments

/-!
# What a restore of documents leaves behind

* `Quiet`: what every request of the job leaves as it was;
* `restoreEntry_books`: each entry is counted once, whatever becomes of it;
* `restoreEntry_starts`: with skip, no document is uploaded that the account has;
* `restored_adds_up`: the report, and the same restore once more.
-/

namespace HVault.FullRestore

open Json Backup Documents DocumentCrypto Job List Option Triple Does DocumentRestoreReport Except
open Restore (ConflictStrategy)

/-! ## Documents that were restored -/

/-- The account has a document that was restored from this one, and is not about to lose it. -/
def Held (id : Utf16) (account : List DecryptedDocument) : Prop :=
  ∃ doc ∈ account, doc.purgePending ≠ some true
    ∧ doc.documentMeta.bind (·.restoredFrom) = some id

/-- A change that leaves alone where a document came from. -/
def KeepsSource (change : DecryptedDocument → DecryptedDocument) : Prop :=
  ∀ doc, (change doc).purgePending = doc.purgePending
    ∧ (change doc).documentMeta.bind (·.restoredFrom) = doc.documentMeta.bind (·.restoredFrom)

/-- A change that keeps the sources keeps what was restored. -/
theorem Held.changing {id docId : Utf16} {account : List DecryptedDocument}
    {change : DecryptedDocument → DecryptedDocument} (h : Held id account)
    (hchange : KeepsSource change) : Held id (changing docId change account) := by
  obtain ⟨doc, hdoc, hpurge, hfrom⟩ := h
  refine ⟨_, mem_map_of_mem hdoc, ?_⟩
  by_cases hid : doc.id = docId
  · rw [if_pos hid, (hchange doc).1, (hchange doc).2]
    exact ⟨hpurge, hfrom⟩
  · rw [if_neg hid]
    exact ⟨hpurge, hfrom⟩

theorem Held.append {id : Utf16} {account : List DecryptedDocument} (h : Held id account)
    (added : List DecryptedDocument) : Held id (account ++ added) := by
  obtain ⟨doc, hdoc, hheld⟩ := h
  exact ⟨doc, mem_append_left _ hdoc, hheld⟩

/-- The document of a committed transfer is one. -/
theorem held_document (env : Surroundings) (account : List DecryptedDocument) (transfer : Transfer) :
    Held transfer.input.restored.fromId (account ++ [transfer.document env]) :=
  ⟨transfer.document env, by simp, by simp [Transfer.document], rfl⟩

/-! ## What requests leave alone -/

/-- Only notes are written, uploads are started for `ids` alone, and what was restored stays. -/
structure Quiet (ids : Utf16 → Prop) (w w' : World) : Prop where
  report : w'.report = { w.report with notes := w'.report.notes }
  settled : w'.settled = w.settled
  completed : w'.completed = w.completed
  started : ∀ id ∈ w'.started, id ∈ w.started ∨ ids id
  held : ∀ id, Held id w.account → Held id w'.account

variable {ids : Utf16 → Prop}

theorem quiet_refl (w : World) : Quiet ids w w :=
  ⟨rfl, rfl, rfl, fun _ => .inl, fun _ => id⟩

theorem Quiet.trans {w w' w'' : World} (h : Quiet ids w w') (h' : Quiet ids w' w'') :
    Quiet ids w w'' where
  report := by rw [h'.report, h.report]
  settled := h'.settled.trans h.settled
  completed := h'.completed.trans h.completed
  started := fun id hid => (h'.started id hid).elim (h.started id) .inr
  held := fun id hheld => h'.held id (h.held id hheld)

instance : IsPreorder World (Quiet ids) where
  refl := quiet_refl
  trans := fun _ _ _ => Quiet.trans

/-- The world but for the clock, the notes and the transfer. -/
theorem quiet_of_same {w w' : World} (hreport : w'.report = { w.report with notes := w'.report.notes })
    (hsettled : w'.settled = w.settled) (hcompleted : w'.completed = w.completed)
    (hstarted : w'.started = w.started) (haccount : w'.account = w.account) : Quiet ids w w' where
  report := hreport
  settled := hsettled
  completed := hcompleted
  started := fun _ hid => .inl (hstarted ▸ hid)
  held := fun _ hheld => haccount ▸ hheld

/-- What is thrown does not say that one document is not restored. -/
def Plain (thrown : Thrown) : Prop := ∀ reason, thrown ≠ .notRestored reason

theorem plain_jobStop (stop : JobStopKind) (message : Utf16) : Plain (.jobStop stop message) :=
  fun _ => by simp

theorem plain_refused (refusal : Refusal) : Plain (.refused refusal) := fun _ => by simp

theorem plain_uploadStopped (message : String) (cause : Refusal) :
    Plain (.uploadStopped message cause) := fun _ => by simp

theorem plain_abortedStop (reason : Option JobAbortReason) : Plain (abortedStop reason) := by
  unfold abortedStop
  split
  all_goals exact plain_jobStop _ _

/-- The totals stay what they are, and what is thrown is plain. -/
abbrev Harmless {α : Type} (ids : Utf16 → Prop) (a : Step α) : Prop := Does (Quiet ids) Plain a

section Requests

variable {env : Surroundings}

theorem does_tick : Harmless ids tick := by
  refine bind does_get fun w => bind (does_modify fun _ => ?_) fun _ => does_pure _
  exact quiet_of_same rfl rfl rfl rfl rfl

theorem does_isAborted : Harmless ids (isAborted env) :=
  bind does_tick fun _ => does_pure _

theorem does_throwIfAborted : Harmless ids (throwIfAborted env) := by
  refine bind does_isAborted fun reason => ?_
  cases reason with
  | none => exact does_pure _
  | some reason => exact does_throw (plain_abortedStop _)

theorem does_throwIfInterrupted : Harmless ids (throwIfInterrupted env) := by
  refine bind does_isAborted fun reason => bind does_tick fun now => ?_
  by_cases h : (reason.isSome || env.interrupted now) = true
  · rw [if_pos h]
    exact does_throw (plain_abortedStop _)
  · rw [if_neg h]
    exact does_pure _

theorem does_pause (ms : ℕ) : Harmless ids (pause ms) :=
  bind does_tick fun _ => does_pure _

theorem does_loadUploadRecovery : Harmless ids (loadUploadRecovery env) := by
  refine bind does_tick fun now => ?_
  cases env.recovery now with
  | none => exact does_pure _
  | some refusal => exact does_throw (plain_refused _)

theorem does_note (text : Utf16) : Harmless ids (note text) :=
  does_modify fun _ => quiet_of_same rfl rfl rfl rfl rfl

theorem does_forgetTransfer : Harmless ids forgetTransfer :=
  does_modify fun _ => quiet_of_same rfl rfl rfl rfl rfl

theorem does_cancelUpload : Harmless ids cancelUpload :=
  does_modify fun _ => quiet_of_same rfl rfl rfl rfl rfl

theorem does_dropTransfer : Harmless ids dropTransfer :=
  bind does_get fun _ => bind (when fun _ => does_cancelUpload) fun _ =>
    does_forgetTransfer

/-- Whether or not the answer arrives. -/
theorem does_request {apply : List DecryptedDocument → List DecryptedDocument}
    (happly : ∀ id account, Held id account → Held id (apply account)) :
    Harmless ids (request env apply) := by
  have hchange : Harmless ids
      (modify fun w : World => { w with account := apply w.account } : Step PUnit) :=
    does_modify fun w => ⟨rfl, rfl, rfl, fun _ => .inl, fun id => happly id w.account⟩
  refine bind does_tick fun now => ?_
  cases env.request now with
  | none => exact hchange
  | some outcome =>
    exact bind (when fun _ => hchange) fun _ => does_throw (plain_refused _)

variable (docId : Utf16)

theorem does_changing {change : DecryptedDocument → DecryptedDocument}
    (hchange : KeepsSource change) : Harmless ids (request env (changing docId change)) :=
  does_request fun _ _ hheld => hheld.changing hchange

theorem does_restoreDocument : Harmless ids (restoreDocument env docId) :=
  does_changing docId fun _ => ⟨rfl, rfl⟩

theorem does_setFavorite (favorite : Bool) :
    Harmless ids (setFavorite env docId favorite) :=
  does_changing docId fun _ => ⟨rfl, rfl⟩

theorem does_moveToFolder (folderId : Option Utf16) :
    Harmless ids (moveToFolder env docId folderId) :=
  does_changing docId fun _ => ⟨rfl, rfl⟩

/-- The id a document was restored from is not among what a caller may rewrite. -/
theorem keepsSource_apply (changes : DocumentMetaUpdate) :
    KeepsSource fun doc => { doc with documentMeta := doc.documentMeta.map changes.apply } := by
  intro doc
  refine ⟨rfl, ?_⟩
  show (doc.documentMeta.map changes.apply).bind _ = _
  cases doc.documentMeta with
  | none => rfl
  | some documentMeta => rfl

theorem does_updateDocumentMeta (changes : DocumentMetaUpdate) :
    Harmless ids (updateDocumentMeta env docId changes) := by
  refine bind does_get fun w => ?_
  split
  · exact does_throw (plain_refused _)
  · split
    · exact does_throw (plain_refused _)
    · refine bind (when fun _ => does_throw (plain_refused _)) fun _ => ?_
      exact does_changing docId (keepsSource_apply changes)

end Requests

/-! ## Retries -/

section Retries

variable {env : Surroundings} {α : Type}

/-- What the ladder gives up with does not say that one document is not restored. -/
theorem Ladder.next_plain {ladder : Ladder} {thrown thrown' : Thrown} (hplain : Plain thrown)
    (h : ladder.next thrown = .error thrown') : Plain thrown' := by
  cases thrown with
  | refused refusal =>
    unfold Ladder.next at h
    simp only at h
    split_ifs at h with hrate hwaits hunanswered hwaited hgateway hserver
    · exact error.inj h ▸ plain_jobStop _ _
    · exact error.inj h ▸ plain_jobStop _ _
    · split at h
      · exact error.inj h ▸ plain_jobStop _ _
      · cases h
    · split at h
      · exact error.inj h ▸ plain_refused _
      · cases h
    · exact error.inj h ▸ plain_refused _
  | jobStop stop message
  | notRestored reason | uploadStopped message cause => exact error.inj h ▸ hplain

/-- What holds whatever the time is. -/
def Timeless (P : World → Prop) : Prop := ∀ w clock, P w → P { w with clock }

theorem timeless_quiet (w : World) : Timeless (Quiet ids w) := fun _ _ h =>
  h.trans (quiet_of_same rfl rfl rfl rfl rfl)

variable {P : World → Prop} {E : Thrown → World → Prop}

theorem triple_tick (hP : Timeless P) : Triple P tick (fun _ => P) E := by
  refine bind (triple_get fun _ => id) fun w => ?_
  exact bind (triple_modify fun w hw => hP w _ hw) fun _ => triple_pure _ fun _ => id

theorem triple_isAborted (hP : Timeless P) : Triple P (isAborted env) (fun _ => P) E :=
  bind (triple_tick hP) fun _ => triple_pure _ fun _ => id

theorem triple_throwIfAborted (hP : Timeless P) :
    Triple P (throwIfAborted env) (fun _ => P) (fun e w => P w ∧ Plain e) := by
  refine bind (triple_isAborted hP) fun reason => ?_
  cases reason with
  | none => exact triple_pure _ fun _ => id
  | some reason => exact triple_throw _ fun _ hw => ⟨hw, plain_abortedStop _⟩

theorem triple_pause (hP : Timeless P) (ms : ℕ) : Triple P (pause ms) (fun _ => P) E :=
  bind (triple_tick hP) fun _ => triple_pure _ fun _ => id

variable {send : Step α}

/-- A request on the ladder: it is sent some times, and in between there is only waiting. -/
theorem triple_sendOnLadder {Q : α → World → Prop} (hP : Timeless P)
    (hsend : Triple P send Q (fun e w => P w ∧ Plain e)) (ladder : Ladder) :
    Triple P (sendOnLadder env send ladder) Q (fun e w => P w ∧ Plain e) := by
  induction hleft : ladder.left using Nat.strong_induction_on generalizing ladder with
  | _ n ih =>
    rw [sendOnLadder]
    refine (triple_throwIfAborted hP).bind fun _ => hsend.tryCatch fun thrown => ?_
    refine weaken (of_pure fun hplain => ?_)
      (fun w hw => ⟨hw.2, hw.1⟩) (fun _ _ => id) (fun _ _ => id)
    refine (triple_throwIfAborted hP).bind fun _ => ?_
    split
    · next hnext => exact triple_throw _ fun _ hw => ⟨hw, Ladder.next_plain hplain hnext⟩
    · next hnext =>
      refine (triple_pause hP _).bind fun _ => ?_
      exact ih _ (hleft ▸ Ladder.next_left hnext) _ rfl

/-- The recovery is loaded, then the ladder is climbed. -/
theorem triple_sendWithRetries {Q : α → World → Prop} (hP : Timeless P)
    (hsend : Triple P send Q (fun e w => P w ∧ Plain e)) :
    Triple P (sendWithRetries env send) Q (fun e w => P w ∧ Plain e) := by
  have hload : Triple P (loadUploadRecovery env) (fun _ => P) (fun e w => P w ∧ Plain e) := by
    refine (triple_tick hP).bind fun now => ?_
    cases env.recovery now with
    | none => exact triple_pure _ fun _ => id
    | some refusal => exact triple_throw _ fun _ hw => ⟨hw, plain_refused _⟩
  exact hload.bind fun _ => triple_sendOnLadder hP hsend {}

theorem does_sendWithRetries (hsend : Harmless ids send) :
    Harmless ids (sendWithRetries env send) := by
  intro w
  have hkept := hsend.triple (P := Quiet ids w) fun _ _ h hw => hw.trans h
  exact (triple_sendWithRetries (timeless_quiet w) hkept).weaken
    (fun w' hw => hw ▸ quiet_refl w') (fun _ _ => id) fun _ _ => id

end Retries

/-! ## One document's upload -/

section Upload

variable {env : Surroundings}

/-- A commit adds a document and takes none away. -/
theorem quiet_commit (w : World) : Quiet ids w (w.commit env) := by
  unfold World.commit
  split
  · split_ifs
    · exact quiet_refl w
    · exact ⟨rfl, rfl, rfl, fun _ => .inl, fun _ hheld => hheld.append _⟩
  · exact quiet_refl w

theorem does_runTransfer (uploadId : Utf16) (outcome : TransferOutcome) :
    Harmless ids (runTransfer env uploadId outcome) := by
  have hcommit : Harmless ids (modify (World.commit env) : Step Unit) :=
    does_modify quiet_commit
  cases outcome with
  | done => exact bind hcommit fun _ => does_pure _
  | stopped committed message cause =>
    exact bind (when fun _ => hcommit) fun _ => does_throw (plain_uploadStopped _ _)
  | cancelled committed =>
    exact bind (when fun _ => hcommit) fun _ => does_throw (plain_refused _)

/-- An upload is started for its own document alone. -/
theorem does_startUpload {input : StartUploadInput} (hids : ids input.restored.fromId) :
    Harmless ids (startUpload env input) := by
  refine bind (does_modify fun w => ?_) fun _ => bind does_tick fun now => ?_
  · refine ⟨rfl, rfl, rfl, fun id hid => ?_, fun _ => id⟩
    rcases mem_append.1 hid with hid | hid
    · exact .inl hid
    · exact .inr (mem_singleton.1 hid ▸ hids)
  · cases env.start now with
    | refused refusal => exact does_throw (plain_refused _)
    | registered uploadId outcome =>
      refine bind (does_modify fun _ => quiet_of_same rfl rfl rfl rfl rfl) fun _ => ?_
      refine bind does_isAborted fun reason => bind (when fun _ => ?_) fun _ =>
        does_runTransfer uploadId outcome
      exact bind does_cancelUpload fun _ => does_throw (plain_refused _)

/-- A retry goes on with the transfer and starts none. -/
theorem does_retryUpload (uploadId : Utf16) :
    Harmless ids (retryUpload env uploadId) := by
  refine bind does_tick fun now => bind does_get fun w => ?_
  cases w.current with
  | none => exact does_throw (plain_refused _)
  | some transfer =>
    refine bind (when fun _ => does_throw (plain_refused _)) fun _ => ?_
    cases env.retry now with
    | refused refusal => exact does_throw (plain_refused _)
    | resumed outcome => exact does_runTransfer uploadId outcome

theorem does_sendUpload {input : StartUploadInput} (hids : ids input.restored.fromId)
    (registered : Option Transfer) : Harmless ids (sendUpload env input registered) := by
  cases registered with
  | none => exact does_startUpload hids
  | some transfer => exact does_retryUpload transfer.id

def AnyThrown (_ : Thrown) : Prop := True

theorem does_any {α : Type} {a : Step α} (h : Harmless ids a) :
    Does (Quiet ids) AnyThrown a := h.mono (fun _ _ => id) fun _ _ => trivial

variable (input : StartUploadInput)

/-- By how many attempts are left. -/
theorem does_uploadAttempts (hids : ids input.restored.fromId) (name : Utf16)
    (attempts : Attempts) :
    Does (Quiet ids) AnyThrown (uploadAttempts env input name attempts) := by
  induction hleft : attempts.left using Nat.strong_induction_on generalizing input attempts with
  | _ n ih =>
    have hthrow (thrown : Thrown) : Does (Quiet ids) AnyThrown (throw thrown : Step Utf16) :=
      does_throw trivial
    rw [uploadAttempts]
    refine bind does_get fun w => tryCatch (T := AnyThrown) ?_ fun thrown _ => ?_
    · refine bind (does_any (does_sendWithRetries (does_sendUpload hids _))) fun _ => ?_
      exact bind (does_any does_forgetTransfer) fun _ => does_pure _
    · split
      · exact hthrow _
      · have hlowers := attempts.judge_lowers input.folderId.isSome thrown
        split
        · exact hthrow _
        · next hjudge =>
          rw [hjudge] at hlowers
          exact bind (does_any (does_pause _)) fun _ => ih _ (hleft ▸ hlowers) _ hids _ rfl
        · next hjudge =>
          rw [hjudge] at hlowers
          exact bind (does_any (does_note _)) fun _ =>
            ih _ (hleft ▸ hlowers) { input with folderId := none } hids _ rfl
        · exact bind (does_any does_dropTransfer) fun _ => hthrow _
        · exact hthrow _

theorem does_uploadOnce {input : StartUploadInput} (hids : ids input.restored.fromId)
    (name : Utf16) : Does (Quiet ids) AnyThrown (uploadOnce env input name) :=
  bind (does_any does_forgetTransfer) fun _ => does_uploadAttempts input hids name {}

/-! The document that an upload was for is there when it succeeds. -/

/-- The transfer in flight, if there is one, is of this document, which is there once it is
committed. -/
def InFlight (backupId : Utf16) (w : World) : Prop :=
  ∀ transfer ∈ w.current, transfer.input.restored.fromId = backupId
    ∧ (transfer.committed → Held backupId w.account)

theorem timeless_inFlight (backupId : Utf16) : Timeless (InFlight backupId) := fun _ _ => id

variable {backupId : Utf16}

theorem InFlight.commit {w : World} (h : InFlight backupId w) :
    InFlight backupId (w.commit env) := by
  unfold World.commit
  split
  · next transfer htransfer =>
    obtain ⟨rfl, hcommitted⟩ := h transfer htransfer
    split_ifs
    · exact h
    · intro transfer' htransfer'
      rw [← some.inj htransfer']
      exact ⟨rfl, fun _ => held_document env w.account transfer⟩
  · exact h

/-- After the commit the document is there. -/
theorem held_commit {w : World} (h : InFlight backupId w) (hsome : w.current.isSome) :
    Held backupId (w.commit env).account := by
  unfold World.commit
  split
  · next transfer htransfer =>
    obtain ⟨rfl, hcommitted⟩ := h transfer htransfer
    split_ifs with hdone
    · exact hcommitted hdone
    · exact held_document env w.account transfer
  · next hnone =>
    rw [hnone] at hsome
    cases hsome

/-- A transfer that is done leaves its document there. -/
theorem runTransfer_held {uploadId : Utf16} (outcome : TransferOutcome) :
    Triple (fun w => InFlight backupId w ∧ w.current.isSome) (runTransfer env uploadId outcome)
      (fun _ w => Held backupId w.account) (fun e w => InFlight backupId w ∧ Plain e) := by
  have hcommit (committed : Bool) : Triple (fun w => InFlight backupId w ∧ w.current.isSome)
      (Job.when committed (modify (World.commit env)) : Step Unit)
      (fun _ => InFlight backupId) (fun e w => InFlight backupId w ∧ Plain e) :=
    when (fun _ => triple_modify fun _ hw => hw.1.commit) fun _ _ hw => hw.1
  cases outcome with
  | done =>
    exact bind
      (triple_modify fun _ hw => held_commit hw.1 hw.2) fun _ => triple_pure _ fun _ => id
  | stopped committed message cause =>
    exact bind (hcommit committed) fun _ =>
      triple_throw _ fun _ hw => ⟨hw, plain_uploadStopped _ _⟩
  | cancelled committed =>
    exact bind (hcommit committed) fun _ =>
      triple_throw _ fun _ hw => ⟨hw, plain_refused _⟩

/-- The transfer in flight is the one just registered. -/
theorem startUpload_held :
    Triple (InFlight input.restored.fromId) (startUpload env input)
      (fun _ w => Held input.restored.fromId w.account)
      (fun e w => InFlight input.restored.fromId w ∧ Plain e) := by
  refine bind (triple_modify fun _ => id)
    fun _ => bind (triple_tick (timeless_inFlight _)) fun now => ?_
  cases env.start now with
  | refused refusal => exact triple_throw _ fun _ hw => ⟨hw, plain_refused _⟩
  | registered uploadId outcome =>
    refine bind (Q := fun _ w => InFlight input.restored.fromId w ∧ w.current.isSome)
      (triple_modify fun w _ => ⟨?_, rfl⟩) fun _ => ?_
    · intro transfer htransfer
      rw [← some.inj htransfer]
      exact ⟨rfl, nofun⟩
    · refine bind (triple_isAborted fun _ _ => id) fun reason => ?_
      refine bind (when (fun _ => ?_) fun _ _ => id) fun _ => runTransfer_held outcome
      refine bind (Q := fun _ => InFlight input.restored.fromId)
        (triple_modify fun w hw => ?_) fun _ => triple_throw _ fun _ hw => ⟨hw, plain_refused _⟩
      intro transfer htransfer
      obtain ⟨transfer', htransfer', rfl⟩ := mem_map.1 htransfer
      exact hw.1 transfer' htransfer'

theorem retryUpload_held (backupId uploadId : Utf16) :
    Triple (InFlight backupId) (retryUpload env uploadId) (fun _ w => Held backupId w.account)
      (fun e w => InFlight backupId w ∧ Plain e) := by
  refine bind (triple_tick (timeless_inFlight backupId)) fun now => ?_
  refine bind (Q := fun w₀ w => w = w₀ ∧ InFlight backupId w) (triple_get fun _ hw => ⟨rfl, hw⟩)
    fun w₀ => ?_
  cases hcurrent : w₀.current with
  | none => exact triple_throw _ fun _ hw => ⟨hw.2, plain_refused _⟩
  | some transfer =>
    have hsome : ∀ w, w = w₀ ∧ InFlight backupId w → InFlight backupId w ∧ w.current.isSome :=
      fun w hw => ⟨hw.2, by rw [hw.1, hcurrent]; rfl⟩
    refine bind (Q := fun _ w => InFlight backupId w ∧ w.current.isSome)
      (when (fun _ => triple_throw _ fun _ hw => ⟨hw.2, plain_refused _⟩) fun _ => hsome)
      fun _ => ?_
    cases env.retry now with
    | refused refusal => exact triple_throw _ fun _ hw => ⟨hw.1, plain_refused _⟩
    | resumed outcome => exact runTransfer_held outcome

/-- Whichever attempt succeeds, the document is there. -/
theorem uploadAttempts_held (hid : input.restored.fromId = backupId) (name : Utf16)
    (attempts : Attempts) :
    Triple (InFlight backupId) (uploadAttempts env input name attempts)
      (fun _ w => Held backupId w.account) (fun _ _ => True) := by
  induction hleft : attempts.left using Nat.strong_induction_on generalizing input attempts with
  | _ n ih =>
    have hsend (registered : Option Transfer) : Triple (InFlight backupId)
        (sendUpload env input registered) (fun _ w => Held backupId w.account)
        (fun e w => InFlight backupId w ∧ Plain e) := by
      cases registered with
      | none => exact hid ▸ startUpload_held input
      | some transfer => exact retryUpload_held backupId transfer.id
    have hthrow (thrown : Thrown) : Triple (InFlight backupId) (throw thrown : Step Utf16)
        (fun _ w => Held backupId w.account) (fun _ _ => True) := triple_throw _ fun _ _ => trivial
    rw [uploadAttempts]
    refine bind (triple_get fun _ => id) fun w => ?_
    refine tryCatch (F := fun _ => InFlight backupId) ?_ fun thrown => ?_
    · have hsent : Triple (InFlight backupId)
          (sendWithRetries env (sendUpload env input w.current))
          (fun _ w => Held backupId w.account) (fun e w => InFlight backupId w ∧ Plain e) :=
        triple_sendWithRetries (timeless_inFlight backupId) (hsend _)
      refine bind (hsent.weaken (fun _ => id) (fun _ _ => id) fun _ _ hw => hw.1) fun _ => ?_
      exact bind (triple_modify fun _ => id)
        fun _ => triple_pure _ fun _ => id
    · split
      · exact hthrow _
      · have hlowers := attempts.judge_lowers input.folderId.isSome thrown
        split
        · exact hthrow _
        · next hjudge =>
          rw [hjudge] at hlowers
          exact bind (triple_pause (timeless_inFlight backupId) _) fun _ =>
            ih _ (hleft ▸ hlowers) _ hid _ rfl
        · next hjudge =>
          rw [hjudge] at hlowers
          exact bind (Q := fun _ => InFlight backupId) (triple_modify fun _ => id) fun _ =>
            ih _ (hleft ▸ hlowers) { input with folderId := none } hid _ rfl
        · exact bind (triple_true _) fun _ => triple_throw _ fun _ _ => trivial
        · exact hthrow _

theorem uploadOnce_held (name : Utf16) (P : World → Prop) :
    Triple P (uploadOnce env input name)
      (fun _ w => Held input.restored.fromId w.account) (fun _ _ => True) := by
  refine bind (triple_modify fun _ _ => ?_)
    fun _ => uploadAttempts_held input rfl name {}
  intro transfer htransfer
  cases htransfer

end Upload

/-! ## Changes of a document -/

section Writes

variable {env : Surroundings}

/-- A write that stops the job does not blame the document. -/
theorem plain_of_refusedWrite {thrown thrown' : Thrown}
    (h : refusedWrite thrown = .error thrown') : Plain thrown' := by
  cases thrown with
  | jobStop stop message => exact error.inj h ▸ plain_jobStop _ _
  | refused refusal =>
    unfold refusedWrite at h
    simp only at h
    split_ifs at h
    all_goals exact error.inj h ▸ plain_jobStop _ _
  | notRestored reason => cases h
  | uploadStopped message cause => cases h

theorem does_sendWrite {send : Step Unit} (hsend : Harmless ids send) :
    Harmless ids (sendWrite env send) := by
  refine tryCatch
    (bind (does_sendWithRetries hsend) fun _ => does_pure _) fun thrown _ => ?_
  split
  · next h => exact does_throw (plain_of_refusedWrite h)
  · exact does_pure _

/-- Each of the writes that bring the details up to date. -/
theorem does_detailWrites {doc : DecryptedDocument} {documentMeta : DocumentMeta}
    {row : DocumentResponse} {mapped : Option (Option Utf16)} {write : Step Unit}
    (hwrite : write ∈ metaWrites env doc documentMeta ++ folderWrites env doc mapped
      ++ favoriteWrites env doc row) : Harmless ids write := by
  rcases mem_append.1 hwrite with hwrite | hwrite
  · rcases mem_append.1 hwrite with hwrite | hwrite
    · unfold metaWrites at hwrite
      split at hwrite
      · cases hwrite
      · simp only at hwrite
        split_ifs at hwrite
        · cases hwrite
        · exact mem_singleton.1 hwrite ▸ does_updateDocumentMeta _ _
    · unfold folderWrites at hwrite
      split at hwrite
      · cases hwrite
      · split_ifs at hwrite
        · exact mem_singleton.1 hwrite ▸ does_moveToFolder _ _
        · cases hwrite
  · unfold favoriteWrites at hwrite
    split_ifs at hwrite
    · exact mem_singleton.1 hwrite ▸ does_setFavorite _ _
    · cases hwrite

theorem does_applyWrite {write : Step Unit} (hwrite : Harmless ids write) (name : Utf16)
    (changed : Bool) : Harmless ids (applyWrite env name changed write) := by
  refine bind (does_sendWrite hwrite) fun refusal => ?_
  cases refusal with
  | none => exact does_pure _
  | some refusal => exact bind (does_note _) fun _ => does_pure _

theorem does_applyDetails (doc : DecryptedDocument) (documentMeta : DocumentMeta)
    (row : DocumentResponse) (mapped : Option (Option Utf16)) (name : Utf16) :
    Harmless ids (applyDetails env doc documentMeta row mapped name) := by
  refine bind (when fun _ => does_note _) fun _ => ?_
  exact does_foldlM (fun changed _ hwrite => does_applyWrite (does_detailWrites hwrite) name changed)
    false

end Writes

/-! ## The books of a run -/

/-- How many entries are counted, one way or the other. -/
def DocumentRestoreReport.counted (report : DocumentRestoreReport) : ℕ :=
  report.uploaded + report.restoredFromTrash + report.updated + report.alreadyPresent
    + report.notRestored.length

/-- Every entry is counted or not attempted, but for `pending` that are at hand; at least `left` are
not attempted. What was counted as uploaded is there. -/
structure Books (total left pending : ℕ) (w : World) : Prop where
  adds : w.report.counted + w.report.notAttempted + pending = total
  total : w.report.total = total
  uploaded : w.report.uploaded = w.completed.length
  left : left ≤ w.report.notAttempted
  held : ∀ id ∈ w.completed, Held id w.account

section Books

variable {env : Surroundings} {total left pending : ℕ} {w w' : World}

/-- What leaves the totals alone leaves the books right. -/
theorem Books.quiet (h : Books total left pending w) (hquiet : Quiet ids w w') :
    Books total left pending w' where
  adds := by
    rw [hquiet.report]
    exact h.adds
  total := by
    rw [hquiet.report]
    exact h.total
  uploaded := by
    rw [hquiet.report, hquiet.completed]
    exact h.uploaded
  left := by
    rw [hquiet.report]
    exact h.left
  held := fun id hid => hquiet.held id (h.held id (hquiet.completed ▸ hid))

/-- The entry at hand has not been counted. -/
def AtHand (total left : ℕ) (w : World) : Prop := Books total left 1 w ∧ w.settled = false

theorem AtHand.quiet (h : AtHand total left w) (hquiet : Quiet ids w w') :
    AtHand total left w' := ⟨h.1.quiet hquiet, hquiet.settled.trans h.2⟩

/-- The entry at hand has been counted, and is known to be. -/
def Settled (total left : ℕ) (w : World) : Prop := Books total left 0 w ∧ w.settled = true

theorem Settled.quiet (h : Settled total left w) (hquiet : Quiet ids w w') :
    Settled total left w' := ⟨h.1.quiet hquiet, hquiet.settled.trans h.2⟩

/-- How an entry fails: not counted, or counted and then stopped by something else than a refusal of
the document. -/
def Fails (total left : ℕ) (thrown : Thrown) (w : World) : Prop :=
  AtHand total left w ∨ Settled total left w ∧ Plain thrown

/-- The entry stays at hand. -/
theorem atHand_of_does {α : Type} {T : Thrown → Prop} {a : Step α} (ids : Utf16 → Prop)
    (ha : Does (Quiet ids) T a) :
    Triple (AtHand total left) a (fun _ => AtHand total left) (Fails total left) :=
  (ha.triple fun _ _ hquiet hw => hw.quiet hquiet).weaken (fun _ => id) (fun _ _ => id)
    fun _ _ hw => .inl hw.1

/-- The entry stays counted. -/
theorem settled_of_does {α : Type} {a : Step α} (ids : Utf16 → Prop)
    (ha : Harmless ids a) :
    Triple (Settled total left) a (fun _ => Settled total left) (Fails total left) :=
  (ha.triple fun _ _ hquiet hw => hw.quiet hquiet).weaken (fun _ => id) (fun _ _ => id)
    fun _ _ hw => .inr hw

variable (name : Utf16)

theorem does_noteAny (refusal : Option Utf16) : Harmless ids (noteAny name refusal) := by
  cases refusal with
  | none => exact does_pure _
  | some refusal => exact does_note _

theorem does_favorite (uploadId : Utf16) : Harmless ids
    (do noteAny name (← sendWrite env (setFavorite env uploadId true)) : Step Unit) :=
  bind (does_sendWrite (does_setFavorite uploadId true)) fun _ => does_noteAny name _

/-- A refusal before the entry is counted. -/
theorem triple_throwAny (thrown : Option Thrown) :
    Triple (AtHand total left) (throwAny thrown) (fun _ => AtHand total left)
      (Fails total left) := by
  cases thrown with
  | none => exact triple_pure _ fun _ => id
  | some thrown => exact triple_throw _ fun _ hw => .inl hw

theorem does_readFromBackup : Does (Quiet ids) AnyThrown (readFromBackup env) := by
  refine bind (does_any does_tick) fun now => ?_
  cases env.read now with
  | ok blob => exact does_pure _
  | error refusal =>
    refine bind (does_any does_throwIfAborted) fun _ => ?_
    split
    · exact does_throw trivial
    · exact does_throw trivial
    · exact does_throw trivial
    · exact does_throw trivial

variable {E : Thrown → World → Prop}

/-- One more entry is counted, and nothing else is done to the books. -/
theorem count_books {f : DocumentRestoreReport → DocumentRestoreReport}
    (hcounted : ∀ report, (f report).counted = report.counted + 1)
    (hsame : ∀ report, (f report).notAttempted = report.notAttempted
      ∧ (f report).total = report.total ∧ (f report).uploaded = report.uploaded) :
    Triple (AtHand total left) (modify fun w => { w with report := f w.report } : Step Unit)
      (fun _ => Books total left 0) E := by
  refine triple_modify fun w hw => ?_
  obtain ⟨hattempted, htotal, huploaded⟩ := hsame w.report
  have hadds := hw.1.adds
  constructor
  · rw [hcounted, hattempted]
    omega
  · exact htotal.trans hw.1.total
  · exact huploaded.trans hw.1.uploaded
  · exact hattempted ▸ hw.1.left
  · exact hw.1.held

theorem countUpdated_books :
    Triple (AtHand total left) countUpdated (fun _ => Books total left 0) E :=
  count_books (f := fun report => { report with updated := report.updated + 1 })
    (fun _ => by simp only [counted]; omega) fun _ => ⟨rfl, rfl, rfl⟩

theorem countAlreadyPresent_books :
    Triple (AtHand total left) countAlreadyPresent (fun _ => Books total left 0) E :=
  count_books (f := fun report => { report with alreadyPresent := report.alreadyPresent + 1 })
    (fun _ => by simp only [counted]; omega) fun _ => ⟨rfl, rfl, rfl⟩

theorem countNotRestored_books (reason : Utf16) :
    Triple (AtHand total left) (countNotRestored name reason) (fun _ => Books total left 0) E :=
  count_books
    (f := fun report => { report with notRestored := report.notRestored ++ [⟨name, reason⟩] })
    (fun _ => by simp [counted, Nat.add_assoc]) fun _ => ⟨rfl, rfl, rfl⟩

/-- An entry is taken from those not attempted. -/
theorem attemptEntry_books :
    Triple (Books total (left + 1) 0) attemptEntry (fun _ => AtHand total left) E := by
  refine triple_modify fun w hw => ⟨⟨?_, hw.total, hw.uploaded, ?_, hw.held⟩, rfl⟩
  · have hadds := hw.adds
    have hleft := hw.left
    show w.report.counted + (w.report.notAttempted - 1) + 1 = total
    omega
  · have hleft := hw.left
    show left ≤ w.report.notAttempted - 1
    omega

theorem Books.none_left (h : Books total left pending w) : Books total 0 pending w :=
  ⟨h.adds, h.total, h.uploaded, Nat.zero_le _, h.held⟩

/-- The entry at hand is put back among those that were not attempted, unless it was counted. -/
theorem countStopped_books (thrown : Thrown) :
    Triple (Fails total left thrown) countStopped (fun _ => Books total 0 0) E := by
  refine triple_modify fun w hw => ?_
  rcases hw with hw | hw
  · rw [if_neg (by simp [hw.2])]
    have hadds := hw.1.adds
    refine ⟨?_, hw.1.total, hw.1.uploaded, Nat.zero_le _, hw.1.held⟩
    show w.report.counted + (w.report.notAttempted + 1) + 0 = total
    omega
  · rw [if_pos hw.1.2]
    exact hw.1.1.none_left

/-- An upload is counted once its document is there. -/
theorem uploadEntry_books (config : DocumentsConfig) (usage : DocumentUsage)
    (documentMeta : DocumentMeta) (row : DocumentResponse) (mapped : Option (Option Utf16))
    (name : Utf16) : Triple (AtHand total left)
      (uploadEntry env config usage documentMeta row mapped name)
      (fun _ => Books total left 0) (Fails total left) := by
  have hupload (source : Blob) : Triple (AtHand total left)
      (uploadOnce env (uploadInput documentMeta row mapped source) name)
      (fun _ w => AtHand total left w ∧ Held row.id w.account) (Fails total left) := by
    have hid : (· = row.id) (uploadInput documentMeta row mapped source).restored.fromId := rfl
    have hquiet : Does (Quiet (· = row.id)) AnyThrown
        (uploadOnce env (uploadInput documentMeta row mapped source) name) :=
      does_uploadOnce hid name
    have hheld : Triple (AtHand total left)
        (uploadOnce env (uploadInput documentMeta row mapped source) name)
        (fun _ w => Held row.id w.account) (fun _ _ => True) := uploadOnce_held _ name _
    exact ((atHand_of_does _ hquiet).and hheld).weaken (fun _ hw => ⟨hw, hw⟩) (fun _ _ => id)
      fun _ _ hw => hw.1
  have hcount : Triple (fun w => AtHand total left w ∧ Held row.id w.account)
      (countUploaded row.id) (fun _ => Settled total left) (Fails total left) := by
    refine triple_modify fun w hw => ⟨?_, rfl⟩
    obtain ⟨⟨hbooks, -⟩, hheld⟩ := hw
    have hadds := hbooks.adds
    refine ⟨?_, hbooks.total, ?_, hbooks.left, fun id hid => ?_⟩
    · simp only [counted] at hadds ⊢
      omega
    · rw [length_append, length_singleton, hbooks.uploaded]
    · rcases mem_append.1 hid with hid | hid
      · exact hbooks.held id hid
      · exact mem_singleton.1 hid ▸ hheld
  refine bind (triple_throwAny _) fun _ => ?_
  refine bind (atHand_of_does (· = row.id) does_readFromBackup) fun source => ?_
  refine bind (hupload source) fun uploadId => bind hcount fun _ => ?_
  refine bind (settled_of_does (· = row.id) (when fun _ => does_favorite name uploadId))
    fun _ => ?_
  exact triple_pure _ fun _ hw => hw.1

/-- One out of the trash is counted before its details are written. -/
theorem restoreTrashed_books (doc : DecryptedDocument) (documentMeta : DocumentMeta)
    (row : DocumentResponse) (mapped : Option (Option Utf16)) (name : Utf16) :
    Triple (AtHand total left) (restoreTrashed env doc documentMeta row mapped name)
      (fun _ => Books total left 0) (Fails total left) := by
  have hcount : Triple (AtHand total left) countRestoredFromTrash
      (fun _ => Settled total left) (Fails total left) := by
    refine triple_modify fun w hw => ⟨⟨?_, hw.1.total, hw.1.uploaded, hw.1.left, hw.1.held⟩, rfl⟩
    have hadds := hw.1.adds
    simp only [counted] at hadds ⊢
    omega
  refine bind (atHand_of_does (fun _ => False) (does_sendWrite (does_restoreDocument _)))
    fun refusal => bind (triple_throwAny _) fun _ => bind hcount fun _ => ?_
  refine bind (settled_of_does (fun _ => False) (does_applyDetails _ _ _ _ _)) fun _ => ?_
  exact triple_pure _ fun _ hw => hw.1

theorem overwriteEntry_books (doc : DecryptedDocument) (documentMeta : DocumentMeta)
    (row : DocumentResponse) (mapped : Option (Option Utf16)) (name : Utf16) :
    Triple (AtHand total left) (overwriteEntry env doc documentMeta row mapped name)
      (fun _ => Books total left 0) (Fails total left) := by
  refine bind (atHand_of_does (fun _ => False) (does_applyDetails _ _ _ _ _))
    fun changed => ?_
  cases changed with
  | true => exact countUpdated_books
  | false => exact countAlreadyPresent_books

/-- Whichever way the conflict is settled, the entry is counted once. -/
theorem restoreMatched_books (plan : Plan) (usage : DocumentUsage) (documentMeta : DocumentMeta)
    (row : DocumentResponse) (name : Utf16) :
    Triple (AtHand total left) (restoreMatched env plan usage documentMeta row name)
      (fun _ => Books total left 0) (Fails total left) := by
  unfold restoreMatched
  split
  · exact uploadEntry_books _ _ _ _ _ _
  · next doc _ =>
    by_cases hdeleted : doc.deletedAt.isSome
    · rw [if_pos hdeleted]
      exact bind (restoreTrashed_books _ _ _ _ _) fun _ => triple_pure _ fun _ => id
    · rw [if_neg hdeleted]
      cases plan.conflictStrategy with
      | skip => exact bind countAlreadyPresent_books fun _ => triple_pure _ fun _ => id
      | overwrite => exact bind (overwriteEntry_books _ _ _ _ _) fun _ => triple_pure _ fun _ => id
      | keepBoth => exact uploadEntry_books _ _ _ _ _ _

theorem books_of_does {α : Type} {a : Step α} (ha : Does (Quiet fun _ => False) Plain a) :
    Triple (Books total left 0) a (fun _ => Books total left 0) (fun _ => Books total 0 0) :=
  (ha.triple fun _ _ hquiet hw => hw.quiet hquiet).weaken (fun _ => id) (fun _ _ => id)
    fun _ _ hw => hw.1.none_left

/-- Each entry is counted once, or stops the run and stays one that was not attempted. -/
theorem restoreEntry_books (plan : Plan) (usage : DocumentUsage)
    (entry : DocumentResponse × Option DocumentMeta) :
    Triple (Books total (left + 1) 0) (restoreEntry env plan usage entry)
      (fun _ => Books total left 0) (fun _ => Books total 0 0) := by
  have hstop (thrown : Thrown) : Triple (Fails total left thrown)
      (do countStopped; throw thrown : Step DocumentUsage)
      (fun _ => Books total left 0) (fun _ => Books total 0 0) :=
    bind (countStopped_books thrown) fun _ => triple_throw _ fun _ => id
  refine bind (books_of_does does_throwIfInterrupted) fun _ => bind attemptEntry_books fun _ => ?_
  split
  · exact bind (countNotRestored_books _ _) fun _ => triple_pure _ fun _ => id
  · refine tryCatch (restoreMatched_books _ _ _ _ _) fun thrown => ?_
    cases thrown with
    | notRestored reason =>
      refine bind ?_ fun _ => triple_pure _ fun _ => id
      refine (countNotRestored_books _ reason).weaken (fun w hw => ?_) (fun _ _ => id) fun _ _ => id
      rcases hw with hw | hw
      · exact hw
      · exact absurd rfl (hw.2 reason)
    | jobStop stop message | refused refusal | uploadStopped message cause => exact hstop _

/-- Entry by entry: those left are not attempted. -/
theorem restoreEntries_books (plan : Plan) (entries : List (DocumentResponse × Option DocumentMeta))
    (usage : DocumentUsage) : Triple (Books total entries.length 0)
      (entries.foldlM (restoreEntry env plan) usage) (fun _ => Books total 0 0)
      (fun _ => Books total 0 0) :=
  triple_foldlM_left (P := fun left => Books total left 0)
    (fun usage entry _ _ => restoreEntry_books plan usage entry) usage

theorem does_fetchDocuments : Harmless ids (fetchDocuments env) :=
  bind (does_request fun _ _ => id) fun _ => bind does_get fun _ => does_pure _

theorem does_fetchTrash : Harmless ids (fetchTrash env) :=
  bind (does_request fun _ _ => id) fun _ => bind does_get fun _ => does_pure _

theorem does_getDocumentUsage : Harmless ids (getDocumentUsage env) :=
  bind (does_request fun _ _ => id) fun _ => does_pure _

variable {Key : Type} (p : Primitives Key) (formats : Formats)

variable (options : RestoreDocumentsOptions)

theorem length_entries :
    (options.entries p formats).length = options.backup.manifest.documents.length :=
  length_map _

/-- Wherever the run stops. -/
theorem run_books :
    Triple (Books total options.backup.manifest.documents.length 0) (run p formats env options)
      (fun _ => Books total 0 0) (fun _ => Books total 0 0) := by
  unfold run
  dsimp only
  split
  · exact triple_pure _ fun _ => Books.none_left
  · split
    · exact triple_throw _ fun _ => Books.none_left
    · next config _ =>
      refine bind (books_of_does (when fun _ => does_throw (plain_jobStop _ _)))
        fun _ => ?_
      refine bind (books_of_does (does_sendWithRetries does_fetchDocuments))
        fun documents => ?_
      refine bind (books_of_does (does_sendWithRetries does_fetchTrash)) fun trash => ?_
      refine bind (books_of_does (does_sendWithRetries does_getDocumentUsage))
        fun usage => ?_
      refine bind (books_of_does does_throwIfInterrupted) fun _ => ?_
      refine bind (books_of_does (when fun _ => does_note _)) fun _ => ?_
      refine bind (books_of_does does_loadUploadRecovery) fun _ => ?_
      refine bind ?_ fun _ => triple_pure _ fun _ => id
      rw [← length_entries p formats options]
      exact restoreEntries_books _ _ _

/-- The books are right however the restore ends. -/
theorem restoreFullBackupDocuments_books :
    Triple (Books total options.backup.manifest.documents.length 0)
      (restoreFullBackupDocuments p formats env options) (fun _ => Books total 0 0)
      (fun _ => Books total 0 0) := by
  refine tryCatch (run_books p formats options) fun thrown => ?_
  refine bind (triple_get fun _ => id) fun w => ?_
  refine bind (books_of_does (when fun _ => does_cancelUpload)) fun _ => ?_
  exact triple_modify fun _ hw => ⟨hw.adds, hw.total, hw.uploaded, hw.left, hw.held⟩

end Books

/-! ## The same restore once more -/

/-- No upload was started for this document. -/
def Unstarted (backupId : Utf16) (w : World) : Prop := backupId ∉ w.started

/-- The program starts no upload for this document. -/
def NeverStarts {α : Type} (backupId : Utf16) (a : Step α) : Prop :=
  Triple (Unstarted backupId) a (fun _ => Unstarted backupId) (fun _ => Unstarted backupId)

section Again

variable {env : Surroundings} {backupId : Utf16} {α β : Type}

theorem neverStarts_pure (x : α) : NeverStarts backupId (pure x : Step α) :=
  triple_pure x fun _ => id

theorem neverStarts_throw (thrown : Thrown) : NeverStarts backupId (throw thrown : Step α) :=
  triple_throw thrown fun _ => id

theorem NeverStarts.bind {a : Step α} {f : α → Step β} (ha : NeverStarts backupId a)
    (hf : ∀ x, NeverStarts backupId (f x)) : NeverStarts backupId (a >>= f) :=
  Triple.bind ha hf

theorem neverStarts_of_does {T : Thrown → Prop} {a : Step α} (hids : ¬ ids backupId)
    (ha : Does (Quiet ids) T a) : NeverStarts backupId a :=
  (ha.triple fun _ _ hquiet hw hstarted => (hquiet.started _ hstarted).elim hw hids).weaken
    (fun _ => id) (fun _ _ => id) fun _ _ hw => hw.1

/-- First something that starts no upload at all. -/
theorem NeverStarts.after {T : Thrown → Prop} {a : Step α} {f : α → Step β}
    (ha : Does (Quiet fun _ => False) T a) (hf : ∀ x, NeverStarts backupId (f x)) :
    NeverStarts backupId (a >>= f) := (neverStarts_of_does not_false ha).bind hf

theorem neverStarts_countUploaded (row : DocumentResponse) :
    NeverStarts backupId (countUploaded row.id) := triple_modify fun _ => id

theorem neverStarts_countRestoredFromTrash : NeverStarts backupId countRestoredFromTrash :=
  triple_modify fun _ => id

theorem neverStarts_countAlreadyPresent : NeverStarts backupId countAlreadyPresent :=
  triple_modify fun _ => id

theorem neverStarts_countNotRestored (name reason : Utf16) :
    NeverStarts backupId (countNotRestored name reason) := triple_modify fun _ => id

theorem neverStarts_attemptEntry : NeverStarts backupId attemptEntry := triple_modify fun _ => id

theorem neverStarts_countStopped : NeverStarts backupId countStopped :=
  triple_modify fun w hw => by
    split_ifs
    · exact hw
    · exact hw

theorem neverStarts_throwAny (thrown : Option Thrown) :
    NeverStarts backupId (throwAny thrown) := by
  cases thrown with
  | none => exact neverStarts_pure _
  | some thrown => exact neverStarts_throw _

/-- The upload of another document. -/
theorem neverStarts_uploadEntry (config : DocumentsConfig) (usage : DocumentUsage)
    (documentMeta : DocumentMeta) {row : DocumentResponse} (mapped : Option (Option Utf16))
    (name : Utf16) (hother : backupId ≠ row.id) :
    NeverStarts backupId (uploadEntry env config usage documentMeta row mapped name) := by
  have hupload (source : Blob) : Does (Quiet (· = row.id)) AnyThrown
      (uploadOnce env (uploadInput documentMeta row mapped source) name) := by
    have hid : (· = row.id) (uploadInput documentMeta row mapped source).restored.fromId := rfl
    exact does_uploadOnce hid name
  refine NeverStarts.bind (neverStarts_throwAny _) fun _ => ?_
  refine NeverStarts.after does_readFromBackup fun source => ?_
  refine NeverStarts.bind (neverStarts_of_does hother (hupload source)) fun uploadId => ?_
  refine NeverStarts.bind (neverStarts_countUploaded row) fun _ => ?_
  exact NeverStarts.after (when fun _ => does_favorite name uploadId) fun _ =>
    neverStarts_pure _

theorem neverStarts_restoreTrashed (doc : DecryptedDocument) (documentMeta : DocumentMeta)
    (row : DocumentResponse) (mapped : Option (Option Utf16)) (name : Utf16) :
    NeverStarts backupId (restoreTrashed env doc documentMeta row mapped name) := by
  refine NeverStarts.after (does_sendWrite (does_restoreDocument _))
    fun refusal => NeverStarts.bind (neverStarts_throwAny _) fun _ => ?_
  refine NeverStarts.bind neverStarts_countRestoredFromTrash fun _ => ?_
  exact NeverStarts.after (does_applyDetails _ _ _ _ _) fun _ => neverStarts_pure _

/-- A document that is matched is not uploaded. -/
theorem neverStarts_restoreMatched {plan : Plan} (hskip : plan.conflictStrategy = .skip)
    (hmatch : matching plan.docs backupId ≠ none) (usage : DocumentUsage)
    (documentMeta : DocumentMeta) (row : DocumentResponse) (name : Utf16) :
    NeverStarts backupId (restoreMatched env plan usage documentMeta row name) := by
  unfold restoreMatched
  split
  · next hnone =>
    refine neverStarts_uploadEntry _ _ _ _ _ fun hid => ?_
    rw [hid] at hmatch
    exact hmatch hnone
  · next doc _ =>
    by_cases hdeleted : doc.deletedAt.isSome
    · rw [if_pos hdeleted]
      exact NeverStarts.bind (neverStarts_restoreTrashed _ _ _ _ _) fun _ => neverStarts_pure _
    · rw [if_neg hdeleted, hskip]
      exact NeverStarts.bind neverStarts_countAlreadyPresent fun _ => neverStarts_pure _

/-- Whatever becomes of the entry. -/
theorem neverStarts_restoreEntry {plan : Plan} (hskip : plan.conflictStrategy = .skip)
    (hmatch : matching plan.docs backupId ≠ none) (usage : DocumentUsage)
    (entry : DocumentResponse × Option DocumentMeta) :
    NeverStarts backupId (restoreEntry env plan usage entry) := by
  have hstop (thrown : Thrown) :
      NeverStarts backupId (do countStopped; throw thrown : Step DocumentUsage) :=
    NeverStarts.bind neverStarts_countStopped fun _ => neverStarts_throw _
  refine NeverStarts.after does_throwIfInterrupted fun _ => ?_
  refine NeverStarts.bind neverStarts_attemptEntry fun _ => ?_
  split
  · exact NeverStarts.bind (neverStarts_countNotRestored _ _) fun _ => neverStarts_pure _
  · refine tryCatch (neverStarts_restoreMatched hskip hmatch _ _ _ _) fun thrown => ?_
    cases thrown with
    | notRestored reason =>
      exact NeverStarts.bind (neverStarts_countNotRestored _ _) fun _ => neverStarts_pure _
    | jobStop stop message | refused refusal | uploadStopped message cause => exact hstop _

/-- Among the documents a run looks at there is a match for what was restored. -/
theorem matching_ne_none {account docs : List DecryptedDocument} (hheld : Held backupId account)
    (hdocs : ∀ doc ∈ account, doc.purgePending ≠ some true → doc ∈ docs) :
    matching docs backupId ≠ none := by
  obtain ⟨doc, hdoc, hpurge, hfrom⟩ := hheld
  unfold matching
  intro hnone
  rw [or_eq_none_iff] at hnone
  have hmiss := find?_eq_none.1 hnone.2 doc (hdocs doc hdoc hpurge)
  simp [hfrom] at hmiss

/-- The account is as it was, and no upload was started for the document. -/
def Untouched (backupId : Utf16) (account : List DecryptedDocument) (w : World) : Prop :=
  w.account = account ∧ Unstarted backupId w

variable {account : List DecryptedDocument}

theorem timeless_untouched : Timeless (Untouched backupId account) := fun _ _ => id

/-- A request that changes nothing. -/
theorem untouched_of_request : Triple (Untouched backupId account) (request env id)
    (fun _ => Untouched backupId account) (fun e w => Untouched backupId account w ∧ Plain e) := by
  refine bind (triple_tick timeless_untouched) fun now => ?_
  cases env.request now with
  | none => exact triple_modify fun _ => id
  | some outcome =>
    refine bind (Q := fun _ => Untouched backupId account)
      (when (fun _ => triple_modify fun _ => id) fun _ _ => id) fun _ => ?_
    exact triple_throw _ fun _ hw => ⟨hw, plain_refused _⟩

/-- What was fetched holds all the documents that it lists. -/
theorem triple_fetch (select : DecryptedDocument → Bool) :
    Triple (Untouched backupId account)
      (sendWithRetries env (do
        request env id
        return env.order ((← get).account.filter select)))
      (fun docs w => Untouched backupId account w ∧ ∀ doc ∈ account, select doc → doc ∈ docs)
      (fun _ => Unstarted backupId) := by
  refine (triple_sendWithRetries timeless_untouched ?_).weaken (fun _ => id) (fun _ _ => id)
    fun _ _ hw => hw.1.2
  refine bind untouched_of_request fun _ => ?_
  refine bind (Q := fun w₀ w => w = w₀ ∧ Untouched backupId account w)
    (triple_get fun _ hw => ⟨rfl, hw⟩) fun w₀ => triple_pure _ fun w hw => ?_
  obtain ⟨rfl, haccount, hunstarted⟩ := hw
  refine ⟨⟨haccount, hunstarted⟩, fun doc hdoc hselect => ?_⟩
  rw [haccount]
  exact (env.order_perm _).mem_iff.2 (mem_filter.2 ⟨hdoc, hselect⟩)


/-- With skip, a run uploads nothing that the account has. -/
theorem run_unstarted {Key : Type} (p : Primitives Key) (formats : Formats)
    {options : RestoreDocumentsOptions} (hskip : options.conflictStrategy = .skip)
    (hheld : Held backupId account) :
    Triple (Untouched backupId account) (run p formats env options)
      (fun _ => Unstarted backupId) (fun _ => Unstarted backupId) := by
  unfold run
  dsimp only
  split
  · exact triple_pure _ fun _ hw => hw.2
  · split
    · exact triple_throw _ fun _ hw => hw.2
    · next config _ =>
      refine bind (Q := fun _ => Untouched backupId account)
        (when (fun _ => triple_throw _ fun _ hw => hw.2) fun _ _ => id) fun _ => ?_
      refine bind (triple_fetch fun doc => doc.deletedAt.isNone) fun documents => ?_
      have hlisted (trash : List DecryptedDocument) : (∀ doc ∈ account, doc.deletedAt.isNone →
          doc ∈ documents) → (∀ doc ∈ account, doc.deletedAt.isSome → doc ∈ trash) →
          ∀ doc ∈ account, doc.purgePending ≠ some true →
            doc ∈ (documents ++ trash).filter fun doc => doc.purgePending ≠ some true := by
        intro hlive htrash doc hdoc hpurge
        refine mem_filter.2 ⟨mem_append.2 ?_, by simpa using hpurge⟩
        cases hdeleted : doc.deletedAt with
        | none => exact .inl (hlive doc hdoc (by rw [hdeleted]; rfl))
        | some deletedAt => exact .inr (htrash doc hdoc (by rw [hdeleted]; rfl))
      refine weaken (of_pure fun hlive => ?_)
        (fun _ hw => ⟨hw.2, hw.1⟩) (fun _ _ => id) fun _ _ => id
      refine bind (triple_fetch fun doc => doc.deletedAt.isSome) fun trash => ?_
      refine weaken (of_pure fun htrash => ?_)
        (fun _ hw => ⟨hw.2, hw.1.2⟩) (fun _ _ => id) fun _ _ => id
      have hmatch := matching_ne_none hheld (hlisted trash hlive htrash)
      refine NeverStarts.after (does_sendWithRetries does_getDocumentUsage) fun usage => ?_
      refine NeverStarts.after does_throwIfInterrupted fun _ => ?_
      refine NeverStarts.after (when fun _ => does_note _) fun _ => ?_
      refine NeverStarts.after does_loadUploadRecovery fun _ => ?_
      refine NeverStarts.bind (triple_foldlM (fun usage entry _ => ?_) usage) fun _ =>
        neverStarts_pure _
      exact neverStarts_restoreEntry hskip hmatch usage entry

/-- However the restore ends. -/
theorem restoreFullBackupDocuments_unstarted {Key : Type} (p : Primitives Key) (formats : Formats)
    {options : RestoreDocumentsOptions} (hskip : options.conflictStrategy = .skip)
    (hheld : Held backupId account) :
    Triple (Untouched backupId account) (restoreFullBackupDocuments p formats env options)
      (fun _ => Unstarted backupId) (fun _ => Unstarted backupId) := by
  refine tryCatch (run_unstarted p formats hskip hheld) fun thrown => ?_
  refine bind (triple_get fun _ => id) fun w => ?_
  refine NeverStarts.after (when fun _ => does_cancelUpload) fun _ => ?_
  exact triple_modify fun _ => id

end Again

/-- A restore counts every document of the backup, and one more with skip uploads none of those that
it uploaded. -/
theorem restored_adds_up {Key : Type} (p : Primitives Key) (formats : Formats)
    (env env' : Surroundings) (options options' : RestoreDocumentsOptions)
    (account : List DecryptedDocument) :
    let first := restored p formats env options account
    let second := restored p formats env' { options' with conflictStrategy := .skip } first.account
    first.report.total = options.backup.manifest.documents.length
      ∧ first.report.uploaded + first.report.restoredFromTrash + first.report.updated
          + first.report.alreadyPresent + first.report.notRestored.length
          + first.report.notAttempted = first.report.total
      ∧ first.report.uploaded = first.completed.length
      ∧ List.Disjoint first.completed second.started := by
  intro first second
  have hstart : Books options.backup.manifest.documents.length
      options.backup.manifest.documents.length 0
      { report := reportFor options.backup.manifest, account } := by
    constructor
    · simp [counted, reportFor]
    · rfl
    · rfl
    · exact Nat.le_refl _
    · intro backupId hmem
      cases hmem
  have hbooks : Books options.backup.manifest.documents.length 0 0 first :=
    (restoreFullBackupDocuments_books p formats options).post hstart
  refine ⟨hbooks.total, hbooks.total ▸ hbooks.adds, hbooks.uploaded, fun backupId hfirst => ?_⟩
  have hheld := hbooks.held backupId hfirst
  have hunstarted : Unstarted backupId second :=
    (restoreFullBackupDocuments_unstarted p formats rfl hheld).post
      ⟨rfl, not_mem_nil⟩
  exact hunstarted

end HVault.FullRestore
