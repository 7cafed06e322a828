import HVault.Interleave.Steps
import HVault.Vault.Quota

/-!
# Laws of the counted operations

A counted operation writes at most one row; every other access of it reads or moves a counter. So
a law of single accesses that lets the counters move (`AllowsCounting`) holds of the whole
operation once it holds of that one write.
-/

namespace HVault

open Interleave Prog

variable {K α : Type} {T : Site → Store K → Store K → Prop} {quota : ℤ}

/-- A law that allows every access which leaves the rows alone. -/
def AllowsCounting (T : Site → Store K → Store K → Prop) : Prop :=
  ∀ l s s', s'.rows = s.rows → T l s s'

theorem rows_updateUser (filter : User → Bool) (update : User → User) (s : Store K) :
    (s.updateUser filter update).2.rows = s.rows := by
  rcases s.updateUser_cases filter update with ⟨heq, -⟩ | ⟨u, -, -, heq⟩
  · rw [heq]
  · rw [heq]

theorem AllowsCounting.readsAt (hT : AllowsCounting T) {p : Req K α} {site : Site}
    (hp : p.ReadsAt site) : p.Each (fun _ => True) T :=
  hp.each fun _ _ => hT _ _ _ rfl

theorem AllowsCounting.read (hT : AllowsCounting T) (site : Site) (f : Store K → α) :
    (Prog.read site f : Req K α).Each (fun _ => True) T := hT.readsAt readsAt_read

theorem AllowsCounting.reserve (hT : AllowsCounting T) (want : Reservation) :
    (reserveVaultWrite quota want).Each (fun _ => True) T := by
  unfold reserveVaultWrite
  generalize reserveAttemptCount = n
  generalize (none : Option VaultError) = last
  induction n generalizing last with
  | zero => exact trivial
  | succ n ih =>
    refine Prog.Each.bind (each_db fun s _ => hT _ _ _ (rows_updateUser _ _ s)) fun matched => ?_
    split
    · exact trivial
    · refine Prog.Each.bind (hT.read _ _) fun stored => ?_
      cases stored with
      | none => exact trivial
      | some counters =>
        dsimp only
        cases installed? counters with
        | none =>
          refine Prog.Each.bind ?_ fun _ => ih last
          refine Prog.Each.bind (Prog.Each.bind (hT.read _ _) fun _ =>
            Prog.Each.bind (hT.read _ _) fun _ => trivial) fun totals => ?_
          exact Prog.Each.bind (each_db fun s _ => hT _ _ _ (rows_updateUser _ _ s))
            fun _ => trivial
        | some stored =>
          dsimp only
          cases refusalOf quota want stored with
          | some refusal => exact trivial
          | none => exact ih _

theorem AllowsCounting.settle (hT : AllowsCounting T) (reservation : Reservation)
    (actual : Counts) : (settleVaultWrite reservation actual).Each (fun _ => True) T := by
  refine Prog.Each.bind (Prog.Each.attempt ?_) fun _ => trivial
  unfold addVaultCounts
  split
  · exact trivial
  · exact each_db fun s _ => hT _ _ _ (rows_updateUser _ _ s)

theorem AllowsCounting.releaseOnFailure (hT : AllowsCounting T) (reservation : Reservation)
    (e : VaultError) :
    (releaseOnDefiniteFailure reservation e : Req K α).Each (fun _ => True) T := by
  unfold releaseOnDefiniteFailure
  split
  · exact (hT.settle reservation _).bind fun _ => trivial
  · exact trivial

/-- A create, whose one write of a row the law allows. -/
theorem AllowsCounting.create (hT : AllowsCounting T) {key : RowKey}
    {fields : Field → Option Bson} {sealedUnder : K}
    (hinsert : ∀ s, T .insertRow s (s.insertRow key fields sealedUnder).2) :
    (createCountedRow quota key fields sealedUnder).Each (fun _ => True) T := by
  refine (hT.reserve _).bind fun reservation => ?_
  refine (Prog.Each.attempt (each_db fun s _ => hinsert s)).bind fun created => ?_
  rcases created with e | (_ | row)
  · exact hT.releaseOnFailure reservation e
  · exact hT.releaseOnFailure reservation .duplicateId
  · exact (hT.settle _ _).bind fun _ => trivial

/-- An update, whose one write of a row the law allows. -/
theorem AllowsCounting.update (hT : AllowsCounting T) {key : RowKey} {update : CountedUpdate K}
    {beforeWrite : Req K Unit} (hreads : beforeWrite.ReadsAt .readAccount)
    (hwrite : ∀ l filter s, T l s (s.updateRow key filter fun now row => row.written update now).2)
    (hplace : ∀ l filter s, T l s (s.updateRow key filter fun now row => row.placed update now).2) :
    (updateCountedRow quota key update beforeWrite).Each (fun _ => True) T := by
  unfold updateCountedRow
  split
  · generalize pinnedUpdateAttempts = n
    generalize (none : Option RowMeasure) = first
    induction n generalizing first with
    | zero => exact trivial
    | succ n ih =>
      refine Prog.Each.bind (hT.read _ _) fun measured => ?_
      cases measured with
      | none => exact trivial
      | some measure =>
        dsimp only
        split
        · refine (hT.readsAt hreads).bind fun _ => (hT.reserve _).bind fun reservation => ?_
          refine (Prog.Each.attempt (each_db fun s _ => hwrite _ _ s)).bind fun after => ?_
          rcases after with e | (_ | row)
          · exact hT.releaseOnFailure reservation e
          · exact (hT.settle _ _).bind fun _ => ih _
          · exact (hT.settle _ _).bind fun _ => trivial
        · exact trivial
  · exact each_db fun s _ => hplace _ _ s

theorem AllowsCounting.withdraw (hT : AllowsCounting T) {key : RowKey} {createdAt : Option ℕ}
    (hdelete : ∀ filter s, T .deleteRow s (s.deleteRow key filter).2) (accountLive : Bool) :
    (withdrawCountedRow quota key createdAt accountLive).Each (fun _ => True) T := by
  have hdeleted : ∀ filter, (deleteCountedRow key filter).Each (fun _ => True) T := fun filter =>
    each_db fun s _ => hdelete filter s
  cases accountLive with
  | true =>
    refine (hT.reserve _).bind fun reservation => (hdeleted _).bind fun gone => ?_
    cases gone with
    | none | some row => exact (hT.settle _ _).bind fun _ => trivial
  | false => exact (hdeleted _).bind fun _ => trivial

end HVault
