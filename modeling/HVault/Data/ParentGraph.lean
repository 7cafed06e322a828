import Mathlib.Data.Finset.Card

/-!
# Rows that name a parent

Stored rows, each of which may name one other row as its parent. Whoever writes such rows has to
keep them from closing a loop, and the writer that checks and the writer that closes it need not
be the same one. This module has

* the ancestor relation `Reaches` and `Looped`, with what holds because a row names at most one
  parent;
* `Guarded`, the invariant of writers that look for the loop after they wrote: every loop passes
  a row somebody is still going to look at. Each way a write may change the rows has its rule;
* `graphLookup`, the bounded walk a database makes along the parents, and how far it must be
  allowed to go to find every loop.
-/

namespace ParentGraph

open Relation List

variable {α : Type}

/-- The rows by id: `none` where no row is stored, else the parent the row names, if any. -/
abbrev Parents (α : Type) := α → Option (Option α)

variable {g g' : Parents α} {a b c p x y : α}

/-- `a` is stored and names `b` as its parent. -/
def Names (g : Parents α) (a b : α) : Prop := g a = some (some b)

/-- `b` is `a` itself or an ancestor of it. -/
def Reaches (g : Parents α) : α → α → Prop := ReflTransGen (Names g)

/-- `a` is its own ancestor. -/
def Looped (g : Parents α) (a : α) : Prop := TransGen (Names g) a a

/-- No row is its own ancestor. -/
def Acyclic (g : Parents α) : Prop := ∀ a, ¬ Looped g a

theorem Names.unique (hb : Names g a b) (hc : Names g a c) : b = c := by
  have h : some (some b) = some (some c) := hb.symm.trans hc
  injection h with h
  injection h

theorem Names.reaches (h : Names g a b) : Reaches g a b := .single h

/-! ## Loops -/

/-- A looped row names a parent, and the way on from there leads back. -/
theorem Looped.names (h : Looped g a) : ∃ b, Names g a b ∧ Reaches g b a :=
  TransGen.head'_iff.1 h

theorem looped_of_names (h : Names g a b) (hback : Reaches g b a) : Looped g a :=
  TransGen.head'_iff.2 ⟨b, h, hback⟩

/-- From a looped row there is only the loop. -/
theorem Looped.reaches (h : Looped g a) (hb : Reaches g a b) : Looped g b ∧ Reaches g b a := by
  induction hb with
  | refl => exact ⟨h, .refl⟩
  | @tail b c hab hbc ih =>
    obtain ⟨hloop, hback⟩ := ih
    obtain ⟨c', hbc', hcb⟩ := hloop.names
    have hcc : c' = c := hbc'.unique hbc
    subst hcc
    have hloopc : Looped g c' := TransGen.tail' hcb hbc
    exact ⟨hloopc, hcb.trans hback⟩

/-- A way whose edges are all in another graph is a way there. -/
theorem Reaches.map (h : Reaches g a b)
    (hsame : ∀ x y, Reaches g a x → Names g x y → Names g' x y) : Reaches g' a b := by
  induction h with
  | refl => exact .refl
  | tail hab hbc ih => exact ih.tail (hsame _ _ hab hbc)

/-- A loop whose edges are all in another graph is a loop there. -/
theorem Looped.map (h : Looped g a)
    (hsame : ∀ x y, Reaches g a x → Names g x y → Names g' x y) : Looped g' a := by
  obtain ⟨b, hab, hba⟩ := h.names
  refine looped_of_names (hsame a b .refl hab) ?_
  apply Reaches.map hba
  intro x y hx hxy
  exact hsame x y (hab.reaches.trans hx) hxy

/-- If a loop of `g'` was there in `g`, what `g` leads to from it is on the loop. -/
theorem Looped.reaches_back (h : Looped g' a)
    (hsame : ∀ x y, Reaches g' a x → Names g' x y → Names g x y) (hb : Reaches g a b) :
    Reaches g' a b := by
  induction hb with
  | refl => exact .refl
  | @tail x y _ hxy ih =>
    -- `x` is on the loop, so it names something there, and it names only one
    obtain ⟨y', hxy', -⟩ := (h.reaches ih).1.names
    have hyy : y' = y := (hsame x y' ih hxy').unique hxy
    subst hyy
    exact ih.tail hxy'

/-! ## Loops somebody is going to look at -/

/-- Every loop passes a row in `P`. -/
def Guarded (g : Parents α) (P : α → Prop) : Prop :=
  ∀ a, Looped g a → ∃ b, P b ∧ Reaches g a b

variable {P P' : α → Prop}

theorem Acyclic.guarded (h : Acyclic g) : Guarded g P := fun a ha => (h a ha).elim

/-- With nothing left to look at there is no loop left. -/
theorem Guarded.acyclic (h : Guarded g P) (hP : ∀ b, ¬ P b) : Acyclic g := by
  intro a ha
  obtain ⟨b, hb, -⟩ := h a ha
  exact hP b hb

/-- The rule behind the others: a loop is guarded, or it was there before with every edge. -/
theorem Guarded.of_loops (h : Guarded g P)
    (hloops : ∀ a, Looped g' a → (∃ b, P' b ∧ Reaches g' a b) ∨
      (∀ b, Reaches g' a b → P b → P' b) ∧
        ∀ x y, Reaches g' a x → Names g' x y → Names g x y) :
    Guarded g' P' := by
  intro a ha
  rcases hloops a ha with hguard | ⟨hP, hsame⟩
  · exact hguard
  · obtain ⟨b, hb, hab⟩ := h a (ha.map hsame)
    have hab' : Reaches g' a b := ha.reaches_back hsame hab
    exact ⟨b, hP b hab' hb, hab'⟩

/-- A row that is on no loop need not be looked at. -/
theorem Guarded.release (h : Guarded g P) (hsub : ∀ x y, Names g' x y → Names g x y)
    (hb : ¬ Looped g' b) (hP : ∀ x, P x → x ≠ b → P' x) : Guarded g' P' := by
  refine h.of_loops fun a ha => .inr ⟨fun x hax hx => ?_, fun x y _ hxy => hsub x y hxy⟩
  apply hP x hx
  intro hxb
  subst hxb
  exact hb (ha.reaches hax).1

/-- A writer may give any parent to a row it is going to look at. -/
theorem Guarded.write (h : Guarded g P) (hsub : ∀ x y, x ≠ b → Names g' x y → Names g x y)
    (hP : ∀ x, P x → P' x) (hb : P' b) : Guarded g' P' := by
  refine h.of_loops fun a ha => ?_
  by_cases hab : Reaches g' a b
  · exact .inl ⟨b, hb, hab⟩
  · refine .inr ⟨fun x _ hx => hP x hx, fun x y hax hxy => hsub x y ?_ hxy⟩
    intro hxb
    subst hxb
    exact hab hax

/-- Rows may be given one parent at once, none of them being above it. -/
theorem Guarded.move (h : Guarded g P)
    (hmove : ∀ x y, Names g' x y → Names g x y ∨ y = p ∧ ¬ Reaches g p x) : Guarded g' P := by
  -- what the new rows lead to from `p`, the old ones did
  have hold : ∀ z, Reaches g' p z → Reaches g p z := by
    intro z hz
    induction hz with
    | refl => exact .refl
    | @tail z w _ hzw ih =>
      rcases hmove z w hzw with hzw | ⟨rfl, -⟩
      · exact ih.tail hzw
      · exact .refl
  refine h.of_loops fun a ha => .inr ⟨fun _ _ hb => hb, fun x y hax hxy => ?_⟩
  rcases hmove x y hxy with hxy' | ⟨rfl, hnot⟩
  · exact hxy'
  · obtain ⟨y', hxy', hback⟩ := (ha.reaches hax).1.names
    have hyy : y' = y := hxy'.unique hxy
    subst hyy
    exact (hnot (hold x hback)).elim

/-! ## The bounded walk -/

section Lookup

variable [DecidableEq α]

/-- The walk of a `$graphLookup` along the parents, from `start` on: at most `n` more rows, none
of them twice, ending where the next row is not stored. -/
def graphLookup (g : Parents α) : ℕ → Option α → List α → List α
  | 0, _, found => found
  | _ + 1, none, found => found
  | n + 1, some a, found =>
    if a ∈ found then found
    else
      match g a with
      | none => found
      | some parent => graphLookup g n parent (found ++ [a])

/-- Everything the walk finds lies above its start. -/
theorem mem_graphLookup {n : ℕ} {start : Option α} {found : List α}
    (h : x ∈ graphLookup g n start found) :
    x ∈ found ∨ ∃ a, start = some a ∧ Reaches g a x := by
  induction n generalizing start found with
  | zero => exact .inl h
  | succ n ih =>
    cases start with
    | none => exact .inl h
    | some a =>
      rw [graphLookup] at h
      split at h
      · exact .inl h
      · cases hg : g a with
        | none =>
          rw [hg] at h
          exact .inl h
        | some parent =>
          rw [hg] at h
          rcases ih h with hx | ⟨b, rfl, hbx⟩
          · rcases mem_append.1 hx with hx | hx
            · exact .inl hx
            · rw [mem_singleton] at hx
              subst hx
              exact .inr ⟨x, rfl, .refl⟩
          · have hab : Names g a b := hg
            exact .inr ⟨a, rfl, hab.reaches.trans hbx⟩

theorem mem_graphLookup_of_found {n : ℕ} {start : Option α} {found : List α} (hx : x ∈ found) :
    x ∈ graphLookup g n start found := by
  induction n generalizing start found with
  | zero => exact hx
  | succ n ih =>
    cases start with
    | none => exact hx
    | some a =>
      rw [graphLookup]
      split
      · exact hx
      · cases g a with
        | none => exact hx
        | some parent => exact ih (mem_append_left _ hx)

/-- A set of rows the walk cannot leave: the parent of each of them is in it, is where the walk
goes next, or is not stored. -/
def ClosedBut (g : Parents α) (next : Option α) (found : List α) : Prop :=
  ∀ x ∈ found, ∀ y, Names g x y → (g y).isSome → y ∈ found ∨ next = some y

/-- With room for every stored row the walk ends in a closed set that holds its start. -/
theorem closed_graphLookup {rows : Finset α} (hrows : ∀ x, (g x).isSome → x ∈ rows) {n : ℕ}
    (start : Option α) {found : List α} (hnodup : found.Nodup) (hfound : ∀ x ∈ found, (g x).isSome)
    (hclosed : ClosedBut g start found) (hroom : rows.card ≤ n + found.length) :
    ClosedBut g none (graphLookup g n start found) ∧
      ∀ a, start = some a → (g a).isSome → a ∈ graphLookup g n start found := by
  induction n generalizing start found with
  | zero =>
    -- no room left, so everything stored has been found
    have hsub : found.toFinset ⊆ rows := by
      intro x hx
      exact hrows x (hfound x (mem_toFinset.1 hx))
    have hcard : found.toFinset.card = found.length := toFinset_card_of_nodup hnodup
    have hall : found.toFinset = rows := Finset.eq_of_subset_of_card_le hsub (by omega)
    have hmem : ∀ x, (g x).isSome → x ∈ found := by
      intro x hx
      rw [← mem_toFinset, hall]
      exact hrows x hx
    exact ⟨fun x _ y _ hy => .inl (hmem y hy), fun a _ ha => hmem a ha⟩
  | succ n ih =>
    cases start with
    | none => exact ⟨hclosed, nofun⟩
    | some a =>
      rw [graphLookup]
      by_cases ha : a ∈ found
      · rw [if_pos ha]
        refine ⟨fun x hx y hxy hy => ?_, fun b hb _ => ?_⟩
        · rcases hclosed x hx y hxy hy with hy' | hy'
          · exact .inl hy'
          · cases hy'
            exact .inl ha
        · cases hb
          exact ha
      · rw [if_neg ha]
        cases hg : g a with
        | none =>
          refine ⟨fun x hx y hxy hy => ?_, fun b hb hstored => ?_⟩
          · rcases hclosed x hx y hxy hy with hy' | hy'
            · exact .inl hy'
            · cases hy'
              rw [hg] at hy
              cases hy
          · cases hb
            rw [hg] at hstored
            cases hstored
        | some parent =>
          have hnodup' : (found ++ [a]).Nodup := by
            rw [nodup_append_comm]
            exact nodup_cons.2 ⟨ha, hnodup⟩
          have hfound' : ∀ x ∈ found ++ [a], (g x).isSome := by
            intro x hx
            rcases mem_append.1 hx with hx | hx
            · exact hfound x hx
            · rw [mem_singleton.1 hx, hg]
              rfl
          have hclosed' : ClosedBut g parent (found ++ [a]) := by
            intro x hx y hxy hy
            rcases mem_append.1 hx with hx | hx
            · rcases hclosed x hx y hxy hy with hy' | hy'
              · exact .inl (mem_append_left _ hy')
              · cases hy'
                exact .inl (mem_append_right _ mem_cons_self)
            · rw [mem_singleton.1 hx, Names, hg] at hxy
              exact .inr (Option.some.inj hxy)
          have hroom' : rows.card ≤ n + (found ++ [a]).length := by
            rw [length_append, length_singleton]
            omega
          obtain ⟨hend, hstart⟩ := ih parent hnodup' hfound' hclosed' hroom'
          refine ⟨hend, fun b hb _ => ?_⟩
          cases hb
          exact mem_graphLookup_of_found (mem_append_right _ mem_cons_self)

/-- **A walk with room for every stored row finds its own start exactly when that is looped.** -/
theorem mem_graphLookup_iff {rows : Finset α} (hrows : ∀ x, (g x).isSome → x ∈ rows) {n : ℕ}
    (hroom : rows.card ≤ n) {parent : Option α} (hg : g a = some parent) :
    a ∈ graphLookup g n parent [] ↔ Looped g a := by
  constructor
  · intro h
    rcases mem_graphLookup h with h | ⟨b, rfl, hba⟩
    · cases h
    · exact looped_of_names hg hba
  · intro h
    obtain ⟨b, hab, hba⟩ := h.names
    have hparent : parent = some b := Option.some.inj (hg.symm.trans hab)
    have hstored : ∀ z, Reaches g b z → (g z).isSome := by
      intro z hz
      obtain ⟨w, hw, -⟩ := (h.reaches (hab.reaches.trans hz)).1.names
      rw [hw]
      rfl
    obtain ⟨hclosed, hstart⟩ := closed_graphLookup hrows parent nodup_nil
      nofun nofun (by simpa using hroom)
    -- the walk holds `b` and, being closed, all that lies above it
    have hall : ∀ z, Reaches g b z → z ∈ graphLookup g n parent [] := by
      intro z hz
      induction hz with
      | refl => exact hstart b hparent (hstored b .refl)
      | @tail z w hbz hzw ih =>
        rcases hclosed z ih w hzw (hstored w (hbz.tail hzw)) with hw | hw
        · exact hw
        · cases hw
    exact hall a hba

end Lookup

end ParentGraph
