import HVault.Data.ParentGraph

/-!
# Levels of rows that name a parent

A row that names no parent is on the first level, any other one level below its parent. Rows that
are all on one of the first `bound` levels (`Leveled`) are a forest no deeper than that. Each way a
write may change the rows has its rule: lifting rows up, adding a row nobody names, taking such a
row away, and moving a row with all that is below it. For the last the rule is exact
(`leveled_move`, `ForestWithin.of_move`): what has to fit is the level of the new parent and the
height of what is moved.
-/

namespace ParentGraph

open Relation List Function ReflTransGen

variable {α : Type} {g g' : Parents α} {a b p x y : α} {k n m bound : ℕ}

/-- `a` is on level `n`, counted from the row at the top. -/
inductive Level (g : Parents α) : α → ℕ → Prop
  | root {a : α} (h : g a = some none) : Level g a 1
  | child {a b : α} {n : ℕ} (h : Names g a b) (hb : Level g b n) : Level g a (n + 1)

/-- `x` is `k` levels below `a`. -/
inductive Below (g : Parents α) : ℕ → α → α → Prop
  | refl (a : α) : Below g 0 a a
  | step {x y a : α} {k : ℕ} (h : Names g x y) (hy : Below g k y a) : Below g (k + 1) x a

/-- Every stored row is on one of the first `bound` levels. -/
def Leveled (bound : ℕ) (g : Parents α) : Prop := ∀ a, (g a).isSome → ∃ n ≤ bound, Level g a n

/-- No loop, and no row deeper than `bound` levels. -/
def ForestWithin (bound : ℕ) (g : Parents α) : Prop :=
  Acyclic g ∧ ∀ a n, Level g a n → n ≤ bound

/-! ## Levels -/

theorem Names.isSome (h : Names g a b) : (g a).isSome := by
  rw [show g a = some (some b) from h]
  rfl

theorem Level.isSome (h : Level g a n) : (g a).isSome := by
  cases h with
  | root h => simp [h]
  | child h _ => exact h.isSome

/-- A row is on one level only. -/
theorem Level.unique (h : Level g a n) (h' : Level g a m) : n = m := by
  induction h generalizing m with
  | @root a h =>
    cases h' with
    | root _ => rfl
    | child hb _ =>
      have hb : g a = some (some _) := hb
      simp [h] at hb
  | @child a b n hab _ ih =>
    cases h' with
    | root h =>
      have hab : g a = some (some b) := hab
      simp [h] at hab
    | child hab' hb' =>
      cases hab.unique hab'
      rw [ih hb']

/-- A row that names what another names is on its level. -/
theorem Level.congr (hlevel : Level g b n) (hab : g a = g b) : Level g a n := by
  cases hlevel with
  | root h => exact .root (hab.trans h)
  | child h hc => exact .child (hab.trans h) hc

/-- The level depends on the rows above only. -/
theorem Level.map (h : Level g a n) (hsame : ∀ x, Reaches g a x → g' x = g x) :
    Level g' a n := by
  induction h with
  | @root a h => exact .root ((hsame a .refl).trans h)
  | @child a b n hab _ ih =>
    have hab' : Names g' a b := (hsame a .refl).trans hab
    exact .child hab' (ih fun x hx => hsame x (hab.reaches.trans hx))

/-- What lies above is on a higher level. -/
theorem Level.above (h : Level g a n) (hab : TransGen (Names g) a b) : ∃ m < n, Level g b m := by
  induction h generalizing b with
  | @root a h =>
    obtain ⟨c, hac, -⟩ := TransGen.head'_iff.1 hab
    have hac : g a = some (some c) := hac
    simp [h] at hac
  | @child a c n hac hc ih =>
    obtain ⟨c', hac', hcb⟩ := TransGen.head'_iff.1 hab
    cases hac.unique hac'
    rcases reflTransGen_iff_eq_or_transGen.1 hcb with rfl | hcb
    · exact ⟨n, by omega, hc⟩
    · obtain ⟨m, hm, hlevel⟩ := ih hcb
      exact ⟨m, by omega, hlevel⟩

theorem Level.not_looped (h : Level g a n) : ¬ Looped g a := by
  intro hloop
  obtain ⟨m, hm, hlevel⟩ := h.above hloop
  have : n = m := h.unique hlevel
  omega

theorem Leveled.acyclic (h : Leveled bound g) : Acyclic g := by
  intro a hloop
  obtain ⟨b, hab, -⟩ := hloop.names
  obtain ⟨n, -, hlevel⟩ := h a hab.isSome
  exact hlevel.not_looped hloop

theorem Leveled.forestWithin (h : Leveled bound g) : ForestWithin bound g := by
  refine ⟨h.acyclic, fun a n hlevel => ?_⟩
  obtain ⟨m, hm, hlevel'⟩ := h a hlevel.isSome
  rwa [hlevel.unique hlevel']

/-- A parent that is named is stored. -/
theorem Leveled.isSome_of_names (h : Leveled bound g) (hab : Names g a b) : (g b).isSome := by
  obtain ⟨n, -, hlevel⟩ := h a hab.isSome
  cases hlevel with
  | root h =>
    have hab : g a = some (some b) := hab
    simp [h] at hab
  | child hab' hb =>
    cases hab.unique hab'
    exact hb.isSome

theorem Below.reaches (h : Below g k x a) : Reaches g x a := by
  induction h with
  | refl a => exact .refl
  | step h _ ih => exact h.reaches.trans ih

/-- What lies `k` levels below a row is on a level as much deeper. -/
theorem Below.level (h : Below g k x a) (ha : Level g a n) : Level g x (n + k) := by
  induction h with
  | refl a => exact ha
  | step h _ ih => exact .child h (ih ha)

/-- What is below a child is a step more below its parent. -/
theorem Below.of_child (h : Below g k x a) (hab : Names g a b) : Below g (k + 1) x b := by
  induction h with
  | refl a => exact .step hab (.refl b)
  | step hxy _ ih => exact .step hxy (ih hab)

/-- What is below a row is a child of it, or below one. -/
theorem Below.from_child (h : Below g (k + 1) x b) : ∃ a, Names g a b ∧ Below g k x a := by
  induction k generalizing x with
  | zero =>
    cases h with
    | step hxb hb =>
      cases hb
      exact ⟨x, hxb, .refl x⟩
  | succ k ih =>
    cases h with
    | step hxy hy =>
      obtain ⟨a, hab, hya⟩ := ih hy
      exact ⟨a, hab, .step hxy hya⟩

/-! ## Rows that move up -/

/-- A row keeps its parent, loses it, or names what its parent names. -/
def Lifts (g g' : Parents α) : Prop :=
  ∀ a q, g a = some q → g' a = some q ∨ g' a = some none ∨ ∃ b, q = some b ∧ g' a = g' b

theorem Level.lift (h : Level g a n) (hlift : Lifts g g') : ∃ m ≤ n, Level g' a m := by
  induction h with
  | @root a h =>
    have hroot : g' a = some none := by
      rcases hlift a none h with h | h | ⟨b, hb, -⟩
      · exact h
      · exact h
      · cases hb
    exact ⟨1, le_rfl, .root hroot⟩
  | @child a b n hab hb ih =>
    obtain ⟨m, hm, hlevel⟩ := ih
    rcases hlift a (some b) hab with h | h | ⟨c, hc, h⟩
    · exact ⟨m + 1, by omega, .child h hlevel⟩
    · exact ⟨1, by omega, .root h⟩
    · cases hc
      exact ⟨m, by omega, hlevel.congr h⟩

theorem Leveled.lift (h : Leveled bound g) (hlift : Lifts g g')
    (hstored : ∀ a, (g' a).isSome → (g a).isSome) : Leveled bound g' := by
  intro a ha
  obtain ⟨n, hn, hlevel⟩ := h a (hstored a ha)
  obtain ⟨m, hm, hlevel'⟩ := hlevel.lift hlift
  exact ⟨m, by omega, hlevel'⟩

/-! ## One row written -/

section Update

variable [DecidableEq α]

theorem Level.update (h : Level g x n) (hx : ¬ Reaches g x a) (v : Option (Option α)) :
    Level (update g a v) x n := by
  apply h.map
  intro y hy
  apply update_of_ne
  intro hya
  subst hya
  exact hx hy

theorem Leveled.erase (h : Leveled bound g) (hfree : ∀ x, ¬ Names g x a) :
    Leveled bound (update g a none) := by
  intro x hx
  have hxa : x ≠ a := by
    intro hxa
    simp [hxa] at hx
  rw [update_of_ne hxa] at hx
  obtain ⟨n, hn, hlevel⟩ := h x hx
  refine ⟨n, hn, hlevel.update (fun hreach => ?_) none⟩
  -- the last step of a way to `a` would name it
  rcases cases_tail_iff .. |>.1 hreach with hax | ⟨y, -, hy⟩
  · exact hxa hax.symm
  · exact hfree y hy

theorem Leveled.insert (h : Leveled bound g) (hnew : g a = none) {parent : Option α}
    (hparent : ∀ p, parent = some p → ∃ d < bound, Level g p d) (hbound : 1 ≤ bound) :
    Leveled bound (update g a (some parent)) := by
  have hkept : ∀ x n, Level g x n → Level (update g a (some parent)) x n := by
    intro x n hx
    apply hx.update
    -- nothing stored leads to a row that is not
    intro hreach
    rcases reflTransGen_iff_eq_or_transGen.1 hreach with hax | habove
    · have hstored := hx.isSome
      simp [← hax, hnew] at hstored
    · obtain ⟨m, -, hlevel⟩ := hx.above habove
      have hstored := hlevel.isSome
      simp [hnew] at hstored
  intro x hx
  by_cases hxa : x = a
  · subst hxa
    have hself : update g x (some parent) x = some parent := update_self ..
    cases parent with
    | none => exact ⟨1, hbound, .root hself⟩
    | some p =>
      obtain ⟨d, hd, hlevel⟩ := hparent p rfl
      exact ⟨d + 1, hd, .child hself (hkept p d hlevel)⟩
  · rw [update_of_ne hxa] at hx
    obtain ⟨n, hn, hlevel⟩ := h x hx
    exact ⟨n, hn, hkept x n hlevel⟩

/-- **A row moves with all that is below it**, to a parent that is not below it and high enough. -/
theorem leveled_move (h : Leveled bound g) {d : ℕ} (hp : Level g p d) (hpa : ¬ Reaches g p a)
    (ha : (g a).isSome) (hfits : ∀ x k, Below g k x a → d + (k + 1) ≤ bound) :
    Leveled bound (update g a (some (some p))) := by
  have hself : Names (update g a (some (some p))) a p := update_self ..
  have hmoved : Level (update g a (some (some p))) a (d + 1) :=
    .child hself (hp.update hpa _)
  -- a row keeps its level, or it is below `a` and moves along
  have hall : ∀ x n, Level g x n →
      Level (update g a (some (some p))) x n ∨
        ∃ k, Below g k x a ∧ Level (update g a (some (some p))) x (d + 1 + k) := by
    intro x n hx
    induction hx with
    | @root x hx =>
      by_cases hxa : x = a
      · subst hxa
        exact .inr ⟨0, .refl x, hmoved⟩
      · exact .inl (.root ((update_of_ne hxa ..).trans hx))
    | @child x y n hxy hy ih =>
      by_cases hxa : x = a
      · subst hxa
        exact .inr ⟨0, .refl x, hmoved⟩
      · have hxy' : Names (update g a (some (some p))) x y :=
          (update_of_ne hxa ..).trans hxy
        rcases ih with hlevel | ⟨k, hbelow, hlevel⟩
        · exact .inl (.child hxy' hlevel)
        · exact .inr ⟨k + 1, .step hxy hbelow, .child hxy' hlevel⟩
  intro x hx
  have hstored : (g x).isSome := by
    by_cases hxa : x = a
    · rwa [hxa]
    · rwa [update_of_ne hxa] at hx
  obtain ⟨n, hn, hlevel⟩ := h x hstored
  rcases hall x n hlevel with hlevel' | ⟨k, hbelow, hlevel'⟩
  · exact ⟨n, hn, hlevel'⟩
  · have hfit := hfits x k hbelow
    exact ⟨d + 1 + k, by omega, hlevel'⟩

theorem Reaches.update (h : Reaches g x a) (v : Option (Option α)) :
    Reaches (Function.update g a v) x a := by
  induction h using head_induction_on with
  | refl => exact .refl
  | @head x y hxy _ ih =>
    by_cases hxa : x = a
    · subst hxa
      exact .refl
    · have hxy' : Names (Function.update g a v) x y := (update_of_ne hxa ..).trans hxy
      exact hxy'.reaches.trans ih

/-- **The rule of `leveled_move` is exact**: rows that are a forest within the bound after the move
fitted before it. -/
theorem ForestWithin.of_move (hforest : ForestWithin bound (update g a (some (some p))))
    (hacyclic : Acyclic g) {d : ℕ} (hp : Level g p d) :
    ¬ Reaches g p a ∧ ∀ x k, Below g k x a → d + (k + 1) ≤ bound := by
  have hself : Names (update g a (some (some p))) a p := update_self ..
  have hpa : ¬ Reaches g p a := fun hreach =>
    hforest.1 a (looped_of_names hself (hreach.update _))
  refine ⟨hpa, fun x k hbelow => ?_⟩
  have hlevel : Level (update g a (some (some p))) x (d + 1 + k) := by
    induction hbelow with
    | refl a => exact .child hself (hp.update hpa _)
    | @step x y a k hxy hy ih =>
      have hxa : x ≠ a := by
        intro hxa
        subst hxa
        exact hacyclic x (looped_of_names hxy hy.reaches)
      have hxy' : Names (update g a (some (some p))) x y :=
        (update_of_ne hxa ..).trans hxy
      exact .child hxy' (ih hforest hself hpa)
  have hle := hforest.2 x _ hlevel
  omega

/-! ## The bounded walk -/

/-- With room for the level of its start, the walk finds the start and all that lies above. -/
theorem graphLookup_of_level (h : Level g b k) (hroom : k ≤ n) {found : List α}
    (hfound : ∀ x ∈ found, ¬ Reaches g b x) :
    ∃ up, graphLookup g n (some b) found = found ++ up ∧ up.length = k ∧
      ∀ x, Reaches g b x ↔ x ∈ up := by
  induction h generalizing n found with
  | @root b hb =>
    obtain ⟨n, rfl⟩ : ∃ m, n = m + 1 := ⟨n - 1, by omega⟩
    refine ⟨[b], ?_, rfl, fun x => ?_⟩
    · rw [graphLookup, if_neg fun hmem => hfound b hmem .refl, hb]
      cases n with
      | zero => rfl
      | succ n => rfl
    · rw [mem_singleton]
      constructor
      · intro hx
        rcases cases_head_iff.1 hx with hbx | ⟨c, hbc, -⟩
        · exact hbx.symm
        · have hbc : g b = some (some c) := hbc
          simp [hb] at hbc
      · intro hx
        rw [hx]
        exact .refl
  | @child b c k hbc hc ih =>
    obtain ⟨n, rfl⟩ : ∃ m, n = m + 1 := ⟨n - 1, by omega⟩
    have hb : g b = some (some c) := hbc
    have hfound' : ∀ x ∈ found ++ [b], ¬ Reaches g c x := by
      intro x hx hcx
      rcases mem_append.1 hx with hx | hx
      · exact hfound x hx (hbc.reaches.trans hcx)
      · rw [mem_singleton.1 hx] at hcx
        exact (Level.child hbc hc).not_looped (looped_of_names hbc hcx)
    obtain ⟨up, hup, hlength, hmem⟩ := ih (by omega : k ≤ n) hfound'
    refine ⟨b :: up, ?_, by simp [hlength], fun x => ?_⟩
    · rw [graphLookup, if_neg fun hmem => hfound b hmem .refl, hb]
      show graphLookup g n (some c) (found ++ [b]) = _
      rw [hup, append_assoc]
      rfl
    · rw [mem_cons, ← hmem x]
      constructor
      · intro hx
        rcases cases_head_iff.1 hx with hbx | ⟨c', hbc', hcx⟩
        · exact .inl hbx.symm
        · cases hbc.unique hbc'
          exact .inr hcx
      · rintro (rfl | hcx)
        · exact .refl
        · exact hbc.reaches.trans hcx

end Update

end ParentGraph
