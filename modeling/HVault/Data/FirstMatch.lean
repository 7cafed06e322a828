/-!
# Updating the first match

A statement that updates one document takes the first that passes its filter. `findModify` is
that statement on a list: it answers the entry as it was and puts the changed one in its place.
-/

namespace FirstMatch

open List

variable {α : Type} (p : α → Bool) (f : α → α)

/-- Puts `f a` in place of the first `a` that passes `p`; answers that `a`. -/
def findModify : List α → Option α × List α
  | [] => (none, [])
  | a :: l =>
    if p a then (some a, f a :: l)
    else ((findModify l).1, a :: (findModify l).2)

/-- Nothing passed and nothing changed, or one entry was exchanged for its image. -/
theorem findModify_cases (l : List α) :
    (findModify p f l = (none, l) ∧ ∀ b ∈ l, p b = false) ∨
      ∃ a before after, l = before ++ a :: after ∧ p a = true ∧ (∀ b ∈ before, p b = false) ∧
        findModify p f l = (some a, before ++ f a :: after) := by
  induction l with
  | nil => exact .inl ⟨rfl, nofun⟩
  | cons a l ih =>
    by_cases ha : p a = true
    · exact .inr ⟨a, [], l, rfl, ha, nofun, by simp [findModify, ha]⟩
    · have hfalse : p a = false := by simpa using ha
      rcases ih with ⟨heq, hnone⟩ | ⟨b, before, after, rfl, hb, hbefore, heq⟩
      · refine .inl ⟨by simp [findModify, ha, heq], fun b hb => ?_⟩
        rcases mem_cons.1 hb with rfl | hb
        · exact hfalse
        · exact hnone b hb
      · refine .inr ⟨b, a :: before, after, rfl, hb, fun c hc => ?_, by simp [findModify, ha, heq]⟩
        rcases mem_cons.1 hc with rfl | hc
        · exact hfalse
        · exact hbefore c hc

variable {p f} {l : List α} {a b : α}

/-- Every entry afterwards was there before, or is the image of one that passed. -/
theorem mem_findModify (h : b ∈ (findModify p f l).2) : b ∈ l ∨ ∃ a ∈ l, p a = true ∧ b = f a := by
  rcases findModify_cases p f l with ⟨heq, -⟩ | ⟨a, before, after, rfl, ha, -, heq⟩
  · rw [heq] at h
    exact .inl h
  · rw [heq] at h
    rcases mem_append.1 h with hm | hm
    · exact .inl (by simp [hm])
    · rcases mem_cons.1 hm with rfl | hm
      · exact .inr ⟨a, by simp, ha, rfl⟩
      · exact .inl (by simp [hm])

/-- What the update keeps of an entry, it keeps of the list. -/
theorem map_findModify {β : Type} (g : α → β) (hg : ∀ a, p a = true → g (f a) = g a) :
    (findModify p f l).2.map g = l.map g := by
  rcases findModify_cases p f l with ⟨heq, -⟩ | ⟨a, before, after, rfl, ha, -, heq⟩
  · rw [heq]
  · rw [heq]
    simp [hg a ha]

/-- Where a key is unique, an update of the entry of one key changes what that key finds. -/
theorem find?_findModify {β : Type} [DecidableEq β] {key : α → β} (hl : (l.map key).Nodup) {x : β}
    (hp : ∀ a, p a = true → key a = x) (hf : ∀ a, key (f a) = key a) :
    findModify p f l = (none, l) ∨ ∃ a, p a = true ∧ (findModify p f l).1 = some a ∧
      (l.find? fun b => decide (key b = x)) = some a ∧
      ∀ y, ((findModify p f l).2.find? fun b => decide (key b = y)) =
        if y = x then some (f a) else l.find? fun b => decide (key b = y) := by
  rcases findModify_cases p f l with ⟨heq, -⟩ | ⟨a, before, after, rfl, ha, -, heq⟩
  · exact .inl heq
  · have hx := hp a ha
    have hbefore : (before.find? fun b => decide (key b = x)) = none := by
      rw [find?_eq_none]
      intro b hb
      rw [map_append, map_cons] at hl
      have hne := (nodup_append.1 hl).2.2 _ (mem_map_of_mem hb) _ mem_cons_self
      simpa [← hx] using hne
    refine .inr ⟨a, ha, by rw [heq], by simp [find?_append, hbefore, hx], fun y => ?_⟩
    rw [heq]
    by_cases hy : y = x
    · subst hy
      simp [find?_append, hbefore, hf, hx]
    · have hay : ¬ key a = y := fun h => hy (h.symm.trans hx)
      simp [find?_append, hf, hay, hy]

/-- Where a key is unique, deleting its first entry deletes all of them. -/
theorem ne_of_mem_eraseP {β : Type} [DecidableEq β] {key : α → β} (hl : (l.map key).Nodup) {x : β}
    (h : b ∈ l.eraseP fun a => decide (key a = x)) : key b ≠ x := by
  induction l with
  | nil => cases h
  | cons a l ih =>
    obtain ⟨hnot, hl⟩ := nodup_cons.1 hl
    by_cases ha : key a = x
    · rw [eraseP_cons_of_pos (by simpa using ha)] at h
      rintro rfl
      exact hnot (ha ▸ mem_map_of_mem h)
    · rw [eraseP_cons_of_neg (by simpa using ha)] at h
      rcases mem_cons.1 h with rfl | h
      · exact ha
      · exact ih hl h

end FirstMatch
