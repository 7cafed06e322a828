import Mathlib.Data.List.Flatten

/-!
# Joining with an escaped separator

Parts are joined with a separator, which is marked where it stands inside a part, and so is the mark.
What is joined can be told apart again (`join_injective`): a separator that no mark precedes ends a
part, and reading from the left it is always clear what is marked.
-/

namespace Escaping

open List

variable {α : Type} [DecidableEq α] (mark sep : α)

/-- One element of a part. -/
def escapeOne (a : α) : List α := if a = mark ∨ a = sep then [mark, a] else [a]

def escape (part : List α) : List α := part.flatMap (escapeOne mark sep)

/-- The parts that follow a first one. -/
def tail (parts : List (List α)) : List α := parts.flatMap fun part => sep :: escape mark sep part

/-- A part and those that follow it. -/
def join (part : List α) (parts : List (List α)) : List α :=
  escape mark sep part ++ tail mark sep parts

variable {mark sep}

@[simp] theorem escape_nil : escape mark sep [] = [] := rfl

@[simp] theorem escape_cons (a : α) (part : List α) :
    escape mark sep (a :: part) = escapeOne mark sep a ++ escape mark sep part := rfl

@[simp] theorem tail_nil : tail mark sep [] = [] := rfl

@[simp] theorem tail_cons (part : List α) (parts : List (List α)) :
    tail mark sep (part :: parts) = sep :: join mark sep part parts := rfl

theorem escapeOne_of_marked {a : α} (h : a = mark ∨ a = sep) : escapeOne mark sep a = [mark, a] :=
  if_pos h

theorem escapeOne_of_plain {a : α} (h : ¬ (a = mark ∨ a = sep)) : escapeOne mark sep a = [a] :=
  if_neg h

/-- What a part is followed by: nothing, or a separator. -/
def Ends (sep : α) (rest : List α) : Prop := ∀ a ∈ rest.head?, a = sep

theorem ends_tail (parts : List (List α)) : Ends sep (tail mark sep parts) := by
  cases parts with
  | nil => exact nofun
  | cons part parts =>
    intro a ha
    exact (Option.some.inj ha).symm

/-- An element of a part does not show as its end. -/
theorem escapeOne_append_ne (hne : mark ≠ sep) {a : α} {more rest : List α} (hrest : Ends sep rest) :
    escapeOne mark sep a ++ more ≠ rest := by
  intro heq
  by_cases h : a = mark ∨ a = sep
  · rw [escapeOne_of_marked h] at heq
    have hhead : mark ∈ rest.head? := by
      rw [← heq]
      exact rfl
    exact hne (hrest mark hhead)
  · rw [escapeOne_of_plain h] at heq
    have hhead : a ∈ rest.head? := by
      rw [← heq]
      exact rfl
    exact h (Or.inr (hrest a hhead))

/-- The first element of a part shows. -/
theorem escapeOne_append_inj {a b : α} {more more' : List α}
    (h : escapeOne mark sep a ++ more = escapeOne mark sep b ++ more') : a = b ∧ more = more' := by
  by_cases ha : a = mark ∨ a = sep
  · rw [escapeOne_of_marked ha] at h
    by_cases hb : b = mark ∨ b = sep
    · rw [escapeOne_of_marked hb] at h
      have htail := (cons.inj h).2
      exact cons.inj htail
    · rw [escapeOne_of_plain hb] at h
      -- A plain element is not the mark.
      have hhead : mark = b := (cons.inj h).1
      exact absurd (Or.inl hhead.symm) hb
  · rw [escapeOne_of_plain ha] at h
    by_cases hb : b = mark ∨ b = sep
    · rw [escapeOne_of_marked hb] at h
      have hhead : a = mark := (cons.inj h).1
      exact absurd (Or.inl hhead) ha
    · rw [escapeOne_of_plain hb] at h
      exact cons.inj h

/-- The first part shows, and so does what follows it. -/
theorem escape_append_inj (hne : mark ≠ sep) {part part' rest rest' : List α}
    (hrest : Ends sep rest) (hrest' : Ends sep rest')
    (h : escape mark sep part ++ rest = escape mark sep part' ++ rest') :
    part = part' ∧ rest = rest' := by
  induction part generalizing part' with
  | nil =>
    cases part' with
    | nil => exact ⟨rfl, h⟩
    | cons b part' =>
      rw [escape_cons, append_assoc] at h
      exact absurd h.symm (escapeOne_append_ne hne hrest)
  | cons a part ih =>
    cases part' with
    | nil =>
      rw [escape_cons, append_assoc] at h
      exact absurd h (escapeOne_append_ne hne hrest')
    | cons b part' =>
      rw [escape_cons, escape_cons, append_assoc, append_assoc] at h
      have hfirst := escapeOne_append_inj h
      have hmore := ih hfirst.2
      exact ⟨by rw [hfirst.1, hmore.1], hmore.2⟩

/-- **Parts that are joined** can be told apart. -/
theorem join_injective (hne : mark ≠ sep) {part part' : List α} {parts parts' : List (List α)}
    (h : join mark sep part parts = join mark sep part' parts') :
    part = part' ∧ parts = parts' := by
  induction parts generalizing part part' parts' with
  | nil =>
    have hsplit := escape_append_inj hne (ends_tail []) (ends_tail parts') h
    cases parts' with
    | nil => exact ⟨hsplit.1, rfl⟩
    | cons next parts' => exact absurd hsplit.2 (cons_ne_nil _ _).symm
  | cons next parts ih =>
    have hsplit := escape_append_inj hne (ends_tail (next :: parts)) (ends_tail parts') h
    cases parts' with
    | nil => exact absurd hsplit.2 (cons_ne_nil _ _)
    | cons next' parts' =>
      have hjoin := ih (cons.inj hsplit.2).2
      exact ⟨hsplit.1, by rw [hjoin.1, hjoin.2]⟩

/-- The separator and the mark can be escaped one after the other, the mark first. -/
theorem flatMap_flatMap_eq_escape (hne : mark ≠ sep) (part : List α) :
    (part.flatMap fun a => if a = mark then [mark, mark] else [a]).flatMap
      (fun a => if a = sep then [mark, sep] else [a]) = escape mark sep part := by
  rw [flatMap_assoc]
  congr 1
  funext a
  unfold escapeOne
  by_cases hmark : a = mark
  · simp [hmark, hne]
  · by_cases hsep : a = sep
    · simp [hsep, hne.symm]
    · simp [hmark, hsep]

end Escaping
