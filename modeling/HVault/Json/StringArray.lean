import HVault.Data.UriText
import HVault.Json.Tree

/-!
# Arrays of strings

The grammar of a JSON array of strings over code units, in which half of a pair may stand alone. A
text of characters that `parse` reads as such an array is one by the grammar (`parse_strings`).
-/

namespace Json

open List Option Prod

/-! ## The grammar -/

/-- What stands behind the backslash of an escape, and what the escape stands for. -/
def escapes : List (UInt16 × UInt16) :=
  [(0x22, 0x22), (0x5C, 0x5C), (0x2F, 0x2F), (0x62, 0x08), (0x66, 0x0C), (0x6E, 0x0A), (0x72, 0x0D),
    (0x74, 0x09)]

def isPlain (u : UInt16) : Bool := 0x20 ≤ u.toNat ∧ u ≠ 0x22 ∧ u ≠ 0x5C

/-- What stands between the quotes, and the string it stands for. -/
inductive StringBody : Utf16 → Utf16 → Prop where
  | nil : StringBody [] []
  | plain {u : UInt16} {t s : Utf16} :
      isPlain u → StringBody t s → StringBody (u :: t) (u :: s)
  | escape {c u : UInt16} {t s : Utf16} :
      (c, u) ∈ escapes → StringBody t s → StringBody (0x5C :: c :: t) (u :: s)
  | byNumber {a b c d : UInt16} {i j k l : ℕ} {t s : Utf16} :
      UriText.hexValue a = some i → UriText.hexValue b = some j → UriText.hexValue c = some k →
      UriText.hexValue d = some l → StringBody t s →
      StringBody (0x5C :: 0x75 :: a :: b :: c :: d :: t)
        (.ofNat (0x1000 * i + 0x100 * j + 0x10 * k + l) :: s)

def isBlank (u : UInt16) : Bool := u = 0x20 ∨ u = 0x09 ∨ u = 0x0A ∨ u = 0x0D

/-- What stands between the brackets, where it is not blank. -/
inductive Strings : Utf16 → List Utf16 → Prop where
  | last {before t after s : Utf16} :
      before.all isBlank → StringBody t s → after.all isBlank →
      Strings (before ++ 0x22 :: (t ++ 0x22 :: after)) [s]
  | cons {before t after s rest : Utf16} {ss : List Utf16} :
      before.all isBlank → StringBody t s → after.all isBlank → Strings rest ss →
      Strings (before ++ 0x22 :: (t ++ 0x22 :: (after ++ 0x2C :: rest))) (s :: ss)

inductive StringArray : Utf16 → List Utf16 → Prop where
  | empty {before inner after : Utf16} :
      before.all isBlank → inner.all isBlank → after.all isBlank →
      StringArray (before ++ 0x5B :: (inner ++ 0x5D :: after)) []
  | full {before inner after : Utf16} {ss : List Utf16} :
      before.all isBlank → Strings inner ss → after.all isBlank →
      StringArray (before ++ 0x5B :: (inner ++ 0x5D :: after)) ss

theorem StringBody.append {us t s : Utf16} (hus : us.all isPlain) (h : StringBody t s) :
    StringBody (us ++ t) (us ++ s) := by
  induction us with
  | nil => exact h
  | cons u us ih =>
    rw [all_cons, Bool.and_eq_true] at hus
    exact .plain hus.1 (ih hus.2)

/-! ## What is read is in the grammar -/

variable {cs rest : List Char} {s : Utf16} {c : Char}

theorem unitsOf_small (h : c.toNat < 0x10000) : unitsOf c = [.ofNat c.toNat] := if_pos h

theorem toNat_ofNat_small (h : c.toNat < 0x10000) : (UInt16.ofNat c.toNat).toNat = c.toNat :=
  UInt16.toNat_ofNat_of_lt' h

theorem hexValue_unitsOf {n : ℕ} (h : hexValue c = some n) :
    ∃ u, unitsOf c = [u] ∧ UriText.hexValue u = some n := by
  have hrange : (c.toNat = n + 0x30 ∧ n < 10) ∨ (c.toNat = n + 0x57 ∧ 10 ≤ n ∧ n < 16) ∨
      (c.toNat = n + 0x37 ∧ 10 ≤ n ∧ n < 16) := by
    have hle (a b : Char) : a ≤ b ↔ a.toNat ≤ b.toNat := Iff.rfl
    have hdigits : c.isDigit ↔ 0x30 ≤ c.toNat ∧ c.toNat ≤ 0x39 := by
      simp [Char.isDigit, UInt32.le_iff_toNat_le]
    unfold hexValue at h
    simp only [hle, hdigits, Char.reduceToNat] at h
    split_ifs at h
    all_goals
      simp only [some.injEq] at h
      omega
  have hsmall : c.toNat < 0x10000 := by omega
  refine ⟨_, unitsOf_small hsmall, ?_⟩
  unfold UriText.hexValue
  rw [toNat_ofNat_small hsmall]
  rcases hrange with ⟨hc, hn⟩ | ⟨hc, hn⟩ | ⟨hc, hn⟩
  · rw [if_pos (by omega), hc, Nat.add_sub_cancel]
  · rw [if_neg (by omega), if_neg (by omega), if_pos (by omega), hc, Nat.add_sub_cancel]
  · rw [if_neg (by omega), if_pos (by omega), hc, Nat.add_sub_cancel]

theorem escaped_unitsOf {u : UInt16} (h : escaped c = some u) :
    ∃ v, unitsOf c = [v] ∧ (v, u) ∈ escapes := by
  unfold escaped at h
  split at h
  case h_9 => cases h
  all_goals
    cases h
    exact ⟨_, rfl, by decide⟩

theorem isPlain_unitsOf (hquote : c ≠ '"') (hescape : ¬ (c = '\\' ∨ c.toNat < 0x20)) :
    (unitsOf c).all isPlain := by
  have hne {d : Char} (h : c ≠ d) : c.toNat ≠ d.toNat := fun heq => h (Char.toNat_inj.1 heq)
  obtain ⟨hbackslash, hcontrol⟩ := not_or.1 hescape
  have hplain (n : ℕ) (hn : n < 0x10000) (hmin : 0x20 ≤ n) (hq : n ≠ 0x22) (hb : n ≠ 0x5C) :
      isPlain (.ofNat n) = true := by
    have hnat : (UInt16.ofNat n).toNat = n := UInt16.toNat_ofNat_of_lt' hn
    refine decide_eq_true ⟨by omega, fun heq => hq ?_, fun heq => hb ?_⟩
    · rw [← hnat, heq]
      rfl
    · rw [← hnat, heq]
      rfl
  have hvalid := toNat_valid c
  unfold unitsOf
  split_ifs with hsmall
  · rw [all_cons, hplain _ hsmall (by omega) (hne hquote) (hne hbackslash)]
    rfl
  · rw [all_cons, all_cons, hplain _ (by omega) (by omega) (by omega) (by omega),
      hplain _ (by omega) (by omega) (by omega) (by omega)]
    rfl

theorem readString_body (h : readString cs = some (s, rest)) :
    ∃ t, utf16 cs = t ++ 0x22 :: utf16 rest ∧ StringBody t s := by
  induction cs using readString.induct generalizing s with
  | case1 => cases h
  | case2 cs =>
    cases h
    exact ⟨[], rfl, .nil⟩
  | case3 a b c d cs ih =>
    rw [readString] at h
    simp only [unitOfHex, bind_eq_bind, bind_eq_some_iff, Option.pure_def,
      some.injEq, Prod.exists, mk.injEq] at h
    obtain ⟨_, ⟨i, ha, j, hb, k, hc, l, hd, rfl⟩, us, _, hus, rfl, rfl⟩ := h
    obtain ⟨t, htext, hbody⟩ := ih hus
    obtain ⟨a', haunits, ha⟩ := hexValue_unitsOf ha
    obtain ⟨b', hbunits, hb⟩ := hexValue_unitsOf hb
    obtain ⟨c', hcunits, hc⟩ := hexValue_unitsOf hc
    obtain ⟨d', hdunits, hd⟩ := hexValue_unitsOf hd
    refine ⟨0x5C :: 0x75 :: a' :: b' :: c' :: d' :: t, ?_, .byNumber ha hb hc hd hbody⟩
    show 0x5C :: 0x75 :: (unitsOf a ++ (unitsOf b ++ (unitsOf c ++ (unitsOf d ++ utf16 cs)))) = _
    rw [haunits, hbunits, hcunits, hdunits, htext]
    rfl
  | case4 c cs hu ih =>
    rw [readString] at h
    · simp only [bind_eq_bind, bind_eq_some_iff, Option.pure_def, some.injEq,
        Prod.exists, mk.injEq] at h
      obtain ⟨u, hescaped, us, _, hus, rfl, rfl⟩ := h
      obtain ⟨t, htext, hbody⟩ := ih hus
      obtain ⟨v, hunits, hv⟩ := escaped_unitsOf hescaped
      refine ⟨0x5C :: v :: t, ?_, .escape hv hbody⟩
      show 0x5C :: (unitsOf c ++ utf16 cs) = _
      rw [hunits, htext]
      rfl
    · exact hu
  | case5 c cs hquote hnumber hescape hbad =>
    rw [readString, if_pos hbad] at h
    · cases h
    · exact hquote
    · exact hnumber
    · exact hescape
  | case6 c cs hquote hnumber hescape hgood ih =>
    rw [readString, if_neg hgood] at h
    · simp only [bind_eq_bind, bind_eq_some_iff, Option.pure_def, some.injEq,
        Prod.exists, mk.injEq] at h
      obtain ⟨us, _, hus, rfl, rfl⟩ := h
      obtain ⟨t, htext, hbody⟩ := ih hus
      refine ⟨unitsOf c ++ t, ?_, hbody.append (isPlain_unitsOf hquote hgood)⟩
      show unitsOf c ++ utf16 cs = _
      rw [htext, append_assoc]
    · exact hquote
    · exact hnumber
    · exact hescape

/-- The text of a string stands for it. -/
theorem stringText_body (s : Utf16) :
    ∃ t, utf16 (stringText s) = 0x22 :: (t ++ [0x22]) ∧ StringBody t s := by
  obtain ⟨t, htext, hbody⟩ := readString_body (readString_quoteUnits s [])
  exact ⟨t, congrArg (0x22 :: ·) htext, hbody⟩

theorem utf16_skip (cs : List Char) :
    ∃ before : Utf16, before.all isBlank ∧ utf16 cs = before ++ utf16 (skip cs) := by
  induction cs with
  | nil => exact ⟨[], rfl, rfl⟩
  | cons c cs ih =>
    by_cases hc : isSpace c
    · obtain ⟨before, hblank, hunits⟩ := ih
      have hskip : skip (c :: cs) = skip cs := dropWhile_cons_of_pos hc
      rw [hskip]
      obtain ⟨u, hu, hblanku⟩ : ∃ u, unitsOf c = [u] ∧ isBlank u = true := by
        rcases of_decide_eq_true hc with rfl | rfl | rfl | rfl
        all_goals exact ⟨_, rfl, rfl⟩
      refine ⟨u :: before, by rw [all_cons, hblanku, hblank]; rfl, ?_⟩
      show unitsOf c ++ utf16 cs = _
      rw [hu, hunits]
      rfl
    · have hskip : skip (c :: cs) = c :: cs := dropWhile_cons_of_neg hc
      exact ⟨[], rfl, by rw [hskip]; rfl⟩

/-- What follows the blanks before a mark, and the mark. -/
theorem utf16_of_skip {u : UInt16} (h : skip cs = c :: rest) (hc : unitsOf c = [u]) :
    ∃ before : Utf16, before.all isBlank ∧ utf16 cs = before ++ u :: utf16 rest := by
  obtain ⟨before, hblank, hunits⟩ := utf16_skip cs
  refine ⟨before, hblank, ?_⟩
  rw [hunits, h]
  show before ++ (unitsOf c ++ utf16 rest) = _
  rw [hc]
  rfl

variable {fuel : ℕ}

/-- A value that is read as a string is one. -/
theorem readValue_string (h : readValue fuel cs = some (.string s, rest)) :
    ∃ before t, before.all isBlank ∧ StringBody t s ∧
      utf16 cs = before ++ 0x22 :: (t ++ 0x22 :: utf16 rest) := by
  cases fuel with
  | zero => cases h
  | succ fuel =>
    rw [readValue] at h
    split at h
    · cases h
    · next c cs' hskip =>
      by_cases hc : c = '"'
      · subst hc
        rw [if_pos rfl, map_eq_some_iff] at h
        obtain ⟨_, hread, hpair⟩ := h
        cases hpair
        obtain ⟨t, htext, hbody⟩ := readString_body hread
        obtain ⟨before, hblank, hunits⟩ := utf16_of_skip hskip rfl
        exact ⟨before, t, hblank, hbody, by rw [hunits, htext]; rfl⟩
      · -- what does not begin with a quote is no string
        rw [if_neg hc] at h
        unfold readArray readObject readWord at h
        split_ifs at h
        all_goals try split at h
        all_goals simp at h

theorem readItems_strings {ss : List Utf16} (h : readItems fuel cs = some (ss.map .string, rest)) :
    ∃ inner, Strings inner ss ∧ utf16 cs = inner ++ 0x5D :: utf16 rest := by
  induction fuel generalizing cs ss with
  | zero => cases h
  | succ fuel ih =>
    rw [readItems, bind_eq_bind, bind_eq_some_iff] at h
    obtain ⟨⟨v, cs'⟩, hvalue, h⟩ := h
    dsimp only at h
    split at h
    · next cs'' hskip =>
      rw [map_eq_some_iff] at h
      obtain ⟨⟨vs, _⟩, hread, hpair⟩ := h
      obtain ⟨hss, rfl⟩ := mk.inj hpair
      obtain ⟨s, ss, rfl, rfl, rfl⟩ := map_eq_cons_iff.1 hss.symm
      obtain ⟨before, t, hbefore, hbody, hcs⟩ := readValue_string hvalue
      obtain ⟨after, hafter, hcs'⟩ := utf16_of_skip hskip rfl
      obtain ⟨inner, hinner, hcs''⟩ := ih hread
      refine ⟨_, .cons hbefore hbody hafter hinner, ?_⟩
      rw [hcs, hcs', hcs'']
      simp only [append_assoc, cons_append]
      rfl
    · next rest' hskip =>
      obtain ⟨hss, rfl⟩ := mk.inj (some.inj h)
      obtain ⟨s, ss, rfl, rfl, hnil⟩ := map_eq_cons_iff.1 hss.symm
      cases map_eq_nil_iff.1 hnil
      obtain ⟨before, t, hbefore, hbody, hcs⟩ := readValue_string hvalue
      obtain ⟨after, hafter, hcs'⟩ := utf16_of_skip hskip rfl
      refine ⟨_, .last hbefore hbody hafter, ?_⟩
      rw [hcs, hcs']
      simp only [append_assoc, cons_append]
      rfl
    · cases h

/-- A text that is read as an array of strings is one. -/
theorem parse_strings {ss : List Utf16} (h : parse cs = some (.array (ss.map .string))) :
    StringArray (utf16 cs) ss := by
  rw [parse, bind_eq_bind, bind_eq_some_iff] at h
  obtain ⟨⟨v, rest⟩, hvalue, h⟩ := h
  dsimp only at h
  split_ifs at h with hrest
  cases h
  obtain ⟨after, hafter, htail⟩ := utf16_skip rest
  have hnil : utf16 [] = [] := rfl
  rw [hrest, hnil, append_nil] at htail
  generalize 2 * cs.length = fuel at hvalue
  cases fuel with
  | zero => cases hvalue
  | succ fuel =>
    rw [readValue] at hvalue
    split at hvalue
    · cases hvalue
    · next c cs' hskip =>
      by_cases hc : c = '['
      · subst hc
        rw [if_neg (by decide), if_pos rfl] at hvalue
        obtain ⟨before, hbefore, hcs⟩ := utf16_of_skip hskip rfl
        unfold readArray at hvalue
        split at hvalue
        · next rest' hskip' =>
          obtain ⟨hss, rfl⟩ := mk.inj (some.inj hvalue)
          cases map_eq_nil_iff.1 (Value.array.inj hss).symm
          obtain ⟨inner, hinner, hcs'⟩ := utf16_of_skip hskip' rfl
          rw [hcs, hcs', htail]
          exact .empty hbefore hinner hafter
        · rw [map_eq_some_iff] at hvalue
          obtain ⟨⟨vs, _⟩, hread, hpair⟩ := hvalue
          obtain ⟨hss, rfl⟩ := mk.inj hpair
          cases Value.array.inj hss
          obtain ⟨inner, hinner, hcs'⟩ := readItems_strings hread
          rw [hcs, hcs', htail]
          exact .full hbefore hinner hafter
      · -- what does not begin with a bracket is no array
        rw [if_neg hc] at hvalue
        unfold readObject readWord at hvalue
        split_ifs at hvalue
        all_goals try split at hvalue
        all_goals simp at hvalue

end Json
