import Mathlib.Data.List.Nodup
import Mathlib.Algebra.Order.BigOperators.Group.List
import Mathlib.Algebra.GroupWithZero.Nat

/-!
# Words with enough letters of each class

The words of a given length over some alphabets with at least so many letters of each, in an order in
which the first letter goes by its alphabet (`words`), and how many there are (`ways`). The outstanding
letters of each class are a list of numbers; a letter lowers that of its class.
-/

namespace ClassWords

open List Nat

variable {α : Type}

/-- How many words there are, from the sizes of the alphabets. -/
def ways (sizes : List ℕ) : ℕ → List ℕ → ℕ
  | 0, due => if due.all (· = 0) then 1 else 0
  | r + 1, due => (sizes.zipIdx.map fun (size, c) => size * ways sizes r (due.modify c Nat.pred)).sum

/-- The words that start with a letter of one alphabet. -/
def block (alphabet : List α) (rest : List (List α)) : List (List α) :=
  alphabet.flatMap fun a => rest.map (a :: ·)

/-- The words in order. -/
def words (alphabets : List (List α)) : ℕ → List ℕ → List (List α)
  | 0, due => if due.all (· = 0) then [[]] else []
  | r + 1, due =>
    alphabets.zipIdx.flatMap fun (alphabet, c) => block alphabet (words alphabets r (due.modify c Nat.pred))

/-! ## Counting -/

theorem length_block (alphabet : List α) (rest : List (List α)) :
    (block alphabet rest).length = alphabet.length * rest.length := by
  unfold block
  rw [length_flatMap]
  simp

theorem length_words (alphabets : List (List α)) (r : ℕ) (due : List ℕ) :
    (words alphabets r due).length = ways (alphabets.map List.length) r due := by
  induction r generalizing due with
  | zero =>
    rw [words, ways]
    split
    · rfl
    · rfl
  | succ r ih =>
    rw [words, ways, length_flatMap, zipIdx_map, map_map]
    congr 1
    refine map_congr_left fun entry _ => ?_
    show (block entry.1 _).length = _
    rw [length_block, ih]
    rfl

variable {alphabet : List α}

/-- The word at a place in a block: its letter by division, the rest by the remainder. -/
theorem getElem?_block {rest : List (List α)} {i : ℕ} (h : i < alphabet.length * rest.length) :
    ∃ a word, alphabet[i / rest.length]? = some a ∧ rest[i % rest.length]? = some word ∧
      (block alphabet rest)[i]? = some (a :: word) := by
  have hpos : 0 < rest.length := by
    rcases Nat.eq_zero_or_pos rest.length with hzero | hpos
    · rw [hzero, mul_zero] at h
      exact (not_lt_zero _ h).elim
    · exact hpos
  induction alphabet generalizing i with
  | nil =>
    rw [length_nil, zero_mul] at h
    exact (not_lt_zero _ h).elim
  | cons b alphabet ih =>
    have hsplit : block (b :: alphabet) rest = rest.map (b :: ·) ++ block alphabet rest := by
      unfold block
      rw [flatMap_cons]
    rw [hsplit]
    by_cases hi : i < rest.length
    · refine ⟨b, rest[i], ?_, ?_, ?_⟩
      · rw [div_eq_of_lt hi]
        rfl
      · rw [mod_eq_of_lt hi]
        exact getElem?_eq_getElem hi
      · rw [getElem?_append_left (by rwa [length_map]), getElem?_map,
          getElem?_eq_getElem hi]
        rfl
    · have hle : rest.length ≤ i := Nat.le_of_not_lt hi
      rw [length_cons, Nat.add_mul, one_mul] at h
      obtain ⟨a, word, hletter, hword, hfound⟩ := @ih (i - rest.length) (by omega)
      refine ⟨a, word, ?_, ?_, ?_⟩
      · rw [div_eq_sub_div hpos hle, getElem?_cons_succ]
        exact hletter
      · rw [mod_eq_sub_mod hle]
        exact hword
      · rw [getElem?_append_right (by rwa [length_map]), length_map]
        exact hfound

variable {word : List α}

theorem mem_block {rest : List (List α)} :
    word ∈ block alphabet rest ↔ ∃ a ∈ alphabet, ∃ word' ∈ rest, a :: word' = word := by
  unfold block
  simp only [mem_flatMap, mem_map]

variable {alphabets : List (List α)}

theorem mem_words_succ {r : ℕ} {due : List ℕ} :
    word ∈ words alphabets (r + 1) due ↔ ∃ c alphabet, alphabets[c]? = some alphabet ∧
      ∃ a ∈ alphabet, ∃ word' ∈ words alphabets r (due.modify c pred), a :: word' = word := by
  rw [words, mem_flatMap]
  constructor
  · rintro ⟨⟨alphabet, c⟩, hentry, hword⟩
    exact ⟨c, alphabet, mem_zipIdx_iff_getElem?.1 hentry, mem_block.1 hword⟩
  · rintro ⟨c, alphabet, hentry, hword⟩
    exact ⟨(alphabet, c), mem_zipIdx_iff_getElem?.2 hentry, mem_block.2 hword⟩

/-- No letter is in two alphabets, or twice in one. -/
theorem class_unique (h : alphabets.flatten.Nodup) {i j : ℕ} {alphabet' : List α}
    (hi : alphabets[i]? = some alphabet) (hj : alphabets[j]? = some alphabet') {a : α}
    (ha : a ∈ alphabet) (ha' : a ∈ alphabet') :
    i = j := by
  have hdisjoint := (nodup_flatten.1 h).2
  obtain ⟨hilt, rfl⟩ := List.getElem?_eq_some_iff.1 hi
  obtain ⟨hjlt, rfl⟩ := List.getElem?_eq_some_iff.1 hj
  rcases lt_trichotomy i j with hlt | heq | hlt
  · exact (pairwise_iff_getElem.1 hdisjoint i j hilt hjlt hlt ha ha').elim
  · exact heq
  · exact (pairwise_iff_getElem.1 hdisjoint j i hjlt hilt hlt ha' ha).elim

/-! ## Which words they are -/

variable [DecidableEq α]

/-- What a word has to be: so long, over the alphabets, with what is due of each. -/
def Fills (alphabets : List (List α)) (r : ℕ) (due : List ℕ) (word : List α) : Prop :=
  word.length = r ∧ (∀ a ∈ word, ∃ alphabet ∈ alphabets, a ∈ alphabet) ∧
    ∀ (c n : ℕ) (alphabet : List α), due[c]? = some n → alphabets[c]? = some alphabet →
      n ≤ word.countP (· ∈ alphabet)

/-- A letter lowers what is due of its class. -/
theorem fills_cons (hunique : alphabets.flatten.Nodup) {r c : ℕ} {due : List ℕ} {a : α}
    (hc : alphabets[c]? = some alphabet) (ha : a ∈ alphabet) :
    Fills alphabets (r + 1) due (a :: word) ↔ Fills alphabets r (due.modify c pred) word := by
  have hmem : alphabet ∈ alphabets := mem_of_getElem? hc
  have hsame : (a :: word).countP (· ∈ alphabet) = word.countP (· ∈ alphabet) + 1 :=
    countP_cons_of_pos (decide_eq_true ha)
  have hother : ∀ (c' : ℕ) (alphabet' : List α), alphabets[c']? = some alphabet' → c' ≠ c →
      (a :: word).countP (· ∈ alphabet') = word.countP (· ∈ alphabet') := by
    intro c' alphabet' hc' hne
    refine countP_cons_of_neg fun ha' => hne ?_
    exact class_unique hunique hc' hc (of_decide_eq_true ha') ha
  constructor
  · rintro ⟨hlength, hletters, hcounts⟩
    refine ⟨succ.inj hlength, fun b hb => hletters b (mem_cons_of_mem _ hb), ?_⟩
    intro c' n alphabet' hdue hc'
    by_cases heq : c' = c
    · subst heq
      rw [getElem?_modify_eq] at hdue
      obtain ⟨m, hm, rfl⟩ := Option.map_eq_some_iff.1 hdue
      rw [hc] at hc'
      cases hc'
      have hcount := hcounts c' m alphabet hm hc
      rw [hsame] at hcount
      exact pred_le_of_le_succ hcount
    · rw [getElem?_modify_ne _ _ (Ne.symm heq)] at hdue
      have hcount := hcounts c' n alphabet' hdue hc'
      rwa [hother c' alphabet' hc' heq] at hcount
  · rintro ⟨hlength, hletters, hcounts⟩
    refine ⟨congrArg (· + 1) hlength, fun b hb => ?_, ?_⟩
    · rcases mem_cons.1 hb with rfl | hb
      · exact ⟨alphabet, hmem, ha⟩
      · exact hletters b hb
    intro c' n alphabet' hdue hc'
    by_cases heq : c' = c
    · subst heq
      rw [hc] at hc'
      cases hc'
      have hcount := hcounts c' n.pred alphabet (by rw [getElem?_modify_eq, hdue]; rfl) hc
      rw [hsame]
      exact le_succ_of_pred_le hcount
    · rw [hother c' alphabet' hc' heq]
      exact hcounts c' n alphabet' (by rwa [getElem?_modify_ne _ _ (Ne.symm heq)]) hc'

/-- The words are those that fill what is due. -/
theorem mem_words (hunique : alphabets.flatten.Nodup) {r : ℕ} {due : List ℕ}
    (hdue : due.length = alphabets.length) :
    word ∈ words alphabets r due ↔ Fills alphabets r due word := by
  induction r generalizing due word with
  | zero =>
    rw [words]
    constructor
    · intro hword
      split at hword
      · rename_i hall
        rw [mem_singleton.1 hword]
        refine ⟨rfl, nofun, fun c n alphabet hn _ => ?_⟩
        have hzero := all_eq_true.1 hall n (mem_of_getElem? hn)
        exact (of_decide_eq_true hzero).le
      · cases hword
    · rintro ⟨hlength, -, hcounts⟩
      have hnil := length_eq_zero_iff.1 hlength
      subst hnil
      rw [if_pos]
      · exact mem_singleton_self _
      · refine all_eq_true.2 fun n hn => decide_eq_true ?_
        obtain ⟨c, hc⟩ := mem_iff_getElem?.1 hn
        have hlt : c < alphabets.length := by
          rw [← hdue]
          exact (List.getElem?_eq_some_iff.1 hc).1
        exact le_zero.1 (hcounts c n alphabets[c] hc (List.getElem?_eq_getElem hlt))
  | succ r ih =>
    have hnext : ∀ c : ℕ, (due.modify c pred).length = alphabets.length := fun c => by
      rw [length_modify, hdue]
    rw [mem_words_succ]
    constructor
    · rintro ⟨c, alphabet, hc, a, ha, word', hword', rfl⟩
      exact (fills_cons hunique hc ha).2 ((ih (hnext c)).1 hword')
    · intro hfills
      cases word with
      | nil => cases hfills.1
      | cons a word' =>
        obtain ⟨alphabet, hmem, ha⟩ := hfills.2.1 a mem_cons_self
        obtain ⟨c, hc⟩ := mem_iff_getElem?.1 hmem
        exact ⟨c, alphabet, hc, a, ha, word', (ih (hnext c)).2 ((fills_cons hunique hc ha).1 hfills),
          rfl⟩

omit [DecidableEq α] in
/-- No word comes twice. -/
theorem nodup_words (hunique : alphabets.flatten.Nodup) (r : ℕ) (due : List ℕ) :
    (words alphabets r due).Nodup := by
  induction r generalizing due with
  | zero =>
    rw [words]
    split
    · exact nodup_singleton _
    · exact nodup_nil
  | succ r ih =>
    rw [words, nodup_flatMap]
    refine ⟨fun ⟨alphabet, c⟩ hentry => ?_, ?_⟩
    · have hmem := mem_of_getElem? (mem_zipIdx_iff_getElem?.1 hentry)
      have halphabet := (nodup_flatten.1 hunique).1 alphabet hmem
      unfold block
      rw [nodup_flatMap]
      refine ⟨fun a _ => (ih _).map fun _ _ heq => (cons.inj heq).2, ?_⟩
      refine halphabet.imp fun {a b} hne => ?_
      rintro word hword hword'
      obtain ⟨_, -, rfl⟩ := mem_map.1 hword
      obtain ⟨_, -, heq⟩ := mem_map.1 hword'
      exact hne (cons.inj heq).1.symm
    · rw [pairwise_iff_getElem]
      intro i j hi hj hlt word hword hword'
      rw [getElem_zipIdx] at hword hword'
      obtain ⟨a, ha, _, -, rfl⟩ := mem_block.1 hword
      obtain ⟨b, hb, _, -, heq⟩ := mem_block.1 hword'
      rw [(cons.inj heq).1] at hb
      rw [length_zipIdx] at hi hj
      exact hlt.ne (class_unique hunique (getElem?_eq_getElem hi) (getElem?_eq_getElem hj)
        ha hb)

end ClassWords
