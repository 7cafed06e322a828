import HVault.Data.OrderedMap
import Mathlib.Data.Int.Notation

/-!
# The in-memory cache of breach ranges

`setHibpCacheEntry` and `pruneHibpCache` with what they keep beside the map: the byte total, and the
bound that lets an eviction skip its scan for an expired entry. A cache that scans every time and
sums the sizes every time (`FullCache`) is what they are compared with: the maps are the same after
any operations (`hibpCache_scan_skipped`).
-/

namespace HVault.Breach

open List Option OrderedMap

variable {κ D : Type} [DecidableEq κ]

/-- An entry with its size stamped. -/
structure HibpCacheEntry (D : Type) where
  data : D
  expires : ℤ
  bytes : ℕ
  deriving DecidableEq, Repr

/-- The cache and its bookkeeping. A bound of 0 is unknown. -/
structure HibpCache (κ D : Type) where
  map : OrderedMap κ (HibpCacheEntry D)
  hibpCacheBytes : ℤ
  hibpEarliestExpiry : ℤ
  cacheAccessCount : ℕ

def HibpCache.empty : HibpCache κ D := ⟨.empty, 0, 0, 0⟩

def hibpCacheMaxEntries : ℕ := 10000

/-- The sizes of the entries, summed. -/
def sumBytes (es : List (κ × HibpCacheEntry D)) : ℤ := es.foldr (fun e n => e.2.bytes + n) 0

/-- The least expiry seen so far, none where none was. -/
def lowered (earliest : Option ℤ) (expires : ℤ) : Option ℤ :=
  match earliest with
  | none => some expires
  | some bound => if expires < bound then some expires else some bound

namespace HibpCache

/-! ## Pruning -/

/-- One entry of the sweep: an expired one is deleted, any other counts towards the bound. -/
def sweepEntry (now : ℤ) (s : HibpCache κ D × Option ℤ) (e : κ × HibpCacheEntry D) :
    HibpCache κ D × Option ℤ :=
  if e.2.expires < now then
    ({ s.1 with map := s.1.map.delete e.1, hibpCacheBytes := s.1.hibpCacheBytes - e.2.bytes }, s.2)
  else (s.1, lowered s.2 e.2.expires)

/-- Every hundredth access sweeps the cache. -/
def pruneHibpCache (now : ℤ) (s : HibpCache κ D) : HibpCache κ D :=
  let s := { s with cacheAccessCount := s.cacheAccessCount + 1 }
  if s.cacheAccessCount % 100 ≠ 0 then s
  else
    let swept := s.map.entries.foldl (sweepEntry now) (s, none)
    { swept.1 with
      hibpCacheBytes := if swept.1.hibpCacheBytes < 0 then 0 else swept.1.hibpCacheBytes
      hibpEarliestExpiry := swept.2.getD 0 }

/-! ## Evicting -/

/-- The scan for an expired entry: the first one, or else the least expiry there is. -/
def scan (now : ℤ) : Option ℤ → List (κ × HibpCacheEntry D) → Option κ × Option ℤ
  | earliest, [] => (none, earliest)
  | earliest, (key, entry) :: rest =>
    if entry.expires < now then (some key, earliest)
    else scan now (lowered earliest entry.expires) rest

/-- The key inserted first. -/
def oldest (es : List (κ × HibpCacheEntry D)) : Option κ := es.head?.map (·.1)

/-- The victim of an eviction, and the bound after the search for it. The search is skipped while
the bound says that nothing can be expired. -/
def victimKey (now : ℤ) (s : HibpCache κ D) : Option κ × ℤ :=
  if s.hibpEarliestExpiry = 0 ∨ s.hibpEarliestExpiry ≤ now then
    match scan now none s.map.entries with
    | (some key, _) => (some key, s.hibpEarliestExpiry)
    | (none, earliest) => (oldest s.map.entries, earliest.getD s.hibpEarliestExpiry)
  else (oldest s.map.entries, s.hibpEarliestExpiry)

/-- One eviction, if there is a victim. -/
def evictOne (now : ℤ) (s : HibpCache κ D) : Option (HibpCache κ D) :=
  let found := s.victimKey now
  found.1.map fun key =>
    { s with
      map := s.map.delete key
      hibpCacheBytes := s.hibpCacheBytes - ((s.map.get key).map (·.bytes)).getD 0
      hibpEarliestExpiry := found.2 }

/-- More than one entry, and over a limit. -/
def overLimits (maxBytes : ℤ) (s : HibpCache κ D) : Bool :=
  decide (1 < s.map.entries.length) &&
    (decide (hibpCacheMaxEntries < s.map.entries.length) || decide (maxBytes < s.hibpCacheBytes))

/-- The eviction loop, with the clock as each round reads it. -/
def evictLoop (maxBytes : ℤ) : ℕ → (ℕ → ℤ) → HibpCache κ D → HibpCache κ D
  | 0, _, s => s
  | n + 1, clock, s =>
    if s.overLimits maxBytes then
      match s.evictOne (clock 0) with
      | none => s
      | some s => evictLoop maxBytes n (fun i => clock (i + 1)) s
    else s

/-- A round takes out one entry, so there are no more rounds than entries. -/
def evictHibpToWithinLimits (maxBytes : ℤ) (clock : ℕ → ℤ) (s : HibpCache κ D) : HibpCache κ D :=
  let s := evictLoop maxBytes s.map.entries.length clock s
  { s with hibpCacheBytes := if s.hibpCacheBytes < 0 then 0 else s.hibpCacheBytes }

/-! ## Inserting -/

/-- The cache before the eviction that both paths of an insert end with. `byteLength` measures the
data. -/
def inserted (byteLength : D → ℕ) (key : κ) (data : D) (expires : ℤ) (s : HibpCache κ D) :
    HibpCache κ D :=
  let s := if s.map.entries.length = 0 then { s with hibpCacheBytes := 0, hibpEarliestExpiry := 0 }
    else s
  let bytes := byteLength data
  let stored : HibpCacheEntry D := ⟨data, expires, bytes⟩
  let s :=
    if s.hibpEarliestExpiry ≠ 0 ∧ expires < s.hibpEarliestExpiry then
      { s with hibpEarliestExpiry := expires }
    else s
  match s.map.get key with
  | some existing =>
    -- in place: no new slot, so the total changes by the difference only
    { s with
      map := s.map.set key stored
      hibpCacheBytes := s.hibpCacheBytes + (bytes - existing.bytes) }
  | none =>
    { s with
      map := s.map.set key stored
      hibpCacheBytes := s.hibpCacheBytes + bytes }

/-- Inserts an entry or replaces it in place, then evicts. -/
def setHibpCacheEntry (byteLength : D → ℕ) (maxBytes : ℤ) (key : κ) (data : D) (expires : ℤ)
    (clock : ℕ → ℤ) (s : HibpCache κ D) : HibpCache κ D :=
  evictHibpToWithinLimits maxBytes clock (s.inserted byteLength key data expires)

/-- The states in which the eviction after an insert into `s` looks for its next victim, whatever
the clock shows in each round. -/
inductive Evicting (maxBytes : ℤ) (s : HibpCache κ D) : HibpCache κ D → Prop where
  | first : Evicting maxBytes s s
  | round {t u : HibpCache κ D} {now : ℤ} : Evicting maxBytes s t → t.overLimits maxBytes = true →
      t.evictOne now = some u → Evicting maxBytes s u

end HibpCache

/-- An operation on the cache, with the clock it reads. -/
inductive CacheOp (κ D : Type) where
  | set (key : κ) (data : D) (expires : ℤ) (clock : ℕ → ℤ)
  | prune (now : ℤ)

/-- The cache after an operation. -/
def HibpCache.apply (byteLength : D → ℕ) (maxBytes : ℤ) (s : HibpCache κ D) :
    CacheOp κ D → HibpCache κ D
  | .set key data expires clock => s.setHibpCacheEntry byteLength maxBytes key data expires clock
  | .prune now => s.pruneHibpCache now

/-! ## A cache that scans every time -/

/-- The entries and the accesses, and nothing that could go stale. -/
structure FullCache (κ D : Type) where
  map : OrderedMap κ (HibpCacheEntry D)
  accesses : ℕ

namespace FullCache

/-- An expired entry if there is one, else the oldest. -/
def victim (now : ℤ) (es : List (κ × HibpCacheEntry D)) : Option κ :=
  ((es.find? fun e => decide (e.2.expires < now)).map (·.1)).or (HibpCache.oldest es)

def evictLoop (maxBytes : ℤ) : ℕ → (ℕ → ℤ) → OrderedMap κ (HibpCacheEntry D) →
    OrderedMap κ (HibpCacheEntry D)
  | 0, _, m => m
  | n + 1, clock, m =>
    if 1 < m.entries.length ∧
        (hibpCacheMaxEntries < m.entries.length ∨ maxBytes < sumBytes m.entries) then
      match victim (clock 0) m.entries with
      | none => m
      | some key => evictLoop maxBytes n (fun i => clock (i + 1)) (m.delete key)
    else m

def apply (byteLength : D → ℕ) (maxBytes : ℤ) (s : FullCache κ D) : CacheOp κ D → FullCache κ D
  | .set key data expires clock =>
    let m := s.map.set key ⟨data, expires, byteLength data⟩
    { s with map := evictLoop maxBytes m.entries.length clock m }
  | .prune now =>
    { map :=
        if (s.accesses + 1) % 100 = 0 then
          ⟨s.map.entries.filter fun e => !decide (e.2.expires < now)⟩
        else s.map
      accesses := s.accesses + 1 }

end FullCache

/-! ## The bookkeeping -/

section Bytes

variable {k : κ} {v : HibpCacheEntry D} {es : List (κ × HibpCacheEntry D)}

omit [DecidableEq κ] in
@[simp] theorem sumBytes_nil : sumBytes ([] : List (κ × HibpCacheEntry D)) = 0 := rfl

omit [DecidableEq κ] in
@[simp] theorem sumBytes_cons (e : κ × HibpCacheEntry D) (es : List (κ × HibpCacheEntry D)) :
    sumBytes (e :: es) = e.2.bytes + sumBytes es := rfl

omit [DecidableEq κ] in
theorem sumBytes_nonneg (es : List (κ × HibpCacheEntry D)) : 0 ≤ sumBytes es := by
  induction es with
  | nil => simp
  | cons e es ih =>
    rw [sumBytes_cons]
    omega

/-- Setting a key replaces the size of what was there. -/
theorem sumBytes_setIn (k : κ) (v : HibpCacheEntry D) (es : List (κ × HibpCacheEntry D)) :
    sumBytes (setIn k v es) =
    sumBytes es - ((getIn k es).map (·.bytes)).getD 0 + v.bytes := by
  induction es with
  | nil => simp [setIn, getIn]
  | cons e es ih =>
    obtain ⟨k', v'⟩ := e
    by_cases hk : k' = k
    · simp only [setIn, getIn, hk, if_true, sumBytes_cons, map_some,
        getD_some]
      omega
    · simp only [setIn, getIn, hk, if_false, sumBytes_cons, ih]
      omega

theorem sumBytes_deleteIn : sumBytes (deleteIn k es) =
    sumBytes es - ((getIn k es).map (·.bytes)).getD 0 := by
  induction es with
  | nil => simp [deleteIn, getIn]
  | cons e es ih =>
    obtain ⟨k', v'⟩ := e
    by_cases hk : k' = k
    · simp only [deleteIn, getIn, hk, if_true, sumBytes_cons, map_some,
        getD_some]
      omega
    · simp only [deleteIn, getIn, hk, if_false, sumBytes_cons, ih]
      omega

theorem mem_setIn {e : κ × HibpCacheEntry D} (h : e ∈ setIn k v es) :
    e = (k, v) ∨ e ∈ es := by
  induction es with
  | nil => simpa [setIn] using h
  | cons e' es ih =>
    obtain ⟨k', v'⟩ := e'
    by_cases hk : k' = k
    · simp only [setIn, hk, if_true, mem_cons] at h ⊢
      tauto
    · simp only [setIn, hk, if_false, mem_cons] at h ⊢
      rcases h with h | h
      · exact .inr (.inl h)
      · exact (ih h).imp_right .inr

end Bytes

/-! ## The scan -/

section Scan

variable {now bound : ℤ} {es : List (κ × HibpCacheEntry D)}

/-- The least expiry of the entries and of what was seen before them. -/
def leastExpiry (earliest : Option ℤ) (es : List (κ × HibpCacheEntry D)) : Option ℤ :=
  es.foldl (fun earliest e => lowered earliest e.2.expires) earliest

omit [DecidableEq κ] in
theorem scan_fst (earliest : Option ℤ) : (HibpCache.scan now earliest es).1 =
    (es.find? fun e => decide (e.2.expires < now)).map (·.1) := by
  induction es generalizing earliest with
  | nil => rfl
  | cons e es ih =>
    obtain ⟨key, entry⟩ := e
    by_cases hexpired : entry.expires < now
    · simp [HibpCache.scan, hexpired]
    · simp [HibpCache.scan, hexpired, ih]

omit [DecidableEq κ] in
/-- A scan that finds nothing has seen every entry. -/
theorem scan_snd (earliest : Option ℤ) (h : (HibpCache.scan now earliest es).1 = none) :
    (HibpCache.scan now earliest es).2 = leastExpiry earliest es := by
  induction es generalizing earliest with
  | nil => rfl
  | cons e es ih =>
    obtain ⟨key, entry⟩ := e
    by_cases hexpired : entry.expires < now
    · simp [HibpCache.scan, hexpired] at h
    · simp only [HibpCache.scan, hexpired, if_false] at h ⊢
      exact ih _ h

theorem lowered_le {earliest : Option ℤ} {expires : ℤ} (h : bound ∈ lowered earliest expires) :
    bound ≤ expires ∧ ∀ b ∈ earliest, bound ≤ b := by
  cases earliest with
  | none =>
    have hbound : expires = bound := some_inj.1 h
    simp [hbound]
  | some b =>
    simp only [lowered, mem_def] at h
    split at h <;> simp_all
    omega

omit [DecidableEq κ] in
theorem leastExpiry_le {earliest : Option ℤ} (h : bound ∈ leastExpiry earliest es) :
    (∀ e ∈ es, bound ≤ e.2.expires) ∧ ∀ b ∈ earliest, bound ≤ b := by
  induction es generalizing earliest with
  | nil =>
    have heq : earliest = some bound := h
    simp [heq]
  | cons e es ih =>
    have ⟨hes, hlowered⟩ := ih h
    cases hl : lowered earliest e.2.expires with
    | none => cases earliest <;> simp [lowered] at hl; split at hl <;> simp at hl
    | some b =>
      have ⟨he, hearliest⟩ := lowered_le hl
      have hb : bound ≤ b := hlowered b hl
      refine ⟨fun e' he' => ?_, fun b' hb' => by have := hearliest b' hb'; omega⟩
      rcases mem_cons.1 he' with rfl | he'
      · omega
      · exact hes e' he'

end Scan

/-- No entry expires before the bound; a bound of 0 says nothing. -/
def Bounds (bound : ℤ) (es : List (κ × HibpCacheEntry D)) : Prop :=
  bound ≠ 0 → ∀ e ∈ es, bound ≤ e.2.expires

omit [DecidableEq κ] in
theorem Bounds.sublist {bound : ℤ} {es es' : List (κ × HibpCacheEntry D)} (h : Bounds bound es)
    (hsub : es'.Sublist es) : Bounds bound es' :=
  fun hne e he => h hne e (hsub.subset he)

omit [DecidableEq κ] in
/-- The least expiry bounds the entries, and no other value does for want of entries. -/
theorem bounds_leastExpiry {es : List (κ × HibpCacheEntry D)} {other : ℤ} (h : Bounds other es) :
    Bounds ((leastExpiry none es).getD other) es := by
  cases hleast : leastExpiry none es with
  | none => exact h
  | some bound => exact fun _ e he => (leastExpiry_le hleast).1 e he

/-- What the operations keep true of the bookkeeping. -/
structure HibpCache.Kept (s : HibpCache κ D) : Prop where
  unique : s.map.Unique
  bytes : s.hibpCacheBytes = sumBytes s.map.entries
  bound : Bounds s.hibpEarliestExpiry s.map.entries

/-! ## Evictions -/

namespace FullCache

variable {now : ℤ} {es : List (κ × HibpCacheEntry D)}

omit [DecidableEq κ] in
theorem victim_mem {key : κ} (h : victim now es = some key) : key ∈ es.map (·.1) := by
  unfold victim at h
  cases hfind : es.find? fun e => decide (e.2.expires < now) with
  | some e =>
    rw [hfind] at h
    have hkey : e.1 = key := by simpa using h
    exact hkey ▸ mem_map_of_mem (mem_of_find?_eq_some hfind)
  | none =>
    rw [hfind] at h
    cases es with
    | nil => simp [HibpCache.oldest] at h
    | cons e es => simp_all [HibpCache.oldest]

omit [DecidableEq κ] in
theorem victim_eq_none (h : victim now es = none) : es = [] := by
  cases es with
  | nil => rfl
  | cons e es => simp [victim, HibpCache.oldest] at h

/-- The loop ends within the limits, or with a single entry. -/
theorem evictLoop_within (maxBytes : ℤ) (n : ℕ) (clock : ℕ → ℤ)
    (m : OrderedMap κ (HibpCacheEntry D)) (hn : m.entries.length ≤ n)
    (hpos : 0 < m.entries.length) :
    let m' := evictLoop maxBytes n clock m
    (m'.entries.length ≤ hibpCacheMaxEntries ∧ sumBytes m'.entries ≤ maxBytes) ∨
      m'.entries.length = 1 := by
  induction n generalizing clock m with
  | zero => omega
  | succ n ih =>
    unfold evictLoop
    split
    · rename_i hover
      cases hvictim : victim (clock 0) m.entries with
      | none => simp [victim_eq_none hvictim] at hpos
      | some key =>
        have hlength : (m.delete key).entries.length + 1 = m.entries.length :=
          length_deleteIn (victim_mem hvictim)
        exact ih _ (m.delete key) (by omega) (by omega)
    · rename_i hover
      simp only
      omega

end FullCache

namespace HibpCache

variable {s : HibpCache κ D} {maxBytes now : ℤ}

omit [DecidableEq κ] in
/-- While the bound holds, the skipped scan would have found nothing. -/
theorem victimKey_fst (h : Bounds s.hibpEarliestExpiry s.map.entries) :
    (s.victimKey now).1 = FullCache.victim now s.map.entries := by
  unfold victimKey FullCache.victim
  split
  · rw [← scan_fst none]
    rcases scan now none s.map.entries with ⟨_ | key, earliest⟩ <;> rfl
  · rename_i hskip
    have hnone : (s.map.entries.find? fun e => decide (e.2.expires < now)) = none := by
      rw [find?_eq_none]
      intro e he
      have hbound := h (by omega) e he
      simp only [decide_eq_true_eq]
      omega
    rw [hnone]
    rfl

omit [DecidableEq κ] in
theorem victimKey_snd (h : Bounds s.hibpEarliestExpiry s.map.entries) :
    Bounds (s.victimKey now).2 s.map.entries := by
  unfold victimKey
  split
  · cases hfst : (scan now none s.map.entries).1 with
    | some key =>
      have heq : scan now none s.map.entries = (some key, (scan now none s.map.entries).2) := by
        rw [← hfst]
      rw [heq]
      exact h
    | none =>
      have heq : scan now none s.map.entries = (none, leastExpiry none s.map.entries) := by
        rw [← scan_snd none hfst, ← hfst]
      rw [heq]
      exact bounds_leastExpiry h
  · exact h

/-- An eviction takes out the victim of a full scan and keeps the bookkeeping. -/
theorem Kept.evictOne {u : HibpCache κ D} (h : Kept s) (hu : s.evictOne now = some u) : Kept u ∧
    ∃ key, FullCache.victim now s.map.entries = some key ∧ u.map = s.map.delete key := by
  obtain ⟨key, hkey, rfl⟩ := map_eq_some_iff.1 hu
  have hsub : (s.map.delete key).entries.Sublist s.map.entries := deleteIn_sublist _ _
  refine ⟨⟨h.unique.delete key, ?_, (victimKey_snd h.bound).sublist hsub⟩, key, ?_, rfl⟩
  · show s.hibpCacheBytes - ((s.map.get key).map (·.bytes)).getD 0 =
      sumBytes (deleteIn key s.map.entries)
    rw [sumBytes_deleteIn, h.bytes, OrderedMap.get]
  · rw [← victimKey_fst h.bound, hkey]

theorem evictOne_eq_none (h : Kept s) (hu : s.evictOne now = none) :
    FullCache.victim now s.map.entries = none := by
  rw [← victimKey_fst h.bound]
  simpa [HibpCache.evictOne] using hu

omit [DecidableEq κ] in
theorem overLimits_iff (h : Kept s) : s.overLimits maxBytes = true ↔
    1 < s.map.entries.length ∧
      (hibpCacheMaxEntries < s.map.entries.length ∨ maxBytes < sumBytes s.map.entries) := by
  simp [overLimits, h.bytes]

theorem Kept.evictLoop (h : Kept s) (maxBytes : ℤ) (n : ℕ) (clock : ℕ → ℤ) :
    Kept (HibpCache.evictLoop maxBytes n clock s) ∧
    (HibpCache.evictLoop maxBytes n clock s).map = FullCache.evictLoop maxBytes n clock s.map := by
  induction n generalizing s clock with
  | zero => exact ⟨h, rfl⟩
  | succ n ih =>
    unfold HibpCache.evictLoop FullCache.evictLoop
    by_cases hover : s.overLimits maxBytes = true
    · rw [if_pos hover, if_pos ((overLimits_iff h).1 hover)]
      cases hu : s.evictOne (clock 0) with
      | none =>
        rw [evictOne_eq_none h hu]
        exact ⟨h, rfl⟩
      | some u =>
        have ⟨hkept, key, hvictim, hmap⟩ := h.evictOne hu
        rw [hvictim]
        simp only
        rw [← hmap]
        exact ih hkept _
    · rw [if_neg hover, if_neg fun hfull => hover ((overLimits_iff h).2 hfull)]
      exact ⟨h, rfl⟩

theorem Kept.evicting (h : Kept s) {t : HibpCache κ D} (ht : Evicting maxBytes s t) : Kept t := by
  induction ht with
  | first => exact h
  | round _ _ hu ih => exact (ih.evictOne hu).1

theorem Kept.evictHibpToWithinLimits (h : Kept s) (maxBytes : ℤ) (clock : ℕ → ℤ) :
    Kept (s.evictHibpToWithinLimits maxBytes clock) ∧
    (s.evictHibpToWithinLimits maxBytes clock).map =
      FullCache.evictLoop maxBytes s.map.entries.length clock s.map := by
  have ⟨hkept, hmap⟩ := h.evictLoop maxBytes s.map.entries.length clock
  have hnonneg := sumBytes_nonneg
    (HibpCache.evictLoop maxBytes s.map.entries.length clock s).map.entries
  have hbytes := hkept.bytes
  -- the total is a sum of sizes, so it is not clamped
  refine ⟨⟨hkept.unique, ?_, hkept.bound⟩, hmap⟩
  show (if _ then _ else _) = _
  rw [if_neg (by omega)]
  exact hbytes

/-! ## Inserts -/

variable {byteLength : D → ℕ} {key : κ} {data : D} {expires : ℤ}

theorem inserted_map : (s.inserted byteLength key data expires).map =
    s.map.set key ⟨data, expires, byteLength data⟩ := by
  unfold inserted
  split <;> (simp only; split <;> split <;> rfl)

/-- A bound lowered to a new entry's expiry covers that entry too. -/
theorem lower_bounds {bound : ℤ} {es : List (κ × HibpCacheEntry D)} (h : Bounds bound es)
    (key : κ) (stored : HibpCacheEntry D) :
    Bounds (if bound ≠ 0 ∧ stored.expires < bound then stored.expires else bound)
      (setIn key stored es) := by
  intro hne e he
  rcases mem_setIn he with rfl | he
  · show (if _ then _ else _) ≤ stored.expires
    split <;> omega
  · have hbound : bound ≠ 0 → bound ≤ e.2.expires := fun hne => h hne e he
    split
    · omega
    · simp_all

theorem Kept.inserted (h : Kept s) (byteLength : D → ℕ) (key : κ) (data : D) (expires : ℤ) :
    Kept (s.inserted byteLength key data expires) := by
  have hheal : ∃ s₀, Kept s₀ ∧ s₀.map = s.map ∧ s₀ =
      if s.map.entries.length = 0 then { s with hibpCacheBytes := 0, hibpEarliestExpiry := 0 }
      else s := by
    by_cases hempty : s.map.entries.length = 0
    · rw [if_pos hempty]
      rw [length_eq_zero_iff] at hempty
      exact ⟨{ s with hibpCacheBytes := 0, hibpEarliestExpiry := 0 },
        ⟨h.unique, by simp [hempty], fun hne => absurd rfl hne⟩, rfl, rfl⟩
    · exact ⟨s, h, rfl, (if_neg hempty).symm⟩
  obtain ⟨s₀, hkept, hmap, hs₀⟩ := hheal
  have hbound := lower_bounds hkept.bound key ⟨data, expires, byteLength data⟩
  have hbytes := sumBytes_setIn key ⟨data, expires, byteLength data⟩ s₀.map.entries
  have hunique := hkept.unique.set key ⟨data, expires, byteLength data⟩
  unfold HibpCache.inserted
  rw [← hs₀]
  simp only
  rw [← hkept.bytes] at hbytes
  by_cases hlower : s₀.hibpEarliestExpiry ≠ 0 ∧ expires < s₀.hibpEarliestExpiry
  all_goals
    first | rw [if_pos hlower] at hbound ⊢ | rw [if_neg hlower] at hbound ⊢
    cases hget : s₀.map.get key with
    | none =>
      rw [OrderedMap.get] at hget
      refine ⟨hunique, ?_, hbound⟩
      rw [hget] at hbytes
      show s₀.hibpCacheBytes + byteLength data = sumBytes (setIn key _ s₀.map.entries)
      rw [hbytes]
      simp
    | some existing =>
      rw [OrderedMap.get] at hget
      refine ⟨hunique, ?_, hbound⟩
      rw [hget] at hbytes
      show s₀.hibpCacheBytes + (byteLength data - existing.bytes) =
        sumBytes (setIn key _ s₀.map.entries)
      rw [hbytes]
      simp only [map_some, getD_some]
      omega

theorem Kept.setHibpCacheEntry (h : Kept s) (byteLength : D → ℕ) (maxBytes : ℤ) (key : κ) (data : D)
    (expires : ℤ) (clock : ℕ → ℤ) :
    Kept (s.setHibpCacheEntry byteLength maxBytes key data expires clock) ∧
    (s.setHibpCacheEntry byteLength maxBytes key data expires clock).map =
      FullCache.evictLoop maxBytes
        (s.map.set key ⟨data, expires, byteLength data⟩).entries.length clock
        (s.map.set key ⟨data, expires, byteLength data⟩) := by
  have hinserted :=
    (h.inserted byteLength key data expires).evictHibpToWithinLimits maxBytes clock
  rwa [inserted_map] at hinserted

/-- After an insert the cache is within both limits, or holds one entry. -/
theorem setHibpCacheEntry_within (h : Kept s) (clock : ℕ → ℤ) :
    let s' := s.setHibpCacheEntry byteLength maxBytes key data expires clock
    (s'.map.entries.length ≤ hibpCacheMaxEntries ∧ s'.hibpCacheBytes ≤ maxBytes) ∨
      s'.map.entries.length = 1 := by
  have ⟨hkept, hmap⟩ := h.setHibpCacheEntry byteLength maxBytes key data expires clock
  have hpos : 0 < (s.map.set key ⟨data, expires, byteLength data⟩).entries.length := by
    show 0 < (setIn key _ s.map.entries).length
    cases s.map.entries with
    | nil => exact Nat.one_pos
    | cons e es =>
      unfold setIn
      split <;> exact Nat.succ_pos _
  have hwithin := FullCache.evictLoop_within maxBytes _ clock _ (Nat.le_refl _) hpos
  simp only [← hmap] at hwithin
  simp only [hkept.bytes]
  exact hwithin

/-! ## Sweeps -/

/-- The sweep of what is left of the entries keeps the live ones and bounds them. -/
theorem foldl_sweepEntry (now : ℤ) (s : HibpCache κ D) (earliest : Option ℤ)
    (pre post : List (κ × HibpCacheEntry D)) (hmap : s.map = ⟨pre ++ post⟩)
    (hunique : ((pre ++ post).map (·.1)).Nodup) :
    let live := post.filter fun e => !decide (e.2.expires < now)
    let bytes := s.hibpCacheBytes - (sumBytes post - sumBytes live)
    post.foldl (sweepEntry now) (s, earliest) =
      ({ s with map := ⟨pre ++ live⟩, hibpCacheBytes := bytes }, leastExpiry earliest live) := by
  induction post generalizing s earliest pre with
  | nil =>
    obtain ⟨map, bytes, bound, accesses⟩ := s
    simp only at hmap
    simp [hmap, leastExpiry]
  | cons e post ih =>
    obtain ⟨key, entry⟩ := e
    by_cases hexpired : entry.expires < now
    · have hkey : key ∉ pre.map (·.1) := by
        rw [map_append, map_cons] at hunique
        intro hmem
        exact (nodup_append.1 hunique).2.2 key hmem key mem_cons_self rfl
      have hdelete : s.map.delete key = ⟨pre ++ post⟩ := by
        rw [hmap, delete, deleteIn_append hkey]
      have hnodup : ((pre ++ post).map (·.1)).Nodup :=
        hunique.sublist ((sublist_cons_self _ post).append_left pre |>.map _)
      simp only [foldl_cons, sweepEntry, hexpired, if_true]
      rw [ih _ earliest pre hdelete hnodup]
      simp only [filter_cons, hexpired, decide_true, Bool.not_true, sumBytes_cons]
      simp only [Bool.false_eq_true, if_false]
      congr 2
      omega
    · have hmap' : s.map = ⟨(pre ++ [(key, entry)]) ++ post⟩ := by simp [hmap]
      simp only [foldl_cons, sweepEntry, hexpired, if_false]
      rw [ih s _ _ hmap' (by simpa using hunique)]
      simp only [filter_cons, hexpired, decide_false, Bool.not_false, if_true, sumBytes_cons,
        leastExpiry, foldl_cons, append_assoc, singleton_append]
      congr 2
      omega

theorem Kept.pruneHibpCache (h : Kept s) (now : ℤ) : Kept (s.pruneHibpCache now) ∧
    (s.pruneHibpCache now).map =
      if (s.cacheAccessCount + 1) % 100 = 0 then
        ⟨s.map.entries.filter fun e => !decide (e.2.expires < now)⟩
      else s.map := by
  unfold HibpCache.pruneHibpCache
  by_cases hcount : (s.cacheAccessCount + 1) % 100 = 0
  · have hsweep := foldl_sweepEntry now { s with cacheAccessCount := s.cacheAccessCount + 1 } none
      [] s.map.entries rfl h.unique
    have hnonneg := sumBytes_nonneg
      (s.map.entries.filter fun e => !decide (e.2.expires < now))
    have hbytes := h.bytes
    simp only [hcount, ne_eq, not_true_eq_false, if_false, if_true]
    simp only at hsweep
    rw [hsweep]
    refine ⟨⟨?_, ?_, ?_⟩, rfl⟩
    · exact h.unique.sublist (filter_sublist.map _)
    · simp only [nil_append]
      rw [if_neg (by omega)]
      omega
    · exact bounds_leastExpiry fun hne => absurd rfl hne
  · simp only [hcount, ne_eq, not_false_eq_true, if_true, if_false]
    exact ⟨⟨h.unique, h.bytes, h.bound⟩, trivial⟩

/-! ## Runs -/

theorem evictLoop_accesses (n : ℕ) (clock : ℕ → ℤ) (s : HibpCache κ D) :
    (evictLoop maxBytes n clock s).cacheAccessCount = s.cacheAccessCount := by
  induction n generalizing clock s with
  | zero => rfl
  | succ n ih =>
    unfold evictLoop
    split
    · cases hu : s.evictOne (clock 0) with
      | none => rfl
      | some u =>
        have haccesses : u.cacheAccessCount = s.cacheAccessCount := by
          obtain ⟨key, -, rfl⟩ := map_eq_some_iff.1 hu
          rfl
        exact (ih _ u).trans haccesses
    · rfl

theorem inserted_accesses :
    (s.inserted byteLength key data expires).cacheAccessCount = s.cacheAccessCount := by
  unfold inserted
  split <;> (simp only; split <;> split <;> rfl)

theorem foldl_sweepEntry_accesses (now : ℤ) (es : List (κ × HibpCacheEntry D))
    (acc : HibpCache κ D × Option ℤ) :
    (es.foldl (sweepEntry now) acc).1.cacheAccessCount = acc.1.cacheAccessCount := by
  induction es generalizing acc with
  | nil => rfl
  | cons e es ih =>
    rw [foldl_cons, ih]
    unfold sweepEntry
    split <;> rfl

/-- The two caches hold the same entries and have counted the same accesses. -/
structure Agrees (s : HibpCache κ D) (f : FullCache κ D) : Prop where
  map : s.map = f.map
  accesses : s.cacheAccessCount = f.accesses

theorem Agrees.apply {f : FullCache κ D} (ha : Agrees s f) (h : Kept s) (byteLength : D → ℕ)
    (maxBytes : ℤ) (op : CacheOp κ D) :
    Kept (s.apply byteLength maxBytes op) ∧
    Agrees (s.apply byteLength maxBytes op) (f.apply byteLength maxBytes op) := by
  cases op with
  | set key data expires clock =>
    have ⟨hkept, hmap⟩ := h.setHibpCacheEntry byteLength maxBytes key data expires clock
    refine ⟨hkept, ⟨?_, ?_⟩⟩
    · rw [ha.map] at hmap
      exact hmap
    · show (evictLoop maxBytes _ clock (s.inserted byteLength key data expires)).cacheAccessCount =
        f.accesses
      rw [evictLoop_accesses, inserted_accesses, ha.accesses]
  | prune now =>
    have ⟨hkept, hmap⟩ := h.pruneHibpCache now
    refine ⟨hkept, ⟨?_, ?_⟩⟩
    · rw [ha.map, ha.accesses] at hmap
      exact hmap
    · show (s.pruneHibpCache now).cacheAccessCount = f.accesses + 1
      rw [← ha.accesses]
      unfold pruneHibpCache
      by_cases hcount : (s.cacheAccessCount + 1) % 100 ≠ 0
      · simp only [if_pos hcount]
      · simp only [if_neg hcount]
        exact foldl_sweepEntry_accesses now _ _

theorem Agrees.foldl_apply {f : FullCache κ D} (h : Kept s) (ha : Agrees s f)
    (ops : List (CacheOp κ D)) :
    Kept (ops.foldl (HibpCache.apply byteLength maxBytes) s) ∧
    Agrees (ops.foldl (HibpCache.apply byteLength maxBytes) s)
      (ops.foldl (FullCache.apply byteLength maxBytes) f) := by
  induction ops generalizing s f with
  | nil => exact ⟨h, ha⟩
  | cons op ops ih =>
    have ⟨hkept, hagrees⟩ := ha.apply h byteLength maxBytes op
    exact ih hkept hagrees

omit [DecidableEq κ] in
theorem kept_empty : Kept (empty : HibpCache κ D) where
  unique := unique_empty
  bytes := rfl
  bound := fun hne => absurd rfl hne

end HibpCache

/-- After any inserts and sweeps, with any expiries, sizes and clock readings: the total is the sum
of the sizes, the next insert ends within both limits or with a single entry, a bound that is not 0
is at most every expiry, each eviction takes the victim a full scan would take, and the entries are
those of a cache that scans every time. -/
theorem hibpCache_scan_skipped (byteLength : D → ℕ) (maxBytes : ℤ) (ops : List (CacheOp κ D)) :
    let s := ops.foldl (HibpCache.apply byteLength maxBytes) .empty
    s.hibpCacheBytes = sumBytes s.map.entries ∧
    (∀ key data expires clock,
      let s' := s.setHibpCacheEntry byteLength maxBytes key data expires clock
      (s'.map.entries.length ≤ hibpCacheMaxEntries ∧ s'.hibpCacheBytes ≤ maxBytes) ∨
        s'.map.entries.length = 1) ∧
    (s.hibpEarliestExpiry ≠ 0 → ∀ e ∈ s.map.entries, s.hibpEarliestExpiry ≤ e.2.expires) ∧
    (∀ key data expires t,
      HibpCache.Evicting maxBytes (s.inserted byteLength key data expires) t →
        ∀ now, (t.victimKey now).1 = FullCache.victim now t.map.entries) ∧
    s.map = (ops.foldl (FullCache.apply byteLength maxBytes) ⟨.empty, 0⟩).map := by
  intro s
  have ⟨hkept, hagrees⟩ : s.Kept ∧ s.Agrees _ :=
    HibpCache.Agrees.foldl_apply HibpCache.kept_empty (f := ⟨.empty, 0⟩) ⟨rfl, rfl⟩ ops
  refine ⟨hkept.bytes, ?_, hkept.bound, ?_, hagrees.map⟩
  · intro key data expires clock
    exact HibpCache.setHibpCacheEntry_within hkept clock
  · intro key data expires t ht now
    exact HibpCache.victimKey_fst ((hkept.inserted byteLength key data expires).evicting ht).bound

/-- An entry that arrives already expired lowers the bound, and is the next one evicted. -/
example :
    let ops : List (CacheOp ℕ ℕ) := [.set 1 4 100 fun _ => 0, .set 2 4 100 fun _ => 0,
      .set 3 4 100 fun _ => 0, .set 4 1 5 fun _ => 20, .set 5 2 100 fun _ => 20]
    (ops.foldl (HibpCache.apply id 10) .empty).map.entries.map (·.1) = [2, 3, 5] := by
  decide

end HVault.Breach
