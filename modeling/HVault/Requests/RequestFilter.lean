import HVault.Backup.Manifest
import HVault.Json.Prune

/-!
# The request filter

`sanitizeValue` copies a parsed body or query without the members under forbidden keys, and gives up
past 32 levels; the levels it counts are those of the copy. `sanitizeRequestBody` installs the copies
of the body and of the query together, or neither.
-/

namespace HVault.RequestFilter

open Json List Option

/-! ## The walk -/

def maxRequestBodyDepth : ℕ := 32

/-- The one value of the symbol `TOO_DEEP`. -/
inductive TooDeep where
  | tooDeep

def isForbiddenKey (key : Utf16) : Bool :=
  (units "$").isPrefixOf key || key = units "__proto__" || key = units "constructor" ||
    key = units "prototype"

mutual

def sanitizeValue : Value → ℕ → Except TooDeep Value
  | .array items, depth =>
    if depth > maxRequestBodyDepth then .error .tooDeep
    else (sanitizeEntries items depth []).map .array
  | .object fields, depth =>
    if depth > maxRequestBodyDepth then .error .tooDeep
    else (sanitizeMembers fields depth []).map .object
  | v, _ => .ok v

/-- The loop over an array, which pushes onto `cleanEntries`. -/
def sanitizeEntries : List Value → ℕ → List Value → Except TooDeep (List Value)
  | [], _, cleanEntries => .ok cleanEntries
  | entry :: entries, depth, cleanEntries => do
    let cleanEntry ← sanitizeValue entry (depth + 1)
    sanitizeEntries entries depth (cleanEntries ++ [cleanEntry])

/-- The loop over the keys of an object, which sets members of `clean`. -/
def sanitizeMembers :
    List (Utf16 × Value) → ℕ → List (Utf16 × Value) → Except TooDeep (List (Utf16 × Value))
  | [], _, clean => .ok clean
  | (key, entry) :: source, depth, clean =>
    if isForbiddenKey key then sanitizeMembers source depth clean
    else do
      let cleanEntry ← sanitizeValue entry (depth + 1)
      sanitizeMembers source depth (assign key cleanEntry clean)

end

/-- The copy of one parsed source, `none` being `NOTHING_TO_FILTER`. -/
def sanitizeSource : Option Value → Except TooDeep (Option Value)
  | some (.array items) => (sanitizeValue (.array items) 1).map some
  | some (.object fields) => (sanitizeValue (.object fields) 1).map some
  | _ => .ok none

/-! ## The middleware -/

/-- What the parsers have left of a request, `none` being `undefined`. -/
structure Request where
  body : Option Value
  query : Option Value

inductive HttpError where
  | badRequest (message : String)

def tooDeepMessage : String := "Request body is nested too deeply"

def queryTooDeepMessage : String := "Request query is nested too deeply"

/-- The request as it is left, and what `next` is called with. -/
def sanitizeRequestBody (req : Request) : Request × Option HttpError :=
  match sanitizeSource req.body with
  | .error _ => (req, some (.badRequest tooDeepMessage))
  | .ok body =>
    match sanitizeSource req.query with
    | .error _ => (req, some (.badRequest queryTooDeepMessage))
    | .ok query => (⟨body <|> req.body, query <|> req.query⟩, none)

/-! ## What the walk computes -/

/-- A value without its forbidden members. -/
abbrev filtered (v : Value) : Value := v.prune isForbiddenKey

/-- A copy that starts at some depth and has some levels, if the bound leaves it room. -/
def within {α : Type} (depth levels : ℕ) (copy : α) : Except TooDeep α :=
  if levels ≤ maxRequestBodyDepth + 1 - depth then .ok copy else .error .tooDeep

/-- An array or object, given the walk over what is in it, one level down. -/
theorem within_succ {α β : Type} (depth levels : ℕ) (copy : α) (f : α → β) :
    (if depth > maxRequestBodyDepth then .error .tooDeep
      else (within (depth + 1) levels copy).map f) = within depth (levels + 1) (f copy) := by
  unfold within
  by_cases hdepth : depth > maxRequestBodyDepth
  · have hroom : ¬ levels + 1 ≤ maxRequestBodyDepth + 1 - depth := by omega
    rw [if_pos hdepth, if_neg hroom]
  · rw [if_neg hdepth]
    by_cases hroom : levels ≤ maxRequestBodyDepth + 1 - (depth + 1)
    · rw [if_pos hroom, if_pos (by omega)]
      rfl
    · rw [if_neg hroom, if_neg (by omega)]
      rfl

/-- One entry after the other: the bound holds for both or the walk ends. -/
theorem within_max {α β : Type} (depth levels rest : ℕ) (copy : α) (k : α → Except TooDeep β)
    (done : β) (hk : k copy = within depth rest done) :
    (within depth levels copy >>= k) = within depth (max levels rest) done := by
  unfold within at hk ⊢
  by_cases hlevels : levels ≤ maxRequestBodyDepth + 1 - depth
  · rw [if_pos hlevels]
    show k copy = _
    rw [hk]
    simp only [max_le_iff, hlevels, true_and]
  · rw [if_neg hlevels, if_neg (by omega)]
    rfl

mutual

theorem sanitizeValue_eq : ∀ {v : Value}, Ordered v → ∀ depth,
    sanitizeValue v depth = within depth (filtered v).levels (filtered v)
  | .null, _, depth
  | .bool _, _, depth | .number _, _, depth | .string _, _, depth => (if_pos (Nat.zero_le _)).symm
  | .array items, .array h, depth => by
    have hentries := sanitizeEntries_eq h depth []
    rw [sanitizeValue, hentries, nil_append, within_succ, filtered, Value.prune, Value.levels]
  | .object fields, .object hfollows h, depth => by
    have hfollows := pairwise_pruneFields isForbiddenKey hfollows
    have hmembers := sanitizeMembers_eq h depth [] hfollows
    rw [sanitizeValue, hmembers, nil_append, within_succ, filtered, Value.prune, Value.levels]

theorem sanitizeEntries_eq : ∀ {items : List Value}, (∀ v ∈ items, Ordered v) → ∀ depth clean,
    sanitizeEntries items depth clean = within (depth + 1)
      (itemsLevels (pruneItems isForbiddenKey items)) (clean ++ pruneItems isForbiddenKey items)
  | [], _, depth, clean => by
    rw [sanitizeEntries, pruneItems, itemsLevels, append_nil]
    exact (if_pos (Nat.zero_le _)).symm
  | v :: items, h, depth, clean => by
    have hrest := sanitizeEntries_eq (fun v hv => h v (mem_cons_of_mem _ hv)) depth
    rw [sanitizeEntries, sanitizeValue_eq (h v mem_cons_self), pruneItems, itemsLevels]
    apply within_max
    rw [hrest, append_assoc]
    rfl

/-- The members stand in their order, so that each is set behind those that are there. -/
theorem sanitizeMembers_eq : ∀ {fields : List (Utf16 × Value)}, (∀ field ∈ fields, Ordered field.2) →
    ∀ depth clean,
    (clean ++ pruneFields isForbiddenKey fields).Pairwise (fun a b => Follows a.1 b.1) →
    sanitizeMembers fields depth clean = within (depth + 1)
      (fieldsLevels (pruneFields isForbiddenKey fields)) (clean ++ pruneFields isForbiddenKey fields)
  | [], _, depth, clean, _ => by
    rw [sanitizeMembers, pruneFields, fieldsLevels, append_nil]
    exact (if_pos (Nat.zero_le _)).symm
  | (key, v) :: fields, h, depth, clean, hfollows => by
    have hrest := sanitizeMembers_eq (fun f hf => h f (mem_cons_of_mem _ hf)) depth
    rw [pruneFields] at hfollows ⊢
    rw [sanitizeMembers]
    by_cases hkey : isForbiddenKey key = true
    · rw [if_pos hkey] at hfollows
      rw [if_pos hkey, if_pos hkey, hrest clean hfollows]
    · rw [if_neg hkey] at hfollows
      have hlast : assign key (filtered v) clean = clean ++ [(key, filtered v)] :=
        assign_of_follows fun field hfield =>
          (pairwise_append.1 hfollows).2.2 field hfield _ mem_cons_self
      rw [if_neg hkey, if_neg hkey, sanitizeValue_eq (h (key, v) mem_cons_self), fieldsLevels]
      apply within_max
      rw [hlast, hrest, append_assoc]
      · rfl
      · rw [append_assoc]
        exact hfollows

end

/-! ## What the middleware leaves -/

/-- How deep a source may be. -/
def Bounded (source : Option Value) : Prop :=
  ∀ v ∈ source, (filtered v).levels ≤ maxRequestBodyDepth

/-- Both sources are replaced, and the request goes on. -/
def Replaced (req : Request) (left : Request × Option HttpError) : Prop :=
  left = (⟨req.body.map filtered, req.query.map filtered⟩, none) ∧
    Bounded req.body ∧ Bounded req.query

/-- The request is refused as it is, with the message about a source that is too deep. -/
def Refused (req : Request) (left : Request × Option HttpError) : Prop :=
  (left = (req, some (.badRequest tooDeepMessage)) ∧ ¬ Bounded req.body) ∨
    left = (req, some (.badRequest queryTooDeepMessage)) ∧ Bounded req.body ∧ ¬ Bounded req.query

/-- A scalar is not copied, and neither is a source that is not there; both are their own copies. -/
theorem sanitizeSource_cases {source : Option Value} (h : ∀ v ∈ source, Ordered v) :
    (∃ copy, sanitizeSource source = .ok copy ∧ (copy <|> source) = source.map filtered ∧
      Bounded source) ∨ (∃ e, sanitizeSource source = .error e) ∧ ¬ Bounded source := by
  have hwalk : ∀ v, source = some v → sanitizeSource source = (sanitizeValue v 1).map some →
      (∃ copy, sanitizeSource source = .ok copy ∧ (copy <|> source) = source.map filtered ∧
        Bounded source) ∨ (∃ e, sanitizeSource source = .error e) ∧ ¬ Bounded source := by
    rintro v rfl hsource
    rw [hsource, sanitizeValue_eq (h v rfl), within, Nat.add_sub_cancel]
    by_cases hlevels : (filtered v).levels ≤ maxRequestBodyDepth
    · refine .inl ⟨some (filtered v), by rw [if_pos hlevels]; rfl, rfl, ?_⟩
      intro w hw
      cases hw
      exact hlevels
    · rw [if_neg hlevels]
      exact .inr ⟨⟨_, rfl⟩, fun hbounded => hlevels (hbounded v rfl)⟩
  cases source with
  | none => exact .inl ⟨none, rfl, rfl, fun v hv => absurd hv (not_mem_none v)⟩
  | some v =>
    have hscalar : filtered v = v → (filtered v).levels = 0 → sanitizeSource (some v) = .ok none →
        ∃ copy, sanitizeSource (some v) = .ok copy ∧ (copy <|> some v) = (some v).map filtered ∧
          Bounded (some v) := by
      intro hself hlevels hsource
      refine ⟨none, hsource, by rw [map_some, hself]; rfl, ?_⟩
      intro w hw
      cases hw
      omega
    cases v with
    | array items | object fields => exact hwalk _ rfl rfl
    | null | bool b | number n | string s => exact .inl (hscalar rfl rfl rfl)

/-- **The request filter.** The walk copies a value without its forbidden members, if what is left
has at most 32 levels, and copying a copy changes nothing; deeper than that there is no copy. A
request goes on with the copies of both sources, or is refused with both as they were parsed. -/
theorem request_filter :
    (∀ v, Ordered v →
      ((filtered v).levels ≤ 32 → sanitizeValue v 1 = .ok (filtered v) ∧
        sanitizeValue (filtered v) 1 = .ok (filtered v)) ∧
      (32 < (filtered v).levels → sanitizeValue v 1 = .error .tooDeep)) ∧
    ∀ req : Request, (∀ v ∈ req.body, Ordered v) → (∀ v ∈ req.query, Ordered v) →
      Replaced req (sanitizeRequestBody req) ∨ Refused req (sanitizeRequestBody req) := by
  refine ⟨?_, ?_⟩
  · intro v hv
    have hwalk := sanitizeValue_eq hv 1
    have hagain := sanitizeValue_eq (ordered_prune isForbiddenKey hv) 1
    rw [filtered, prune_prune] at hagain
    refine ⟨fun hlevels => ⟨hwalk.trans (if_pos hlevels), hagain.trans (if_pos hlevels)⟩, ?_⟩
    exact fun hlevels => hwalk.trans (if_neg (Nat.not_le.2 hlevels))
  · intro req hbody hquery
    unfold Replaced Refused sanitizeRequestBody
    rcases sanitizeSource_cases hbody with ⟨body, hsource, hleft, hbounded⟩ | ⟨⟨e, hsource⟩, hdeep⟩
    · rw [hsource]
      rcases sanitizeSource_cases hquery with ⟨query, hsource, hquery, hok⟩ | ⟨⟨e, hsource⟩, hdeep⟩
      · rw [hsource]
        dsimp only
        rw [hleft, hquery]
        exact .inl ⟨rfl, hbounded, hok⟩
      · rw [hsource]
        exact .inr (.inr ⟨rfl, hbounded, hdeep⟩)
    · rw [hsource]
      exact .inr (.inl ⟨rfl, hdeep⟩)

/-- A login whose address is an operator, and that has a prototype of its own. -/
def operatorLogin : Value := .object
  [(units "email", .object [(units "$ne", .null)]), (units "__proto__", .object [])]

theorem ordered_operatorLogin : Ordered operatorLogin := by
  refine .object (by decide +kernel) ?_
  intro field hfield
  rcases mem_pair.1 hfield with rfl | rfl
  · exact .object (pairwise_singleton _ _) fun f hf => (mem_singleton.1 hf) ▸ .null
  · exact .object List.Pairwise.nil fun f hf => absurd hf not_mem_nil

theorem request_filter_operator :
    sanitizeValue operatorLogin 1 = .ok (.object [(units "email", .object [])]) ∧
      Replaced ⟨some operatorLogin, none⟩ (sanitizeRequestBody ⟨some operatorLogin, none⟩) := by
  have hcopy : filtered operatorLogin = .object [(units "email", .object [])] := by rfl
  have hlevels : (filtered operatorLogin).levels ≤ 32 := by
    rw [hcopy]
    decide
  have hordered := ordered_operatorLogin
  refine ⟨hcopy ▸ ((request_filter.1 _ hordered).1 hlevels).1, ?_⟩
  rcases request_filter.2 ⟨some operatorLogin, none⟩ (fun v hv => some.inj hv ▸ hordered)
    (fun v hv => absurd hv (not_mem_none v)) with h | ⟨-, hdeep⟩ | ⟨-, -, hdeep⟩
  · exact h
  · exact absurd (fun v hv => some.inj hv ▸ hlevels) hdeep
  · exact absurd (fun v hv => absurd hv (not_mem_none v)) hdeep

end HVault.RequestFilter
