import HVault.Admission.Slots

/-!
# The books of the slots

`Books` says that the semaphore, the quota and the queue agree with what the requests hold, and
`Request.Sound` what the flags of one request say about each other. Every event keeps both, and the
law of admission follows from them.
-/

namespace HVault.Admission

open Interleave List Finmap Server Request KeyedQuota

/-! ## One request -/

namespace Request

/-- The release waits for the handler. -/
def Deferred (req : Request) : Prop :=
  ∃ t ∈ req.ticket, t.inHandler = true ∧ t.releaseWhenSettled = true

/-- What holds of every request, whatever has happened to it. -/
structure Sound (req : Request) : Prop where
  open_share : req.closed = false → req.share ≠ .released
  open_slot : req.closed = false → req.slot ≠ .released
  closed_share : req.closed = true → req.share = .held → req.Deferred
  closed_slot : req.closed = true → req.slot = .held → req.Deferred
  slot_share : req.slot = .held → req.share = .held
  promised : ∀ t ∈ req.ticket, t.releaseWhenSettled = true → req.closed = true
  ticketed : req.ticket.isSome = true → req.slot ≠ .untaken
  running : (∃ b, req.handler = .running b) ↔ ∃ t ∈ req.ticket, t.inHandler = true
  kept : req.handler = .running true → req.slot = .held

end Request

/-! ## The books -/

/-- Who waits for a slot has none, and has been charged its share. -/
def Waiting (waiters : List ℕ) (requests : Finmap fun _ : ℕ => Request) : Prop :=
  ∀ r ∈ waiters, ∀ req, requests.lookup r = some req → req.slot = .untaken ∧ req.share ≠ .untaken

/-- The semaphore, the quota and the queue agree with what the requests hold. -/
structure Books (s : Server) : Prop where
  balance : (s.semaphore.free : ℤ) + s.slotsHeld = s.semaphore.permits
  charged : ∀ key, (s.quota.heldBy key : ℤ) = s.sharesHeldBy key
  limit : ∀ key, s.quota.heldBy key ≤ s.quota.limit
  tidy : s.quota.Tidy
  fifo : s.arrivals = s.grants ++ s.semaphore.waiters
  once : s.arrivals.Nodup
  arrived : ∀ r ∈ s.arrivals, r ∈ s.requests
  waiting : Waiting s.semaphore.waiters s.requests
  prompt : s.semaphore.draining = false → s.semaphore.free = 0 ∨ s.semaphore.waiters = []

section Books

variable {s : Server} {r : ℕ} {req : Request}

theorem Waiting.insert {waiters : List ℕ} {requests : Finmap fun _ : ℕ => Request}
    (h : Waiting waiters requests)
    (hr : r ∈ waiters → req.slot = .untaken ∧ req.share ≠ .untaken) :
    Waiting waiters (requests.insert r req) := by
  intro x hx req₁ hreq₁
  by_cases hxr : x = r
  · subst hxr
    rw [lookup_insert] at hreq₁
    cases hreq₁
    exact hr hx
  · rw [lookup_insert_of_ne _ hxr] at hreq₁
    exact h x hx req₁ hreq₁

theorem mem_set {x : ℕ} (hx : x ∈ s.requests) : x ∈ (s.set r req).requests :=
  mem_insert.2 (.inr hx)

theorem lookup_set_self : (s.set r req).requests.lookup r = some req :=
  lookup_insert _

theorem lookup_set_of_ne {x : ℕ} (hx : x ≠ r) :
    (s.set r req).requests.lookup x = s.requests.lookup x :=
  lookup_insert_of_ne _ hx

/-- Writing a request again exchanges what it holds. -/
theorem slotsHeld_set (req' : Request) (h : s.requests.lookup r = some req) :
    (s.set r req').slotsHeld = s.slotsHeld - req.slots + req'.slots :=
  tally_insert_of_lookup _ h

theorem sharesHeldBy_set (req' : Request) (h : s.requests.lookup r = some req) (key : String) :
    (s.set r req').sharesHeldBy key = s.sharesHeldBy key - req.shares key + req'.shares key :=
  tally_insert_of_lookup _ h

theorem slotsHeld_set_new (req : Request) (h : s.requests.lookup r = none) :
    (s.set r req).slotsHeld = s.slotsHeld + req.slots :=
  tally_insert_of_notMem _ fun hm => by
    obtain ⟨b, hb⟩ := mem_iff.1 hm
    rw [h] at hb
    cases hb

theorem sharesHeldBy_set_new (req : Request) (h : s.requests.lookup r = none) (key : String) :
    (s.set r req).sharesHeldBy key = s.sharesHeldBy key + req.shares key :=
  tally_insert_of_notMem _ fun hm => by
    obtain ⟨b, hb⟩ := mem_iff.1 hm
    rw [h] at hb
    cases hb

/-- A request that keeps its identity, its share and its slot changes nothing in the books. -/
theorem Books.set {req' : Request} (h : Books s) (hr : s.requests.lookup r = some req)
    (hidentity : req'.identity = req.identity) (hshare : req'.share = req.share)
    (hslot : req'.slot = req.slot) : Books (s.set r req') where
  balance := by
    have hsame : req'.slots = req.slots := by
      unfold slots
      rw [hslot]
    rw [slotsHeld_set _ hr, hsame, sub_add_cancel]
    exact h.balance
  charged key := by
    have hsame : req'.shares key = req.shares key := by
      unfold shares
      rw [hshare, hidentity]
    rw [sharesHeldBy_set _ hr, hsame, sub_add_cancel]
    exact h.charged key
  limit := h.limit
  tidy := h.tidy
  fifo := h.fifo
  once := h.once
  arrived x hx := mem_set (h.arrived x hx)
  waiting := h.waiting.insert fun hx => by
    rw [hslot, hshare]
    exact h.waiting r hx req hr
  prompt := h.prompt

/-- A charged request counts towards its identity. -/
theorem heldBy_pos (h : Books s) (hr : s.requests.lookup r = some req) (hshare : req.share = .held) :
    0 < s.quota.heldBy req.identity := by
  have hle := le_tally (fun _ _ => by unfold shares; split <;> omega) hr
    (w := fun _ r => r.shares req.identity)
  have hone : req.shares req.identity = 1 := if_pos ⟨hshare, rfl⟩
  have hcharged := h.charged req.identity
  unfold sharesHeldBy at hcharged
  omega

theorem Books.releaseShare (h : Books s) (r : ℕ) : Books (s.releaseShare r) := by
  unfold Server.releaseShare
  cases hr : s.requests.lookup r with
  | none => exact h
  | some req =>
    dsimp only
    split
    · rename_i hshare
      have hpos := heldBy_pos h hr hshare
      refine ⟨?_, fun key => ?_, fun key => ?_, h.tidy.release _, h.fifo, h.once,
        fun x hx => mem_set (h.arrived x hx), h.waiting.insert fun hx => ?_, h.prompt⟩
      · have hsame : ({ req with share := .released } : Request).slots = req.slots := rfl
        have hheld := slotsHeld_set { req with share := .released } hr
        rw [hsame, sub_add_cancel] at hheld
        exact hheld.symm ▸ h.balance
      · have hcharged := h.charged key
        have hheld := sharesHeldBy_set { req with share := .released } hr key
        have hback := heldBy_release hpos key
        have hnow : ({ req with share := .released } : Request).shares key = 0 :=
          if_neg fun hboth => nomatch hboth.1
        have hbefore : req.shares key = if key = req.identity then 1 else 0 := by
          unfold shares
          rw [hshare]
          simp [eq_comm]
        rw [hnow, hbefore] at hheld
        refine Eq.trans ?_ hheld.symm
        dsimp only
        split at hback
        · rename_i hkey
          rw [if_pos hkey]
          omega
        · rename_i hkey
          rw [if_neg hkey]
          omega
      · have hlimit := h.limit key
        have hback := heldBy_release hpos key
        exact Nat.le_trans (hback ▸ Nat.le_add_right ..) hlimit
      · exact ⟨(h.waiting r hx req hr).1, by nofun⟩
    · exact h

theorem Books.releaseSlot (h : Books s) (r : ℕ) : Books (s.releaseSlot r) := by
  unfold Server.releaseSlot
  cases hr : s.requests.lookup r with
  | none => exact h
  | some req =>
    dsimp only
    split
    · rename_i hslot
      have hbefore : req.slots = 1 := if_pos hslot
      refine ⟨?_, fun key => ?_, h.limit, h.tidy, h.fifo, h.once,
        fun x hx => mem_set (h.arrived x hx), h.waiting.insert fun hx => ?_, nofun⟩
      · have hnow : ({ req with slot := .released } : Request).slots = 0 := if_neg nofun
        have hheld := slotsHeld_set { req with slot := .released } hr
        have hbalance := h.balance
        rw [hnow, hbefore] at hheld
        show ((s.semaphore.free + 1 : ℕ) : ℤ) + (s.set r _).slotsHeld = s.semaphore.permits
        omega
      · have hsame : ({ req with slot := .released } : Request).shares key = req.shares key := rfl
        have hheld := sharesHeldBy_set { req with slot := .released } hr key
        rw [hsame, sub_add_cancel] at hheld
        exact hheld.symm ▸ h.charged key
      · have huntaken := (h.waiting r hx req hr).1
        rw [hslot] at huntaken
        cases huntaken
    · exact h

theorem Books.release (h : Books s) (r : ℕ) : Books (s.release r) :=
  (h.releaseShare r).releaseSlot r

/-- A turn that hands a slot to the request `r`. -/
theorem Books.granted (h : Books s) (req' : Request) {m : Semaphore ℕ}
    (hturn : s.semaphore.turn = (some r, m)) (hr : s.requests.lookup r = some req)
    (hidentity : req'.identity = req.identity) (hshare : req'.share = req.share) (hslot : req'.slot = .held) :
    Books ({ s with semaphore := m, grants := s.grants ++ [r] }.set r req') := by
  obtain ⟨hwaiters, hfree, hpermits, hdraining⟩ := Semaphore.turn_some hturn
  have horder := h.fifo
  have honce := h.once
  rw [hwaiters] at horder
  have hnotin : r ∉ m.waiters := by
    rw [horder] at honce
    have htail := List.Nodup.of_append_right honce
    exact (nodup_cons.1 htail).1
  have huntaken := (h.waiting r (by rw [hwaiters]; exact mem_cons_self) req hr).1
  refine ⟨?_, fun key => ?_, h.limit, h.tidy, ?_, honce, fun x hx => mem_set (h.arrived x hx),
    Waiting.insert ?_ fun hx => (hnotin hx).elim, fun hended => ?_⟩
  · have hnow : req'.slots = 1 := if_pos hslot
    have hbefore : req.slots = 0 := by
      unfold slots
      rw [huntaken]
      exact if_neg nofun
    have hheld := slotsHeld_set req' hr
    have hbalance := h.balance
    rw [hnow, hbefore] at hheld
    show (m.free : ℤ) + (s.set r req').slotsHeld = m.permits
    omega
  · have hsame : req'.shares key = req.shares key := by
      unfold shares
      rw [hshare, hidentity]
    have hheld := sharesHeldBy_set req' hr key
    rw [hsame, sub_add_cancel] at hheld
    exact hheld.symm ▸ h.charged key
  · rw [horder]
    show _ = s.grants ++ [r] ++ m.waiters
    rw [append_assoc]
    rfl
  · intro x hx
    exact h.waiting x (by rw [hwaiters]; exact mem_cons_of_mem _ hx)
  · rcases h.prompt (hdraining.symm.trans hended) with hnone | hnone
    · rw [hfree] at hnone
      cases hnone
    · rw [hwaiters] at hnone
      cases hnone

/-- The end of the loop. -/
theorem Books.ended (h : Books s) {m : Semaphore ℕ} (hturn : s.semaphore.turn = (none, m)) :
    Books { s with semaphore := m } := by
  obtain ⟨rfl, hidle⟩ := Semaphore.turn_none hturn
  exact ⟨h.balance, h.charged, h.limit, h.tidy, h.fifo, h.once, h.arrived, h.waiting, fun _ => hidle⟩

/-- A new request that holds nothing. -/
theorem Books.idle (h : Books s) (hr : s.requests.lookup r = none) (hshare : req.share = .untaken)
    (hslot : req.slot = .untaken) : Books (s.set r req) := by
  refine ⟨?_, fun key => ?_, h.limit, h.tidy, h.fifo, h.once, fun x hx => mem_set (h.arrived x hx),
    h.waiting.insert fun hx => ?_, h.prompt⟩
  · have hnone : req.slots = 0 := by
      unfold slots
      rw [hslot]
      exact if_neg nofun
    rw [slotsHeld_set_new _ hr, hnone, add_zero]
    exact h.balance
  · have hnone : req.shares key = 0 := by
      unfold shares
      rw [hshare]
      exact if_neg fun hboth => nomatch hboth.1
    rw [sharesHeldBy_set_new _ hr, hnone, add_zero]
    exact h.charged key
  · exact (lookup_eq_none.1 hr (h.arrived r (h.fifo ▸ mem_append_right _ hx))).elim

/-- A new request that is charged its share and queues for a slot. -/
theorem Books.admitted (h : Books s) (hr : s.requests.lookup r = none) {q : KeyedQuota String}
    (hcharge : s.quota.charge req.identity = some q) (hshare : req.share = .held)
    (hslot : req.slot = .untaken) :
    Books { s.set r req with
      quota := q
      semaphore := s.semaphore.acquire r
      arrivals := s.arrivals ++ [r] } := by
  have hfresh : r ∉ s.arrivals := fun hx => lookup_eq_none.1 hr (h.arrived r hx)
  have hroom := charge_some hcharge
  refine ⟨?_, fun key => ?_, fun key => ?_, h.tidy.charge hcharge, ?_, ?_, fun x hx => ?_,
    Waiting.insert (fun x hx req₁ hreq₁ => ?_) fun _ => ⟨hslot, ?_⟩, nofun⟩
  · have hnone : req.slots = 0 := by
      unfold slots
      rw [hslot]
      exact if_neg nofun
    have hheld := slotsHeld_set_new req hr
    rw [hnone, add_zero] at hheld
    exact hheld.symm ▸ h.balance
  · have hone : req.shares key = if key = req.identity then 1 else 0 := by
      unfold shares
      rw [hshare]
      simp [eq_comm]
    have hheld := sharesHeldBy_set_new req hr key
    have hmore := heldBy_charge hcharge key
    have hcharged := h.charged key
    rw [hone, ← hcharged] at hheld
    refine Eq.trans ?_ hheld.symm
    show (q.heldBy key : ℤ) = _
    rw [hmore]
    split
    · rfl
    · rfl
  · have hmore := heldBy_charge hcharge key
    have hlimit := h.limit key
    show q.heldBy key ≤ q.limit
    rw [hmore, hroom.2]
    split
    · rename_i hkey
      subst hkey
      exact hroom.1
    · exact hlimit
  · show s.arrivals ++ [r] = s.grants ++ (s.semaphore.waiters ++ [r])
    rw [h.fifo, append_assoc]
  · show (s.arrivals ++ [r]).Nodup
    rw [nodup_append]
    refine ⟨h.once, nodup_singleton r, fun x hx y hy => ?_⟩
    rw [mem_singleton.1 hy]
    rintro rfl
    exact hfresh hx
  · rcases mem_append.1 hx with hx | hx
    · exact mem_set (h.arrived x hx)
    · rw [mem_singleton.1 hx]
      exact mem_insert.2 (.inl rfl)
  · rcases mem_append.1 hx with hx | hx
    · exact h.waiting x hx req₁ hreq₁
    · rw [mem_singleton.1 hx, hr] at hreq₁
      cases hreq₁
  · rw [hshare]
    nofun

end Books

/-! ## The requests -/

section Requests

variable {s : Server} {r : ℕ} {req : Request}

namespace Request

/-- A request with all it held handed back. -/
def handBack (req : Request) : Request :=
  { req with
    share := if req.share = .held then .released else req.share
    slot := if req.slot = .held then .released else req.slot }

/-- A closed request whose handler is not running is sound once it has handed everything back. -/
theorem Sound.handBack (hclosed : req.closed = true)
    (hticketed : req.ticket.isSome = true → req.slot ≠ .untaken)
    (hticket : ∀ t ∈ req.ticket, t.inHandler = false) (hidle : ∀ b, req.handler ≠ .running b) :
    Sound req.handBack where
  open_share hopen := absurd (hclosed.symm.trans hopen) nofun
  open_slot hopen := absurd (hclosed.symm.trans hopen) nofun
  closed_share _ hshare := by
    unfold Request.handBack at hshare
    split at hshare
    · cases hshare
    · rename_i hnot
      exact (hnot hshare).elim
  closed_slot _ hslot := by
    unfold Request.handBack at hslot
    dsimp only at hslot
    split at hslot
    · cases hslot
    · rename_i hnot
      exact (hnot hslot).elim
  slot_share hslot := by
    unfold Request.handBack at hslot
    dsimp only at hslot
    split at hslot
    · cases hslot
    · rename_i hnot
      exact (hnot hslot).elim
  promised _ _ _ := hclosed
  ticketed hsome huntaken := by
    unfold Request.handBack at huntaken
    dsimp only at huntaken
    split at huntaken
    · cases huntaken
    · exact hticketed hsome huntaken
  running := by
    refine iff_of_false ?_ ?_
    · rintro ⟨b, hb⟩
      exact hidle b hb
    · rintro ⟨t, ht, hin⟩
      exact absurd (hin.symm.trans (hticket t ht)) nofun
  kept hrunning := (hidle true hrunning).elim

end Request

theorem lookup_releaseShare (hr : s.requests.lookup r = some req) :
    (s.releaseShare r).requests.lookup r = some { req with
      share := if req.share = .held then .released else req.share } := by
  unfold releaseShare
  rw [hr]
  dsimp only
  split
  · exact lookup_set_self
  · exact hr

theorem lookup_releaseSlot (hr : s.requests.lookup r = some req) :
    (s.releaseSlot r).requests.lookup r = some { req with
      slot := if req.slot = .held then .released else req.slot } := by
  unfold releaseSlot
  rw [hr]
  dsimp only
  split
  · exact lookup_set_self
  · exact hr

theorem lookup_release (hr : s.requests.lookup r = some req) :
    (s.release r).requests.lookup r = some req.handBack :=
  lookup_releaseSlot (lookup_releaseShare hr)

theorem lookup_releaseShare_of_ne {x : ℕ} (hx : x ≠ r) :
    (s.releaseShare r).requests.lookup x = s.requests.lookup x := by
  unfold releaseShare
  split
  · rfl
  · split
    · exact lookup_set_of_ne hx
    · rfl

theorem lookup_releaseSlot_of_ne {x : ℕ} (hx : x ≠ r) :
    (s.releaseSlot r).requests.lookup x = s.requests.lookup x := by
  unfold releaseSlot
  split
  · rfl
  · split
    · exact lookup_set_of_ne hx
    · rfl

theorem lookup_release_of_ne {x : ℕ} (hx : x ≠ r) :
    (s.release r).requests.lookup x = s.requests.lookup x :=
  (lookup_releaseSlot_of_ne hx).trans (lookup_releaseShare_of_ne hx)

/-- The books are right and every request is sound. -/
structure Kept (s : Server) : Prop where
  books : Books s
  sound : ∀ r req, s.requests.lookup r = some req → req.Sound

/-- An event about one request leaves the others sound. -/
theorem Kept.of_lookup (h : Kept s) {s' : Server} {req' : Request} (hbooks : Books s')
    (hself : s'.requests.lookup r = some req') (hsound : req'.Sound)
    (hother : ∀ x, x ≠ r → s'.requests.lookup x = s.requests.lookup x) : Kept s' where
  books := hbooks
  sound x req₁ hreq₁ := by
    by_cases hxr : x = r
    · subst hxr
      rw [hself] at hreq₁
      cases hreq₁
      exact hsound
    · rw [hother x hxr] at hreq₁
      exact h.sound x req₁ hreq₁

/-! ## The events -/

/-- A request that has taken nothing. -/
theorem sound_idle (identity : String) (closed : Bool) : Request.Sound { identity, closed } where
  open_share _ := nofun
  open_slot _ := nofun
  closed_share _ := nofun
  closed_slot _ := nofun
  slot_share := nofun
  promised := nofun
  ticketed := nofun
  running := iff_of_false nofun nofun
  kept := nofun

theorem Kept.arrive (h : Kept s) (hr : s.requests.lookup r = none) (identity : String)
    (destroyed : Bool) : Kept (s.admitWithinBudget r identity destroyed) := by
  unfold admitWithinBudget
  split
  · exact h.of_lookup (h.books.idle hr rfl rfl) lookup_set_self (sound_idle identity true)
      fun x hx => lookup_set_of_ne hx
  · split
    · exact h.of_lookup (h.books.idle hr rfl rfl) lookup_set_self (sound_idle identity false)
        fun x hx => lookup_set_of_ne hx
    · rename_i q hcharge
      refine h.of_lookup (h.books.admitted hr hcharge rfl rfl) lookup_set_self ?_
        fun x hx => lookup_set_of_ne hx
      exact { sound_idle identity false with
        open_share := fun _ => nofun
        closed_share := nofun
        slot_share := nofun }

theorem Kept.turn (h : Kept s) : Kept s.turn := by
  unfold Server.turn
  split
  · rename_i m hturn
    exact ⟨h.books.ended hturn, h.sound⟩
  · rename_i r m hturn
    obtain ⟨hwaiters, -⟩ := Semaphore.turn_some hturn
    have hwaits : r ∈ s.semaphore.waiters := by
      rw [hwaiters]
      exact mem_cons_self
    have harrived := h.books.arrived r (h.books.fifo ▸ mem_append_right _ hwaits)
    obtain ⟨req, hr⟩ := mem_iff.1 harrived
    obtain ⟨huntaken, hcharged⟩ := h.books.waiting r hwaits req hr
    have hsound := h.sound r req hr
    have hticket : req.ticket = none := by
      cases hticket : req.ticket with
      | none => rfl
      | some t => exact (hsound.ticketed (by rw [hticket]; rfl) huntaken).elim
    have hidle : ∀ b, req.handler ≠ .running b := by
      intro b hb
      obtain ⟨t, ht, -⟩ := hsound.running.1 ⟨b, hb⟩
      rw [hticket] at ht
      cases ht
    unfold grant
    rw [hr]
    dsimp only
    split
    · -- closed while it waited: the slot goes straight back
      rename_i hclosed
      have hbooks := h.books.granted { req with slot := .held } hturn hr rfl rfl rfl
      refine h.of_lookup (hbooks.releaseSlot r) (lookup_releaseSlot lookup_set_self) ?_
        fun x hx => (lookup_releaseSlot_of_ne hx).trans (lookup_set_of_ne hx)
      exact { hsound with
        open_share := fun hopen => absurd (hclosed.symm.trans hopen) nofun
        open_slot := fun hopen => absurd (hclosed.symm.trans hopen) nofun
        closed_slot := nofun
        slot_share := nofun
        ticketed := nofun
        kept := fun hrunning => (hidle true hrunning).elim }
    · rename_i hopen
      rw [Bool.not_eq_true] at hopen
      have hbooks := h.books.granted { req with slot := .held, ticket := some ⟨false, false⟩ }
        hturn hr rfl rfl rfl
      refine h.of_lookup hbooks lookup_set_self ?_ fun x hx => lookup_set_of_ne hx
      have hshare : req.share = .held := by
        cases hshare : req.share with
        | untaken => exact (hcharged hshare).elim
        | held => rfl
        | released => exact (hsound.open_share hopen hshare).elim
      exact { hsound with
        open_slot := nofun
        closed_share := fun hclosed => absurd (hopen.symm.trans hclosed) nofun
        closed_slot := fun hclosed => absurd (hopen.symm.trans hclosed) nofun
        slot_share := fun _ => hshare
        promised := fun _ ht hreleases => by
          cases ht
          cases hreleases
        ticketed := nofun
        running := iff_of_false (fun ⟨b, hb⟩ => hidle b hb) fun ⟨_, ht, hin⟩ => by
          cases ht
          cases hin
        kept := fun _ => rfl }

/-- Handing back what a closed request holds. -/
theorem Kept.release (h : Kept s) {req' : Request} (hr : s.requests.lookup r = some req)
    (hidentity : req'.identity = req.identity) (hshare : req'.share = req.share)
    (hslot : req'.slot = req.slot) (hsound : req'.handBack.Sound) :
    Kept ((s.set r req').release r) :=
  h.of_lookup ((h.books.set hr hidentity hshare hslot).release r) (lookup_release lookup_set_self)
    hsound fun _ hx => (lookup_release_of_ne hx).trans (lookup_set_of_ne hx)

theorem Handler.close_running {handler : Handler} :
    (∃ b, handler.close = .running b) ↔ ∃ b, handler = .running b := by
  cases handler with
  | idle => exact Iff.rfl
  | running b => exact iff_of_true ⟨true, rfl⟩ ⟨b, rfl⟩
  | settled => exact Iff.rfl

/-- While its handler runs and its response is open, a request holds its slot. -/
theorem Request.Sound.holds (h : req.Sound) (hopen : req.closed = false)
    (hrunning : ∃ b, req.handler = .running b) : req.slot = .held := by
  obtain ⟨t, ht, -⟩ := h.running.1 hrunning
  cases hslot : req.slot with
  | untaken =>
    have hsome : req.ticket.isSome = true := by
      rw [Option.mem_def.1 ht]
      rfl
    exact (h.ticketed hsome hslot).elim
  | held => rfl
  | released => exact (h.open_slot hopen hslot).elim

theorem Kept.close (h : Kept s) (hr : s.requests.lookup r = some req) (hopen : req.closed = false) :
    Kept (s.close r req) := by
  have hsound := h.sound r req hr
  unfold Server.close
  dsimp only
  split
  · -- refused: there is no listener, and nothing to hand back
    rename_i huntaken
    have hnone : req.slot ≠ .held := fun hheld =>
      nomatch (hsound.slot_share hheld).symm.trans huntaken
    refine h.of_lookup (h.books.set hr rfl rfl rfl) lookup_set_self ?_ fun x hx => lookup_set_of_ne hx
    exact { hsound with
      open_share := nofun
      open_slot := nofun
      closed_share := fun _ hheld => nomatch hheld.symm.trans huntaken
      closed_slot := fun _ hheld => (hnone hheld).elim
      promised := fun _ _ _ => rfl
      running := Handler.close_running.trans hsound.running
      kept := fun hrunning => hsound.holds hopen (Handler.close_running.1 ⟨true, hrunning⟩) }
  · rename_i htaken
    unfold closeListener
    split
    · -- the handler is running: the release is left to its end
      rename_i promised hticket
      have hrunning := hsound.running.2 ⟨_, hticket, rfl⟩
      refine h.of_lookup (h.books.set hr rfl rfl rfl) lookup_set_self ?_
        fun x hx => lookup_set_of_ne hx
      have hdeferred : Request.Deferred { req with
          closed := true, handler := req.handler.close, ticket := some ⟨true, true⟩ } :=
        ⟨_, rfl, rfl, rfl⟩
      exact { hsound with
        open_share := nofun
        open_slot := nofun
        closed_share := fun _ _ => hdeferred
        closed_slot := fun _ _ => hdeferred
        promised := fun _ _ _ => rfl
        ticketed := fun _ => hsound.ticketed (by rw [show req.ticket = _ from hticket]; rfl)
        running := iff_of_true (Handler.close_running.2 hrunning) ⟨_, rfl, rfl⟩
        kept := fun _ => hsound.holds hopen hrunning }
    · rename_i hticket
      have hnot : ∀ t ∈ req.ticket, t.inHandler = false := by
        intro t ht
        cases hin : t.inHandler with
        | false => rfl
        | true =>
          refine (hticket t.releaseWhenSettled ?_).elim
          rw [← hin]
          exact ht
      refine h.release hr rfl rfl rfl (Request.Sound.handBack rfl hsound.ticketed hnot ?_)
      intro b hb
      obtain ⟨t, ht, hin⟩ := hsound.running.1 (Handler.close_running.1 ⟨b, hb⟩)
      rw [hnot t ht] at hin
      cases hin

theorem Kept.run (h : Kept s) (hr : s.requests.lookup r = some req) (hidle : req.handler = .idle) :
    Kept (s.run r req) := by
  have hsound := h.sound r req hr
  unfold Server.run
  split
  · exact h
  · rename_i ticket hticket
    refine h.of_lookup (h.books.set hr rfl rfl rfl) lookup_set_self ?_ fun x hx => lookup_set_of_ne hx
    have hnever : ¬ req.Deferred := by
      rintro ⟨t, ht, hin, -⟩
      obtain ⟨b, hb⟩ := hsound.running.2 ⟨t, ht, hin⟩
      rw [hidle] at hb
      cases hb
    exact { hsound with
      closed_share := fun hclosed hheld => (hnever (hsound.closed_share hclosed hheld)).elim
      closed_slot := fun hclosed hheld => (hnever (hsound.closed_slot hclosed hheld)).elim
      promised := fun _ ht hreleases => by
        cases ht
        exact hsound.promised ticket hticket hreleases
      ticketed := fun _ => hsound.ticketed (by rw [hticket]; rfl)
      running := iff_of_true ⟨false, rfl⟩ ⟨_, rfl, rfl⟩
      kept := nofun }

theorem Kept.settle (h : Kept s) (hr : s.requests.lookup r = some req) :
    Kept (s.settle r req) := by
  have hsound := h.sound r req hr
  unfold Server.settle
  split
  · exact h
  · rename_i ticket hticket
    have hticketed : req.slot ≠ .untaken := hsound.ticketed (by rw [hticket]; rfl)
    split
    · rename_i hdeferred
      refine h.release hr rfl rfl rfl (Request.Sound.handBack ?_ (fun _ => hticketed) ?_ nofun)
      · exact hsound.promised ticket hticket hdeferred
      · intro t ht
        cases ht
        rfl
    · rename_i hdeferred
      refine h.of_lookup (h.books.set hr rfl rfl rfl) lookup_set_self ?_
        fun x hx => lookup_set_of_ne hx
      have hnever : ¬ req.Deferred := by
        rintro ⟨t, ht, -, hreleases⟩
        rw [hticket] at ht
        cases ht
        exact hdeferred hreleases
      exact { hsound with
        closed_share := fun hclosed hheld => (hnever (hsound.closed_share hclosed hheld)).elim
        closed_slot := fun hclosed hheld => (hnever (hsound.closed_slot hclosed hheld)).elim
        promised := fun _ ht hreleases => by
          cases ht
          exact hsound.promised ticket hticket hreleases
        ticketed := fun _ => hticketed
        running := iff_of_false nofun fun ⟨_, ht, hin⟩ => by
          cases ht
          cases hin
        kept := nofun }

/-- Every event keeps the books right and the requests sound. -/
theorem Kept.step (h : Kept s) {s' : Server} {e : Event} (hs : s.step e = some s') : Kept s' := by
  unfold Server.step at hs
  split at hs
  · rename_i r identity destroyed
    split at hs
    · cases hs
    · rename_i hr
      cases hs
      exact h.arrive hr identity destroyed
  · split at hs
    · cases hs
      exact h.turn
    · cases hs
  · rename_i r
    split at hs
    · cases hs
    · rename_i req hr
      split at hs
      · cases hs
      · rename_i hopen
        cases hs
        exact h.close hr (Bool.eq_false_iff.2 hopen)
  · rename_i r
    split at hs
    · cases hs
    · rename_i req hr
      split at hs
      · cases hs
        exact h.of_lookup (h.books.set hr rfl rfl rfl) lookup_set_self
          { h.sound r req hr with } fun x hx => lookup_set_of_ne hx
      · cases hs
  · rename_i r
    split at hs
    · cases hs
    · rename_i req hr
      split at hs
      · rename_i hready
        cases hs
        exact h.run hr hready.1
      · cases hs
  · rename_i r
    split at hs
    · cases hs
    · rename_i req hr
      split at hs
      · cases hs
        exact h.settle hr
      · cases hs

theorem kept_start {m : Semaphore ℕ} {q : KeyedQuota String} {permits limit : ℕ}
    (hm : createSemaphore ℕ permits = .ok m) (hq : createKeyedQuota String limit = .ok q) :
    Kept (start m q) := by
  rw [createSemaphore_ok hm, createKeyedQuota_ok hq]
  refine ⟨⟨?_, fun key => ?_, fun key => Nat.zero_le _, fun key => nofun, rfl, nodup_nil, nofun,
    nofun, fun _ => .inr rfl⟩, fun r req hr => ?_⟩
  · exact (congrArg _ (tally_empty _)).trans (add_zero _)
  · exact (tally_empty _).symm
  · rw [show (start _ _).requests = ∅ from rfl, lookup_empty] at hr
    cases hr

end Requests

/-! ## The law of admission -/

/-- When nothing is going on any more, no request holds anything. -/
theorem Kept.quiet {s : Server} (h : Kept s) (hquiet : s.Quiet) :
    s.slotsHeld = 0 ∧ ∀ key, s.sharesHeldBy key = 0 := by
  have hnever : ∀ r req, s.requests.lookup r = some req → req.slot ≠ .held ∧ req.share ≠ .held := by
    intro r req hr
    obtain ⟨hclosed, hidle⟩ := hquiet r req hr
    have hsound := h.sound r req hr
    have hdeferred : ¬ req.Deferred := by
      rintro ⟨t, ht, hin, -⟩
      obtain ⟨b, hb⟩ := hsound.running.2 ⟨t, ht, hin⟩
      exact hidle b hb
    exact ⟨fun hheld => hdeferred (hsound.closed_slot hclosed hheld),
      fun hheld => hdeferred (hsound.closed_share hclosed hheld)⟩
  have hzero : tally (fun _ _ => (0 : ℤ)) s.requests = 0 := by
    refine Finset.sum_eq_zero fun r _ => ?_
    cases s.requests.lookup r with
    | none => rfl
    | some req => rfl
  refine ⟨(tally_congr _ fun r req hr => ?_).trans hzero, fun key =>
    (tally_congr _ fun r req hr => ?_).trans hzero⟩
  · exact if_neg (hnever r req hr).1
  · exact if_neg fun hboth => (hnever r req hr).2 hboth.1

theorem Kept.admits {s : Server} (h : Kept s) : Admits s where
  balance := h.books.balance
  bounded := by
    have hbalance := h.books.balance
    omega
  charged := h.books.charged
  share key := by
    have hlimit := h.books.limit key
    rw [← h.books.charged key]
    refine ⟨?_, Int.ofNat_le.2 hlimit⟩
    rw [h.books.charged key]
    apply tally_le_tally
    intro r req hr
    unfold slots shares
    split
    · rename_i hkey
      split
      · rename_i hslot
        rw [if_pos ⟨(h.sound r req hr).slot_share hslot, hkey⟩]
      · split <;> omega
    · rename_i hkey
      rw [if_neg fun hboth => hkey hboth.2]
  fifo := h.books.fifo
  prompt := h.books.prompt
  returned hquiet := by
    obtain ⟨hslots, hshares⟩ := h.quiet hquiet
    refine ⟨?_, fun key => ?_⟩
    · have hbalance := h.books.balance
      omega
    · have hcharged := h.books.charged key
      rw [hshares key] at hcharged
      have htidy := h.books.tidy key
      unfold heldBy at hcharged
      cases hheld : s.quota.held key with
      | none => rfl
      | some n =>
        rw [hheld] at hcharged htidy
        rw [Option.getD_some] at hcharged
        obtain rfl : n = 0 := by omega
        exact (htidy rfl).elim
  kept r req hr hrunning := (h.sound r req hr).kept hrunning

/-- **Admission** never leaks and never over-commits, whatever the order of arrivals, disconnects,
parser failures, handler starts and settlements. -/
theorem admission_sound {m : Semaphore ℕ} {q : KeyedQuota String} {permits limit : ℕ} {s : Server}
    (hm : createSemaphore ℕ permits = .ok m) (hq : createKeyedQuota String limit = .ok q)
    (h : Run Server.step (fun _ _ => True) (Server.start m q) s) : Admits s :=
  (h.invariant (kept_start hm hq) fun _ _ _ hkept _ hs => hkept.step hs).admits

/-- One slot and two requests: the first closes while its handler runs, and the second is handed the
slot when that handler has settled. -/
theorem admission_sound_deferred :
    ∃ s, Admits s ∧ s.grants = [0, 1] ∧ s.slotsHeldBy "b" = 1 := by
  have hrun : replay step (fun _ _ => True)
      (start ⟨1, 1, [], false⟩ ⟨1, fun _ => none⟩)
      [.arrive 0 "a" false, .turn, .turn, .handlerStart 0, .arrive 1 "b" false, .turn, .close 0,
        .handlerSettle 0, .turn, .turn] = some _ := rfl
  have hm : createSemaphore ℕ 1 = .ok ⟨1, 1, [], false⟩ := rfl
  have hq : createKeyedQuota String 1 = .ok ⟨1, fun _ => none⟩ := rfl
  exact ⟨_, admission_sound hm hq (Run.of_replay hrun), rfl, rfl⟩

end HVault.Admission
