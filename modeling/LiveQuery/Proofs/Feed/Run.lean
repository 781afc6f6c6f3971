import LiveQuery.Feed.Directory
import LiveQuery.Proofs.Feed.Framing

/-!
# Runs of a feed

A run is a list of turns, each carried out completely: requests, with the server as it is at the
time, and subscribers at their own inboxes. `passes` lists the deliveries of a run with the feed as
each of them found it. The rest of the module is about slots. Only two turns change who holds one: a
subscriber takes a slot that was free, with a ticket that nobody had before, and a slot is freed by
name. A ticket therefore holds the slot that it was given until somebody frees that slot, and no
slot ever again.
-/

namespace LiveQuery.Feed

/-- What happens to a feed. -/
inductive Turn where
  /-- A request, with the server as it is. -/
  | request (server : Server) (r : Request)
  /-- A subscriber empties its inbox. -/
  | drainInbox (ticket : Ticket)
  /-- A subscriber gives its inbox up. -/
  | dropInbox (ticket : Ticket)

def turn (f : Feed) : Turn → Feed
  | .request server r => (f.step server r).1
  | .drainInbox ticket => (f.drainInbox ticket).1
  | .dropInbox ticket => f.dropInbox ticket

/-- The feed after a run. -/
def afterTurns (turns : List Turn) (f : Feed) : Feed := turns.foldl turn f

@[simp] theorem afterTurns_nil (f : Feed) : f.afterTurns [] = f := rfl

@[simp] theorem afterTurns_cons (x : Turn) (turns : List Turn) (f : Feed) :
    f.afterTurns (x :: turns) = (f.turn x).afterTurns turns := rfl

/-! ### Deliveries -/

/-- A delivery: the feed right before it, and the event. -/
structure Pass where
  feed : Feed
  event : Json

/-- The deliveries of what was found in some lines, up to the one that ends the connection. -/
def absorbPasses : List (Reading Json) → Feed → List Pass
  | [], _ => []
  | .value event :: rest, f =>
    ⟨f, event⟩ :: if (f.take event).connected then absorbPasses rest (f.take event) else []
  | .undecodable :: rest, f => absorbPasses rest f
  | .tooLong _ _ :: rest, f => absorbPasses rest f

/-- The deliveries of a turn. -/
def Turn.passes (f : Feed) : Turn → List Pass
  | .request _ (.send data) =>
    if f.connected then absorbPasses (f.readingsOf (data ++ [lineFeed])) f else []
  | .request _ (.close tail) => if f.connected then absorbPasses (f.readingsOf tail) f else []
  | _ => []

/-- The deliveries of a run, in order. -/
def passes : List Turn → Feed → List Pass
  | [], _ => []
  | x :: turns, f => x.passes f ++ passes turns (f.turn x)

theorem readingsOf_eq (f : Feed) (text : List UInt8) :
    f.readingsOf text = readings decodeLine f.settings.maxLineBytes text := by
  rw [readingsOf, LineReader.readAll_eq_readings]
  exact congrArg _ (List.flatten_singleton)

/-- The events among what was found in some lines. -/
def eventsOf (found : List (Reading Json)) : List Json :=
  found.filterMap fun
    | .value event => some event
    | _ => none

/-- The events that the server sends in a turn: what the lines of its text hold. -/
def Turn.sent (f : Feed) : Turn → List Json
  | .request _ (.send data) =>
    if f.connected then
      eventsOf (readings decodeLine f.settings.maxLineBytes (data ++ [lineFeed]))
    else []
  | .request _ (.close tail) =>
    if f.connected then eventsOf (readings decodeLine f.settings.maxLineBytes tail) else []
  | _ => []

/-- The events that the server sends in a run, in order. -/
def sent : List Turn → Feed → List Json
  | [], _ => []
  | x :: turns, f => x.sent f ++ sent turns (f.turn x)

/-- What every event and every turn of a run preserves, every delivery of it finds. -/
theorem invariant_of_mem_passes {motive : Feed → Prop} (turns : List Turn) {f : Feed}
    (take : ∀ g event, motive g → motive (g.take event))
    (turn : ∀ x ∈ turns, ∀ g, motive g → motive (g.turn x)) (start : motive f) :
    ∀ p ∈ passes turns f, motive p.feed := by
  have absorbed : ∀ (found : List (Reading Json)) (g : Feed), motive g →
      ∀ p ∈ absorbPasses found g, motive p.feed := by
    intro found
    induction found with
    | nil => exact fun _ _ _ hp => (List.not_mem_nil hp).elim
    | cons reading rest ih =>
      intro g hg p hp
      cases reading with
      | value event =>
        rw [absorbPasses] at hp
        rcases List.mem_cons.1 hp with rfl | hp
        · exact hg
        · split at hp
          · exact ih _ (take g event hg) p hp
          · exact (List.not_mem_nil hp).elim
      | undecodable => exact ih g hg p hp
      | tooLong length limit => exact ih g hg p hp
  induction turns generalizing f with
  | nil => exact fun _ hp => (List.not_mem_nil hp).elim
  | cons x rest ih =>
    intro p hp
    rcases List.mem_append.1 hp with hp | hp
    · unfold Turn.passes at hp
      split at hp
      · split at hp
        · exact absorbed _ f start p hp
        · exact (List.not_mem_nil hp).elim
      · split at hp
        · exact absorbed _ f start p hp
        · exact (List.not_mem_nil hp).elim
      · exact (List.not_mem_nil hp).elim
    · have hrest : ∀ y ∈ rest, ∀ g, motive g → motive (g.turn y) := fun y hy =>
        turn y (List.mem_cons_of_mem x hy)
      exact ih hrest (turn x List.mem_cons_self f start) p hp

/-! ### Who holds a slot -/

/-- The subscription in a slot. -/
def holder (f : Feed) (slot : Nat) : Option Ticket := f.slots[slot]?.join

theorem isLive_iff {f : Feed} {ticket : Ticket} :
    f.isLive ticket = true ↔ ∃ slot, f.holder slot = some ticket := by
  have hmem : f.isLive ticket = true ↔ some ticket ∈ f.slots := by
    simp only [isLive, live, List.contains_iff_mem, List.mem_filterMap, id_eq, exists_eq_right]
  rw [hmem, List.mem_iff_getElem?]
  simp only [holder, Option.join_eq_some_iff]

theorem holder_setSlot {f : Feed} {slot : Nat} (h : slot ≤ f.slots.length)
    (ticket : Option Ticket) (s : Nat) :
    (f.setSlot slot ticket).holder s = if s = slot then ticket else f.holder s := by
  by_cases hlt : slot < f.slots.length
  · simp only [holder, setSlot, hlt, if_true, List.getElem?_set]
    by_cases hs : s = slot
    · simp only [hs, if_true, Option.join_some]
    · have hne : slot ≠ s := fun heq => hs heq.symm
      simp only [hs, hne, if_false]
  · obtain rfl : slot = f.slots.length := by omega
    simp only [holder, setSlot, Nat.lt_irrefl, if_false]
    by_cases hs : s = f.slots.length
    · simp only [hs, List.getElem?_concat_length, Option.join_some, if_true]
    · simp only [hs, if_false]
      by_cases hin : s < f.slots.length
      · rw [List.getElem?_append_left hin]
      · have hout : f.slots.length + 1 ≤ s := by omega
        rw [List.getElem?_eq_none (by simpa using hout), List.getElem?_eq_none (by omega)]

theorem length_le_setSlot (f : Feed) (slot : Nat) (ticket : Option Ticket) :
    f.slots.length ≤ (f.setSlot slot ticket).slots.length := by
  simp only [setSlot]
  split
  · exact Nat.le_of_eq List.length_set.symm
  · rw [List.length_append]
    omega

theorem freeSlot_le (f : Feed) : f.freeSlot ≤ f.slots.length := List.findIdx_le_length

theorem holder_freeSlot (f : Feed) : f.holder f.freeSlot = none := by
  unfold holder
  by_cases hlt : f.freeSlot < f.slots.length
  · have hfree := List.findIdx_getElem (w := hlt)
    rw [List.getElem?_eq_getElem hlt, Option.join_some]
    exact beq_iff_eq.1 hfree
  · rw [List.getElem?_eq_none (by omega)]
    rfl

theorem connect_eq_ok {server : Server} {f g : Feed} {opening : Option String}
    (h : f.connect server = .ok (g, opening)) :
    g.inboxes = f.inboxes ∧ g.slots = f.slots := by
  unfold connect at h
  split at h
  · cases h
    exact ⟨rfl, rfl⟩
  · split at h
    · cases h
      exact ⟨rfl, rfl⟩
    · cases h

/-- A subscriber gets a slot that nobody holds, with a new ticket and a new inbox, or nothing
changes for anybody. -/
theorem subscribe_cases (server : Server) (capacity : Nat) (f : Feed) :
    (∃ g opening, f.subscribe server capacity = (g, .ok (f.freeSlot, opening)) ∧
        g.inboxes = f.inboxes ++ [.fresh f.freeSlot capacity] ∧
        ∀ s, g.holder s = if s = f.freeSlot then some f.inboxes.length else f.holder s) ∨
      ∃ g e, f.subscribe server capacity = (g, .error e) ∧ g.inboxes = f.inboxes ∧
        ∀ s, g.holder s = f.holder s := by
  have hslots := holder_setSlot (freeSlot_le f)
  simp only [subscribe]
  cases hconnect : (f.setSlot f.freeSlot (some f.inboxes.length)).connect server with
  | ok connected =>
    obtain ⟨g, opening⟩ := connected
    obtain ⟨hinboxes, hconnected⟩ := connect_eq_ok hconnect
    refine .inl ⟨_, opening, rfl, ?_, fun s => ?_⟩
    · exact congrArg (· ++ [Inbox.fresh f.freeSlot capacity]) hinboxes
    · rw [← hslots, holder, holder, ← hconnected]
  | error e =>
    refine .inr ⟨_, e, rfl, rfl, fun s => ?_⟩
    rw [holder_setSlot (Nat.le_trans (freeSlot_le f) (length_le_setSlot f _ _)), hslots]
    by_cases hs : s = f.freeSlot
    · rw [if_pos hs, hs, holder_freeSlot]
    · rw [if_neg hs, if_neg hs]

theorem holder_unsubscribe (slot : Nat) (f : Feed) (s : Nat) :
    (f.unsubscribe slot).1.holder s = if s = slot then none else f.holder s := by
  unfold unsubscribe
  split
  · rename_i ticket hslot
    have hlt : slot < f.slots.length := (List.getElem?_eq_some_iff.1 hslot).1
    exact holder_setSlot (Nat.le_of_lt hlt) none s
  · rename_i hslot
    by_cases hs : s = slot
    · rw [if_pos hs, hs, holder, Option.join_eq_none_iff]
      cases hget : f.slots[slot]? with
      | none => exact .inl rfl
      | some ticket =>
        cases ticket with
        | none => exact .inr rfl
        | some ticket => exact absurd hget (hslot ticket)
    · rw [if_neg hs]

theorem length_inboxes_take (f : Feed) (event : Json) :
    (f.take event).inboxes.length = f.inboxes.length := by
  simp [take, deliver]

/-- What every event preserves, any lines preserve. -/
theorem absorb_preserves {motive : Feed → Prop}
    (take : ∀ g event, motive g → motive (g.take event)) (found : List (Reading Json)) {f : Feed}
    (start : motive f) : motive (absorb found f) := by
  induction found generalizing f with
  | nil => exact start
  | cons reading rest ih =>
    cases reading with
    | value event =>
      simp only [absorb]
      split
      · exact ih (take f event start)
      · exact take f event start
    | undecodable => exact ih start
    | tooLong length limit => exact ih start

theorem slots_absorb (found : List (Reading Json)) (f : Feed) :
    (absorb found f).slots = f.slots :=
  absorb_preserves (motive := fun g => g.slots = f.slots) (fun _ _ h => h) found rfl

theorem length_inboxes_absorb (found : List (Reading Json)) (f : Feed) :
    (absorb found f).inboxes.length = f.inboxes.length :=
  absorb_preserves (motive := fun g => g.inboxes.length = f.inboxes.length)
    (fun g event h => (length_inboxes_take g event).trans h) found rfl

/-! ### What a turn does to the slots -/

/-- Whether a turn frees a slot. -/
def Turn.frees (slot : Nat) : Turn → Bool
  | .request _ (.unsubscribe s) => s == slot
  | _ => false

theorem Turn.passes_of_frees {x : Turn} {slot : Nat} (h : x.frees slot = true) (f : Feed) :
    x.passes f = [] := by
  cases x with
  | drainInbox ticket => rfl
  | dropInbox ticket => rfl
  | request server r =>
    cases r with
    | send data => cases h
    | close tail => cases h
    | _ => rfl

theorem turn_subscribe (server : Server) (capacity : Nat) (f : Feed) :
    f.turn (.request server (.subscribe capacity)) = (f.subscribe server capacity).1 := by
  simp only [turn, step]
  rcases f.subscribe server capacity with ⟨g, result⟩
  cases result <;> rfl

theorem turn_unsubscribe (server : Server) (slot : Nat) (f : Feed) :
    f.turn (.request server (.unsubscribe slot)) = (f.unsubscribe slot).1 := by
  simp only [turn, step]
  rcases f.unsubscribe slot with ⟨g, result⟩
  cases result <;> rfl

theorem inboxes_unsubscribe (slot : Nat) (f : Feed) :
    (f.unsubscribe slot).1.inboxes = f.inboxes := by
  unfold unsubscribe
  split <;> rfl

theorem turn_drain (server : Server) (slot : Nat) (f : Feed) :
    f.turn (.request server (.drain slot)) =
      (f.ticketOf? slot).elim f fun ticket => (f.drainInbox ticket).1 := by
  simp only [turn, step, drain]
  cases f.ticketOf? slot <;> rfl

/-- A turn frees a slot, gives a free one to a new ticket, or leaves all slots as they are. -/
theorem turn_cases (f : Feed) (x : Turn) :
    (∃ slot, (∀ s, x.frees s = (slot == s)) ∧ (f.turn x).inboxes = f.inboxes ∧
        ∀ s, (f.turn x).holder s = if s = slot then none else f.holder s) ∨
      (∃ capacity, (∀ s, x.frees s = false) ∧
        (f.turn x).inboxes = f.inboxes ++ [.fresh f.freeSlot capacity] ∧
        ∀ s, (f.turn x).holder s = if s = f.freeSlot then some f.inboxes.length else f.holder s) ∨
      ((∀ s, x.frees s = false) ∧ (f.turn x).inboxes.length = f.inboxes.length ∧
        ∀ s, (f.turn x).holder s = f.holder s) := by
  have absorbed : ∀ (found : List (Reading Json)) (s : Nat),
      (absorb found f).holder s = f.holder s := fun found s => by
    rw [holder, slots_absorb]
    rfl
  cases x with
  | drainInbox ticket => exact .inr (.inr ⟨fun _ => rfl, by simp [turn, drainInbox], fun _ => rfl⟩)
  | dropInbox ticket => exact .inr (.inr ⟨fun _ => rfl, by simp [turn, dropInbox], fun _ => rfl⟩)
  | request server r =>
    cases r with
    | subscribe capacity =>
      rw [turn_subscribe]
      rcases subscribe_cases server capacity f with
        ⟨g, opening, hg, hinboxes, hholder⟩ | ⟨g, e, hg, hinboxes, hholder⟩
      · rw [hg]
        exact .inr (.inl ⟨capacity, fun _ => rfl, hinboxes, hholder⟩)
      · rw [hg]
        exact .inr (.inr ⟨fun _ => rfl, congrArg List.length hinboxes, hholder⟩)
    | unsubscribe slot =>
      rw [turn_unsubscribe]
      exact .inl ⟨slot, fun _ => rfl, inboxes_unsubscribe slot f, holder_unsubscribe slot f⟩
    | send data =>
      refine .inr (.inr ⟨fun _ => rfl, ?_, fun s => ?_⟩)
      · simp only [turn, step, receive]
        split
        · exact length_inboxes_absorb _ f
        · rfl
      · simp only [turn, step, receive]
        split
        · exact absorbed _ s
        · rfl
    | close tail =>
      refine .inr (.inr ⟨fun _ => rfl, ?_, fun s => ?_⟩)
      · simp only [turn, step, close]
        split
        · exact length_inboxes_absorb _ f
        · rfl
      · simp only [turn, step, close]
        split
        · exact absorbed _ s
        · rfl
    | drain slot =>
      rw [turn_drain]
      cases f.ticketOf? slot with
      | none => exact .inr (.inr ⟨fun _ => rfl, rfl, fun _ => rfl⟩)
      | some ticket =>
        exact .inr (.inr ⟨fun _ => rfl, by simp [drainInbox], fun _ => rfl⟩)
    | dropInboxes slot =>
      exact .inr (.inr ⟨fun _ => rfl, by simp [turn, step, dropInboxes], fun _ => rfl⟩)
    | lookup key => exact .inr (.inr ⟨fun _ => rfl, rfl, fun _ => rfl⟩)
    | status => exact .inr (.inr ⟨fun _ => rfl, rfl, fun _ => rfl⟩)
    | name => exact .inr (.inr ⟨fun _ => rfl, rfl, fun _ => rfl⟩)

/-! ### Tickets and their slots -/

/-- Every ticket in a slot has an inbox. -/
def Issued (f : Feed) : Prop :=
  ∀ slot ticket, f.holder slot = some ticket → ticket < f.inboxes.length

theorem issued_create (settings : FeedSettings) (name : String) :
    Issued (create settings name) := by
  intro slot ticket h
  cases h

/-- No inbox is ever taken away. -/
theorem length_inboxes_le_turn (f : Feed) (x : Turn) :
    f.inboxes.length ≤ (f.turn x).inboxes.length := by
  rcases turn_cases f x with ⟨_, -, hinboxes, -⟩ | ⟨_, -, hinboxes, -⟩ | ⟨-, hlength, -⟩
  · exact Nat.le_of_eq (congrArg List.length hinboxes).symm
  · rw [hinboxes, List.length_append]
    exact Nat.le_add_right _ _
  · exact Nat.le_of_eq hlength.symm

theorem Issued.turn {f : Feed} (h : Issued f) (x : Turn) : Issued (f.turn x) := by
  intro slot ticket hslot
  rcases turn_cases f x with ⟨s, -, hinboxes, hholder⟩ | ⟨capacity, -, hinboxes, hholder⟩ |
    ⟨-, hlength, hholder⟩
  · rw [hholder] at hslot
    rw [hinboxes]
    split at hslot
    · cases hslot
    · exact h slot ticket hslot
  · rw [hholder] at hslot
    rw [hinboxes, List.length_append, List.length_singleton]
    split at hslot
    · obtain rfl := Option.some.inj hslot
      exact Nat.lt_succ_self _
    · exact Nat.lt_succ_of_lt (h slot ticket hslot)
  · rw [hholder] at hslot
    rw [hlength]
    exact h slot ticket hslot

theorem Issued.afterTurns {f : Feed} (h : Issued f) (turns : List Turn) :
    Issued (f.afterTurns turns) := by
  induction turns generalizing f with
  | nil => exact h
  | cons x rest ih => exact ih (h.turn x)

/-- The ticket has this slot and no other. -/
def Seated (slot : Nat) (ticket : Ticket) (f : Feed) : Prop :=
  ticket < f.inboxes.length ∧ ∀ s, f.holder s = some ticket ↔ s = slot

/-- The ticket has had its slot. -/
def Vacant (ticket : Ticket) (f : Feed) : Prop :=
  ticket < f.inboxes.length ∧ ∀ s, f.holder s ≠ some ticket

theorem Seated.isLive {slot : Nat} {ticket : Ticket} {f : Feed} (h : Seated slot ticket f) :
    f.isLive ticket = true :=
  isLive_iff.2 ⟨slot, (h.2 slot).2 rfl⟩

theorem Seated.live_ne_nil {slot : Nat} {ticket : Ticket} {f : Feed} (h : Seated slot ticket f) :
    f.live ≠ [] :=
  List.ne_nil_of_mem (List.contains_iff_mem.1 h.isLive)

theorem Vacant.isLive {ticket : Ticket} {f : Feed} (h : Vacant ticket f) :
    f.isLive ticket = false := by
  rw [← Bool.not_eq_true, isLive_iff]
  rintro ⟨slot, hslot⟩
  exact h.2 slot hslot

theorem Seated.take {slot : Nat} {ticket : Ticket} {f : Feed} (h : Seated slot ticket f)
    (event : Json) : Seated slot ticket (f.take event) :=
  ⟨Nat.lt_of_lt_of_eq h.1 (length_inboxes_take f event).symm, h.2⟩

theorem Vacant.take {ticket : Ticket} {f : Feed} (h : Vacant ticket f) (event : Json) :
    Vacant ticket (f.take event) :=
  ⟨Nat.lt_of_lt_of_eq h.1 (length_inboxes_take f event).symm, h.2⟩

theorem Vacant.turn {ticket : Ticket} {f : Feed} (h : Vacant ticket f) (x : Turn) :
    Vacant ticket (f.turn x) := by
  obtain ⟨hissued, hholds⟩ := h
  refine ⟨Nat.lt_of_lt_of_le hissued (length_inboxes_le_turn f x), fun s => ?_⟩
  rcases turn_cases f x with ⟨slot, -, -, hholder⟩ | ⟨capacity, -, -, hholder⟩ | ⟨-, -, hholder⟩
  · rw [hholder]
    split
    · exact nofun
    · exact hholds s
  · rw [hholder]
    split
    · intro heq
      rw [Option.some.inj heq] at hissued
      exact Nat.lt_irrefl ticket hissued
    · exact hholds s
  · rw [hholder]
    exact hholds s

/-- A ticket keeps its slot until the slot is freed. -/
theorem Seated.turn {slot : Nat} {ticket : Ticket} {f : Feed} (h : Seated slot ticket f) {x : Turn}
    (hx : x.frees slot = false) : Seated slot ticket (f.turn x) := by
  obtain ⟨hissued, hholds⟩ := h
  refine ⟨Nat.lt_of_lt_of_le hissued (length_inboxes_le_turn f x), fun s => ?_⟩
  rcases turn_cases f x with ⟨freed, hfrees, -, hholder⟩ | ⟨capacity, -, -, hholder⟩ |
    ⟨-, -, hholder⟩
  · have hother : freed ≠ slot := by
      rw [hfrees, beq_eq_false_iff_ne] at hx
      exact hx
    rw [hholder]
    by_cases hs : s = freed
    · rw [if_pos hs]
      exact ⟨nofun, fun heq => absurd (hs.symm.trans heq) hother⟩
    · rw [if_neg hs]
      exact hholds s
  · have hother : f.freeSlot ≠ slot := by
      intro heq
      have hfree := holder_freeSlot f
      rw [heq, (hholds slot).2 rfl] at hfree
      cases hfree
    rw [hholder]
    by_cases hs : s = f.freeSlot
    · rw [if_pos hs]
      refine ⟨fun heq => ?_, fun heq => absurd (hs.symm.trans heq) hother⟩
      rw [Option.some.inj heq] at hissued
      exact absurd hissued (Nat.lt_irrefl ticket)
    · rw [if_neg hs]
      exact hholds s
  · rw [hholder]
    exact hholds s

/-- A ticket whose slot is freed never has a slot again. -/
theorem Seated.vacant {slot : Nat} {ticket : Ticket} {f : Feed} (h : Seated slot ticket f)
    {x : Turn} (hx : x.frees slot = true) : Vacant ticket (f.turn x) := by
  obtain ⟨hissued, hholds⟩ := h
  refine ⟨Nat.lt_of_lt_of_le hissued (length_inboxes_le_turn f x), fun s => ?_⟩
  rcases turn_cases f x with ⟨freed, hfrees, -, hholder⟩ | ⟨capacity, hfrees, -, -⟩ |
    ⟨hfrees, -, -⟩
  · obtain rfl : freed = slot := by
      rw [hfrees] at hx
      exact beq_iff_eq.1 hx
    rw [hholder]
    by_cases hs : s = freed
    · rw [if_pos hs]
      exact nofun
    · rw [if_neg hs, Ne, hholds]
      exact hs
  · rw [hfrees] at hx
    cases hx
  · rw [hfrees] at hx
    cases hx

theorem Vacant.afterTurns {ticket : Ticket} {f : Feed} (h : Vacant ticket f) (turns : List Turn) :
    Vacant ticket (f.afterTurns turns) := by
  induction turns generalizing f with
  | nil => exact h
  | cons x rest ih => exact ih (h.turn x)

theorem isLive_afterTurns {slot : Nat} {ticket : Ticket} {f : Feed} (h : Seated slot ticket f)
    (turns : List Turn) : (f.afterTurns turns).isLive ticket = !turns.any (·.frees slot) := by
  induction turns generalizing f with
  | nil => exact h.isLive
  | cons x rest ih =>
    rw [afterTurns_cons, List.any_cons]
    cases hx : x.frees slot with
    | false => exact ih (h.turn hx)
    | true => exact ((h.vacant hx).afterTurns rest).isLive

/-- While a slot is taken the connection is not ended by a delivery, so every event that the server
sends is delivered. -/
theorem event_absorbPasses (found : List (Reading Json)) {f : Feed} (h : f.live ≠ [])
    (hconnected : f.connected = true) :
    (absorbPasses found f).map Pass.event = eventsOf found := by
  induction found generalizing f with
  | nil => rfl
  | cons reading rest ih =>
    cases reading with
    | value event =>
      have hstays : (f.take event).connected = true := by
        change (f.connected && !f.live.isEmpty) = true
        simp [hconnected, h]
      have hlive : (f.take event).live ≠ [] := h
      rw [absorbPasses, if_pos hstays, List.map_cons, ih hlive hstays]
      rfl
    | undecodable => exact ih h hconnected
    | tooLong length limit => exact ih h hconnected

theorem event_passes {slot : Nat} {ticket : Ticket} {turns : List Turn} {f : Feed}
    (h : Seated slot ticket f) (hturns : ∀ x ∈ turns, x.frees slot = false) :
    (passes turns f).map Pass.event = sent turns f := by
  induction turns generalizing f with
  | nil => rfl
  | cons x rest ih =>
    have hfirst : (x.passes f).map Pass.event = x.sent f := by
      unfold Turn.passes Turn.sent
      simp only [readingsOf_eq]
      split
      · split
        · exact event_absorbPasses _ h.live_ne_nil ‹_›
        · rfl
      · split
        · exact event_absorbPasses _ h.live_ne_nil ‹_›
        · rfl
      · rfl
    have hrest := ih (h.turn (hturns x List.mem_cons_self))
      fun y hy => hturns y (List.mem_cons_of_mem x hy)
    rw [passes, sent, List.map_append, hfirst, hrest]

/-- A subscription that succeeds has the slot that was given out. -/
theorem seated_of_subscribed {server : Server} {capacity : Nat} {f : Feed} (h : Issued f)
    {slot : Nat} {opening : Option String}
    (hreply : (f.step server (.subscribe capacity)).2 = .subscribed slot opening) :
    Seated slot f.inboxes.length (f.turn (.request server (.subscribe capacity))) ∧
      (f.turn (.request server (.subscribe capacity))).inboxes[f.inboxes.length]? =
        some (.fresh slot capacity) := by
  rw [turn_subscribe]
  simp only [step] at hreply
  rcases subscribe_cases server capacity f with
    ⟨g, given, hg, hinboxes, hholder⟩ | ⟨g, e, hg, -, -⟩
  · rw [hg] at hreply
    obtain ⟨rfl, -⟩ := Reply.subscribed.inj hreply
    rw [hg]
    refine ⟨⟨?_, fun s => ?_⟩, ?_⟩
    · rw [hinboxes, List.length_append]
      exact Nat.lt_succ_self _
    · rw [hholder]
      by_cases hs : s = f.freeSlot
      · rw [if_pos hs]
        exact ⟨fun _ => hs, fun _ => rfl⟩
      · rw [if_neg hs]
        refine ⟨fun heq => ?_, fun heq => absurd heq hs⟩
        exact absurd (h s _ heq) (Nat.lt_irrefl _)
    · rw [hinboxes, List.getElem?_concat_length]
  · rw [hg] at hreply
    cases hreply

end LiveQuery.Feed
