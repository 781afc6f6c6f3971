import LiveQuery.Proofs.Feed.Connections

/-!
# The slots of a feed

A subscription is known by the number of its slot. Who is live can be told from the replies alone:
`idsFrom` enters the numbers that subscribers were given and strikes those that were given back. The
entries are all different and are the slots that are taken, and a subscriber gets the least number
that is not among them. The row of slots grows when a subscriber finds all of them taken, keeps the
new slot even if the dial for this subscriber fails, and never shrinks. So its length is the largest
number of subscribers that there has been at a time.

None of this depends on what the connection does meanwhile. A run is therefore a list of happenings
here: between two turns the feed may become any other feed with the same slots.
-/

namespace LiveQuery.Feed

inductive Happening where
  /-- A request, or a subscriber at its own inbox. -/
  | turn (x : Turn)
  /-- Whatever else becomes of the feed. Its slots are not concerned: nobody but those who carry out
  the requests sets them. -/
  | aside (g : Feed)

def happen (f : Feed) : Happening → Feed
  | .turn x => f.turn x
  | .aside g => { g with slots := f.slots }

/-- The feed after a run of happenings. -/
def afterAll (run : List Happening) (f : Feed) : Feed := run.foldl happen f

/-! ### Who is live -/

/-- The live subscriptions after a happening, as the reply tells. -/
def Happening.idsAfter (f : Feed) (ids : List Nat) : Happening → List Nat
  | .turn (.request server (.subscribe capacity)) =>
    match (f.step server (.subscribe capacity)).2 with
    | .subscribed slot _ => slot :: ids
    | _ => ids
  | .turn (.request server (.unsubscribe slot)) =>
    match (f.step server (.unsubscribe slot)).2 with
    | .done => ids.erase slot
    | _ => ids
  | _ => ids

/-- The live subscriptions after a run that began with these. -/
def idsFrom (ids : List Nat) : List Happening → Feed → List Nat
  | [], _ => ids
  | x :: run, f => idsFrom (x.idsAfter f ids) run (f.happen x)

/-- How many subscribers there are during a happening. One that asks for a slot counts, whatever the
answer will be. -/
def Happening.crowd (ids : List Nat) : Happening → Nat
  | .turn (.request _ (.subscribe _)) => ids.length + 1
  | _ => ids.length

/-- How many subscribers there are during each happening of a run and after it. -/
def crowdsFrom (ids : List Nat) : List Happening → Feed → List Nat
  | [], _ => [ids.length]
  | x :: run, f => x.crowd ids :: crowdsFrom (x.idsAfter f ids) run (f.happen x)

/-- Whether a happening is a request for a slot or to free one. -/
def Happening.seats : Happening → Bool
  | .turn x => x.seats
  | .aside _ => false

theorem Happening.cases (x : Happening) :
    (∃ server capacity, x = .turn (.request server (.subscribe capacity))) ∨
      (∃ server slot, x = .turn (.request server (.unsubscribe slot))) ∨ x.seats = false := by
  cases x with
  | aside g => exact .inr (.inr rfl)
  | turn x =>
    cases x with
    | request server r =>
      cases r with
      | subscribe capacity => exact .inl ⟨server, capacity, rfl⟩
      | unsubscribe slot => exact .inr (.inl ⟨server, slot, rfl⟩)
      | _ => exact .inr (.inr rfl)
    | _ => exact .inr (.inr rfl)

section Unseated

variable {x : Happening} (h : x.seats = false)
include h

theorem slots_happen (f : Feed) : (f.happen x).slots = f.slots := by
  cases x with
  | aside g => rfl
  | turn x => exact slots_turn h f

theorem Happening.idsAfter_of_seats (f : Feed) (ids : List Nat) : x.idsAfter f ids = ids := by
  unfold idsAfter
  split
  · cases h
  · cases h
  · rfl

theorem Happening.crowd_of_seats (ids : List Nat) : x.crowd ids = ids.length := by
  unfold crowd
  split
  · cases h
  · rfl

end Unseated

/-! ### One request -/

theorem isSome_holder_of_lt_freeSlot {f : Feed} {slot : Nat} (h : slot < f.freeSlot) :
    (f.holder slot).isSome := by
  have hlt : slot < f.slots.length := Nat.lt_of_lt_of_le h (freeSlot_le f)
  have htaken := List.not_of_lt_findIdx h
  rw [holder, List.getElem?_eq_getElem hlt, Option.join_some, Option.isSome_iff_ne_none]
  exact beq_eq_false_iff_ne.1 htaken

theorem unsubscribe_eq (slot : Nat) (f : Feed) :
    f.unsubscribe slot =
      if (f.holder slot).isSome then ({ f with slots := f.slots.set slot none }, .ok ())
      else (f, .error (.unknownSubscription slot)) := by
  unfold unsubscribe
  split
  · rename_i ticket hslot
    have hlt : slot < f.slots.length := (List.getElem?_eq_some_iff.1 hslot).1
    have htaken : (f.holder slot).isSome := by
      rw [holder, hslot]
      rfl
    rw [if_pos htaken, setSlot, if_pos hlt]
  · rename_i hslot
    rw [if_neg]
    intro htaken
    obtain ⟨ticket, hticket⟩ := Option.isSome_iff_exists.1 htaken
    exact hslot ticket (Option.join_eq_some_iff.1 hticket)

theorem step_unsubscribe (f : Feed) (server : Server) (slot : Nat) :
    f.step server (.unsubscribe slot) =
      if (f.holder slot).isSome then ({ f with slots := f.slots.set slot none }, .done)
      else (f, .failed (.unknownSubscription slot)) := by
  rw [step, unsubscribe_eq]
  by_cases htaken : (f.holder slot).isSome
  · rw [if_pos htaken, if_pos htaken]
  · rw [if_neg htaken, if_neg htaken]

theorem length_slots_unsubscribe (slot : Nat) (f : Feed) :
    (f.unsubscribe slot).1.slots.length = f.slots.length := by
  rw [unsubscribe_eq]
  split
  · exact List.length_set
  · rfl

theorem length_setSlot {f : Feed} {slot : Nat} (h : slot ≤ f.slots.length)
    (ticket : Option Ticket) :
    (f.setSlot slot ticket).slots.length = max f.slots.length (slot + 1) := by
  simp only [setSlot]
  split
  · rw [List.length_set]
    omega
  · rw [List.length_append, List.length_singleton]
    omega

/-- A subscriber makes the row long enough for the free slot, and it stays so if the dial fails. -/
theorem length_slots_subscribe (f : Feed) (server : Server) (capacity : Nat) :
    (f.subscribe server capacity).1.slots.length = max f.slots.length (f.freeSlot + 1) := by
  have htaken := length_setSlot (freeSlot_le f) (some f.inboxes.length)
  simp only [subscribe]
  cases hconnect : (f.setSlot f.freeSlot (some f.inboxes.length)).connect server with
  | ok connected => exact (congrArg List.length (connect_eq_ok hconnect).2).trans htaken
  | error e =>
    -- the slot is cleared again, which takes nothing from the row
    have hle : f.freeSlot ≤ (f.setSlot f.freeSlot (some f.inboxes.length)).slots.length := by
      rw [htaken]
      omega
    rw [length_setSlot hle, htaken]
    omega

theorem freeSlot_lt_iff (f : Feed) :
    f.freeSlot < f.slots.length ↔ f.live.length < f.slots.length := by
  rw [freeSlot, live, List.findIdx_lt_length, List.length_filterMap_lt_length_iff_exists]
  simp

theorem length_live_le (f : Feed) : f.live.length ≤ f.slots.length :=
  List.length_filterMap_le id f.slots

theorem live_eq (f : Feed) : f.live = (List.range f.slots.length).filterMap f.holder := by
  have hslots : f.slots = (List.range f.slots.length).map f.holder := by
    refine List.ext_getElem (by simp) fun slot hslot _ => ?_
    simp [holder, hslot]
  have hlive : f.live = ((List.range f.slots.length).map f.holder).filterMap id := by
    rw [← hslots, live]
  rw [hlive, List.filterMap_map]
  rfl

/-! ### The entries agree with the slots -/

/-- The entries are the slots that are taken, each entered once. -/
structure Enrolled (f : Feed) (ids : List Nat) : Prop where
  nodup : ids.Nodup
  mem_iff (slot : Nat) : slot ∈ ids ↔ (f.holder slot).isSome

theorem Enrolled.length_live {f : Feed} {ids : List Nat} (h : Enrolled f ids) :
    f.live.length = ids.length := by
  rw [live_eq, List.length_filterMap_eq_countP, List.countP_eq_length_filter]
  refine List.Perm.length_eq ?_
  rw [List.perm_ext_iff_of_nodup (List.nodup_range.filter _) h.nodup]
  intro slot
  rw [h.mem_iff, List.mem_filter, List.mem_range, and_iff_right_iff_imp]
  intro htaken
  by_contra hout
  rw [holder, List.getElem?_eq_none (Nat.le_of_not_lt hout)] at htaken
  cases htaken

theorem enrolled_create (settings : FeedSettings) (name : String) :
    Enrolled (create settings name) [] :=
  ⟨List.nodup_nil, fun _ => ⟨nofun, nofun⟩⟩

theorem Enrolled.of_holder {f g : Feed} {ids : List Nat} (h : Enrolled f ids)
    (hholder : ∀ slot, g.holder slot = f.holder slot) : Enrolled g ids :=
  ⟨h.nodup, fun slot => by rw [hholder, h.mem_iff]⟩

theorem Enrolled.freeSlot_not_mem {f : Feed} {ids : List Nat} (h : Enrolled f ids) :
    f.freeSlot ∉ ids := by
  rw [h.mem_iff, holder_freeSlot]
  exact nofun

theorem Enrolled.subscribe {f : Feed} {ids : List Nat} (h : Enrolled f ids) (server : Server)
    (capacity : Nat) :
    let x := Happening.turn (.request server (.subscribe capacity))
    Enrolled (f.happen x) (x.idsAfter f ids) := by
  intro x
  simp only [x, happen, turn_subscribe, Happening.idsAfter, step_subscribe]
  rcases subscribe_cases server capacity f with
    ⟨g, opening, hg, -, hholder⟩ | ⟨g, e, hg, -, hholder⟩
  · rw [hg]
    refine ⟨List.nodup_cons.2 ⟨h.freeSlot_not_mem, h.nodup⟩, fun slot => ?_⟩
    rw [hholder, List.mem_cons, h.mem_iff]
    by_cases hslot : slot = f.freeSlot
    · simp only [hslot, true_or, if_true, Option.isSome_some]
    · simp only [hslot, false_or, if_false]
  · rw [hg]
    exact h.of_holder hholder

theorem Enrolled.unsubscribe {f : Feed} {ids : List Nat} (h : Enrolled f ids) (server : Server)
    (slot : Nat) :
    let x := Happening.turn (.request server (.unsubscribe slot))
    Enrolled (f.happen x) (x.idsAfter f ids) := by
  intro x
  have hholder := holder_unsubscribe slot f
  simp only [x, happen, turn_unsubscribe, Happening.idsAfter, step_unsubscribe]
  by_cases hlive : (f.holder slot).isSome
  · simp only [hlive, if_true]
    refine ⟨h.nodup.erase slot, fun s => ?_⟩
    rw [hholder, h.nodup.mem_erase_iff, h.mem_iff]
    by_cases hs : s = slot
    · simp [hs]
    · simp [hs]
  · rw [if_neg hlive, unsubscribe_eq, if_neg hlive]
    exact h

theorem Enrolled.happen {f : Feed} {ids : List Nat} (h : Enrolled f ids) (x : Happening) :
    Enrolled (f.happen x) (x.idsAfter f ids) := by
  rcases x.cases with ⟨server, capacity, rfl⟩ | ⟨server, slot, rfl⟩ | hseats
  · exact h.subscribe server capacity
  · exact h.unsubscribe server slot
  · rw [x.idsAfter_of_seats hseats]
    exact h.of_holder fun slot => by rw [holder, slots_happen hseats, holder]

theorem Enrolled.afterAll {f : Feed} {ids : List Nat} (h : Enrolled f ids) (run : List Happening) :
    Enrolled (f.afterAll run) (idsFrom ids run f) := by
  induction run generalizing f ids with
  | nil => exact h
  | cons x run ih => exact ih (h.happen x)

/-! ### The length of the row -/

/-- The row grows just as far as the subscribers of the happening need it. -/
theorem Enrolled.length_slots_happen {f : Feed} {ids : List Nat} (h : Enrolled f ids)
    (x : Happening) : (f.happen x).slots.length = max f.slots.length (x.crowd ids) := by
  have hlive := h.length_live
  have hle := length_live_le f
  rcases x.cases with ⟨server, capacity, rfl⟩ | ⟨server, slot, rfl⟩ | hseats
  · have hfree := freeSlot_le f
    have hroom := freeSlot_lt_iff f
    rw [Feed.happen, turn_subscribe, length_slots_subscribe, Happening.crowd]
    -- either a slot is free and the row has room for one more, or the row is full
    omega
  · have hcrowd : (Happening.turn (.request server (.unsubscribe slot))).crowd ids = ids.length :=
      rfl
    rw [Feed.happen, turn_unsubscribe, length_slots_unsubscribe, hcrowd]
    omega
  · rw [slots_happen hseats, x.crowd_of_seats hseats]
    omega

theorem Enrolled.length_slots_afterAll {f : Feed} {ids : List Nat} (h : Enrolled f ids)
    (run : List Happening) :
    (f.afterAll run).slots.length = max f.slots.length ((crowdsFrom ids run f).foldr max 0) := by
  induction run generalizing f ids with
  | nil =>
    have hle := length_live_le f
    rw [h.length_live] at hle
    simp [Feed.afterAll, crowdsFrom, hle]
  | cons x run ih =>
    have hrest := ih (h.happen x)
    rw [h.length_slots_happen x] at hrest
    rw [crowdsFrom, List.foldr_cons, ← Nat.max_assoc]
    exact hrest

/-! ### What requests do to the slots -/

/-- What becomes of the slots of a feed with these live subscriptions. -/
structure SlotLaw (f : Feed) (ids : List Nat) : Prop where
  /-- A subscriber gets the least number that is not live, and the other slots stay as they are. -/
  subscribed {server : Server} {capacity slot : Nat} {opening : Option String}
    (h : (f.step server (.subscribe capacity)).2 = .subscribed slot opening) :
    slot ∉ ids ∧ (∀ s < slot, s ∈ ids) ∧
      ((f.step server (.subscribe capacity)).1.holder slot).isSome ∧
      ∀ s ≠ slot, (f.step server (.subscribe capacity)).1.holder s = f.holder s
  /-- Only a dial that fails keeps a subscriber out. -/
  answered (server : Server) (capacity : Nat) :
    (∃ slot opening, (f.step server (.subscribe capacity)).2 = .subscribed slot opening) ∨
      f.connected = false ∧ ∃ e, server.dial f.settings.address = .error e ∧
        (f.step server (.subscribe capacity)).2 = .failed e
  /-- A subscriber whose dial fails leaves everybody as they are. -/
  refused {server : Server} {capacity : Nat} {e : FeedError}
    (h : (f.step server (.subscribe capacity)).2 = .failed e) (s : Nat) :
    (f.step server (.subscribe capacity)).1.holder s = f.holder s
  /-- Nothing but the slot of a live subscription is cleared. -/
  unsubscribed (server : Server) {slot : Nat} (h : slot ∈ ids) :
    f.step server (.unsubscribe slot) = ({ f with slots := f.slots.set slot none }, .done)
  unknown (server : Server) {slot : Nat} (h : slot ∉ ids) :
    f.step server (.unsubscribe slot) = (f, .failed (.unknownSubscription slot))
  others {x : Happening} (h : x.seats = false) : (f.happen x).slots = f.slots
  grows (x : Happening) : f.slots.length ≤ (f.happen x).slots.length

theorem Enrolled.slotLaw {f : Feed} {ids : List Nat} (h : Enrolled f ids) : SlotLaw f ids where
  subscribed {server capacity slot opening} hreply := by
    rw [step_subscribe] at hreply ⊢
    rcases subscribe_cases server capacity f with
      ⟨g, given, hg, -, hholder⟩ | ⟨g, e, hg, -, -⟩
    · rw [hg] at hreply ⊢
      obtain ⟨rfl, -⟩ := Reply.subscribed.inj hreply
      refine ⟨h.freeSlot_not_mem, fun s hs => ?_, ?_, fun s hs => ?_⟩
      · rw [h.mem_iff]
        exact isSome_holder_of_lt_freeSlot hs
      · rw [hholder, if_pos rfl]
        rfl
      · rw [hholder, if_neg hs]
    · rw [hg] at hreply
      cases hreply
  answered server capacity := by
    obtain ⟨g, hg, -⟩ := subscribe_eq f server capacity
    rw [step_subscribe, hg]
    cases hconnected : f.connected with
    | true => exact .inl ⟨f.freeSlot, none, by simp [Turn.dial?, hconnected, subscribeAnswer]⟩
    | false =>
      cases hdial : server.dial f.settings.address with
      | ok _ =>
        refine .inl ⟨f.freeSlot, some (f.name ++ "\n"), ?_⟩
        simp [Turn.dial?, hconnected, hdial, subscribeAnswer]
      | error e =>
        refine .inr ⟨rfl, e, rfl, ?_⟩
        simp [Turn.dial?, hconnected, hdial, subscribeAnswer]
  refused {server capacity e} hreply s := by
    rw [step_subscribe] at hreply ⊢
    rcases subscribe_cases server capacity f with
      ⟨g, given, hg, -, -⟩ | ⟨g, e, hg, -, hholder⟩
    · rw [hg] at hreply
      cases hreply
    · rw [hg]
      exact hholder s
  unsubscribed server slot hlive := by
    rw [step_unsubscribe, if_pos ((h.mem_iff slot).1 hlive)]
  unknown server slot hlive := by
    rw [step_unsubscribe, if_neg fun htaken => hlive ((h.mem_iff slot).2 htaken)]
  others hseats := slots_happen hseats f
  grows x := by
    rw [h.length_slots_happen]
    exact Nat.le_max_left _ _

/-- After any run of happenings the live subscriptions are the slots that are taken, all of them
different, and the row of slots is as long as the largest number of subscribers that there has been
at a time. A subscriber who asked in vain counts as one while it asked. The next subscriber gets the
least free slot unless a dial fails, and a slot is cleared exactly by naming a live subscription. -/
theorem slots_of_run (settings : FeedSettings) (name : String) (run : List Happening) :
    let start := create settings name
    let f := start.afterAll run
    let ids := idsFrom [] run start
    ids.Nodup ∧ (∀ slot, slot ∈ ids ↔ (f.holder slot).isSome) ∧
      f.status.live = ids.length ∧
      f.status.slots = (crowdsFrom [] run start).foldr max 0 ∧
      SlotLaw f ids := by
  intro start f ids
  have henrolled : Enrolled f ids := (enrolled_create settings name).afterAll run
  refine ⟨henrolled.nodup, henrolled.mem_iff, henrolled.length_live, ?_, henrolled.slotLaw⟩
  have hlength := (enrolled_create settings name).length_slots_afterAll run
  exact hlength.trans (Nat.zero_max _)

/-- The slot of a subscriber who could not be served stays in the row for the next one. -/
example :
    let down : Server := ⟨true, false⟩
    let up : Server := ⟨true, true⟩
    let start := create .standard "ticks"
    let run : List Happening :=
      [.turn (.request down (.subscribe 1)), .turn (.request up (.subscribe 1))]
    crowdsFrom [] run start = [1, 1, 1] ∧ idsFrom [] run start = [0] ∧
      (start.afterAll run).slots.length = 1 := by
  decide

end LiveQuery.Feed
