import LiveQuery.Proofs.Feed.Connections

/-!
# Subscribers do not influence each other

What a subscriber does with its own inbox, and how large that inbox is, concerns nobody else. For
one subscriber `x`, `view x` leaves of a run what is not the private affair of the others: all
requests but for the capacities of the other inboxes, and what `x` does with its own. A run answers
what its view would answer, turn by turn. So two runs with the same view give the same answers, and
the feeds that they lead to differ in the inboxes of the others only (`Alike`).
-/

namespace LiveQuery.Feed

/-! ### What one subscriber sees of a run -/

/-- The ticket that is given out in a turn. -/
def Turn.issues (f : Feed) : Turn → Option Ticket
  | .request server (.subscribe capacity) =>
    match (f.step server (.subscribe capacity)).2 with
    | .subscribed _ _ => some f.inboxes.length
    | _ => none
  | _ => none

/-- What is left of a turn if capacities, drains and drops of inboxes other than `x` are left out.
-/
def Turn.seenBy (x : Ticket) (f : Feed) : Turn → Option Turn
  | .request server (.subscribe capacity) =>
    let own := (Turn.request server (.subscribe capacity)).issues f = some x
    some (.request server (.subscribe (if own then capacity else 0)))
  | .request _ (.drain slot) => if f.ticketOf? slot = some x then some (.drainInbox x) else none
  | .request _ (.dropInboxes slot) =>
    if f.inboxes[x]?.any (·.slot == slot) then some (.dropInbox x) else none
  | .drainInbox ticket => if ticket = x then some (.drainInbox x) else none
  | .dropInbox ticket => if ticket = x then some (.dropInbox x) else none
  | y => some y

/-- What is left of a run. -/
def view (x : Ticket) : List Turn → Feed → List Turn
  | [], _ => []
  | y :: turns, f => (y.seenBy x f).toList ++ view x turns (f.turn y)

/-- What is answered in a turn. -/
def Turn.reply (f : Feed) : Turn → Reply
  | .request server r => (f.step server r).2
  | .drainInbox ticket => .drained (some (f.drainInbox ticket).2)
  | .dropInbox _ => .done

/-- What can be told of a turn: the answer, the events that are decoded in it, and how the feed
stands afterwards. -/
structure Answer where
  reply : Reply
  decoded : List Json
  status : Status

def Turn.answer (f : Feed) (y : Turn) : Answer :=
  ⟨y.reply f, (y.passes f).map Pass.event, (f.turn y).status⟩

/-- The answers to all turns of a run. -/
def answers : List Turn → Feed → List Answer
  | [], _ => []
  | y :: turns, f => y.answer f :: answers turns (f.turn y)

/-- The answers to the turns of a run of which something is left. -/
def seenAnswers (x : Ticket) : List Turn → Feed → List Answer
  | [], _ => []
  | y :: turns, f =>
    ((y.seenBy x f).toList.map fun _ => y.answer f) ++ seenAnswers x turns (f.turn y)

/-! ### Feeds that differ in the other inboxes -/

/-- The feed without its inboxes. -/
def bare (f : Feed) : Feed := { f with inboxes := [] }

/-- The feeds are the same but for the inboxes other than `x`, and even of these there are as many.
-/
structure Alike (x : Ticket) (f g : Feed) : Prop where
  rest : f.bare = g.bare
  length : f.inboxes.length = g.inboxes.length
  own : f.inboxes[x]? = g.inboxes[x]?

namespace Alike

variable {x : Ticket} {f g : Feed}

theorem refl (x : Ticket) (f : Feed) : Alike x f f := ⟨rfl, rfl, rfl⟩

theorem symm (h : Alike x f g) : Alike x g f := ⟨h.rest.symm, h.length.symm, h.own.symm⟩

theorem trans {k : Feed} (first : Alike x f g) (second : Alike x g k) : Alike x f k :=
  ⟨first.rest.trans second.rest, first.length.trans second.length, first.own.trans second.own⟩

theorem eq_of_bare {α : Type} (h : Alike x f g) (part : Feed → α)
    (hbare : ∀ k : Feed, part k.bare = part k) : part f = part g := by
  rw [← hbare f, h.rest, hbare g]

theorem connected (h : Alike x f g) : f.connected = g.connected :=
  h.eq_of_bare Feed.connected fun _ => rfl

theorem address (h : Alike x f g) : f.settings.address = g.settings.address :=
  h.eq_of_bare (·.settings.address) fun _ => rfl

theorem status (h : Alike x f g) : f.status = g.status := h.eq_of_bare Feed.status fun _ => rfl

theorem freeSlot (h : Alike x f g) : f.freeSlot = g.freeSlot :=
  h.eq_of_bare Feed.freeSlot fun _ => rfl

theorem lookup (h : Alike x f g) (key : String) : f.lookup key = g.lookup key :=
  h.eq_of_bare (Feed.lookup key) fun _ => rfl

theorem isLive (h : Alike x f g) (ticket : Ticket) : f.isLive ticket = g.isLive ticket :=
  h.eq_of_bare (Feed.isLive · ticket) fun _ => rfl

theorem readingsOf (h : Alike x f g) (text : List UInt8) : f.readingsOf text = g.readingsOf text :=
  h.eq_of_bare (Feed.readingsOf · text) fun _ => rfl

/-! ### Inboxes -/

theorem modify (h : Alike x f g) (change : Inbox → Inbox) :
    Alike x { f with inboxes := f.inboxes.modify x change }
      { g with inboxes := g.inboxes.modify x change } where
  rest := h.rest
  length := by simp only [List.length_modify, h.length]
  own := by simp only [List.getElem?_modify, h.own]

theorem modify_other {ticket : Ticket} (hne : ticket ≠ x) (f : Feed) (change : Inbox → Inbox) :
    Alike x { f with inboxes := f.inboxes.modify ticket change } f where
  rest := rfl
  length := List.length_modify change f.inboxes ticket
  own := by simp [hne]

theorem drained (h : Alike x f g) : (f.drainInbox x).2 = (g.drainInbox x).2 := by
  simp only [drainInbox, h.own, h.isLive]

theorem getElem?_dropInboxes (slot : Nat) (f : Feed) : (f.dropInboxes slot).inboxes[x]? =
    f.inboxes[x]?.map fun b => if b.slot == slot then b.drop else b :=
  List.getElem?_map

theorem dropInboxes_own {slot : Nat} (hslot : f.inboxes[x]?.any (·.slot == slot) = true) :
    Alike x (f.dropInboxes slot) (f.dropInbox x) where
  rest := rfl
  length := by simp only [dropInboxes, dropInbox, List.length_map, List.length_modify]
  own := by
    rw [getElem?_dropInboxes, dropInbox, List.getElem?_modify]
    cases hinbox : f.inboxes[x]? with
    | none => rfl
    | some b =>
      rw [hinbox, Option.any_some, beq_iff_eq] at hslot
      simp [hslot]

theorem dropInboxes_other {slot : Nat} (hslot : f.inboxes[x]?.any (·.slot == slot) = false) :
    Alike x (f.dropInboxes slot) f where
  rest := rfl
  length := by simp only [dropInboxes, List.length_map]
  own := by
    rw [getElem?_dropInboxes]
    cases hinbox : f.inboxes[x]? with
    | none => rfl
    | some b =>
      rw [hinbox, Option.any_some, beq_eq_false_iff_ne] at hslot
      simp [hslot]

/-! ### Events -/

theorem take (h : Alike x f g) (event : Json) : Alike x (f.take event) (g.take event) where
  rest := h.eq_of_bare (fun k => (k.take event).bare) fun _ => rfl
  length := by rw [length_inboxes_take, length_inboxes_take, h.length]
  own := by
    have hinbox : ∀ k : Feed, (k.take event).inboxes[x]? =
        k.inboxes[x]?.map fun b => if k.isLive x then b.offer event else b := fun k =>
      List.getElem?_mapIdx
    rw [hinbox, hinbox, h.own, h.isLive]

/-- The same lines end a connection in the same place. -/
theorem absorb (h : Alike x f g) (found : List (Reading Json)) :
    Alike x (absorb found f) (absorb found g) ∧
      (absorbPasses found f).map Pass.event = (absorbPasses found g).map Pass.event := by
  induction found generalizing f g with
  | nil => exact ⟨h, rfl⟩
  | cons reading rest ih =>
    cases reading with
    | value event =>
      have htake := h.take event
      obtain ⟨hrest, hevents⟩ := ih htake
      simp only [Feed.absorb, absorbPasses, htake.connected]
      split
      · exact ⟨hrest, congrArg (event :: ·) hevents⟩
      · exact ⟨htake, rfl⟩
    | undecodable => exact ih h
    | tooLong length limit => exact ih h

/-- A text that the server sends, if there is a connection. -/
theorem lines (h : Alike x f g) (text : List UInt8) :
    Alike x (if f.connected then Feed.absorb (f.readingsOf text) f else f)
        (if g.connected then Feed.absorb (g.readingsOf text) g else g) ∧
      (if f.connected then absorbPasses (f.readingsOf text) f else []).map Pass.event =
        (if g.connected then absorbPasses (g.readingsOf text) g else []).map Pass.event := by
  rw [h.connected, h.readingsOf]
  split
  · exact h.absorb (g.readingsOf text)
  · exact ⟨h, rfl⟩

theorem close (h : Alike x f g) (tail : List UInt8) : Alike x (f.close tail) (g.close tail) := by
  obtain ⟨habsorb, -⟩ := h.absorb (g.readingsOf tail)
  unfold Feed.close
  rw [h.connected, h.readingsOf]
  split
  · exact ⟨habsorb.eq_of_bare (fun k => { k with connected := false }.bare) fun _ => rfl,
      habsorb.length, habsorb.own⟩
  · exact h

/-! ### Slots -/

theorem setSlot (h : Alike x f g) (slot : Nat) (ticket : Option Ticket) :
    Alike x (f.setSlot slot ticket) (g.setSlot slot ticket) :=
  ⟨h.eq_of_bare (fun k => (k.setSlot slot ticket).bare) fun _ => rfl, h.length, h.own⟩

theorem unsubscribe (h : Alike x f g) (slot : Nat) :
    Alike x (f.unsubscribe slot).1 (g.unsubscribe slot).1 ∧
      (f.unsubscribe slot).2 = (g.unsubscribe slot).2 := by
  have hslots : f.slots[slot]? = g.slots[slot]? := h.eq_of_bare (·.slots[slot]?) fun _ => rfl
  unfold Feed.unsubscribe
  rw [hslots]
  split
  · exact ⟨h.setSlot slot none, rfl⟩
  · exact ⟨h, rfl⟩

theorem connect (h : Alike x f g) (server : Server) :
    (∃ e, f.connect server = .error e ∧ g.connect server = .error e) ∨
      ∃ f' g' opening, f.connect server = .ok (f', opening) ∧
        g.connect server = .ok (g', opening) ∧ Alike x f' g' := by
  have hopened : Alike x { f with connected := true, connects := f.connects + 1 }
      { g with connected := true, connects := g.connects + 1 } :=
    ⟨h.eq_of_bare (fun k => { k with connected := true, connects := k.connects + 1 }.bare)
      fun _ => rfl, h.length, h.own⟩
  have hline : f.handshake = g.handshake := h.eq_of_bare Feed.handshake fun _ => rfl
  unfold Feed.connect
  rw [h.connected, h.address, hline]
  split
  · exact .inr ⟨f, g, none, rfl, rfl, h⟩
  · cases server.dial g.settings.address with
    | ok _ => exact .inr ⟨_, _, _, rfl, rfl, hopened⟩
    | error e => exact .inl ⟨e, rfl, rfl⟩

theorem enroll (h : Alike x f g) (slot : Nat) {capacity capacity' : Nat}
    (hcapacity : x = f.inboxes.length → capacity = capacity') :
    Alike x { f with inboxes := f.inboxes ++ [.fresh slot capacity] }
      { g with inboxes := g.inboxes ++ [.fresh slot capacity'] } where
  rest := h.rest
  length := by simp only [List.length_append, List.length_singleton, h.length]
  own := by
    rcases Nat.lt_trichotomy x f.inboxes.length with hlt | heq | hgt
    · rw [List.getElem?_append_left hlt, List.getElem?_append_left (h.length ▸ hlt), h.own]
    · rw [hcapacity heq]
      simp only [heq, List.getElem?_concat_length]
      rw [h.length, List.getElem?_concat_length]
    · have hend : ∀ (k : Feed) (b : Inbox), k.inboxes.length = f.inboxes.length →
          (k.inboxes ++ [b])[x]? = none := by
        intro k b hk
        apply List.getElem?_eq_none
        rw [List.length_append, List.length_singleton]
        omega
      rw [hend f _ rfl, hend g _ h.length.symm]

/-- Whether a subscriber gets a slot, and which, does not depend on the size of its inbox. -/
theorem subscribe (h : Alike x f g) (server : Server) (capacity capacity' : Nat)
    (hcapacity : (Turn.request server (.subscribe capacity)).issues f = some x →
      capacity = capacity') :
    Alike x (f.subscribe server capacity).1 (g.subscribe server capacity').1 ∧
      (f.subscribe server capacity).2 = (g.subscribe server capacity').2 := by
  have htaken := h.setSlot f.freeSlot (some f.inboxes.length)
  have hissues := step_subscribe f server capacity
  simp only [Turn.issues, hissues] at hcapacity
  unfold Feed.subscribe at hcapacity ⊢
  simp only [← h.freeSlot, ← h.length] at hcapacity ⊢
  rcases htaken.connect server with ⟨e, hf, hg⟩ | ⟨f', g', opening, hf, hg, hconnected⟩
  · simp only [hf, hg]
    exact ⟨htaken.setSlot f.freeSlot none, trivial⟩
  · have hsame : f'.inboxes.length = f.inboxes.length := congrArg _ (connect_eq_ok hf).1
    simp only [hf, hg] at hcapacity ⊢
    refine ⟨hconnected.enroll f.freeSlot fun hx => hcapacity ?_, trivial⟩
    rw [hx, hsame]

/-! ### One turn -/

theorem answer_eq {y z : Turn} (hturn : Alike x (f.turn y) (g.turn z))
    (hreply : y.reply f = z.reply g)
    (hdecoded : (y.passes f).map Pass.event = (z.passes g).map Pass.event) :
    Alike x (f.turn y) (g.turn z) ∧ y.answer f = z.answer g := by
  refine ⟨hturn, ?_⟩
  rw [Turn.answer, Turn.answer, hreply, hdecoded, hturn.status]

/-- What is left of a turn has the same answer and the same effect. -/
theorem seen (h : Alike x f g) {y z : Turn} (hy : y.seenBy x f = some z) :
    Alike x (f.turn y) (g.turn z) ∧ y.answer f = z.answer g := by
  have hdrained : Reply.drained (some (f.drainInbox x).2) = .drained (some (g.drainInbox x).2) := by
    rw [h.drained]
  cases y with
  | drainInbox ticket =>
    obtain ⟨rfl, hz⟩ := Option.ite_none_right_eq_some.1 hy
    obtain rfl := Option.some.inj hz
    exact answer_eq (h.modify _) hdrained rfl
  | dropInbox ticket =>
    obtain ⟨rfl, hz⟩ := Option.ite_none_right_eq_some.1 hy
    obtain rfl := Option.some.inj hz
    exact answer_eq (h.modify _) rfl rfl
  | request server r =>
    cases r with
    | subscribe capacity =>
      obtain rfl := Option.some.inj hy
      obtain ⟨hturn, hreply⟩ := h.subscribe server capacity
        (if (Turn.request server (.subscribe capacity)).issues f = some x then capacity else 0)
        fun hown => (if_pos hown).symm
      refine answer_eq ?_ ?_ rfl
      · rw [turn_subscribe, turn_subscribe]
        exact hturn
      · simp only [Turn.reply, step_subscribe, hreply]
    | unsubscribe slot =>
      obtain rfl := Option.some.inj hy
      obtain ⟨hturn, hreply⟩ := h.unsubscribe slot
      refine answer_eq ?_ ?_ rfl
      · rw [turn_unsubscribe, turn_unsubscribe]
        exact hturn
      · simp only [Turn.reply, step]
        rcases hf : f.unsubscribe slot with ⟨f', answer⟩
        rcases hg : g.unsubscribe slot with ⟨g', answer'⟩
        obtain rfl : answer = answer' := by simpa only [hf, hg] using hreply
        cases answer <;> rfl
    | send data =>
      obtain rfl := Option.some.inj hy
      obtain ⟨hturn, hdecoded⟩ := h.lines (data ++ [lineFeed])
      exact answer_eq hturn (congrArg Reply.connection hturn.connected) hdecoded
    | close tail =>
      obtain rfl := Option.some.inj hy
      have hturn := h.close tail
      exact answer_eq hturn (congrArg Reply.connection hturn.connected) (h.lines tail).2
    | drain slot =>
      obtain ⟨hticket, hz⟩ := Option.ite_none_right_eq_some.1 hy
      obtain rfl := Option.some.inj hz
      refine answer_eq ?_ ?_ rfl
      · rw [turn_drain, hticket]
        exact h.modify _
      · simp only [Turn.reply, step, drain, hticket]
        exact hdrained
    | dropInboxes slot =>
      obtain ⟨hslot, hz⟩ := Option.ite_none_right_eq_some.1 hy
      obtain rfl := Option.some.inj hz
      exact answer_eq ((dropInboxes_own hslot).trans (h.modify _)) rfl rfl
    | lookup key =>
      obtain rfl := Option.some.inj hy
      exact answer_eq h (congrArg Reply.found (h.lookup key)) rfl
    | status =>
      obtain rfl := Option.some.inj hy
      exact answer_eq h (congrArg Reply.status h.status) rfl
    | name =>
      obtain rfl := Option.some.inj hy
      exact answer_eq h (congrArg Reply.name (h.eq_of_bare Feed.name fun _ => rfl)) rfl

/-- A turn of which nothing is left only touches the other inboxes, and nothing is decoded in it. -/
theorem unseen {y : Turn} (hy : y.seenBy x f = none) : Alike x (f.turn y) f ∧ y.passes f = [] := by
  have hother : ∀ {p : Prop} [Decidable p] {z : Turn},
      (if p then some z else none) = none → ¬ p := by
    intro p _ z hnone hp
    rw [if_pos hp] at hnone
    cases hnone
  cases y with
  | drainInbox ticket => exact ⟨modify_other (hother hy) f _, rfl⟩
  | dropInbox ticket => exact ⟨modify_other (hother hy) f _, rfl⟩
  | request server r =>
    cases r with
    | drain slot =>
      have hticket := hother hy
      refine ⟨?_, rfl⟩
      rw [turn_drain]
      cases hsome : f.ticketOf? slot with
      | none => exact refl x f
      | some ticket =>
        rw [hsome] at hticket
        exact modify_other (fun heq => hticket (congrArg some heq)) f _
    | dropInboxes slot =>
      have hslot := hother hy
      rw [Bool.not_eq_true] at hslot
      exact ⟨dropInboxes_other hslot, rfl⟩
    | _ => cases hy

/-! ### Runs -/

/-- A run answers what its view would answer. -/
theorem seenAnswers_eq (h : Alike x f g) (turns : List Turn) :
    seenAnswers x turns f = answers (view x turns f) g ∧
      Alike x (f.afterTurns turns) (g.afterTurns (view x turns f)) := by
  induction turns generalizing f g with
  | nil => exact ⟨rfl, h⟩
  | cons y turns ih =>
    cases hy : y.seenBy x f with
    | none =>
      simp only [seenAnswers, view, hy, Option.toList_none, List.map_nil, List.nil_append]
      exact ih ((unseen hy).1.trans h)
    | some z =>
      obtain ⟨hturn, hanswer⟩ := h.seen hy
      obtain ⟨hrest, hafter⟩ := ih hturn
      simp only [seenAnswers, view, hy, Option.toList_some, List.map_cons, List.map_nil,
        List.singleton_append, answers, afterTurns_cons]
      exact ⟨by rw [hanswer, hrest], hafter⟩

end Alike

/-- Two runs of a feed that differ only in the capacities, drains and drops of inboxes other than
`x` give the same answers to all else: whom they give which slot, what they tell of themselves and
find, what is decoded in each turn and whether the connection outlives it, and what `x` drains. The
feeds that they lead to differ in the other inboxes only, and the turns in which the runs differ do
nothing but touch these. -/
theorem answers_of_view (settings : FeedSettings) (name : String) (x : Ticket)
    {turns turns' : List Turn}
    (h : view x turns (create settings name) = view x turns' (create settings name)) :
    seenAnswers x turns (create settings name) = seenAnswers x turns' (create settings name) ∧
      Alike x ((create settings name).afterTurns turns)
        ((create settings name).afterTurns turns') ∧
      ∀ (f : Feed) (y : Turn), y.seenBy x f = none → Alike x (f.turn y) f ∧ y.passes f = [] := by
  obtain ⟨hanswers, hafter⟩ := (Alike.refl x (create settings name)).seenAnswers_eq turns
  obtain ⟨hanswers', hafter'⟩ := (Alike.refl x (create settings name)).seenAnswers_eq turns'
  refine ⟨?_, ?_, fun f y => Alike.unseen⟩
  · rw [hanswers, hanswers', h]
  · rw [← h] at hafter'
    exact hafter.trans hafter'.symm

/-- Two subscribers, of whom the first has a small inbox and never looks into it, or a large one,
which it empties once and then gives up. The second one drains the same events. -/
theorem answers_of_view_of_neighbours :
    let server : Server := ⟨true, true⟩
    let turns : List Turn := [.request server (.subscribe 1), .request server (.subscribe 9),
      .request server (.send [49, 10, 50]), .drainInbox 1]
    let turns' : List Turn := [.request server (.subscribe 5), .request server (.subscribe 9),
      .dropInbox 0, .request server (.send [49, 10, 50]), .drainInbox 0, .drainInbox 1]
    view 1 turns (create .standard "ticks") = view 1 turns' (create .standard "ticks") ∧
      (seenAnswers 1 turns' (create .standard "ticks")).map Answer.reply =
        [.subscribed 0 (some "ticks\n"), .subscribed 1 none, .connection true,
          .drained (some ([.int 1, .int 2], true))] := by
  intro server turns turns'
  have hview : view 1 turns (create .standard "ticks") = view 1 turns' (create .standard "ticks") :=
    rfl
  refine ⟨hview, ?_⟩
  rw [← (answers_of_view .standard "ticks" 1 hview).1]
  simp only [turns, seenAnswers, Turn.answer, Turn.reply, turn, step, receive, readingsOf_eq]
  rfl

end LiveQuery.Feed
