import Mathlib.Data.List.TakeWhile
import LiveQuery.Proofs.Feed.Run

/-!
# What a subscriber receives

Whatever else a run does, the inbox of one subscription changes in three ways: a delivery adds the
event at its end if the subscription has a slot and the inbox has room, the subscriber takes
everything out, and the subscriber gives the inbox up. So what was in it and what arrived since is,
in this order, what was drained, what was lost with the inbox, and what is still waiting.
-/

namespace LiveQuery.Feed

/-! ### The turns of one inbox -/

/-- What the subscriber with this ticket takes out of its inbox. -/
def Turn.drained (ticket : Ticket) (f : Feed) : Turn → List Json
  | .drainInbox t => if t = ticket then (f.drainInbox t).2.1 else []
  | .request _ (.drain slot) =>
    if f.ticketOf? slot = some ticket then (f.drain slot).2.elim [] (·.1) else []
  | _ => []

/-- Whether the inbox with this ticket, which belongs to a slot, is given up. -/
def Turn.drops (slot : Nat) (ticket : Ticket) : Turn → Bool
  | .dropInbox t => t == ticket
  | .request _ (.dropInboxes s) => s == slot
  | _ => false

/-- What is in the inbox with this ticket when it is given up. -/
def Turn.lost (slot : Nat) (ticket : Ticket) (f : Feed) (x : Turn) : List Json :=
  if x.drops slot ticket then f.inboxes[ticket]?.elim [] Inbox.queue else []

/-- What is drained during a run. -/
def drained (ticket : Ticket) : List Turn → Feed → List Json
  | [], _ => []
  | x :: turns, f => x.drained ticket f ++ drained ticket turns (f.turn x)

/-- What is lost during a run. -/
def lost (slot : Nat) (ticket : Ticket) : List Turn → Feed → List Json
  | [], _ => []
  | x :: turns, f => x.lost slot ticket f ++ lost slot ticket turns (f.turn x)

/-- Whether a delivery puts its event into the inbox with this ticket. -/
def Pass.accepts (ticket : Ticket) (p : Pass) : Bool :=
  p.feed.isLive ticket &&
    p.feed.inboxes[ticket]?.any fun b => b.held && b.queue.length < b.capacity

/-- What arrives in the inbox with this ticket. -/
def received (ticket : Ticket) (deliveries : List Pass) : List Json :=
  (deliveries.filter (·.accepts ticket)).map Pass.event

theorem received_append (ticket : Ticket) (first second : List Pass) :
    received ticket (first ++ second) = received ticket first ++ received ticket second := by
  simp only [received, List.filter_append, List.map_append]

theorem received_cons (ticket : Ticket) (p : Pass) (rest : List Pass) :
    received ticket (p :: rest) = received ticket [p] ++ received ticket rest :=
  received_append ticket [p] rest

theorem received_eq_nil {ticket : Ticket} {deliveries : List Pass}
    (h : ∀ p ∈ deliveries, p.accepts ticket = false) : received ticket deliveries = [] := by
  have hnone : deliveries.filter (·.accepts ticket) = [] := by
    rw [List.filter_eq_nil_iff]
    intro p hp
    rw [h p hp]
    exact Bool.false_ne_true
  rw [received, hnone]
  rfl

/-! ### Deliveries -/

namespace Inbox

/-- An inbox is never too full, and there is nothing in one that was given up. -/
structure Sound (b : Inbox) : Prop where
  bounded : b.queue.length ≤ b.capacity
  empty : b.held = false → b.queue = []

theorem sound_fresh (slot capacity : Nat) : (fresh slot capacity).Sound :=
  ⟨Nat.zero_le _, fun _ => rfl⟩

/-- One inbox becomes the other when these events arrive. -/
structure Takes (b : Inbox) (events : List Json) (b' : Inbox) : Prop where
  slot : b'.slot = b.slot
  capacity : b'.capacity = b.capacity
  held : b'.held = b.held
  queue : b'.queue = b.queue ++ events
  /-- Nothing arrives in an inbox that was given up. -/
  idle : b.held = false → events = []
  sound : b.Sound → b'.Sound

theorem Takes.refl (b : Inbox) : b.Takes [] b :=
  ⟨rfl, rfl, rfl, (List.append_nil _).symm, fun _ => rfl, id⟩

theorem Takes.trans {b c d : Inbox} {events more : List Json} (first : b.Takes events c)
    (second : c.Takes more d) : b.Takes (events ++ more) d where
  slot := second.slot.trans first.slot
  capacity := second.capacity.trans first.capacity
  held := second.held.trans first.held
  queue := by rw [second.queue, first.queue, List.append_assoc]
  idle := fun h => by rw [first.idle h, second.idle (first.held.trans h), List.append_nil]
  sound := fun h => second.sound (first.sound h)

theorem takes_offer (event : Json) (b : Inbox) :
    b.Takes (if b.held && b.queue.length < b.capacity then [event] else []) (b.offer event) := by
  unfold offer
  split
  · rename_i hroom
    simp only [Bool.and_eq_true, decide_eq_true_eq] at hroom
    have hheld : ¬ b.held = false := by
      rw [hroom.1]
      exact nofun
    refine ⟨rfl, rfl, rfl, rfl, fun h => absurd h hheld, fun _ => ⟨?_, fun h => absurd h hheld⟩⟩
    rw [List.length_append]
    exact hroom.2
  · exact Takes.refl b

end Inbox

variable {f : Feed} {ticket : Ticket} {b : Inbox}

theorem takes_take (h : f.inboxes[ticket]? = some b) (event : Json) :
    ∃ b', (f.take event).inboxes[ticket]? = some b' ∧
      b.Takes (received ticket [⟨f, event⟩]) b' := by
  have hinbox : (f.take event).inboxes[ticket]? =
      some (if f.isLive ticket then b.offer event else b) := by
    have hmap : (f.take event).inboxes = f.inboxes.mapIdx fun t b =>
        if f.isLive t then b.offer event else b := rfl
    rw [hmap, List.getElem?_mapIdx, h]
    rfl
  have haccepts : Pass.accepts ticket ⟨f, event⟩ =
      (f.isLive ticket && (b.held && b.queue.length < b.capacity)) := by
    simp only [Pass.accepts, h, Option.any_some]
  refine ⟨_, hinbox, ?_⟩
  cases hlive : f.isLive ticket with
  | false =>
    rw [received_eq_nil (by simp [haccepts, hlive])]
    exact Inbox.Takes.refl b
  | true =>
    have hreceived : received ticket [⟨f, event⟩] =
        if b.held && b.queue.length < b.capacity then [event] else [] := by
      rw [hlive, Bool.true_and] at haccepts
      rw [received, List.filter_cons, haccepts]
      split <;> rfl
    rw [hreceived]
    exact Inbox.takes_offer event b

theorem takes_absorb (found : List (Reading Json)) (h : f.inboxes[ticket]? = some b) :
    ∃ b', (absorb found f).inboxes[ticket]? = some b' ∧
      b.Takes (received ticket (absorbPasses found f)) b' := by
  induction found generalizing f b with
  | nil => exact ⟨b, h, Inbox.Takes.refl b⟩
  | cons reading rest ih =>
    cases reading with
    | value event =>
      obtain ⟨c, hc, htake⟩ := takes_take h event
      rw [absorbPasses, received_cons]
      simp only [absorb]
      split
      · obtain ⟨d, hd, hrest⟩ := ih hc
        exact ⟨d, hd, htake.trans hrest⟩
      · exact ⟨c, hc, htake.trans (Inbox.Takes.refl c)⟩
    | undecodable => exact ih h
    | tooLong length limit => exact ih h

/-! ### Runs -/

/-- One inbox becomes the other during some turns: of what was in it and what arrived since, part is
drained, part is lost if the inbox is given up, and the rest waits. -/
structure Inbox.Turns (b : Inbox) (arrived drained lost : List Json) (dropped : Bool) (b' : Inbox) :
    Prop where
  slot : b'.slot = b.slot
  capacity : b'.capacity = b.capacity
  held : b'.held = (b.held && !dropped)
  queue : b.queue ++ arrived = drained ++ lost ++ b'.queue
  kept : dropped = false → lost = []
  idle : b.held = false → arrived = []
  sound : b.Sound → b'.Sound

theorem Inbox.Turns.same (b : Inbox) : b.Turns [] [] [] false b where
  slot := rfl
  capacity := rfl
  held := by rw [Bool.not_false, Bool.and_true]
  queue := List.append_nil _
  kept := fun _ => rfl
  idle := fun _ => rfl
  sound := id

theorem Inbox.Takes.turns {events : List Json} {b' : Inbox} (h : b.Takes events b') :
    b.Turns events [] [] false b' where
  slot := h.slot
  capacity := h.capacity
  held := by rw [h.held, Bool.not_false, Bool.and_true]
  queue := h.queue.symm
  kept := fun _ => rfl
  idle := h.idle
  sound := h.sound

theorem Inbox.turns_drained (b : Inbox) :
    b.Turns [] b.queue [] false { b with queue := [] } where
  slot := rfl
  capacity := rfl
  held := by rw [Bool.not_false, Bool.and_true]
  queue := by simp only [List.append_nil]
  kept := fun _ => rfl
  idle := fun _ => rfl
  sound := fun _ => ⟨Nat.zero_le _, fun _ => rfl⟩

theorem Inbox.turns_drop (b : Inbox) : b.Turns [] [] b.queue true b.drop where
  slot := rfl
  capacity := rfl
  held := by rw [Bool.not_true, Bool.and_false]; rfl
  queue := by simp only [Inbox.drop, List.append_nil, List.nil_append]
  kept := nofun
  idle := fun _ => rfl
  sound := fun _ => ⟨Nat.zero_le _, fun _ => rfl⟩

theorem getElem?_modify_inboxes (h : f.inboxes[ticket]? = some b) (t : Ticket)
    (change : Inbox → Inbox) :
    (f.inboxes.modify t change)[ticket]? = some (if t = ticket then change b else b) := by
  rw [List.getElem?_modify, h]
  split <;> rfl

theorem turns_drainInbox (h : f.inboxes[ticket]? = some b) (t : Ticket) :
    ∃ b', (f.drainInbox t).1.inboxes[ticket]? = some b' ∧
      b.Turns [] (if t = ticket then (f.drainInbox t).2.1 else []) [] false b' := by
  refine ⟨_, getElem?_modify_inboxes h t _, ?_⟩
  by_cases ht : t = ticket
  · subst ht
    simp only [if_true, drainInbox, h, Option.elim_some]
    exact b.turns_drained
  · simp only [if_neg ht]
    exact Inbox.Turns.same b

theorem turns_dropInbox (h : f.inboxes[ticket]? = some b) {dropped : Bool} :
    b.Turns [] [] (if dropped then f.inboxes[ticket]?.elim [] Inbox.queue else []) dropped
      (if dropped then b.drop else b) := by
  cases dropped with
  | false => exact Inbox.Turns.same b
  | true =>
    rw [h]
    exact b.turns_drop

theorem turns_untouched {x : Turn} (hinbox : (f.turn x).inboxes[ticket]? = some b)
    (hpasses : x.passes f = []) (hdrained : x.drained ticket f = [])
    (hdrops : x.drops b.slot ticket = false) :
    ∃ b', (f.turn x).inboxes[ticket]? = some b' ∧
      b.Turns (received ticket (x.passes f)) (x.drained ticket f) (x.lost b.slot ticket f)
        (x.drops b.slot ticket) b' := by
  refine ⟨b, hinbox, ?_⟩
  rw [hpasses, hdrained, Turn.lost, hdrops]
  exact Inbox.Turns.same b

/-- One turn, seen from one inbox. -/
theorem turns_turn (h : f.inboxes[ticket]? = some b) (x : Turn) :
    ∃ b', (f.turn x).inboxes[ticket]? = some b' ∧
      b.Turns (received ticket (x.passes f)) (x.drained ticket f) (x.lost b.slot ticket f)
        (x.drops b.slot ticket) b' := by
  cases x with
  | drainInbox t => exact turns_drainInbox h t
  | dropInbox t =>
    have hinbox := getElem?_modify_inboxes h t Inbox.drop
    refine ⟨if t == ticket then b.drop else b, ?_, turns_dropInbox h⟩
    simp only [beq_iff_eq]
    exact hinbox
  | request server r =>
    cases r with
    | subscribe capacity =>
      refine turns_untouched ?_ rfl rfl rfl
      rw [turn_subscribe]
      rcases subscribe_cases server capacity f with
        ⟨g, opening, hg, hinboxes, -⟩ | ⟨g, e, hg, hinboxes, -⟩
      · rw [hg, hinboxes, List.getElem?_append_left (List.getElem?_eq_some_iff.1 h).1, h]
      · rw [hg, hinboxes, h]
    | unsubscribe slot =>
      refine turns_untouched ?_ rfl rfl rfl
      rw [turn_unsubscribe, inboxes_unsubscribe, h]
    | send data =>
      simp only [turn, step, receive, Turn.passes, Turn.drained, Turn.lost, Turn.drops]
      split
      · obtain ⟨b', hb', htakes⟩ := takes_absorb (f.readingsOf (data ++ [lineFeed])) h
        exact ⟨b', hb', htakes.turns⟩
      · exact ⟨b, h, Inbox.Turns.same b⟩
    | close tail =>
      simp only [turn, step, close, Turn.passes, Turn.drained, Turn.lost, Turn.drops]
      split
      · obtain ⟨b', hb', htakes⟩ := takes_absorb (f.readingsOf tail) h
        exact ⟨b', hb', htakes.turns⟩
      · exact ⟨b, h, Inbox.Turns.same b⟩
    | drain slot =>
      simp only [turn_drain, Turn.passes, Turn.drained, Turn.lost, Turn.drops, drain]
      cases f.ticketOf? slot with
      | none => exact ⟨b, h, Inbox.Turns.same b⟩
      | some t =>
        simp only [Option.some.injEq, Option.elim_some]
        exact turns_drainInbox h t
    | dropInboxes slot =>
      have hinbox : (f.dropInboxes slot).inboxes[ticket]? =
          some (if b.slot == slot then b.drop else b) := by
        have hmap : (f.dropInboxes slot).inboxes =
            f.inboxes.map fun b => if b.slot == slot then b.drop else b := rfl
        rw [hmap, List.getElem?_map, h]
        rfl
      refine ⟨_, hinbox, ?_⟩
      rw [BEq.comm]
      exact turns_dropInbox h
    | lookup key => exact turns_untouched h rfl rfl rfl
    | status => exact turns_untouched h rfl rfl rfl
    | name => exact turns_untouched h rfl rfl rfl

theorem Inbox.Turns.trans {b c d : Inbox} {arrived arrived' drained drained' lost lost' : List Json}
    {dropped dropped' : Bool} (hsound : b.Sound) (first : b.Turns arrived drained lost dropped c)
    (second : c.Turns arrived' drained' lost' dropped' d) :
    b.Turns (arrived ++ arrived') (drained ++ drained') (lost ++ lost') (dropped || dropped')
      d where
  slot := second.slot.trans first.slot
  capacity := second.capacity.trans first.capacity
  held := by rw [second.held, first.held, Bool.not_or, Bool.and_assoc]
  queue := by
    have hsecond := second.queue
    rw [← List.append_assoc, first.queue]
    cases hdropped : dropped with
    | false =>
      rw [first.kept hdropped, List.append_nil, List.nil_append, List.append_assoc, hsecond]
      simp only [List.append_assoc]
    | true =>
      -- The inbox was given up in the first part: it is empty, and the second part adds nothing.
      have hgone : c.held = false := by rw [first.held, hdropped, Bool.not_true, Bool.and_false]
      have hempty := (first.sound hsound).empty hgone
      rw [second.idle hgone, hempty, List.nil_append] at hsecond
      obtain ⟨hnone, hqueue⟩ := List.append_eq_nil_iff.1 hsecond.symm
      obtain ⟨hdrained, hlost⟩ := List.append_eq_nil_iff.1 hnone
      rw [second.idle hgone, hempty, hdrained, hlost, hqueue]
      simp only [List.append_nil]
  kept := fun h => by
    obtain ⟨hfirst, hsecond⟩ := Bool.or_eq_false_iff.1 h
    rw [first.kept hfirst, second.kept hsecond]
    rfl
  idle := fun h => by
    have hgone : c.held = false := by rw [first.held, h, Bool.false_and]
    rw [first.idle h, second.idle hgone]
    rfl
  sound := fun h => second.sound (first.sound h)

/-- A whole run, seen from one inbox. -/
theorem turns_afterTurns (turns : List Turn) (h : f.inboxes[ticket]? = some b) (hsound : b.Sound) :
    ∃ b', (f.afterTurns turns).inboxes[ticket]? = some b' ∧
      b.Turns (received ticket (passes turns f)) (drained ticket turns f)
        (lost b.slot ticket turns f) (turns.any (·.drops b.slot ticket)) b' := by
  induction turns generalizing f b with
  | nil => exact ⟨b, h, Inbox.Turns.same b⟩
  | cons x rest ih =>
    obtain ⟨c, hc, hfirst⟩ := turns_turn h x
    obtain ⟨d, hd, hrest⟩ := ih hc (hfirst.sound hsound)
    rw [hfirst.slot] at hrest
    refine ⟨d, hd, ?_⟩
    rw [passes, received_append]
    exact hfirst.trans hsound hrest

/-! ### A subscription -/

/-- Whether the inbox with this ticket, of this capacity, cannot take the event of a delivery in: it
holds as many events as it may, or the subscriber has given it up. -/
def Pass.misses (ticket : Ticket) (capacity : Nat) (p : Pass) : Bool :=
  p.feed.inboxes[ticket]?.any fun b => b.queue.length == max capacity 1 || !b.held

theorem accepts_eq {p : Pass} (hlive : p.feed.isLive ticket = true)
    (h : p.feed.inboxes[ticket]? = some b) (hsound : b.Sound) {capacity : Nat}
    (hcapacity : b.capacity = max capacity 1) :
    p.accepts ticket = !p.misses ticket capacity := by
  have hbounded := hsound.bounded
  rw [hcapacity] at hbounded
  simp only [Pass.accepts, Pass.misses, hlive, h, Option.any_some, Bool.true_and, hcapacity]
  have hroom : decide (b.queue.length < max capacity 1) = !(b.queue.length == max capacity 1) := by
    by_cases hfull : b.queue.length = max capacity 1
    · rw [hfull, beq_self_eq_true]
      simp
    · rw [beq_eq_false_iff_ne.2 hfull]
      simp only [Bool.not_false, decide_eq_true_eq]
      omega
  rw [hroom, Bool.not_or, Bool.not_not, Bool.and_comm]

/-- While a subscription has its slot it receives every event that its inbox does not miss. -/
theorem received_of_seated {slot capacity : Nat} {turns : List Turn}
    (hseated : Seated slot ticket f) (hturns : ∀ x ∈ turns, x.frees slot = false)
    (h : f.inboxes[ticket]? = some b) (hsound : b.Sound)
    (hcapacity : b.capacity = max capacity 1) :
    received ticket (passes turns f) =
      ((passes turns f).filter fun p => !p.misses ticket capacity).map Pass.event := by
  have hpasses := invariant_of_mem_passes turns
    (motive := fun g => Seated slot ticket g ∧ ∃ c, g.inboxes[ticket]? = some c ∧ c.Sound ∧
      c.capacity = max capacity 1) ?_ ?_ ⟨hseated, b, h, hsound, hcapacity⟩
  · refine congrArg (List.map Pass.event) (List.filter_congr fun p hp => ?_)
    obtain ⟨hseat, c, hc, hsoundc, hcapacityc⟩ := hpasses p hp
    exact accepts_eq hseat.isLive hc hsoundc hcapacityc
  · rintro g event ⟨hseat, c, hc, hsoundc, hcapacityc⟩
    obtain ⟨d, hd, htakes⟩ := takes_take hc event
    exact ⟨hseat.take event, d, hd, htakes.sound hsoundc, htakes.capacity.trans hcapacityc⟩
  · rintro x hx g ⟨hseat, c, hc, hsoundc, hcapacityc⟩
    obtain ⟨d, hd, hturns'⟩ := turns_turn hc x
    exact ⟨hseat.turn (hturns x hx), d, hd, hturns'.sound hsoundc,
      hturns'.capacity.trans hcapacityc⟩

theorem received_of_vacant {turns : List Turn} (h : Vacant ticket f) :
    received ticket (passes turns f) = [] := by
  have hpasses := invariant_of_mem_passes turns (motive := Vacant ticket)
    (fun g event hg => hg.take event) (fun x _ g hg => hg.turn x) h
  refine received_eq_nil fun p hp => ?_
  rw [Pass.accepts, (hpasses p hp).isLive, Bool.false_and]

/-- After its slot has been freed a subscription receives nothing. -/
theorem received_of_takeWhile {slot : Nat} (turns : List Turn) (h : Seated slot ticket f) :
    received ticket (passes turns f) =
      received ticket (passes (turns.takeWhile fun x => !x.frees slot) f) := by
  induction turns generalizing f with
  | nil => rfl
  | cons x rest ih =>
    rw [List.takeWhile_cons]
    cases hx : x.frees slot with
    | true =>
      rw [passes, received_append, Turn.passes_of_frees hx, received_of_vacant (h.vacant hx)]
      rfl
    | false =>
      rw [Bool.not_false, if_pos rfl, passes, passes, received_append, received_append,
        ih (h.turn hx)]

theorem receives_of_seated {slot capacity : Nat} (hseated : Seated slot ticket f)
    (hinbox : f.inboxes[ticket]? = some (.fresh slot capacity)) (turns : List Turn) :
    let tenure := turns.takeWhile fun x => !x.frees slot
    ∃ b, (f.afterTurns turns).inboxes[ticket]? = some b ∧
      drained ticket turns f ++ lost slot ticket turns f ++ b.queue =
        ((passes tenure f).filter fun p => !p.misses ticket capacity).map Pass.event ∧
      (passes tenure f).map Pass.event = sent tenure f ∧
      b.held = !turns.any (·.drops slot ticket) ∧
      (b.held = true → lost slot ticket turns f = []) ∧
      ((f.afterTurns turns).drainInbox ticket).2 = (b.queue, !turns.any (·.frees slot)) := by
  intro tenure
  have htenure : ∀ x ∈ tenure, x.frees slot = false := by
    intro x hx
    have hfrees := List.mem_takeWhile_imp hx
    simpa using hfrees
  have hsound := Inbox.sound_fresh slot capacity
  obtain ⟨b, hb, hturns⟩ := turns_afterTurns turns hinbox hsound
  have hheld : b.held = !turns.any (·.drops slot ticket) := hturns.held
  refine ⟨b, hb, ?_, event_passes hseated htenure, hheld, fun h => ?_, ?_⟩
  · have hqueue := hturns.queue
    rw [received_of_takeWhile turns hseated,
      received_of_seated hseated htenure hinbox hsound rfl] at hqueue
    exact hqueue.symm
  · apply hturns.kept
    rwa [hheld, Bool.not_eq_true'] at h
  · rw [drainInbox, hb, isLive_afterTurns hseated turns]
    rfl

/-- For a subscription anywhere in a run of a feed: what is drained from its inbox, then what is
lost if the inbox is given up, then what is waiting, is what was delivered in its tenure, from the
subscription until its slot is freed, in the order of the deliveries and without those that found
the inbox full or given up. These deliveries are all the events that the server sends meanwhile. The
inbox tells that no more can come exactly if the slot has been freed. -/
theorem subscription_receives (settings : FeedSettings) (name : String) (before after : List Turn)
    (server : Server) (capacity : Nat) {slot : Nat} {opening : Option String}
    (h : (((create settings name).afterTurns before).step server (.subscribe capacity)).2 =
      .subscribed slot opening) :
    let f := (create settings name).afterTurns before
    let ticket := f.inboxes.length
    let g := f.turn (.request server (.subscribe capacity))
    let tenure := after.takeWhile fun x => !x.frees slot
    ∃ b, (g.afterTurns after).inboxes[ticket]? = some b ∧
      drained ticket after g ++ lost slot ticket after g ++ b.queue =
        ((passes tenure g).filter fun p => !p.misses ticket capacity).map Pass.event ∧
      (passes tenure g).map Pass.event = sent tenure g ∧
      b.held = !after.any (·.drops slot ticket) ∧
      (b.held = true → lost slot ticket after g = []) ∧
      ((g.afterTurns after).drainInbox ticket).2 = (b.queue, !after.any (·.frees slot)) := by
  obtain ⟨hseated, hinbox⟩ :=
    seated_of_subscribed ((issued_create settings name).afterTurns before) h
  exact receives_of_seated hseated hinbox after

/-- A subscriber with room for one event that drains its inbox between two of three. -/
theorem subscription_receives_of_slow_subscriber :
    let server : Server := ⟨true, true⟩
    let g := (create .standard "ticks").turn (.request server (.subscribe 1))
    let after : List Turn :=
      [.request server (.send [49, 10, 50]), .drainInbox 0, .request server (.send [51]),
        .request server (.unsubscribe 0), .request server (.send [52])]
    ∃ b, (g.afterTurns after).inboxes[0]? = some b ∧
      drained 0 after g ++ lost 0 0 after g ++ b.queue = [.int 1, .int 3] ∧
      ((g.afterTurns after).drainInbox 0).2 = (b.queue, false) := by
  intro server g after
  obtain ⟨b, hb, hqueue, -, -, -, hopen⟩ :=
    subscription_receives .standard "ticks" [] after server 1
      (show _ = Reply.subscribed 0 _ from rfl)
  have hevents : ((passes [.request server (.send [49, 10, 50]), .drainInbox 0,
      .request server (.send [51])] g).filter fun p => !p.misses 0 1).map Pass.event =
      [.int 1, .int 3] := by
    simp only [passes, Turn.passes, turn, step, receive, readingsOf_eq]
    rfl
  exact ⟨b, hb, hqueue.trans hevents, hopen⟩

end LiveQuery.Feed
