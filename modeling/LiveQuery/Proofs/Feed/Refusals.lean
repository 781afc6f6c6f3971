import LiveQuery.Proofs.Feed.Slots
import LiveQuery.Proofs.Feed.Independence

/-!
# Subscribers that could not be served

A subscriber takes a slot before the feed dials. If the dial fails the slot is free again, but it
stays in the row: where all slots were taken, the row has one more than before. The number of slots
in the status tells this, and nothing else ever does. A feed and the same feed with one more free
slot behind the others (`Spared`) answer any turn alike apart from this number, and go on to feeds
of which the same is true: a subscriber either finds the same free slot in both, or takes the place
at the end, which is where the spare slot is.
-/

namespace LiveQuery.Feed

/-- The feed with one more free slot behind the others. -/
def extended (f : Feed) : Feed := { f with slots := f.slots ++ [none] }

/-- The second feed is the first one, with a free slot to spare or without. -/
inductive Spared (f : Feed) : Feed → Prop
  | same : Spared f f
  | spare : Spared f f.extended

/-- An answer without the number of slots. -/
def Reply.unsized : Reply → Reply
  | .status s => .status { s with slots := 0 }
  | r => r

def Answer.unsized (a : Answer) : Answer :=
  { a with reply := a.reply.unsized, status := { a.status with slots := 0 } }

/-! ### A free slot at the end -/

section Extended

variable (f : Feed)

theorem live_extended : f.extended.live = f.live := by simp [live, extended]

theorem status_extended : f.extended.status = { f.status with slots := f.slots.length + 1 } := by
  have hlength : f.extended.slots.length = f.slots.length + 1 := List.length_append
  rw [status, live_extended, hlength]
  rfl

theorem isLive_extended (ticket : Ticket) : f.extended.isLive ticket = f.isLive ticket := by
  rw [isLive, live_extended, isLive]

theorem holder_extended (slot : Nat) : f.extended.holder slot = f.holder slot := by
  have hset := holder_setSlot (Nat.le_refl f.slots.length) none slot
  have hextended : f.setSlot f.slots.length none = f.extended := by
    rw [setSlot, if_neg (Nat.lt_irrefl _), extended]
  rw [← hextended, hset]
  split
  · rename_i hslot
    rw [hslot, holder, List.getElem?_eq_none (Nat.le_refl _)]
    rfl
  · rfl

theorem freeSlot_extended : f.extended.freeSlot = f.freeSlot := by
  have hle := freeSlot_le f
  simp only [freeSlot, extended, List.findIdx_append] at hle ⊢
  split
  · rfl
  · have hnone : [none (α := Ticket)].findIdx (· == none) = 0 := rfl
    omega

theorem setSlot_extended_of_lt {slot : Nat} (h : slot < f.slots.length) (ticket : Option Ticket) :
    f.extended.setSlot slot ticket = (f.setSlot slot ticket).extended := by
  have hlt : slot < (f.slots ++ [none]).length := by
    rw [List.length_append]
    omega
  simp only [setSlot, extended, if_pos h, if_pos hlt, List.set_append_left _ _ h]

/-- At the end a slot is set in place of the free one. -/
theorem setSlot_extended_length (ticket : Option Ticket) :
    f.extended.setSlot f.slots.length ticket = f.setSlot f.slots.length ticket := by
  simp [setSlot, extended]

theorem take_extended (event : Json) : f.extended.take event = (f.take event).extended := by
  simp [take, deliver, isLive, live, extended]

theorem absorb_extended (found : List (Reading Json)) :
    absorb found f.extended = (absorb found f).extended ∧
      (absorbPasses found f.extended).map Pass.event = (absorbPasses found f).map Pass.event := by
  induction found generalizing f with
  | nil => exact ⟨rfl, rfl⟩
  | cons reading rest ih =>
    cases reading with
    | value event =>
      have hconnected : (f.take event).extended.connected = (f.take event).connected := rfl
      obtain ⟨hrest, hpasses⟩ := ih (f.take event)
      simp only [absorb, absorbPasses, take_extended, hconnected]
      split
      · exact ⟨hrest, congrArg (event :: ·) hpasses⟩
      · exact ⟨rfl, rfl⟩
    | undecodable => exact ih f
    | tooLong length limit => exact ih f

theorem unsubscribe_extended (slot : Nat) :
    f.extended.unsubscribe slot =
      ((f.unsubscribe slot).1.extended, (f.unsubscribe slot).2) := by
  rw [unsubscribe_eq, unsubscribe_eq, holder_extended]
  by_cases htaken : (f.holder slot).isSome
  · have hlt : slot < f.slots.length := by
      by_contra hout
      rw [holder, List.getElem?_eq_none (Nat.le_of_not_lt hout)] at htaken
      cases htaken
    simp only [htaken, if_true, extended, List.set_append_left _ _ hlt]
  · rw [if_neg htaken, if_neg htaken]

theorem connect_extended (server : Server) :
    f.extended.connect server =
      (f.connect server).map fun (g, opening) => (g.extended, opening) := by
  have hconnected : f.extended.connected = f.connected := rfl
  have hsettings : f.extended.settings = f.settings := rfl
  rw [connect, connect, hconnected, hsettings]
  split
  · rfl
  · cases server.dial f.settings.address <;> rfl

/-- With a slot free before the end, the spare one is left alone. -/
theorem subscribe_extended_of_lt (h : f.freeSlot < f.slots.length) (server : Server)
    (capacity : Nat) :
    f.extended.subscribe server capacity =
      ((f.subscribe server capacity).1.extended, (f.subscribe server capacity).2) := by
  have hroom : f.freeSlot < (f.setSlot f.freeSlot (some f.inboxes.length)).slots.length :=
    Nat.lt_of_lt_of_le h (length_le_setSlot f _ _)
  have hinboxes : f.extended.inboxes.length = f.inboxes.length := rfl
  simp only [subscribe, freeSlot_extended, hinboxes, setSlot_extended_of_lt f h, connect_extended]
  cases (f.setSlot f.freeSlot (some f.inboxes.length)).connect server with
  | ok connected => rfl
  | error e =>
    simp only [Except.map]
    rw [setSlot_extended_of_lt _ hroom]

/-- With no slot free before the end, the spare one is where the row would have grown. -/
theorem subscribe_extended_of_full (h : ¬ f.freeSlot < f.slots.length) (server : Server)
    (capacity : Nat) : f.extended.subscribe server capacity = f.subscribe server capacity := by
  have hend : f.freeSlot = f.slots.length := Nat.le_antisymm (freeSlot_le f) (Nat.not_lt.1 h)
  have hinboxes : f.extended.inboxes.length = f.inboxes.length := rfl
  simp only [subscribe, freeSlot_extended, hinboxes, hend, setSlot_extended_length]

end Extended

/-! ### Turns and runs -/

theorem Spared.status {f g : Feed} (h : Spared f g) :
    { g.status with slots := 0 } = { f.status with slots := 0 } := by
  cases h with
  | same => rfl
  | spare => rw [status_extended]

/-- Any lines do the same to a feed with a free slot to spare. -/
theorem lines_extended (f : Feed) (text : List UInt8) :
    (if f.extended.connected then absorb (f.extended.readingsOf text) f.extended
        else f.extended) =
        (if f.connected then absorb (f.readingsOf text) f else f).extended ∧
      (if f.extended.connected then absorbPasses (f.extended.readingsOf text) f.extended
        else []).map Pass.event =
        (if f.connected then absorbPasses (f.readingsOf text) f else []).map Pass.event := by
  have hconnected : f.extended.connected = f.connected := rfl
  have hreadings : f.extended.readingsOf text = f.readingsOf text := rfl
  rw [hconnected, hreadings]
  split
  · exact absorb_extended f (f.readingsOf text)
  · exact ⟨rfl, rfl⟩

theorem close_extended (f : Feed) (tail : List UInt8) :
    f.extended.close tail = (f.close tail).extended := by
  have hconnected : f.extended.connected = f.connected := rfl
  have hreadings : f.extended.readingsOf tail = f.readingsOf tail := rfl
  rw [close, close, hconnected, hreadings, (absorb_extended f _).1]
  split <;> rfl

/-- A turn does the same to a feed with a free slot to spare, and is answered alike. -/
theorem turn_extended (f : Feed) (x : Turn) :
    Spared (f.turn x) (f.extended.turn x) ∧
      (x.reply f.extended).unsized = (x.reply f).unsized ∧
      (x.passes f.extended).map Pass.event = (x.passes f).map Pass.event := by
  cases x with
  | drainInbox ticket =>
    refine ⟨.spare, ?_, rfl⟩
    simp only [Turn.reply, drainInbox, isLive_extended]
    rfl
  | dropInbox ticket => exact ⟨.spare, rfl, rfl⟩
  | request server r =>
    cases r with
    | subscribe capacity =>
      simp only [turn_subscribe, Turn.reply, step_subscribe]
      by_cases hfree : f.freeSlot < f.slots.length
      · rw [subscribe_extended_of_lt f hfree]
        exact ⟨.spare, rfl, rfl⟩
      · rw [subscribe_extended_of_full f hfree]
        exact ⟨.same, rfl, rfl⟩
    | unsubscribe slot =>
      simp only [turn, Turn.reply, step, unsubscribe_extended]
      rcases f.unsubscribe slot with ⟨g, result⟩
      cases result <;> exact ⟨.spare, rfl, rfl⟩
    | send data =>
      obtain ⟨hturn, hpasses⟩ := lines_extended f (data ++ [lineFeed])
      simp only [turn, Turn.reply, step, receive, Turn.passes]
      rw [hturn]
      exact ⟨.spare, rfl, hpasses⟩
    | close tail =>
      simp only [turn, Turn.reply, step, Turn.passes, close_extended]
      exact ⟨.spare, rfl, (lines_extended f tail).2⟩
    | drain slot =>
      have hticket : f.extended.ticketOf? slot = f.ticketOf? slot := rfl
      simp only [turn, Turn.reply, step, drain, hticket]
      cases f.ticketOf? slot with
      | none => exact ⟨.spare, rfl, rfl⟩
      | some ticket =>
        refine ⟨.spare, ?_, rfl⟩
        simp only [drainInbox, isLive_extended]
        rfl
    | dropInboxes slot => exact ⟨.spare, rfl, rfl⟩
    | lookup key => exact ⟨.spare, rfl, rfl⟩
    | status => exact ⟨.spare, congrArg Reply.status (Spared.spare (f := f)).status, rfl⟩
    | name => exact ⟨.spare, rfl, rfl⟩

theorem Spared.turn {f g : Feed} (h : Spared f g) (x : Turn) :
    Spared (f.turn x) (g.turn x) ∧ (x.answer g).unsized = (x.answer f).unsized := by
  cases h with
  | same => exact ⟨.same, rfl⟩
  | spare =>
    obtain ⟨hturn, hreply, hpasses⟩ := turn_extended f x
    refine ⟨hturn, ?_⟩
    simp only [Turn.answer, Answer.unsized, hreply, hpasses, hturn.status]

theorem Spared.answers {f g : Feed} (h : Spared f g) (turns : List Turn) :
    (Feed.answers turns g).map Answer.unsized = (Feed.answers turns f).map Answer.unsized := by
  induction turns generalizing f g with
  | nil => rfl
  | cons x turns ih =>
    obtain ⟨hturn, hanswer⟩ := h.turn x
    simp only [Feed.answers, List.map_cons, hanswer, ih hturn]

/-! ### A dial that fails -/

theorem dial_eq_error {server : Server} {address : String} {e : FeedError}
    (h : server.dial address = .error e) : ∃ cause, e = .connect address cause := by
  unfold Server.dial at h
  split at h
  · exact ⟨_, (Except.error.inj h).symm⟩
  · split at h
    · cases h
    · exact ⟨_, (Except.error.inj h).symm⟩

/-- The slot is taken and freed again, which takes nothing from the row. -/
theorem subscribe_of_dial_error {f : Feed} {server : Server} {e : FeedError} (capacity : Nat)
    (hidle : f.connected = false) (hdial : server.dial f.settings.address = .error e) :
    f.subscribe server capacity =
      (if f.live.length < f.slots.length then f else f.extended, .error e) := by
  have hconnect : (f.setSlot f.freeSlot (some f.inboxes.length)).connect server = .error e := by
    simp [connect, setSlot, hidle, hdial]
  simp only [subscribe, hconnect, ← freeSlot_lt_iff]
  congr 1
  split
  · rename_i hfree
    have hnone : f.slots[f.freeSlot] = none := beq_iff_eq.1 (List.findIdx_getElem (w := hfree))
    have hself : f.slots.set f.freeSlot none = f.slots := by
      rw [← hnone, List.set_getElem_self]
    simp only [setSlot, if_pos hfree, List.length_set, List.set_set, hself]
  · rename_i hfull
    have hend : f.freeSlot = f.slots.length := Nat.le_antisymm (freeSlot_le f) (Nat.not_lt.1 hfull)
    simp [setSlot, extended, hend]

/-- A subscriber without a connection whose dial fails is told so. The feed is then as before if a
slot had been free; otherwise one free slot has come to the end of its row. Nobody's slot changes,
the next subscriber would get the same one, and all that can ever be told of the difference is the
number of slots in a status. -/
theorem refused_subscriber_leaves_slot (f : Feed) {server : Server} {e : FeedError} (capacity : Nat)
    (hidle : f.connected = false) (hdial : server.dial f.settings.address = .error e) :
    let after := (f.step server (.subscribe capacity)).1
    (f.step server (.subscribe capacity)).2 = .failed e ∧
      (∃ cause, e = .connect f.settings.address cause) ∧
      after = { f with
        slots := if f.live.length < f.slots.length then f.slots else f.slots ++ [none] } ∧
      (after = f ↔ f.live.length < f.slots.length) ∧
      (∀ slot, after.holder slot = f.holder slot) ∧ after.freeSlot = f.freeSlot ∧
      after.status = { f.status with slots := max f.slots.length (f.live.length + 1) } ∧
      ∀ turns, (answers turns after).map Answer.unsized = (answers turns f).map Answer.unsized := by
  intro after
  have hstep : f.step server (.subscribe capacity) =
      (if f.live.length < f.slots.length then f else f.extended, .failed e) := by
    rw [step_subscribe, subscribe_of_dial_error capacity hidle hdial]
  have hafter : after = if f.live.length < f.slots.length then f else f.extended :=
    congrArg Prod.fst hstep
  have hlive := length_live_le f
  refine ⟨congrArg Prod.snd hstep, dial_eq_error hdial, ?_⟩
  rw [hafter]
  by_cases hfree : f.live.length < f.slots.length
  · have hmax : max f.slots.length (f.live.length + 1) = f.slots.length := by omega
    rw [if_pos hfree, if_pos hfree, hmax]
    exact ⟨rfl, iff_of_true rfl hfree, fun _ => rfl, rfl, rfl, fun _ => rfl⟩
  · have hmax : max f.slots.length (f.live.length + 1) = f.slots.length + 1 := by omega
    have hne : f.extended ≠ f := fun heq => by
      have hlength := congrArg (·.slots.length) heq
      simp [extended] at hlength
    rw [if_neg hfree, if_neg hfree, hmax]
    exact ⟨rfl, iff_of_false hne hfree, holder_extended f, freeSlot_extended f, status_extended f,
      Spared.spare.answers⟩

/-- The slot of the first subscriber who is refused is there for the second one. -/
theorem refused_subscriber_leaves_slot_of_second :
    let down : Server := ⟨true, false⟩
    let f := (create .standard "ticks").afterTurns [.request down (.subscribe 1)]
    let e : FeedError := .connect "127.0.0.1:7070" "Connection refused (os error 111)"
    f.connected = false ∧ down.dial f.settings.address = .error e ∧
      (f.step down (.subscribe 4)).1 = f ∧ (f.step down (.subscribe 4)).2 = .failed e := by
  intro down f e
  have hidle : f.connected = false := rfl
  have haddress : f.settings.address = "127.0.0.1:7070" := rfl
  have hdown : down.dial "127.0.0.1:7070" = .error e := rfl
  have hdial : down.dial f.settings.address = .error e := by rw [haddress, hdown]
  obtain ⟨hreply, -, -, hsame, -⟩ := refused_subscriber_leaves_slot f 4 hidle hdial
  exact ⟨hidle, hdial, hsame.2 (by decide), hreply⟩

/-- The row of a feed that had no slot has one after its first subscriber was refused. -/
theorem first_refused_subscriber_adds_slot :
    let down : Server := ⟨true, false⟩
    let f := create .standard "ticks"
    let e : FeedError := .connect "127.0.0.1:7070" "Connection refused (os error 111)"
    f.connected = false ∧ down.dial f.settings.address = .error e ∧
      (f.step down (.subscribe 4)).2 = .failed e ∧
      f.status = ⟨false, 0, 0, 0⟩ ∧ (f.step down (.subscribe 4)).1.status = ⟨false, 0, 1, 0⟩ :=
  ⟨rfl, rfl, rfl, rfl, rfl⟩

end LiveQuery.Feed
