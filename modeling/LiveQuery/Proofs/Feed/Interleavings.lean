import LiveQuery.Proofs.Feed.Slots
import LiveQuery.Proofs.Feed.Teardown

/-!
# Runs as interleavings

What a feed does in turns, each carried out to its end, is what its tasks do in some interleaving:
`Tasks.leads_afterTurns`.
-/

namespace LiveQuery.Feed

theorem any_isSome_slots (f : Feed) : f.slots.any Option.isSome = !f.live.isEmpty := by
  rw [Bool.eq_iff_iff, List.any_eq_true, Bool.not_eq_true', List.isEmpty_eq_false_iff_exists_mem]
  constructor
  · rintro ⟨slot, hslot, htaken⟩
    obtain ⟨ticket, rfl⟩ := Option.isSome_iff_exists.1 htaken
    exact ⟨ticket, List.mem_filterMap.2 ⟨some ticket, hslot, rfl⟩⟩
  · rintro ⟨ticket, hticket⟩
    obtain ⟨slot, hslot, rfl⟩ := List.mem_filterMap.1 hticket
    exact ⟨some ticket, hslot, rfl⟩

/-- The inboxes when those of a slot among the first tickets are given up. -/
def droppedTo (slot : Nat) (f : Feed) (n : Nat) : List Inbox :=
  f.inboxes.mapIdx fun i b => if i < n ∧ b.slot = slot then b.drop else b

section Dropped

variable (slot : Nat) (f : Feed)

theorem getElem?_droppedTo (n i : Nat) : (f.droppedTo slot n)[i]? =
    f.inboxes[i]?.map fun b => if i < n ∧ b.slot = slot then b.drop else b :=
  List.getElem?_mapIdx

theorem droppedTo_zero : f.droppedTo slot 0 = f.inboxes := by
  apply List.ext_getElem?
  intro i
  simp [getElem?_droppedTo]

theorem droppedTo_length : f.droppedTo slot f.inboxes.length = (f.dropInboxes slot).inboxes := by
  apply List.ext_getElem?
  intro i
  rw [getElem?_droppedTo, dropInboxes, List.getElem?_map]
  by_cases hi : i < f.inboxes.length
  · simp [hi]
  · rw [List.getElem?_eq_none (by omega)]
    rfl

theorem droppedTo_succ (n : Nat) : f.droppedTo slot (n + 1) = f.droppedTo slot n ∨
    f.droppedTo slot (n + 1) = (f.droppedTo slot n).modify n Inbox.drop := by
  by_cases hslot : ∃ b, f.inboxes[n]? = some b ∧ b.slot = slot
  · right
    obtain ⟨b, hb, hslot⟩ := hslot
    apply List.ext_getElem?
    intro i
    rw [List.getElem?_modify, getElem?_droppedTo, getElem?_droppedTo]
    by_cases hi : n = i
    · subst hi
      simp [hb, hslot]
    · have hiff : i < n + 1 ↔ i < n := by omega
      simp [hi, hiff]
  · left
    apply List.ext_getElem?
    intro i
    rw [getElem?_droppedTo, getElem?_droppedTo]
    apply Option.map_congr
    intro b hb
    apply if_congr _ rfl rfl
    have hne : b.slot = slot → i ≠ n := fun hb' heq => hslot ⟨b, heq ▸ hb, hb'⟩
    omega

end Dropped

namespace Tasks

/-- Some interleaving leads from here to there. -/
def Leads (t u : Tasks) : Prop := ∃ moves, t.after moves = some u

theorem Leads.refl (t : Tasks) : Leads t t := ⟨[], rfl⟩

theorem Leads.trans {t u v : Tasks} (first : Leads t u) (second : Leads u v) : Leads t v := by
  obtain ⟨moves, hfirst⟩ := first
  obtain ⟨further, hsecond⟩ := second
  refine ⟨moves ++ further, ?_⟩
  show (moves ++ further).foldlM next t = some v
  rw [List.foldlM_append]
  show (t.after moves).bind (after further) = some v
  rw [hfirst]
  exact hsecond

theorem Leads.move {t u : Tasks} (m : Move) (h : t.next m = some u) : Leads t u := by
  refine ⟨[m], ?_⟩
  show t.next m >>= some = some u
  rw [h]
  rfl

/-! ### Requests -/

theorem leads_subscribe (server : Server) (capacity : Nat) (f : Feed) :
    Leads (ofFeed f) (ofFeed (f.subscribe server capacity).1) := by
  obtain ⟨name, settings, slots, inboxes, connected, connects, cache⟩ := f
  cases connected with
  | true => exact ⟨[.place capacity, .ensure], rfl⟩
  | false =>
    cases hdial : server.dial settings.address with
    | ok _ =>
      refine ⟨[.place capacity, .ensure, .dial true], ?_⟩
      simp only [subscribe, connect, setSlot, hdial]
      rfl
    | error e =>
      refine ⟨[.place capacity, .ensure, .dial false], ?_⟩
      simp only [subscribe, connect, setSlot, hdial, after, List.foldlM_cons, next, ofFeed, place,
        publish, giveUp]
      simp

theorem leads_unsubscribe (slot : Nat) (f : Feed) :
    Leads (ofFeed f) (ofFeed (f.unsubscribe slot).1) := by
  by_cases htaken : (f.holder slot).isSome
  · have hresult := unsubscribe_eq slot f
    rw [if_pos htaken] at hresult
    apply Leads.move (.dismiss slot)
    simp only [next, ofFeed, hresult]
    rfl
  · have hresult := unsubscribe_eq slot f
    rw [if_neg htaken] at hresult
    rw [hresult]
    exact .refl _

/-! ### Events -/

/-- A streamer that leaves comes to its end, and is not missed if its reason still holds. -/
theorem leads_leave (f : Feed) {exit : Exit} (h : exit = .noSubscribers → f.live = []) :
    Leads ⟨f, f.slots, some (.leaving exit), .waiting, 1⟩ (ofFeed { f with connected := false }) := by
  have hstays : ¬(exit = .noSubscribers ∧ f.live ≠ []) := fun hleft => hleft.2 (h hleft.1)
  have finished : Leads ⟨f, f.slots, some (.leaving exit), .waiting, 1⟩
      ⟨{ f with connected := false }, f.slots, some (.ended exit), .waiting, 0⟩ :=
    ⟨[.close, .finish], rfl⟩
  refine finished.trans (.move .notice ?_)
  show some (Tasks.mk { f with connected := false } f.slots none
    (if exit = .noSubscribers ∧ f.live ≠ [] then .dialing none else .waiting) 0) = _
  rw [if_neg hstays]
  rfl

theorem leads_take (event : Json) {f : Feed} (h : f.connected = true) :
    Leads (ofFeed f) (ofFeed (f.take event)) := by
  have hlive : f.slots.any Option.isSome = !f.live.isEmpty := any_isSome_slots f
  have htake : f.take event = { (f.remember event).deliverTo f.slots event with
      connected := !f.live.isEmpty } := by
    show { (f.remember event).deliverTo f.slots event with
      connected := f.connected && !f.live.isEmpty } = _
    rw [h, Bool.true_and]
  have hstart : ofFeed f = ⟨f, f.slots, some .reading, .waiting, 1⟩ := by
    rw [ofFeed, h]
    rfl
  have delivered : Leads (ofFeed f) ⟨(f.remember event).deliverTo f.slots event, f.slots,
      some (if !f.live.isEmpty then .reading else .leaving .noSubscribers), .waiting, 1⟩ := by
    rw [hstart, ← hlive]
    exact ⟨[.decode event, .look, .deliver], rfl⟩
  refine delivered.trans ?_
  rw [htake]
  cases hempty : f.live.isEmpty with
  | false =>
    have hsame : { (f.remember event).deliverTo f.slots event with connected := true } =
        (f.remember event).deliverTo f.slots event := by
      rw [← h]
      rfl
    show Leads _ (ofFeed { (f.remember event).deliverTo f.slots event with connected := true })
    rw [hsame]
    have hconnected : ((f.remember event).deliverTo f.slots event).connected = true := h
    rw [ofFeed, hconnected]
    exact .refl _
  | true =>
    have hnil : f.live = [] := List.isEmpty_iff.1 hempty
    exact leads_leave ((f.remember event).deliverTo f.slots event) fun _ => hnil

theorem leads_absorb (found : List (Reading Json)) {f : Feed} (h : f.connected = true) :
    Leads (ofFeed f) (ofFeed (absorb found f)) := by
  induction found generalizing f with
  | nil => exact .refl _
  | cons reading rest ih =>
    cases reading with
    | value event =>
      have htake := leads_take event h
      rw [absorb]
      split
      · rename_i hconnected
        exact htake.trans (ih hconnected)
      · exact htake
    | undecodable => exact ih h
    | tooLong length limit => exact ih h

theorem leads_hangUp (f : Feed) : Leads (ofFeed f) (ofFeed { f with connected := false }) := by
  obtain ⟨name, settings, slots, inboxes, connected, connects, cache⟩ := f
  cases connected with
  | false => exact .refl _
  | true => exact (Leads.move .hangUp rfl).trans (leads_leave _ nofun)

/-! ### Inboxes -/

theorem leads_drainInbox (ticket : Ticket) (f : Feed) :
    Leads (ofFeed f) (ofFeed (f.drainInbox ticket).1) := .move (.drainInbox ticket) rfl

theorem leads_dropInbox (ticket : Ticket) (f : Feed) :
    Leads (ofFeed f) (ofFeed (f.dropInbox ticket)) := .move (.dropInbox ticket) rfl

/-- The inboxes of a slot are given up one after the other. -/
theorem leads_dropInboxes (slot : Nat) (f : Feed) :
    Leads (ofFeed f) (ofFeed (f.dropInboxes slot)) := by
  have dropped : ∀ n, Leads (ofFeed f) (ofFeed { f with inboxes := f.droppedTo slot n }) := by
    intro n
    induction n with
    | zero =>
      rw [droppedTo_zero]
      exact .refl _
    | succ n ih =>
      refine ih.trans ?_
      rcases droppedTo_succ slot f n with hsame | hdrop
      · rw [hsame]
        exact .refl _
      · rw [hdrop]
        exact leads_dropInbox n { f with inboxes := f.droppedTo slot n }
  have hall := dropped f.inboxes.length
  rw [droppedTo_length] at hall
  exact hall

theorem leads_turn (x : Turn) (f : Feed) : Leads (ofFeed f) (ofFeed (f.turn x)) := by
  cases x with
  | drainInbox ticket => exact leads_drainInbox ticket f
  | dropInbox ticket => exact leads_dropInbox ticket f
  | request server r =>
    cases r with
    | subscribe capacity =>
      rw [turn_subscribe]
      exact leads_subscribe server capacity f
    | unsubscribe slot =>
      rw [turn_unsubscribe]
      exact leads_unsubscribe slot f
    | send data =>
      show Leads (ofFeed f) (ofFeed (f.receive data))
      unfold receive
      split
      · rename_i hconnected
        exact leads_absorb _ hconnected
      · exact .refl _
    | close tail =>
      show Leads (ofFeed f) (ofFeed (f.close tail))
      unfold close
      split
      · rename_i hconnected
        exact (leads_absorb _ hconnected).trans (leads_hangUp _)
      · exact .refl _
    | drain slot =>
      rw [turn_drain]
      cases f.ticketOf? slot with
      | none => exact .refl _
      | some ticket => exact leads_drainInbox ticket f
    | dropInboxes slot => exact leads_dropInboxes slot f
    | lookup key | status | name => exact .refl _

/-- What a feed does in turns its tasks do in some interleaving. -/
theorem leads_afterTurns (turns : List Turn) (f : Feed) :
    Leads (ofFeed f) (ofFeed (f.afterTurns turns)) := by
  induction turns generalizing f with
  | nil => exact .refl _
  | cons x rest ih => exact (leads_turn x f).trans (ih (f.turn x))

end Tasks

end LiveQuery.Feed
