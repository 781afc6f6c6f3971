import LiveQuery.Proofs.Feed.Run

/-!
# The connections of a feed

A `Connection` is what an observer notes of a connection: the line that opened it, the deliveries
made on it, and how it ended. The ledger of a run is kept from replies, deliveries and what the
server does, without a look at the feed's own account, and the two agree: the feed is streaming
exactly while a connection of its ledger is open, and there is never a second one. A connection ends
when the server closes it or when a delivery finds no slot taken, so a feed with a taken slot that
is not streaming has lost its connection to the server.
-/

namespace LiveQuery.Feed

/-! ### The ledger of a run -/

/-- How a connection ended. -/
inductive Ending where
  /-- The server closed it. -/
  | closed
  /-- An event was decoded while no slot was taken. -/
  | unwatched
deriving DecidableEq

structure Connection where
  /-- The line that was sent when it was opened. -/
  opening : String
  /-- The deliveries of the events that were decoded from it. -/
  deliveries : List Pass
  ending : Option Ending

def Connection.isOpen (c : Connection) : Bool := c.ending.isNone

/-- A delivery that found no slot taken. -/
def Pass.isUnwatched (p : Pass) : Bool := p.feed.live.isEmpty

def Turn.closes : Turn → Bool
  | .request _ (.close _) => true
  | _ => false

/-- The line with which a connection is opened in a turn, as the reply tells. -/
def Turn.opening? (f : Feed) : Turn → Option String
  | .request server r =>
    match (f.step server r).2 with
    | .subscribed _ opening => opening
    | _ => none
  | _ => none

def Connection.after (f : Feed) (x : Turn) (c : Connection) : Connection :=
  if c.isOpen then
    { c with
      deliveries := c.deliveries ++ x.passes f
      ending :=
        if (x.passes f).any Pass.isUnwatched then some .unwatched
        else if x.closes then some .closed
        else none }
  else c

/-- The connections after a turn, in the order in which they were opened. -/
def noted (f : Feed) (x : Turn) (ledger : List Connection) : List Connection :=
  ledger.map (·.after f x) ++ (x.opening? f).toList.map fun line => ⟨line, [], none⟩

/-- The connections after a run that began with these. -/
def ledgerFrom (ledger : List Connection) : List Turn → Feed → List Connection
  | [], _ => ledger
  | x :: turns, f => ledgerFrom (noted f x ledger) turns (f.turn x)

/-- What the server answers to the dial of a turn, if the feed dials. -/
def Turn.dial? (f : Feed) : Turn → Option (Except FeedError Unit)
  | .request server (.subscribe _) =>
    if f.connected then none else some (server.dial f.settings.address)
  | _ => none

def dials : List Turn → Feed → List (Except FeedError Unit)
  | [], _ => []
  | x :: turns, f => (x.dial? f).toList ++ dials turns (f.turn x)

/-! ### Dialling -/

/-- The line that opened a connection for a subscriber. -/
def openingOf : Except FeedError (Nat × Option String) → Option String
  | .ok (_, opening) => opening
  | .error _ => none

/-- The answer to a subscriber: the next free slot, unless a dial fails. -/
def subscribeAnswer (f : Feed) : Option (Except FeedError Unit) →
    Except FeedError (Nat × Option String)
  | none => .ok (f.freeSlot, none)
  | some (.ok _) => .ok (f.freeSlot, some (f.name ++ "\n"))
  | some (.error e) => .error e

/-- A subscriber makes the feed dial if there is no connection, and the answer to the dial decides. -/
theorem subscribe_eq (f : Feed) (server : Server) (capacity : Nat) :
    let answer := (Turn.request server (.subscribe capacity)).dial? f
    ∃ g, f.subscribe server capacity = (g, f.subscribeAnswer answer) ∧ g.name = f.name ∧
      g.connected = (f.connected || answer.any Except.isOk) ∧
      g.connects = f.connects + if answer.any Except.isOk then 1 else 0 := by
  cases hconnected : f.connected with
  | true =>
    have hconnect : (f.setSlot f.freeSlot (some f.inboxes.length)).connect server =
        .ok (f.setSlot f.freeSlot (some f.inboxes.length), none) := if_pos hconnected
    simp only [Turn.dial?, subscribe, hconnect, hconnected, if_true]
    exact ⟨_, rfl, rfl, hconnected, rfl⟩
  | false =>
    have hidle : ¬ (f.setSlot f.freeSlot (some f.inboxes.length)).connected = true := by
      rw [Bool.not_eq_true]
      exact hconnected
    have haddress : (f.setSlot f.freeSlot (some f.inboxes.length)).settings.address =
      f.settings.address := rfl
    simp only [Turn.dial?, subscribe, connect, if_neg hidle, haddress, hconnected,
      Bool.false_eq_true, if_false]
    cases server.dial f.settings.address with
    | ok _ => exact ⟨_, rfl, rfl, rfl, rfl⟩
    | error e => exact ⟨_, rfl, rfl, hconnected, rfl⟩

theorem step_subscribe (f : Feed) (server : Server) (capacity : Nat) :
    f.step server (.subscribe capacity) = ((f.subscribe server capacity).1,
      match (f.subscribe server capacity).2 with
      | .ok (slot, opening) => .subscribed slot opening
      | .error e => .failed e) := by
  simp only [step]
  rcases f.subscribe server capacity with ⟨g, result⟩
  cases result <;> rfl

theorem opening?_subscribe (f : Feed) (server : Server) (capacity : Nat) :
    (Turn.request server (.subscribe capacity)).opening? f =
      openingOf (f.subscribe server capacity).2 := by
  simp only [Turn.opening?, step_subscribe]
  cases (f.subscribe server capacity).2 <;> rfl

theorem openingOf_subscribeAnswer (f : Feed) (answer : Option (Except FeedError Unit)) :
    openingOf (f.subscribeAnswer answer) =
      if answer.any Except.isOk then some (f.name ++ "\n") else none := by
  rcases answer with _ | answer
  · rfl
  · cases answer <;> rfl

/-! ### One turn -/

theorem connected_take (f : Feed) (event : Json) :
    (f.take event).connected = (f.connected && !f.live.isEmpty) := rfl

/-- A connection outlives what arrives on it, unless an event finds no slot taken. -/
theorem connected_absorb (found : List (Reading Json)) {f : Feed} (h : f.connected = true) :
    (absorb found f).connected = !(absorbPasses found f).any Pass.isUnwatched := by
  induction found generalizing f with
  | nil => exact h
  | cons reading rest ih =>
    cases reading with
    | value event =>
      simp only [absorb, absorbPasses, List.any_cons, Pass.isUnwatched]
      have htake := connected_take f event
      rw [h, Bool.true_and] at htake
      cases hlive : f.live.isEmpty with
      | true => simp [htake, hlive]
      | false =>
        have hstays : (f.take event).connected = true := by simp [htake, hlive]
        rw [if_pos hstays, if_pos hstays, Bool.false_or]
        exact ih hstays
    | undecodable => exact ih h
    | tooLong length limit => exact ih h

theorem live_of_mem_absorbPasses {found : List (Reading Json)} {f : Feed} {p : Pass}
    (h : p ∈ absorbPasses found f) : p.feed.live = f.live := by
  induction found generalizing f with
  | nil => cases h
  | cons reading rest ih =>
    cases reading with
    | value event =>
      rcases List.mem_cons.1 h with rfl | h
      · rfl
      · split at h
        · have hrest : p.feed.live = (f.take event).live := ih h
          exact hrest
        · cases h
    | undecodable => exact ih h
    | tooLong length limit => exact ih h

/-- Without a slot taken there is one delivery at most. -/
theorem absorbPasses_of_unwatched (found : List (Reading Json)) {f : Feed} (h : f.live = []) :
    absorbPasses found f = (eventsOf found).head?.toList.map fun event => ⟨f, event⟩ := by
  induction found with
  | nil => rfl
  | cons reading rest ih =>
    cases reading with
    | value event =>
      have hends : ¬ (f.take event).connected = true := by simp [connected_take, h]
      rw [absorbPasses, if_neg hends]
      rfl
    | undecodable => exact ih
    | tooLong length limit => exact ih

theorem live_of_mem_passes {x : Turn} {f : Feed} {p : Pass} (h : p ∈ x.passes f) :
    p.feed.live = f.live := by
  unfold Turn.passes at h
  split at h
  · split at h
    · exact live_of_mem_absorbPasses h
    · cases h
  · split at h
    · exact live_of_mem_absorbPasses h
    · cases h
  · cases h

theorem passes_of_idle {f : Feed} (h : f.connected = false) (x : Turn) : x.passes f = [] := by
  unfold Turn.passes
  simp only [h, Bool.false_eq_true, if_false]
  split <;> rfl

/-- What a turn does to the connection, by what can be seen of it. -/
structure TurnLaw (f : Feed) (x : Turn) : Prop where
  connected : (f.turn x).connected =
    (f.connected && !(x.passes f).any Pass.isUnwatched && !x.closes || (x.opening? f).isSome)
  connects : (f.turn x).connects = f.connects + (x.opening? f).toList.length
  name : (f.turn x).name = f.name
  /-- A connection is opened by a dial that succeeds, with the name of the feed. -/
  opening : x.opening? f =
    if (x.dial? f).any Except.isOk then some (f.name ++ "\n") else none

theorem TurnLaw.of_same {f : Feed} {x : Turn} (hconnected : (f.turn x).connected = f.connected)
    (hconnects : (f.turn x).connects = f.connects) (hname : (f.turn x).name = f.name)
    (hpasses : x.passes f = []) (hcloses : x.closes = false) (hopening : x.opening? f = none)
    (hdial : x.dial? f = none) : TurnLaw f x where
  connected := by simp [hconnected, hpasses, hcloses, hopening]
  connects := by simp [hconnects, hopening]
  name := hname
  opening := by simp [hopening, hdial]

theorem turnLaw_subscribe (f : Feed) (server : Server) (capacity : Nat) :
    TurnLaw f (.request server (.subscribe capacity)) := by
  obtain ⟨g, hg, hname, hconnected, hconnects⟩ := subscribe_eq f server capacity
  have hturn : f.turn (.request server (.subscribe capacity)) = g := by
    rw [turn_subscribe, hg]
  have hopening := opening?_subscribe f server capacity
  rw [hg, openingOf_subscribeAnswer] at hopening
  refine ⟨?_, ?_, by rw [hturn, hname], hopening⟩
  · rw [hturn, hconnected, hopening]
    simp only [Turn.passes, Turn.closes, List.any_nil, Bool.not_false, Bool.and_true]
    split <;> simp_all
  · rw [hturn, hconnects, hopening]
    split <;> rfl

theorem turnLaw_unsubscribe (f : Feed) (server : Server) (slot : Nat) :
    TurnLaw f (.request server (.unsubscribe slot)) := by
  have hopening : (Turn.request server (.unsubscribe slot)).opening? f = none := by
    simp only [Turn.opening?, step]
    rcases f.unsubscribe slot with ⟨g, result⟩
    cases result <;> rfl
  have hturn := turn_unsubscribe server slot f
  unfold unsubscribe at hturn
  refine .of_same ?_ ?_ ?_ rfl rfl hopening rfl <;> rw [hturn] <;> split <;> rfl

theorem turnLaw_drain (f : Feed) (server : Server) (slot : Nat) :
    TurnLaw f (.request server (.drain slot)) := by
  have hturn := turn_drain server slot f
  refine .of_same ?_ ?_ ?_ rfl rfl rfl rfl <;> rw [hturn] <;> cases f.ticketOf? slot <;> rfl

theorem connects_absorb (found : List (Reading Json)) (f : Feed) :
    (absorb found f).connects = f.connects :=
  absorb_preserves (motive := fun g => g.connects = f.connects) (fun _ _ h => h) found rfl

theorem name_absorb (found : List (Reading Json)) (f : Feed) : (absorb found f).name = f.name :=
  absorb_preserves (motive := fun g => g.name = f.name) (fun _ _ h => h) found rfl

theorem turnLaw_send (f : Feed) (server : Server) (data : List UInt8) :
    TurnLaw f (.request server (.send data)) := by
  cases hconnected : f.connected with
  | false =>
    have hturn : f.turn (.request server (.send data)) = f := by
      simp only [turn, step, receive, hconnected, Bool.false_eq_true, if_false]
    exact .of_same (by rw [hturn]) (by rw [hturn]) (by rw [hturn]) (passes_of_idle hconnected _) rfl
      rfl rfl
  | true =>
    have hturn : f.turn (.request server (.send data)) =
        absorb (f.readingsOf (data ++ [lineFeed])) f := by
      simp only [turn, step, receive, hconnected, if_true]
    have hpasses : (Turn.request server (.send data)).passes f =
        absorbPasses (f.readingsOf (data ++ [lineFeed])) f := by
      simp only [Turn.passes, hconnected, if_true]
    refine ⟨?_, ?_, ?_, rfl⟩
    · rw [hturn, hpasses, connected_absorb _ hconnected, hconnected]
      simp [Turn.closes, Turn.opening?, step]
    · rw [hturn, connects_absorb]
      rfl
    · rw [hturn, name_absorb]

theorem turnLaw_close (f : Feed) (server : Server) (tail : List UInt8) :
    TurnLaw f (.request server (.close tail)) := by
  have hclosed : (f.turn (.request server (.close tail))).connected = false := by
    simp only [turn, step, close]
    split
    · rfl
    · simpa using ‹¬ f.connected = true›
  refine ⟨?_, ?_, ?_, rfl⟩
  · rw [hclosed]
    simp [Turn.closes, Turn.opening?, step]
  · simp only [turn, step, close]
    split
    · exact connects_absorb _ f
    · rfl
  · simp only [turn, step, close]
    split
    · exact name_absorb _ f
    · rfl

theorem turnLaw (f : Feed) (x : Turn) : TurnLaw f x := by
  cases x with
  | drainInbox ticket => exact .of_same rfl rfl rfl rfl rfl rfl rfl
  | dropInbox ticket => exact .of_same rfl rfl rfl rfl rfl rfl rfl
  | request server r =>
    cases r with
    | subscribe capacity => exact turnLaw_subscribe f server capacity
    | unsubscribe slot => exact turnLaw_unsubscribe f server slot
    | send data => exact turnLaw_send f server data
    | close tail => exact turnLaw_close f server tail
    | drain slot => exact turnLaw_drain f server slot
    | dropInboxes slot => exact .of_same rfl rfl rfl rfl rfl rfl rfl
    | lookup key => exact .of_same rfl rfl rfl rfl rfl rfl rfl
    | status => exact .of_same rfl rfl rfl rfl rfl rfl rfl
    | name => exact .of_same rfl rfl rfl rfl rfl rfl rfl

/-! ### Taken slots -/

/-- Whether a turn asks for a slot or frees one. -/
def Turn.seats : Turn → Bool
  | .request _ (.subscribe _) | .request _ (.unsubscribe _) => true
  | _ => false

/-- Nothing else touches the slots, whatever becomes of the inboxes. -/
theorem slots_turn {x : Turn} (h : x.seats = false) (f : Feed) : (f.turn x).slots = f.slots := by
  cases x with
  | drainInbox ticket => rfl
  | dropInbox ticket => rfl
  | request server r =>
    cases r with
    | subscribe capacity => cases h
    | unsubscribe slot => cases h
    | send data =>
      simp only [turn, step, receive]
      split
      · exact slots_absorb _ f
      · rfl
    | close tail =>
      simp only [turn, step, close]
      split
      · exact slots_absorb _ f
      · rfl
    | drain slot =>
      rw [turn_drain]
      cases f.ticketOf? slot <;> rfl
    | _ => rfl

theorem seats_of_passes {x : Turn} {f : Feed} {p : Pass} (h : p ∈ x.passes f) :
    x.seats = false := by
  cases x with
  | request server r => cases r <;> first | rfl | cases h
  | _ => rfl

theorem live_ne_nil_iff {f : Feed} : f.live ≠ [] ↔ ∃ slot ticket, f.holder slot = some ticket := by
  constructor
  · intro h
    obtain ⟨ticket, hticket⟩ := List.exists_mem_of_ne_nil _ h
    obtain ⟨slot, hslot⟩ := isLive_iff.1 (List.contains_iff_mem.2 hticket)
    exact ⟨slot, ticket, hslot⟩
  · rintro ⟨slot, ticket, hslot⟩
    exact List.ne_nil_of_mem (List.contains_iff_mem.1 (isLive_iff.2 ⟨slot, hslot⟩))

/-- A slot that is taken while there is no connection was so before. -/
theorem live_of_idle_turn {f : Feed} {x : Turn} (hidle : f.connected = false)
    (hidle' : (f.turn x).connected = false) (h : (f.turn x).live ≠ []) : f.live ≠ [] := by
  rw [live_ne_nil_iff] at h ⊢
  obtain ⟨slot, ticket, hslot⟩ := h
  cases hseats : x.seats with
  | false =>
    rw [holder, slots_turn hseats] at hslot
    exact ⟨slot, ticket, hslot⟩
  | true =>
    cases x with
    | request server r =>
      cases r with
      | subscribe capacity =>
        rw [turn_subscribe] at hslot hidle'
        rcases subscribe_cases server capacity f with
          ⟨g, opening, hg, -, -⟩ | ⟨g, e, hg, -, hholder⟩
        · -- Without a connection a slot is given out only if a dial succeeds.
          obtain ⟨g', hg', -, hconnected, -⟩ := subscribe_eq f server capacity
          rw [hg', hconnected, hidle, Bool.false_or] at hidle'
          rw [hg] at hg'
          have hanswer := (Prod.mk.inj hg').2
          simp only [Turn.dial?, hidle, Bool.false_eq_true, if_false] at hanswer hidle'
          cases hdial : server.dial f.settings.address <;>
            simp [hdial, subscribeAnswer, Except.isOk, Except.toBool] at hanswer hidle'
        · rw [hg] at hslot
          exact ⟨slot, ticket, (hholder slot).symm.trans hslot⟩
      | unsubscribe freed =>
        rw [turn_unsubscribe, holder_unsubscribe] at hslot
        split at hslot
        · cases hslot
        · exact ⟨slot, ticket, hslot⟩
      | _ => cases hseats
    | _ => cases hseats

/-! ### The ledger agrees with the feed -/

/-- Every delivery on a connection found a slot taken, but for the one that ended it. -/
structure Connection.Sound (c : Connection) : Prop where
  watched (h : c.ending ≠ some .unwatched) : ∀ p ∈ c.deliveries, p.feed.live ≠ []
  unwatched (h : c.ending = some .unwatched) : ∃ earlier last, c.deliveries = earlier ++ [last] ∧
    last.feed.live = [] ∧ ∀ p ∈ earlier, p.feed.live ≠ []

/-- A slot that is taken is taken for all deliveries of a turn. -/
theorem watched_passes {f : Feed} (h : f.live ≠ []) (x : Turn) :
    (x.passes f).any Pass.isUnwatched = false ∧ ∀ p ∈ x.passes f, p.feed.live ≠ [] := by
  have hlive : ∀ p ∈ x.passes f, p.feed.live ≠ [] := fun p hp => by
    rw [live_of_mem_passes hp]
    exact h
  refine ⟨?_, hlive⟩
  rw [List.any_eq_false]
  intro p hp
  simpa [Pass.isUnwatched] using hlive p hp

theorem unwatched_passes {f : Feed} (h : f.live = []) (x : Turn) :
    x.passes f = [] ∨ ∃ p, x.passes f = [p] ∧ p.feed.live = [] := by
  have hone : ∀ found, absorbPasses found f = [] ∨
      ∃ p, absorbPasses found f = [p] ∧ p.feed.live = [] := fun found => by
    rw [absorbPasses_of_unwatched found h]
    cases (eventsOf found).head? with
    | none => exact .inl rfl
    | some event => exact .inr ⟨⟨f, event⟩, rfl, h⟩
  unfold Turn.passes
  split
  · split
    · exact hone _
    · exact .inl rfl
  · split
    · exact hone _
    · exact .inl rfl
  · exact .inl rfl

theorem Connection.after_of_not_isOpen {c : Connection} (h : c.isOpen = false) (f : Feed)
    (x : Turn) : c.after f x = c := by
  simp only [Connection.after, h, Bool.false_eq_true, if_false]

theorem Connection.after_of_isOpen {c : Connection} (h : c.isOpen = true) (f : Feed) (x : Turn) :
    c.after f x =
      { c with
        deliveries := c.deliveries ++ x.passes f
        ending :=
          if (x.passes f).any Pass.isUnwatched then some .unwatched
          else if x.closes then some .closed
          else none } :=
  if_pos h

theorem Connection.isOpen_after {c : Connection} (h : c.isOpen = true) (f : Feed) (x : Turn) :
    (c.after f x).isOpen = (!(x.passes f).any Pass.isUnwatched && !x.closes) := by
  rw [Connection.after_of_isOpen h]
  cases (x.passes f).any Pass.isUnwatched <;> cases x.closes <;> rfl

theorem Connection.opening_after (c : Connection) (f : Feed) (x : Turn) :
    (c.after f x).opening = c.opening := by
  unfold Connection.after
  split <;> rfl

theorem Connection.Sound.after {c : Connection} (h : c.Sound) (f : Feed) (x : Turn) :
    (c.after f x).Sound := by
  cases hopen : c.isOpen with
  | false =>
    rw [Connection.after_of_not_isOpen hopen]
    exact h
  | true =>
    have hending : c.ending = none := by simpa [isOpen] using hopen
    have hbefore := h.watched (by rw [hending]; exact nofun)
    rw [Connection.after_of_isOpen hopen]
    by_cases hlive : f.live = []
    · -- Nobody is served: the turn delivers one event at most, and the connection ends with it.
      rcases unwatched_passes hlive x with hnone | ⟨p, hp, hunwatched⟩
      · rw [hnone, List.append_nil]
        refine ⟨fun _ => hbefore, fun hend => ?_⟩
        cases hcloses : x.closes <;> simp [hcloses] at hend
      · have hends : (x.passes f).any Pass.isUnwatched = true := by
          simp [hp, Pass.isUnwatched, hunwatched]
        rw [hends, hp]
        exact ⟨fun hnot => absurd rfl hnot, fun _ => ⟨c.deliveries, p, rfl, hunwatched, hbefore⟩⟩
    · obtain ⟨hstays, hwatched⟩ := watched_passes hlive x
      rw [hstays]
      refine ⟨fun _ p hp => ?_, fun hend => ?_⟩
      · rcases List.mem_append.1 hp with hp | hp
        · exact hbefore p hp
        · exact hwatched p hp
      · cases hcloses : x.closes <;> simp [hcloses] at hend

/-- What the ledger of a run and the feed have in common. -/
structure Kept (f : Feed) (ledger : List Connection) : Prop where
  past : ∀ c ∈ ledger.dropLast, c.isOpen = false
  last : ledger.getLast?.any Connection.isOpen = f.connected
  connects : f.connects = ledger.length
  opening : ∀ c ∈ ledger, c.opening = f.name ++ "\n"
  sound : ∀ c ∈ ledger, c.Sound
  idle : f.connected = false → f.live ≠ [] → ledger.getLast?.bind Connection.ending = some .closed

theorem kept_create (settings : FeedSettings) (name : String) : Kept (create settings name) [] where
  past := nofun
  last := rfl
  connects := rfl
  opening := nofun
  sound := nofun
  idle := fun _ h => absurd rfl h

theorem noted_of_unopened {f : Feed} {x : Turn} (h : x.opening? f = none)
    (ledger : List Connection) : noted f x ledger = ledger.map (·.after f x) := by
  rw [noted, h]
  exact List.append_nil _

theorem Kept.isOpen_of_idle {f : Feed} {ledger : List Connection} (h : Kept f ledger)
    (hidle : f.connected = false) : ∀ c ∈ ledger, c.isOpen = false := by
  intro c hc
  rcases List.eq_nil_or_concat' ledger with rfl | ⟨past, current, rfl⟩
  · cases hc
  · have hpast := h.past
    have hlast := h.last
    rw [List.dropLast_concat] at hpast
    rw [List.getLast?_concat, hidle, Option.any_some] at hlast
    rcases List.mem_append.1 hc with hc | hc
    · exact hpast c hc
    · rw [List.mem_singleton.1 hc]
      exact hlast

theorem idle_of_opening {f : Feed} {x : Turn} {line : String} (h : x.opening? f = some line) :
    f.connected = false ∧ line = f.name ++ "\n" := by
  rw [(turnLaw f x).opening] at h
  split at h
  · refine ⟨?_, (Option.some.inj h).symm⟩
    rename_i hdial
    unfold Turn.dial? at hdial
    split at hdial
    · cases hconnected : f.connected with
      | false => rfl
      | true => simp [hconnected] at hdial
    · cases hdial
  · cases h

theorem Kept.last_after {f : Feed} {ledger : List Connection} (h : Kept f ledger) {x : Turn}
    (hopening : x.opening? f = none) :
    (ledger.map (·.after f x)).getLast?.any Connection.isOpen = (f.turn x).connected := by
  have hlast := h.last
  rw [(turnLaw f x).connected, hopening, List.getLast?_map, Option.isSome_none, Bool.or_false]
  cases hget : ledger.getLast? with
  | none =>
    rw [hget] at hlast
    rw [← hlast]
    rfl
  | some c =>
    rw [hget, Option.any_some] at hlast
    rw [Option.map_some, Option.any_some, ← hlast]
    cases hopen : c.isOpen with
    | true => exact Connection.isOpen_after hopen f x
    | false =>
      rw [Connection.after_of_not_isOpen hopen]
      exact hopen

/-- Only the server can have ended a connection while a slot is taken. -/
theorem Kept.idle_after {f : Feed} {ledger : List Connection} (h : Kept f ledger) {x : Turn}
    (hopening : x.opening? f = none) (hidle : (f.turn x).connected = false)
    (hlive : (f.turn x).live ≠ []) :
    (ledger.map (·.after f x)).getLast?.bind Connection.ending = some .closed := by
  rw [List.getLast?_map]
  cases hconnected : f.connected with
  | false =>
    have hending := h.idle hconnected (live_of_idle_turn hconnected hidle hlive)
    cases hget : ledger.getLast? with
    | none => rw [hget] at hending; cases hending
    | some c =>
      have hclosed := h.isOpen_of_idle hconnected c (List.mem_of_getLast? hget)
      rw [hget] at hending
      rw [Option.map_some, Connection.after_of_not_isOpen hclosed]
      exact hending
  | true =>
    have hlast := h.last
    rw [hconnected] at hlast
    cases hget : ledger.getLast? with
    | none => rw [hget] at hlast; cases hlast
    | some c =>
      -- The connection was open and ended in this turn. As a slot is taken, no delivery ended it.
      rw [hget, Option.any_some] at hlast
      have hends := (turnLaw f x).connected
      rw [hidle, hconnected, hopening, Option.isSome_none, Bool.or_false, Bool.true_and] at hends
      have hwatched : (x.passes f).any Pass.isUnwatched = false := by
        by_contra hnot
        rw [Bool.not_eq_false, List.any_eq_true] at hnot
        obtain ⟨p, hp, hunwatched⟩ := hnot
        have hslots := slots_turn (seats_of_passes hp) f
        refine hlive ?_
        rw [live, hslots]
        have hnone := List.isEmpty_iff.1 hunwatched
        rwa [live_of_mem_passes hp] at hnone
      rw [hwatched] at hends
      have hcloses : x.closes = true := by simpa using hends.symm
      rw [Option.map_some, Connection.after_of_isOpen hlast, hwatched, hcloses]
      rfl

theorem Kept.noted {f : Feed} {ledger : List Connection} (h : Kept f ledger) (x : Turn) :
    Kept (f.turn x) (noted f x ledger) := by
  have hlaw := turnLaw f x
  have hmap : ∀ c ∈ ledger.map (·.after f x), c.opening = f.name ++ "\n" ∧ c.Sound := by
    intro c hc
    obtain ⟨d, hd, rfl⟩ := List.mem_map.1 hc
    exact ⟨(d.opening_after f x).trans (h.opening d hd), (h.sound d hd).after f x⟩
  cases hopening : x.opening? f with
  | some line =>
    -- A connection is opened only while there is none, so the others have all ended.
    obtain ⟨hidle, rfl⟩ := idle_of_opening hopening
    have hclosed : ∀ c ∈ ledger.map (·.after f x), c.isOpen = false := by
      intro c hc
      obtain ⟨d, hd, rfl⟩ := List.mem_map.1 hc
      have hdclosed := h.isOpen_of_idle hidle d hd
      rw [Connection.after_of_not_isOpen hdclosed]
      exact hdclosed
    have hconnected : (f.turn x).connected = true := by
      rw [hlaw.connected, hopening, Option.isSome_some, Bool.or_true]
    have hnoted : Feed.noted f x ledger =
        ledger.map (·.after f x) ++ [⟨f.name ++ "\n", [], none⟩] := by
      rw [Feed.noted, hopening]
      rfl
    rw [hnoted]
    refine ⟨?_, ?_, ?_, ?_, ?_, fun hidle' => ?_⟩
    · rw [List.dropLast_concat]
      exact hclosed
    · rw [List.getLast?_concat, hconnected]
      rfl
    · rw [hlaw.connects, hopening, h.connects, List.length_append, List.length_map]
      rfl
    · intro c hc
      rw [hlaw.name]
      rcases List.mem_append.1 hc with hc | hc
      · exact (hmap c hc).1
      · rw [List.mem_singleton.1 hc]
    · intro c hc
      rcases List.mem_append.1 hc with hc | hc
      · exact (hmap c hc).2
      · rw [List.mem_singleton.1 hc]
        exact ⟨fun _ => nofun, nofun⟩
    · rw [hconnected] at hidle'
      cases hidle'
  | none =>
    rw [noted_of_unopened hopening]
    refine ⟨?_, ?_, ?_, ?_, fun c hc => (hmap c hc).2, ?_⟩
    · rw [← List.map_dropLast]
      intro c hc
      obtain ⟨d, hd, rfl⟩ := List.mem_map.1 hc
      rw [Connection.after_of_not_isOpen (h.past d hd)]
      exact h.past d hd
    · exact h.last_after hopening
    · rw [hlaw.connects, hopening, h.connects, List.length_map]
      rfl
    · intro c hc
      rw [hlaw.name]
      exact (hmap c hc).1
    · exact h.idle_after hopening

/-! ### Runs -/

theorem Kept.afterTurns {f : Feed} {ledger : List Connection} (h : Kept f ledger)
    (turns : List Turn) : Kept (f.afterTurns turns) (ledgerFrom ledger turns f) := by
  induction turns generalizing f ledger with
  | nil => exact h
  | cons x turns ih => exact ih (h.noted x)

/-- What is delivered in a turn is delivered on the open connection. -/
theorem Kept.deliveries_noted {f : Feed} {ledger : List Connection} (h : Kept f ledger) (x : Turn) :
    (Feed.noted f x ledger).flatMap Connection.deliveries =
      ledger.flatMap Connection.deliveries ++ x.passes f := by
  have hopened : ((x.opening? f).toList.map fun line =>
      (⟨line, [], none⟩ : Connection)).flatMap Connection.deliveries = [] := by
    cases x.opening? f <;> rfl
  rw [Feed.noted, List.flatMap_append, hopened, List.append_nil]
  have hlast := h.last
  rcases List.eq_nil_or_concat' ledger with rfl | ⟨past, current, rfl⟩
  · rw [passes_of_idle hlast.symm]
    rfl
  · have hpast := h.past
    rw [List.dropLast_concat] at hpast
    rw [List.getLast?_concat, Option.any_some] at hlast
    have hsame : past.map (·.after f x) = past :=
      (List.map_congr_left fun c hc => Connection.after_of_not_isOpen (hpast c hc) f x).trans
        (List.map_id past)
    have hcurrent : (current.after f x).deliveries = current.deliveries ++ x.passes f := by
      cases hopen : current.isOpen with
      | true => rw [Connection.after_of_isOpen hopen]
      | false =>
        rw [hopen] at hlast
        rw [Connection.after_of_not_isOpen hopen, passes_of_idle hlast.symm, List.append_nil]
    simp only [List.map_append, hsame, List.map_cons, List.map_nil, List.flatMap_append,
      List.flatMap_cons, List.flatMap_nil, hcurrent, List.append_nil, List.append_assoc]

theorem Kept.deliveries {f : Feed} {ledger : List Connection} (h : Kept f ledger)
    (turns : List Turn) :
    (ledgerFrom ledger turns f).flatMap Connection.deliveries =
      ledger.flatMap Connection.deliveries ++ passes turns f := by
  induction turns generalizing f ledger with
  | nil => exact (List.append_nil _).symm
  | cons x turns ih =>
    rw [ledgerFrom, ih (h.noted x), h.deliveries_noted, passes, List.append_assoc]

theorem Kept.length_filter_isOpen {f : Feed} {ledger : List Connection} (h : Kept f ledger) :
    (ledger.filter Connection.isOpen).length = if f.connected then 1 else 0 := by
  have hpast := h.past
  have hlast := h.last
  rcases List.eq_nil_or_concat' ledger with rfl | ⟨past, current, rfl⟩
  · rw [← hlast]
    rfl
  · rw [List.dropLast_concat] at hpast
    rw [List.getLast?_concat, Option.any_some] at hlast
    have hnone : past.filter Connection.isOpen = [] :=
      List.filter_eq_nil_iff.2 fun c hc => by simp [hpast c hc]
    rw [List.filter_append, hnone, List.nil_append, ← hlast]
    cases hopen : current.isOpen <;> simp [hopen]

theorem connects_afterTurns (turns : List Turn) (f : Feed) :
    (f.afterTurns turns).connects =
      f.connects + ((dials turns f).filter Except.isOk).length := by
  induction turns generalizing f with
  | nil => rfl
  | cons x turns ih =>
    have hlaw := turnLaw f x
    rw [afterTurns_cons, ih, hlaw.connects, hlaw.opening, dials, List.filter_append,
      List.length_append, Nat.add_assoc]
    rcases x.dial? f with _ | answer
    · rfl
    · cases answer <;> rfl

theorem name_afterTurns (turns : List Turn) (f : Feed) : (f.afterTurns turns).name = f.name := by
  induction turns generalizing f with
  | nil => rfl
  | cons x turns ih => rw [afterTurns_cons, ih, (turnLaw f x).name]

/-! ### The next turn -/

/-- The events that a turn decodes: all that the server sends if a slot is taken, and the first one
otherwise. -/
theorem event_passes_turn (f : Feed) (x : Turn) :
    (x.passes f).map Pass.event = if f.live.isEmpty then (x.sent f).take 1 else x.sent f := by
  have hlines : ∀ found, f.connected = true → (absorbPasses found f).map Pass.event =
      if f.live.isEmpty then (eventsOf found).take 1 else eventsOf found := by
    intro found hconnected
    split
    · rename_i hunwatched
      rw [absorbPasses_of_unwatched found (List.isEmpty_iff.1 hunwatched), List.map_map,
        List.take_one]
      exact List.map_id _
    · rename_i hwatched
      exact event_absorbPasses found (by simpa using hwatched) hconnected
  unfold Turn.passes Turn.sent
  simp only [readingsOf_eq]
  split
  · split
    · exact hlines _ ‹_›
    · split <;> rfl
  · split
    · exact hlines _ ‹_›
    · split <;> rfl
  · split <;> rfl

/-- What a turn has to do with the connection. -/
structure Conduct (f : Feed) (x : Turn) : Prop where
  /-- A subscriber who finds no connection makes the feed dial, and nobody else does. -/
  dials : (x.dial? f).isSome ↔
    f.connected = false ∧ ∃ server capacity, x = .request server (.subscribe capacity)
  /-- The answer to the dial decides what the subscriber is told. -/
  dialled (server : Server) (capacity : Nat) (h : x = .request server (.subscribe capacity)) :
    (f.step server (.subscribe capacity)).2 =
      match x.dial? f with
      | none => .subscribed f.freeSlot none
      | some (.ok _) => .subscribed f.freeSlot (some (f.name ++ "\n"))
      | some (.error e) => .failed e
  /-- Where nothing is dialled the server plays no part. -/
  undialled (server : Server) (r : Request) (h : x = .request server r) (hdial : x.dial? f = none)
    (other : Server) : f.step other r = f.step server r
  /-- The connection ends if the server closes it or if an event finds no slot taken. -/
  ends (h : f.connected = true) : (f.turn x).connected = false ↔
    x.closes = true ∨ ∃ p ∈ x.passes f, p.feed.live = []
  decoded : (x.passes f).map Pass.event = if f.live.isEmpty then (x.sent f).take 1 else x.sent f
  /-- Lines without an event end nothing, and neither does a turn that brings none. -/
  quiet (h : x.closes = false) (hsent : x.sent f = []) :
    (f.turn x).connected = (f.connected || (x.opening? f).isSome)
  slots (h : x.seats = false) : (f.turn x).live = f.live

theorem step_of_undialled {f : Feed} {server : Server} {r : Request}
    (h : (Turn.request server r).dial? f = none) (other : Server) :
    f.step other r = f.step server r := by
  cases r with
  | subscribe capacity =>
    have hconnected : (f.setSlot f.freeSlot (some f.inboxes.length)).connected = true := by
      change f.connected = true
      cases hconnected : f.connected with
      | true => rfl
      | false => simp [Turn.dial?, hconnected] at h
    have hconnect : ∀ s, (f.setSlot f.freeSlot (some f.inboxes.length)).connect s =
      .ok (f.setSlot f.freeSlot (some f.inboxes.length), none) := fun s => if_pos hconnected
    simp only [step, subscribe, hconnect]
  | _ => rfl

theorem conduct (f : Feed) (x : Turn) : Conduct f x where
  dials := by
    cases x with
    | request server r => cases r <;> cases hconnected : f.connected <;> simp [Turn.dial?, hconnected]
    | _ => simp [Turn.dial?]
  dialled := by
    rintro server capacity rfl
    obtain ⟨g, hg, -⟩ := subscribe_eq f server capacity
    rw [step_subscribe, hg]
    rcases (Turn.request server (.subscribe capacity)).dial? f with _ | answer
    · rfl
    · cases answer <;> rfl
  undialled := by
    rintro server r rfl hdial other
    exact step_of_undialled hdial other
  ends := by
    intro h
    have hopening : x.opening? f = none := by
      cases hopening : x.opening? f with
      | none => rfl
      | some line =>
        rw [(idle_of_opening hopening).1] at h
        cases h
    rw [(turnLaw f x).connected, h, hopening]
    cases x.closes <;> simp [Pass.isUnwatched]
  decoded := event_passes_turn f x
  quiet := by
    intro hcloses hsent
    have hpasses : x.passes f = [] := by
      have hevents := event_passes_turn f x
      rw [hsent, List.take_nil, ite_self] at hevents
      exact List.map_eq_nil_iff.1 hevents
    rw [(turnLaw f x).connected, hpasses, hcloses]
    simp
  slots := fun h => by rw [live, slots_turn h, live]

theorem get_shutdown (d : Directory) (name : String) :
    d.shutdown.1.get name = { d.get name with connected := false } := by
  have hfind : ∀ feeds : List (String × Feed), Keyed.find? name
      (feeds.map fun entry => (entry.1, { entry.2 with connected := false })) =
        (Keyed.find? name feeds).map fun f => { f with connected := false } := by
    intro feeds
    induction feeds with
    | nil => rfl
    | cons entry rest ih =>
      simp only [List.map_cons, Keyed.find?, ih]
      split <;> rfl
  simp only [Directory.shutdown, Directory.get, hfind]
  cases Keyed.find? name d.feeds <;> rfl

/-- After any run of a feed at most one connection of its ledger is open, and one is exactly while
the feed is streaming. Every connection was opened by a dial that succeeded, with the name of the
feed; the deliveries on the connections are those of the run, and each found a slot taken unless it
ended its connection. So a feed with a taken slot that is not streaming has lost its last connection
to the server. `Conduct` says which turns dial and which end a connection; the end of all feeds ends
it as well. -/
theorem connections_of_run (settings : FeedSettings) (name : String) (turns : List Turn) :
    let f := (create settings name).afterTurns turns
    let ledger := ledgerFrom [] turns (create settings name)
    (ledger.filter Connection.isOpen).length = (if f.status.streaming then 1 else 0) ∧
      f.status.connects = ledger.length ∧
      f.status.connects = ((dials turns (create settings name)).filter Except.isOk).length ∧
      (∀ c ∈ ledger, c.opening = name ++ "\n" ∧ c.Sound) ∧
      ledger.flatMap Connection.deliveries = passes turns (create settings name) ∧
      (f.status.streaming = false → 0 < f.status.live →
        ∃ c, ledger.getLast? = some c ∧ c.ending = some .closed) ∧
      (∀ x, Conduct f x) ∧
      ∀ d : Directory, d.get name = f → d.shutdown.1.get name = { f with connected := false } := by
  intro f ledger
  have hkept : Kept f ledger := (kept_create settings name).afterTurns turns
  have hname : f.name = name := name_afterTurns turns (create settings name)
  refine ⟨hkept.length_filter_isOpen, hkept.connects, ?_, fun c hc => ⟨?_, hkept.sound c hc⟩,
    (kept_create settings name).deliveries turns, fun hidle hlive => ?_, conduct f, ?_⟩
  · exact (connects_afterTurns turns (create settings name)).trans (Nat.zero_add _)
  · rw [← hname]
    exact hkept.opening c hc
  · have hending := hkept.idle hidle (List.ne_nil_of_length_pos hlive)
    exact Option.bind_eq_some_iff.1 hending
  · intro d hd
    rw [get_shutdown, hd]

/-- A subscriber whose connection the server closes. -/
theorem connections_of_run_of_subscriber :
    let server : Server := ⟨true, true⟩
    let turns : List Turn := [.request server (.subscribe 1), .request server (.close [])]
    let ledger := ledgerFrom [] turns (create .standard "ticks")
    ∃ c, ledger.getLast? = some c ∧ c.opening = "ticks\n" ∧ c.ending = some .closed := by
  intro server turns ledger
  obtain ⟨-, -, -, hopening, -, hlost, -⟩ := connections_of_run .standard "ticks" turns
  have hlive : 0 < ((create .standard "ticks").afterTurns turns).status.live := by
    simp only [turns, afterTurns_cons, afterTurns_nil, turn, step, close, readingsOf_eq]
    exact Nat.zero_lt_one
  obtain ⟨c, hc, hending⟩ := hlost rfl hlive
  exact ⟨c, hc, (hopening c (List.mem_of_getLast? hc)).1, hending⟩

end LiveQuery.Feed
