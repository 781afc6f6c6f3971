import LiveQuery.Feed.State

/-!
# The two tasks of a feed

A feed is kept by two tasks that run side by side. The keeper owns the slots: it places and
dismisses subscribers one at a time, publishes the slots after every change, dials, and starts the
streamer. The streamer owns the connection: it takes one event after the other, looks up the slots
that were published last, delivers, and ends when it saw no slot taken or when the server closes.
Ending takes it several steps, and the keeper may place a subscriber between any two of them.

`Tasks.next` says what each move of one of the tasks does, and `Tasks.after` what an interleaving of
moves leads to. A `Feed` by itself is a feed whose tasks are at rest: its requests are moves that
are carried out to the end (`Tasks.ofFeed`).
-/

namespace LiveQuery.Feed

/-- Caches an event that was decoded. -/
def remember (event : Json) (f : Feed) : Feed :=
  { f with cache := f.cache.map fun c => (RecencyCache.record c event).1 }

/-- Offers an event to the subscriptions that had a slot when the slots looked like this. -/
def deliverTo (seen : List (Option Ticket)) (event : Json) (f : Feed) : Feed :=
  { deliver event { f with slots := seen } with slots := f.slots }

/-- Why a streamer ends. -/
inductive Exit where
  /-- A delivery found no slot taken. -/
  | noSubscribers
  | serverClosed
deriving DecidableEq, Repr

/-- How far the streamer has come. -/
inductive Phase where
  /-- It waits for a line. -/
  | reading
  /-- It has cached an event, and has yet to look at the slots. -/
  | decoded (event : Json)
  | delivering (event : Json) (seen : List (Option Ticket))
  /-- It takes no more events, and its connection is still open. -/
  | leaving (exit : Exit)
  | closed (exit : Exit)
  /-- It has ended, and the keeper can notice. -/
  | ended (exit : Exit)

namespace Phase

/-- Whether the streamer has not come to its end. -/
def running : Phase → Bool
  | .reading | .decoded _ | .delivering _ _ => true
  | .leaving _ | .closed _ | .ended _ => false

/-- Whether the streamer's connection is open. -/
def connected : Phase → Bool
  | .closed _ | .ended _ => false
  | _ => true

/-- Whether the streamer is still there. -/
def alive : Phase → Bool
  | .ended _ => false
  | _ => true

end Phase

/-- What the keeper is at. -/
inductive Keeper where
  /-- It waits for a request, or for the streamer to end. -/
  | waiting
  /-- It has given a new subscriber this slot, and has yet to look for a streamer. -/
  | placing (slot : Nat)
  /-- It dials: for a new subscriber with this slot, or for those that a streamer left behind. -/
  | dialing (placed : Option Nat)
deriving DecidableEq, Repr

/-- A feed between two moves of its tasks. -/
structure Tasks where
  /-- Slots, inboxes and cache. The feed counts as connected as long as the streamer has not
  ended. -/
  feed : Feed
  /-- The slots as the streamer sees them. -/
  published : List (Option Ticket)
  /-- The streamer that the keeper knows of. -/
  streamer : Option Phase
  keeper : Keeper
  /-- How many connections are open. -/
  connections : Nat

/-- A move of one of the tasks, or of a subscriber at its own inbox. -/
inductive Move where
  /-- The keeper gives a new subscriber a slot. -/
  | place (capacity : Nat)
  /-- The keeper looks whether there is a streamer for the new subscriber. -/
  | ensure
  /-- The keeper dials, and is accepted or not. -/
  | dial (accepted : Bool)
  | dismiss (slot : Nat)
  /-- The keeper notices that the streamer has ended. -/
  | notice
  /-- The streamer reads a line without an event. -/
  | skip
  | decode (event : Json)
  /-- The streamer looks at the slots. -/
  | look
  /-- The streamer delivers its event, and leaves if no slot was taken. -/
  | deliver
  /-- The server closes the connection. -/
  | hangUp
  /-- The streamer closes its connection. -/
  | close
  /-- The streamer ends. -/
  | finish
  | drainInbox (ticket : Ticket)
  | dropInbox (ticket : Ticket)

namespace Tasks

/-- The tasks of a feed at rest. -/
def ofFeed (f : Feed) : Tasks where
  feed := f
  published := f.slots
  streamer := if f.connected then some .reading else none
  keeper := .waiting
  connections := if f.connected then 1 else 0

/-- Changes the feed and publishes its slots. -/
def publish (t : Tasks) (f : Feed) : Tasks := { t with feed := f, published := f.slots }

/-- Takes the first free slot for a new subscriber, and publishes it. -/
def place (t : Tasks) (capacity : Nat) : Tasks :=
  let slot := t.feed.freeSlot
  let taken := t.feed.setSlot slot (some t.feed.inboxes.length)
  { t.publish { taken with inboxes := taken.inboxes ++ [.fresh slot capacity] } with
    keeper := .placing slot }

/-- Starts a streamer on a new connection. -/
def start (t : Tasks) : Tasks where
  feed := { t.feed with connected := true, connects := t.feed.connects + 1 }
  published := t.published
  streamer := some .reading
  keeper := .waiting
  connections := t.connections + 1

/-- Gives up a dial. A new subscriber's slot is free again, and its inbox is gone. -/
def giveUp (t : Tasks) (placed : Option Nat) : Tasks :=
  match placed with
  | none => { t with keeper := .waiting }
  | some slot =>
    let freed := t.feed.setSlot slot none
    { t.publish { freed with inboxes := freed.inboxes.dropLast } with keeper := .waiting }

/-- The state after a move, if the task can make it. While the keeper is at a request, or at the end
of a streamer, it does nothing else. -/
def next (t : Tasks) : Move → Option Tasks
  | .place capacity =>
    match t.keeper with
    | .waiting => some (t.place capacity)
    | _ => none
  | .ensure =>
    match t.keeper, t.streamer with
    | .placing slot, none | .placing slot, some (.ended _) =>
      some { t with streamer := none, keeper := .dialing (some slot) }
    | .placing _, some _ => some { t with keeper := .waiting }
    | _, _ => none
  | .dial accepted =>
    match t.keeper with
    | .dialing placed => some (if accepted then t.start else t.giveUp placed)
    | _ => none
  | .dismiss slot =>
    match t.keeper, t.feed.unsubscribe slot with
    | .waiting, (f, .ok _) => some (t.publish f)
    | .waiting, (_, .error _) => some t
    | _, _ => none
  | .notice =>
    match t.keeper, t.streamer with
    | .waiting, some (.ended exit) =>
      let left := exit = .noSubscribers ∧ t.feed.live ≠ []
      some { t with streamer := none, keeper := if left then .dialing none else .waiting }
    | _, _ => none
  | .skip =>
    match t.streamer with
    | some .reading => some t
    | _ => none
  | .decode event =>
    match t.streamer with
    | some .reading => some { t with feed := t.feed.remember event, streamer := some (.decoded event) }
    | _ => none
  | .look =>
    match t.streamer with
    | some (.decoded event) => some { t with streamer := some (.delivering event t.published) }
    | _ => none
  | .deliver =>
    match t.streamer with
    | some (.delivering event seen) =>
      let phase := if seen.any Option.isSome then .reading else .leaving .noSubscribers
      some { t with feed := t.feed.deliverTo seen event, streamer := some phase }
    | _ => none
  | .hangUp =>
    match t.streamer with
    | some .reading => some { t with streamer := some (.leaving .serverClosed) }
    | _ => none
  | .close =>
    match t.streamer with
    | some (.leaving exit) =>
      some { t with streamer := some (.closed exit), connections := t.connections - 1 }
    | _ => none
  | .finish =>
    match t.streamer with
    | some (.closed exit) =>
      some { t with feed := { t.feed with connected := false }, streamer := some (.ended exit) }
    | _ => none
  | .drainInbox ticket => some { t with feed := (t.feed.drainInbox ticket).1 }
  | .dropInbox ticket => some { t with feed := t.feed.dropInbox ticket }

/-- The state after an interleaving of moves, if each of them can be made in its turn. -/
def after (moves : List Move) (t : Tasks) : Option Tasks := moves.foldlM next t

end Tasks

end LiveQuery.Feed
