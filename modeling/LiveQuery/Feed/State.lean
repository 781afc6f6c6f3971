import LiveQuery.Feed.Cache
import LiveQuery.Feed.Line
import LiveQuery.Feed.Server

/-!
# A feed and its subscribers

A feed is one connection to the server and a row of slots. A subscriber takes the first free slot
and has an inbox of limited size; every event that the feed decodes is offered to the inbox of every
slot that is taken, and an inbox that is full misses this event and nothing else. The first
subscriber makes the feed dial. The connection ends when the server closes it, or when an event
finds no slot taken; taken slots outlive it, and the next subscriber makes the feed dial again.
-/

namespace LiveQuery

namespace Feed

/-- Where the events of one subscription wait. -/
structure Inbox where
  slot : Nat
  /-- How many events may wait. -/
  capacity : Nat
  /-- The waiting events, the oldest first. -/
  queue : List Json
  /-- Whether the subscriber still holds the inbox. -/
  held : Bool

namespace Inbox

/-- A new inbox. There is always room for one event. -/
def fresh (slot capacity : Nat) : Inbox := ⟨slot, max capacity 1, [], true⟩

/-- Offers an event. It is missed if the inbox is full or was given up. -/
def offer (event : Json) (b : Inbox) : Inbox :=
  if b.held && b.queue.length < b.capacity then { b with queue := b.queue ++ [event] } else b

/-- Gives the inbox up, with everything in it. -/
def drop (b : Inbox) : Inbox := { b with queue := [], held := false }

end Inbox

/-- The number of a subscription among all that there have been. -/
abbrev Ticket := Nat

structure Status where
  streaming : Bool
  live : Nat
  slots : Nat
  connects : Nat
deriving DecidableEq, Repr

end Feed

open Feed in
/-- A feed at some point of its life. -/
structure Feed where
  name : String
  settings : FeedSettings
  /-- The subscription in each slot, if the slot is taken. -/
  slots : List (Option Ticket)
  /-- The inboxes of all subscriptions, by ticket. -/
  inboxes : List Inbox
  connected : Bool
  /-- How many dials have succeeded. -/
  connects : Nat
  cache : Option RecencyCache

namespace Feed

/-- A feed before its first subscriber. -/
def create (settings : FeedSettings) (name : String) : Feed where
  name := name
  settings := settings
  slots := []
  inboxes := []
  connected := false
  connects := 0
  cache := settings.cacheKey.map fun key => .empty key settings.cacheCapacity

/-- The subscriptions in the slots. -/
def live (f : Feed) : List Ticket := f.slots.filterMap id

def isLive (f : Feed) (ticket : Ticket) : Bool := f.live.contains ticket

def status (f : Feed) : Status := ⟨f.connected, f.live.length, f.slots.length, f.connects⟩

/-- The line with which the feed opens a connection. -/
def handshake (f : Feed) : String := f.name ++ "\n"

/-! ## Subscribing -/

/-- The first free slot; behind the others if all are taken. -/
def freeSlot (f : Feed) : Nat := f.slots.findIdx (· == none)

/-- The feed with a slot set, which may be a new one at the end. -/
def setSlot (f : Feed) (slot : Nat) (ticket : Option Ticket) : Feed :=
  { f with slots := if slot < f.slots.length then f.slots.set slot ticket else f.slots ++ [ticket] }

/-- Makes sure that there is a connection, and gives the line that opened it if it had to be made.
-/
def connect (server : Server) (f : Feed) : Except FeedError (Feed × Option String) :=
  if f.connected then .ok (f, none)
  else match server.dial f.settings.address with
    | .ok _ => .ok ({ f with connected := true, connects := f.connects + 1 }, some f.handshake)
    | .error e => .error e

/-- Takes a slot for a new subscriber, and gives its number and the line that opened a connection if
one had to be made. If the dial fails the slot is free again. -/
def subscribe (server : Server) (capacity : Nat) (f : Feed) :
    Feed × Except FeedError (Nat × Option String) :=
  let slot := f.freeSlot
  let taken := f.setSlot slot (some f.inboxes.length)
  match taken.connect server with
  | .ok (g, opening) =>
    ({ g with inboxes := g.inboxes ++ [.fresh slot capacity] }, .ok (slot, opening))
  | .error e => (taken.setSlot slot none, .error e)

def unsubscribe (slot : Nat) (f : Feed) : Feed × Except FeedError Unit :=
  match f.slots[slot]? with
  | some (some _) => (f.setSlot slot none, .ok ())
  | _ => (f, .error (.unknownSubscription slot))

/-! ## Events -/

/-- Offers an event to the inbox of every subscription that has a slot. -/
def deliver (event : Json) (f : Feed) : Feed :=
  { f with
    inboxes := f.inboxes.mapIdx fun ticket b => if f.isLive ticket then b.offer event else b }

/-- The feed after an event: it is cached, then delivered, and if no slot is taken the connection
ends. -/
def take (event : Json) (f : Feed) : Feed :=
  let cached := { f with cache := f.cache.map fun c => (RecencyCache.record c event).1 }
  let delivered := cached.deliver event
  { delivered with connected := delivered.connected && !delivered.live.isEmpty }

/-- The feed after what was found in its lines, up to the event that ends the connection. Lines that
hold no event are skipped. -/
def absorb : List (Reading Json) → Feed → Feed
  | [], f => f
  | .value event :: rest, f =>
    let after := f.take event
    if after.connected then absorb rest after else after
  | .undecodable :: rest, f => absorb rest f
  | .tooLong _ _ :: rest, f => absorb rest f

/-- What the feed finds in a text. -/
def readingsOf (f : Feed) (text : List UInt8) : List (Reading Json) :=
  (LineReader.ofChunks (some f.settings.maxLineBytes) [text]).readAll decodeLine

/-- The server sends complete lines: a text and a line feed behind it. Without a connection nothing
arrives. -/
def receive (data : List UInt8) (f : Feed) : Feed :=
  if f.connected then absorb (f.readingsOf (data ++ [lineFeed])) f else f

/-- The server sends a last text and closes the connection. -/
def close (tail : List UInt8) (f : Feed) : Feed :=
  if f.connected then { absorb (f.readingsOf tail) f with connected := false } else f

/-! ## The subscribers' side -/

/-- The newest subscription of a slot whose inbox is still held. -/
def ticketOf? (slot : Nat) (f : Feed) : Option Ticket :=
  (f.inboxes.zipIdx.filter fun (b, _) => b.slot == slot && b.held).getLast?.map (·.2)

/-- Takes everything out of an inbox. The answer also says whether more can come. -/
def drainInbox (ticket : Ticket) (f : Feed) : Feed × List Json × Bool :=
  ({ f with inboxes := f.inboxes.modify ticket fun b => { b with queue := [] } },
    f.inboxes[ticket]?.elim [] Inbox.queue, f.isLive ticket)

/-- Gives an inbox up. The slot of the subscription stays taken. -/
def dropInbox (ticket : Ticket) (f : Feed) : Feed :=
  { f with inboxes := f.inboxes.modify ticket Inbox.drop }

/-- Takes everything out of the inbox of a slot. -/
def drain (slot : Nat) (f : Feed) : Feed × Option (List Json × Bool) :=
  match f.ticketOf? slot with
  | none => (f, none)
  | some ticket =>
    let (drained, answer) := f.drainInbox ticket
    (drained, some answer)

/-- Gives up every inbox of a slot. The slot itself stays taken. -/
def dropInboxes (slot : Nat) (f : Feed) : Feed :=
  { f with inboxes := f.inboxes.map fun b => if b.slot == slot then b.drop else b }

/-- The newest event under a key. -/
def lookup (key : String) (f : Feed) : Option Json := f.cache.bind (·.find? key)

end Feed

end LiveQuery
