import LiveQuery.Json.Path

/-!
# The recency cache

The events that were seen last, each under the string that it has at one chosen path. A key that is
seen again takes its new event and becomes the newest; when there are too many keys, the oldest goes
with its event.
-/

namespace LiveQuery.Feed

structure RecencyCache where
  /-- The path of the string under which an event is kept. -/
  keyField : String
  /-- How many events are kept at most. -/
  capacity : Nat
  /-- The keys, the oldest first. -/
  order : List String
  /-- The newest event of each key. -/
  entries : List (String × Json)

namespace RecencyCache

/-- How many events a feed keeps if nothing else is said. -/
def defaultCapacity : Nat := 64

def empty (keyField : String) (capacity : Nat) : RecencyCache := ⟨keyField, capacity, [], []⟩

/-- The key of an event: the string at the chosen path. -/
def keyOf? (c : RecencyCache) (event : Json) : Option String :=
  match event.at? c.keyField with
  | some (.str key) => some key
  | _ => none

/-- Lets the oldest keys go, each with its event, until no more than `capacity` are left. -/
def evict (capacity : Nat) :
    List String → List (String × Json) → List String × List (String × Json)
  | [], entries => ([], entries)
  | oldest :: rest, entries =>
    if capacity < (oldest :: rest).length then evict capacity rest (Keyed.erase oldest entries)
    else (oldest :: rest, entries)

/-- Keeps an event under a key, as the newest. A key that is known leaves its old place. -/
def insert (c : RecencyCache) (key : String) (event : Json) : RecencyCache :=
  let others := if (Keyed.find? key c.entries).isSome then c.order.erase key else c.order
  let (order, entries) := evict c.capacity (others ++ [key]) (Keyed.insert key event c.entries)
  { c with order := order, entries := entries }

/-- Keeps an event, and whether it has a key. An event without a key changes nothing. -/
def record (c : RecencyCache) (event : Json) : RecencyCache × Bool :=
  match c.keyOf? event with
  | some key => (c.insert key event, true)
  | none => (c, false)

def find? (c : RecencyCache) (key : String) : Option Json := Keyed.find? key c.entries

def size (c : RecencyCache) : Nat := c.entries.length

end RecencyCache

end LiveQuery.Feed
