import LiveQuery.Feed.State

/-!
# All feeds of a server

Feeds come into being when they are first asked for by name. `Directory.step` carries out one
request after the other; every request concerns one feed, the server, or the list of feeds.
-/

namespace LiveQuery.Feed

/-- The feeds of a server, by name. -/
structure Directory where
  settings : FeedSettings
  server : Server
  feeds : List (String × Feed)

inductive Request where
  | subscribe (capacity : Nat)
  | unsubscribe (slot : Nat)
  /-- The server sends lines. -/
  | send (data : List UInt8)
  /-- The server sends a last text and closes. -/
  | close (tail : List UInt8)
  | drain (slot : Nat)
  | dropInboxes (slot : Nat)
  | lookup (key : String)
  | status
  | name

inductive Step where
  | request (feed : String) (r : Request)
  | names
  | serverDown
  | serverUp
  /-- All feeds come to their end. -/
  | shutdown

inductive Reply where
  | done
  | subscribed (slot : Nat) (handshake : Option String)
  | failed (e : FeedError)
  | connection (connected : Bool)
  | drained (inbox : Option (List Json × Bool))
  | found (event : Option Json)
  | status (s : Status)
  | name (name : String)
  | names (names : List String)
  /-- The feeds whose connections ended. -/
  | closed (names : List String)

/-- Whether a request brings its feed into being. What the server does, and what subscribers do with
their inboxes, does not. -/
def Request.creates : Request → Bool
  | .subscribe _ | .unsubscribe _ | .lookup _ | .status | .name => true
  | .send _ | .close _ | .drain _ | .dropInboxes _ => false

def step (server : Server) (f : Feed) : Request → Feed × Reply
  | .subscribe capacity =>
    match f.subscribe server capacity with
    | (g, .ok (slot, handshake)) => (g, .subscribed slot handshake)
    | (g, .error e) => (g, .failed e)
  | .unsubscribe slot =>
    match f.unsubscribe slot with
    | (g, .ok _) => (g, .done)
    | (g, .error e) => (g, .failed e)
  | .send data => let g := f.receive data; (g, .connection g.connected)
  | .close tail => let g := f.close tail; (g, .connection g.connected)
  | .drain slot => let (g, inbox) := f.drain slot; (g, .drained inbox)
  | .dropInboxes slot => (f.dropInboxes slot, .done)
  | .lookup key => (f, .found (f.lookup key))
  | .status => (f, .status f.status)
  | .name => (f, .name f.name)

namespace Directory

def empty (settings : FeedSettings) (server : Server) : Directory := ⟨settings, server, []⟩

/-- The feed of a name, as it is or as it would begin. -/
def get (d : Directory) (name : String) : Feed :=
  (Keyed.find? name d.feeds).getD (.create d.settings name)

def names (d : Directory) : List String := Keyed.keys d.feeds

def request (d : Directory) (name : String) (r : Request) : Directory × Reply :=
  let (f, reply) := (d.get name).step d.server r
  if r.creates || (Keyed.find? name d.feeds).isSome then
    ({ d with feeds := Keyed.insert name f d.feeds }, reply)
  else (d, reply)

def shutdown (d : Directory) : Directory × List String :=
  ({ d with feeds := d.feeds.map fun (name, f) => (name, { f with connected := false }) },
    (d.feeds.filter (·.2.connected)).map (·.1))

def step (d : Directory) : Step → Directory × Reply
  | .request name r => d.request name r
  | .names => (d, .names d.names)
  | .serverDown => ({ d with server := { d.server with listening := false } }, .done)
  | .serverUp => ({ d with server := { d.server with listening := true } }, .done)
  | .shutdown => let (d, names) := d.shutdown; (d, .closed names)

end Directory

end LiveQuery.Feed
