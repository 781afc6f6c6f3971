import LiveQuery.Settings.Basic
import LiveQuery.Toml.Reader

/-!
# Settings in a TOML document

The document has a table for each group of settings. What it leaves out keeps its standard value,
and what it has beyond the settings does not matter. A group may also be an array, with its settings
in their fixed order.
-/

namespace LiveQuery.Settings

open Toml (Entries)

/-- The values of one group: by name, or in the order of the settings. -/
inductive Group where
  | named (entries : Entries)
  | positional (items : List Toml)

/-- The group that a value is. A date is a group without settings; a scalar of another kind is none.
-/
def Group.ofToml? : Toml → Option Group
  | .table _ entries | .inlined entries => some (.named entries)
  | .array items => some (.positional items)
  | .tables items => some (.positional (items.map (.table .header ·)))
  | .dateTime _ => some (.named [])
  | _ => none

/-- The value of a setting by its name and its place in the group. -/
def Group.value? (g : Group) (place : Nat) (name : String) : Option Toml :=
  match g with
  | .named entries => Keyed.find? name entries
  | .positional items => items[place]?

/-- A setting that is a text. -/
def text? : Toml → Option String
  | .string s => some s
  | _ => none

/-- A setting that is a number: it is not negative. -/
def number? : Toml → Option Nat
  | .integer (.ofNat n) => some n
  | _ => none

/-- A setting of a group, or its standard value if the group does not have it. A value of the wrong
kind is an error. -/
def Group.setting {α : Type} (g : Group) (kind? : Toml → Option α) (standard : α) (place : Nat)
    (name : String) : Option α :=
  match g.value? place name with
  | none => some standard
  | some v => kind? v

def server? (g : Group) : Option ServerSettings := do
  let standard : ServerSettings := {}
  pure {
    address := ← g.setting text? standard.address 0 "address"
    connectTimeoutMs := ← g.setting number? standard.connectTimeoutMs 1 "connect_timeout_ms" }

def stream? (g : Group) : Option StreamSettings := do
  let standard : StreamSettings := {}
  pure {
    subscriberCapacity := ← g.setting number? standard.subscriberCapacity 0 "subscriber_capacity"
    cacheKey := ← g.setting (fun v => (text? v).map some) standard.cacheKey 1 "cache_key"
    cacheCapacity := ← g.setting number? standard.cacheCapacity 2 "cache_capacity"
    maxLineBytes := ← g.setting number? standard.maxLineBytes 3 "max_line_bytes"
    controlCapacity := ← g.setting number? standard.controlCapacity 4 "control_capacity" }

def logging? (g : Group) : Option LoggingSettings := do
  let standard : LoggingSettings := {}
  pure {
    level := ← g.setting text? standard.level 0 "level"
    format := ← g.setting text? standard.format 1 "format" }

def group? {α : Type} (document : Entries) (name : String) (read : Group → Option α)
    (standard : α) : Option α :=
  match Keyed.find? name document with
  | none => some standard
  | some v => Group.ofToml? v >>= read

/-- The settings that a document gives. -/
def ofDocument? (document : Entries) : Option Settings := do
  pure {
    server := ← group? document "upstream" server? {}
    stream := ← group? document "stream" stream? {}
    logging := ← group? document "logging" logging? {} }

def parse (text : String) : Option Settings := Toml.parse text >>= ofDocument?

/-- A document that sets every setting to its standard value, with an explanation of each. -/
def template : String :=
"# Rivulet Configuration
#
# Environment variables override these settings:
# - RIVULET_UPSTREAM
# - RIVULET_CACHE_KEY
# - RIVULET_LOG_LEVEL
# - RIVULET_LOG_FORMAT

[upstream]
# Feed server address (host:port)
address = \"127.0.0.1:7070\"

# Give up dialing after this long (ms)
connect_timeout_ms = 5000

[stream]
# Events buffered per subscriber before deliveries are dropped
subscriber_capacity = 256

# Field whose string value keys the recency cache (unset = disabled)
# cache_key = \"unique_request_id\"

# Events kept in the recency cache
cache_capacity = 64

# Upstream lines longer than this are skipped (bytes)
max_line_bytes = 32768

# Pending subscribe/unsubscribe requests per feed
control_capacity = 32

[logging]
# Log level: trace, debug, info, warn, error
level = \"info\"

# Log format: pretty (for development) or json (for production)
format = \"pretty\"
"

end LiveQuery.Settings
