import LiveQuery.Feed.Server

/-!
# Settings

What can be set: the server, how feeds treat their subscribers and events, and the log.
-/

namespace LiveQuery

structure ServerSettings where
  /-- The host and the service number of the server, with a colon between them. -/
  address : String := "127.0.0.1:7070"
  /-- How long a dial may take, in milliseconds. -/
  connectTimeoutMs : Nat := 5000
deriving DecidableEq, Repr

/-- How feeds treat their subscribers and events. -/
structure StreamSettings where
  /-- How many events may wait for a subscriber. -/
  subscriberCapacity : Nat := 256
  /-- The path of the key of the recency cache; without one there is no cache. -/
  cacheKey : Option String := none
  cacheCapacity : Nat := 64
  /-- Longer lines are skipped. -/
  maxLineBytes : Nat := 32768
  /-- How many requests to a feed may wait. -/
  controlCapacity : Nat := 32
deriving DecidableEq, Repr

/-- What is logged, and how. -/
structure LoggingSettings where
  level : String := "info"
  format : String := "pretty"
deriving DecidableEq, Repr

structure Settings where
  server : ServerSettings := {}
  stream : StreamSettings := {}
  logging : LoggingSettings := {}
deriving DecidableEq, Repr

namespace Settings

def feed (s : Settings) : Feed.FeedSettings where
  address := s.server.address
  connectTimeout := s.server.connectTimeoutMs * 1000000
  cacheKey := s.stream.cacheKey
  cacheCapacity := s.stream.cacheCapacity
  maxLineBytes := s.stream.maxLineBytes
  controlCapacity := s.stream.controlCapacity

/-! ## The environment -/

/-- The settings that environment variables may replace. -/
structure Overrides where
  address : Option String
  cacheKey : Option String
  logLevel : Option String
  logFormat : Option String
deriving DecidableEq, Repr

/-- The values that the variables of an environment give. -/
def Overrides.ofEnvironment (environment : String → Option String) : Overrides where
  address := environment "RIVULET_UPSTREAM"
  cacheKey := environment "RIVULET_CACHE_KEY"
  logLevel := environment "RIVULET_LOG_LEVEL"
  logFormat := environment "RIVULET_LOG_FORMAT"

/-- The settings with these values in place of their own. An empty key turns the cache off. -/
def override (o : Overrides) (s : Settings) : Settings where
  server := { s.server with address := o.address.getD s.server.address }
  stream := { s.stream with
    cacheKey := match o.cacheKey with
      | none => s.stream.cacheKey
      | some key => if key = "" then none else some key }
  logging := ⟨o.logLevel.getD s.logging.level, o.logFormat.getD s.logging.format⟩

end Settings

end LiveQuery
