import LiveQuery.Feed.Address
import LiveQuery.Feed.Error

/-!
# The server of the feeds

What a feed has to know of the server that it dials: how to reach it, and whether it can be reached.
-/

namespace LiveQuery.Feed

/-- How a feed deals with its server and its events. -/
structure FeedSettings where
  /-- The host and the service number of the server, with a colon between them. -/
  address : String
  /-- How long a dial may take, in nanoseconds. -/
  connectTimeout : Nat
  /-- The path of the key under which the recency cache keeps an event; without one there is no
  cache. -/
  cacheKey : Option String
  cacheCapacity : Nat
  /-- Longer lines are skipped. -/
  maxLineBytes : Nat
  /-- How many requests to a feed may wait. -/
  controlCapacity : Nat
deriving DecidableEq, Repr

/-- The settings of a feed for which nothing is said. -/
def FeedSettings.standard : FeedSettings where
  address := "127.0.0.1:7070"
  connectTimeout := 5000000000
  cacheKey := none
  cacheCapacity := 64
  maxLineBytes := 32768
  controlCapacity := 32

/-- Whether a dial can succeed: there has to be a route to the server, and the server has to listen.
-/
structure Server where
  routed : Bool
  listening : Bool
deriving DecidableEq, Repr

/-- Why a dial of a host fails, in the words of the network; `none` if it succeeds. -/
def Server.refusal? (s : Server) (host : Host) : Option String :=
  if !s.routed then some host.withoutNetwork
  else if !s.listening then some "Connection refused (os error 111)"
  else none

def Server.dial (s : Server) (address : String) : Except FeedError Unit :=
  match Address.parse address with
  | .error fault => .error (.connect address fault.message)
  | .ok a =>
    match s.refusal? a.host with
    | none => .ok ()
    | some cause => .error (.connect address cause)

end LiveQuery.Feed
