import LiveQuery.Text.Duration

/-!
# What can go wrong with a feed
-/

namespace LiveQuery.Feed

inductive FeedError where
  /-- The server could not be reached. -/
  | connect (address cause : String)
  /-- The server did not answer in time. -/
  | connectTimeout (address : String) (nanoseconds : Nat)
  /-- The name of the feed could not be sent. -/
  | handshake (feed cause : String)
  /-- There is no subscription of this number. -/
  | unknownSubscription (id : Nat)
  | closed (feed : String)
deriving DecidableEq, Repr

namespace FeedError

def message : FeedError → String
  | .connect address cause => "Failed to connect to " ++ address ++ ": " ++ cause
  | .connectTimeout address nanoseconds =>
    "Timed out connecting to " ++ address ++ " after " ++ Text.duration nanoseconds
  | .handshake feed cause => "Failed to send handshake for feed " ++ feed ++ ": " ++ cause
  | .unknownSubscription id => "Unknown subscription id " ++ Nat.repr id
  | .closed feed => "Distributor for feed " ++ feed ++ " is no longer running"

/-- The failure that led to this one, in words, if there is one. -/
def cause? : FeedError → Option String
  | .connect _ cause | .handshake _ cause => some cause
  | _ => none

end FeedError

end LiveQuery.Feed
