import LiveQuery.Decimal.Nearest
import LiveQuery.Decimal.Layout
import LiveQuery.Text.Blank
import LiveQuery.Text.Quoted
import LiveQuery.Text.Duration
import LiveQuery.Json.Reader
import LiveQuery.Json.Writer
import LiveQuery.Json.Path
import LiveQuery.Query.Literal
import LiveQuery.Window.Retained
import LiveQuery.Window.Total
import LiveQuery.Query.Call
import LiveQuery.Query.Eval
import LiveQuery.Query.Statement
import LiveQuery.Query.Observed
import LiveQuery.Feed.Line
import LiveQuery.Feed.Cache
import LiveQuery.Feed.Error
import LiveQuery.Feed.Directory
import LiveQuery.Feed.Tasks
import LiveQuery.Toml.Reader
import LiveQuery.Settings.Document
import LiveQuery.Settings.Search
import LiveQuery.Command.Arguments
import LiveQuery.Command.Run
import LiveQuery.Main
import LiveQuery.Proofs.Window.Notices
import LiveQuery.Proofs.Window.Totals
import LiveQuery.Proofs.Query.Pieces
import LiveQuery.Proofs.Query.Places
import LiveQuery.Proofs.Query.Tokens
import LiveQuery.Proofs.Query.Trees
import LiveQuery.Proofs.Query.Aggregates
import LiveQuery.Proofs.Feed.Framing
import LiveQuery.Proofs.Feed.Run
import LiveQuery.Proofs.Feed.Delivery
import LiveQuery.Proofs.Feed.Recency
import LiveQuery.Proofs.Keyed
import LiveQuery.Proofs.Decimal.Units
import LiveQuery.Proofs.Window.Retention
import LiveQuery.Proofs.Query.Integers
import LiveQuery.Proofs.Query.RollingAggregates
import LiveQuery.Proofs.Query.Histories
import LiveQuery.Proofs.Feed.Connections
import LiveQuery.Proofs.Query.Chance
import LiveQuery.Proofs.Query.Observations
import LiveQuery.Proofs.Query.Subtrees
import LiveQuery.Proofs.Feed.Slots
import LiveQuery.Proofs.Query.Labels
import LiveQuery.Proofs.Feed.Lookups
import LiveQuery.Proofs.Feed.Independence
import LiveQuery.Proofs.Text.ByteOrder
import LiveQuery.Proofs.Feed.Isolation
import LiveQuery.Proofs.Query.Holdings
import LiveQuery.Proofs.Feed.LastLine
import LiveQuery.Proofs.Decimal.Numerals
import LiveQuery.Proofs.Query.Display
import LiveQuery.Proofs.Feed.Teardown
import LiveQuery.Proofs.Feed.Interleavings
import LiveQuery.Proofs.Decimal.Rounding
import LiveQuery.Proofs.Decimal.ReadBack
import LiveQuery.Proofs.Json.Numbers
import LiveQuery.Proofs.Json.RoundTrip
import LiveQuery.Proofs.Feed.Transport
import LiveQuery.Proofs.Window.Expiry
import LiveQuery.Proofs.Query.Arguments
import LiveQuery.Proofs.Feed.Refusals
import LiveQuery.Proofs.Query.Results
import LiveQuery.Proofs.Window.Pushes
import LiveQuery.Proofs.Query.Strings
import LiveQuery.Proofs.Json.Paths
import LiveQuery.Proofs.Query.Strides
import LiveQuery.Proofs.Decimal.Spelling
import LiveQuery.Proofs.Query.Spelling
import LiveQuery.Proofs.Query.Literals
import LiveQuery.Proofs.Settings.Resolution
