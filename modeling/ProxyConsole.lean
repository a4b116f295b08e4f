import ProxyConsole.Address
import ProxyConsole.Attempt
import ProxyConsole.Backend
import ProxyConsole.Cache
import ProxyConsole.Cache.Session
import ProxyConsole.Call
import ProxyConsole.Channel
import ProxyConsole.Client.Basic
import ProxyConsole.Client.Batch
import ProxyConsole.Client.Operation
import ProxyConsole.Client.Read
import ProxyConsole.Clock
import ProxyConsole.Console.Command
import ProxyConsole.Console.CommandLine
import ProxyConsole.Console.Dialogue
import ProxyConsole.Console.Invocation
import ProxyConsole.Console.Program
import ProxyConsole.Console.Screen
import ProxyConsole.Console.SettingsCommand
import ProxyConsole.Correlator
import ProxyConsole.Correlator.Listener
import ProxyConsole.Correlator.Session
import ProxyConsole.Decimal.Natural
import ProxyConsole.Decimal.Rounding
import ProxyConsole.Decimal.Shortest
import ProxyConsole.Display.ByteCount
import ProxyConsole.Display.Listing
import ProxyConsole.Display.Table
import ProxyConsole.Duration
import ProxyConsole.Failure
import ProxyConsole.FileTree
import ProxyConsole.Json.Basic
import ProxyConsole.Json.Decode
import ProxyConsole.Json.Literal
import ProxyConsole.Json.Node
import ProxyConsole.Json.Numeral
import ProxyConsole.Json.Printer
import ProxyConsole.Json.Record
import ProxyConsole.Main
import ProxyConsole.Readiness
import ProxyConsole.Request
import ProxyConsole.Resource.Basic
import ProxyConsole.Resource.Mode
import ProxyConsole.Settings
import ProxyConsole.Settings.File
import ProxyConsole.Text.Blank
import ProxyConsole.Text.Lines
import ProxyConsole.Text.Percent
import ProxyConsole.Text.Utf8
import ProxyConsole.Text.Width
import ProxyConsole.Toml.Basic
import ProxyConsole.Toml.Document
import ProxyConsole.Toml.Key
import ProxyConsole.Toml.Moment
import ProxyConsole.Toml.Numeral
import ProxyConsole.Toml.Printer
import ProxyConsole.Toml.Quoted
import ProxyConsole.Toml.Section
import ProxyConsole.Toml.Spelling
import ProxyConsole.Toml.Value
import ProxyConsole.Wire.Envelope
import ProxyConsole.Wire.Frame
import ProxyConsole.Wire.RequestId
import ProxyConsole.World
import ProxyConsole.Proofs.Positions
import ProxyConsole.Proofs.Since
import ProxyConsole.Proofs.Correlator.Basic
import ProxyConsole.Proofs.Correlator.Schedule
import ProxyConsole.Proofs.Correlator.Coherence
import ProxyConsole.Proofs.Correlator.History
import ProxyConsole.Proofs.Correlator.ExactlyOnce
import ProxyConsole.Proofs.Correlator.Evolution
import ProxyConsole.Proofs.Cache.Basic
import ProxyConsole.Proofs.Cache.Schedule
import ProxyConsole.Proofs.Cache.SingleFlight
import ProxyConsole.Proofs.Cache.Hits
import ProxyConsole.Proofs.Call
import ProxyConsole.Proofs.Client.Read
import ProxyConsole.Proofs.Client.Resource
import ProxyConsole.Proofs.Client.Schedule
import ProxyConsole.Proofs.Client.Readers
import ProxyConsole.Proofs.Client.Mutations
import ProxyConsole.Proofs.Client.Ahead
import ProxyConsole.Proofs.Client.Freshness
import ProxyConsole.Proofs.World
import ProxyConsole.Proofs.Json.Literal
import ProxyConsole.Proofs.Json.Numeral
import ProxyConsole.Proofs.Json.Document
import ProxyConsole.Proofs.Json.Record
import ProxyConsole.Proofs.Wire.Line
import ProxyConsole.Proofs.Wire.Reception
import ProxyConsole.Proofs.Wire.RoundTrip
import ProxyConsole.Proofs.Correlator.Pending
import ProxyConsole.Proofs.Correlator.Leakless
import ProxyConsole.Proofs.Client.Sends
import ProxyConsole.Proofs.Client.Trials
import ProxyConsole.Proofs.Client.Pace
import ProxyConsole.Proofs.Client.Retry
import ProxyConsole.Proofs.Cache.Followers
import ProxyConsole.Proofs.Client.LastMode
import ProxyConsole.Proofs.Client.Steps
import ProxyConsole.Proofs.Names
import ProxyConsole.Proofs.Client.Validation
import ProxyConsole.Proofs.Correlator.Listening
import ProxyConsole.Proofs.Client.Tickets
import ProxyConsole.Proofs.Client.Inbound
import ProxyConsole.Proofs.Client.StreamEnd
import ProxyConsole.Proofs.Cache.Mirror
import ProxyConsole.Proofs.Cache.Independence
import ProxyConsole.Proofs.Client.Outside
import ProxyConsole.Proofs.Client.Course
import ProxyConsole.Proofs.Client.UnderWay
import ProxyConsole.Proofs.Client.FirstAttempt
import ProxyConsole.Proofs.Client.OneAttempt
import ProxyConsole.Proofs.Toml.Quoted
import ProxyConsole.Proofs.Toml.Numeral
import ProxyConsole.Proofs.Toml.Line
import ProxyConsole.Proofs.Toml.Document
import ProxyConsole.Proofs.Json.Order
import ProxyConsole.Proofs.Json.Collection
import ProxyConsole.Proofs.Toml.Tree
import ProxyConsole.Proofs.Files
import ProxyConsole.Proofs.Settings.RoundTrip
import ProxyConsole.Proofs.Json.Pretty
import ProxyConsole.Proofs.Resource
import ProxyConsole.Proofs.Client.Decoded
import ProxyConsole.Proofs.Console.Sorted
import ProxyConsole.Proofs.Console.Dialogue
import ProxyConsole.Proofs.Console.Documents
import ProxyConsole.Proofs.Console.RuleListing
import ProxyConsole.Proofs.Console.Rejection
import ProxyConsole.Proofs.Client.Places
import ProxyConsole.Proofs.Client.Polling
import ProxyConsole.Proofs.Client.Readiness
import ProxyConsole.Proofs.Client.DelayTests
import ProxyConsole.Proofs.Client.Batches
import ProxyConsole.Proofs.Client.Replay
import ProxyConsole.Proofs.Client.DelayBatch
import ProxyConsole.Proofs.Percent
import ProxyConsole.Proofs.Client.Paths
import ProxyConsole.Proofs.Client.DelayGrant
import ProxyConsole.Proofs.Json.Pieces
import ProxyConsole.Proofs.Json.NumeralShape
import ProxyConsole.Proofs.Json.Grammar
import ProxyConsole.Proofs.Json.Harmless
import ProxyConsole.Proofs.Wire.Tolerance
import ProxyConsole.Proofs.Toml.Reread
import ProxyConsole.Proofs.Console.Setting
import ProxyConsole.Proofs.Rounding
import ProxyConsole.Proofs.Display.ByteCount
import ProxyConsole.Proofs.Correlator.IdSpace
