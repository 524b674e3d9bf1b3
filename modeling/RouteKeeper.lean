import RouteKeeper.Address
import RouteKeeper.Address.Text
import RouteKeeper.Agent
import RouteKeeper.DataFormat
import RouteKeeper.Decimal.Binary64
import RouteKeeper.Decimal.Fixed
import RouteKeeper.Decimal.Shortest
import RouteKeeper.Diagnostic
import RouteKeeper.Double
import RouteKeeper.Duration
import RouteKeeper.Duration.Text
import RouteKeeper.Echo
import RouteKeeper.Error
import RouteKeeper.Feed
import RouteKeeper.Fields
import RouteKeeper.FirstLeast
import RouteKeeper.Flags
import RouteKeeper.Group
import RouteKeeper.Json
import RouteKeeper.Json.Reader
import RouteKeeper.Json.Records
import RouteKeeper.Ledger
import RouteKeeper.Logging
import RouteKeeper.Name
import RouteKeeper.OrderedMap
import RouteKeeper.OsError
import RouteKeeper.Path
import RouteKeeper.Prefix
import RouteKeeper.Prefix.Text
import RouteKeeper.Probe
import RouteKeeper.Probe.Network
import RouteKeeper.Probe.Stats
import RouteKeeper.Proofs.Accounting
import RouteKeeper.Proofs.Claims
import RouteKeeper.Proofs.Convergence
import RouteKeeper.Proofs.FirstLeast
import RouteKeeper.Proofs.History
import RouteKeeper.Proofs.Lookups
import RouteKeeper.Proofs.Numbering
import RouteKeeper.Proofs.Operations
import RouteKeeper.Proofs.OrderedMap
import RouteKeeper.Proofs.Pass
import RouteKeeper.Proofs.Resolve
import RouteKeeper.Proofs.Routes
import RouteKeeper.Proofs.Turns
import RouteKeeper.Quality
import RouteKeeper.ReadFault
import RouteKeeper.Reason
import RouteKeeper.Reconcile
import RouteKeeper.Reconcile.Conflicts
import RouteKeeper.Reconcile.Entries
import RouteKeeper.RouteTable
import RouteKeeper.RouteTable.Memory
import RouteKeeper.RouteTable.System
import RouteKeeper.Router
import RouteKeeper.Selection
import RouteKeeper.Service
import RouteKeeper.Settings
import RouteKeeper.Settings.File
import RouteKeeper.Text.Reader
import RouteKeeper.Text.Utf8
import RouteKeeper.Text.Visible
import RouteKeeper.Text.Words
import RouteKeeper.Toml.Document
import RouteKeeper.Toml.Scalar
import RouteKeeper.Toml.Value
import RouteKeeper.Toml.Writer
import RouteKeeper.Window
import RouteKeeper.Proofs.Choices
import RouteKeeper.Proofs.Schedule
import RouteKeeper.Proofs.Winner
import RouteKeeper.Proofs.Sweep
import RouteKeeper.Proofs.Waiting
import RouteKeeper.Proofs.Again
import RouteKeeper.Proofs.Runs
import RouteKeeper.Proofs.Ownership
import RouteKeeper.Proofs.Faithful
import RouteKeeper.Proofs.Foreign
import RouteKeeper.Proofs.Serving
import RouteKeeper.Proofs.Rewrites
import RouteKeeper.Proofs.Comparable
import RouteKeeper.Proofs.LeastLoss
import RouteKeeper.Proofs.Hysteresis
import RouteKeeper.Proofs.OnCourse
import RouteKeeper.Proofs.Refusals
import RouteKeeper.Proofs.Repeats
import RouteKeeper.Proofs.PreferDirect
import RouteKeeper.Proofs.Flush
import RouteKeeper.Proofs.Renewal
import RouteKeeper.Proofs.Canonical
import RouteKeeper.Proofs.Reconfiguration
import RouteKeeper.Proofs.Separation
import RouteKeeper.Proofs.VisitOrder
import RouteKeeper.Proofs.ChangeEvents
import RouteKeeper.Proofs.EchoMessages
import RouteKeeper.Proofs.Rounds
import RouteKeeper.Proofs.LateReplies
import RouteKeeper.Proofs.Peers
import RouteKeeper.Proofs.EchoRoundTrip
import RouteKeeper.Proofs.Recent
import RouteKeeper.Proofs.Samples
import RouteKeeper.Proofs.Loops
import RouteKeeper.Proofs.Stopping
import RouteKeeper.Proofs.Desired
import RouteKeeper.Proofs.Measures
import RouteKeeper.Proofs.Specified
import RouteKeeper.Proofs.PlainText
import RouteKeeper.Proofs.CommandLine
import RouteKeeper.Proofs.SystemTable
import RouteKeeper.Proofs.Checksum
import RouteKeeper.Proofs.EchoGrammar
import RouteKeeper.Proofs.PrefixKeys
import RouteKeeper.Proofs.Calls
import RouteKeeper.Proofs.LossLimit
import RouteKeeper.Proofs.Reasons
import RouteKeeper.Proofs.RoundCounts
import RouteKeeper.Proofs.PublishedReason
import RouteKeeper.Proofs.Statuses
import RouteKeeper.Proofs.PendingMarks
import RouteKeeper.Proofs.Soundness
import RouteKeeper.Proofs.Settlements
import RouteKeeper.Proofs.Averages
import RouteKeeper.Proofs.Readers
import RouteKeeper.Proofs.Quoting
import RouteKeeper.Proofs.Numerals
import RouteKeeper.Proofs.DurationTexts
import RouteKeeper.Proofs.Encoding
import RouteKeeper.Proofs.TomlLines
import RouteKeeper.Proofs.TomlSections
import RouteKeeper.Proofs.SettingsFiles
import RouteKeeper.Proofs.BestPath
import RouteKeeper.Proofs.ExactSelections
