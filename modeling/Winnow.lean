import Winnow.Bound
import Winnow.Chunks
import Winnow.Digest
import Winnow.Engine.Basic
import Winnow.Engine.Cursor
import Winnow.Engine.Data
import Winnow.Engine.Debug
import Winnow.Engine.Filter
import Winnow.Engine.Session
import Winnow.Expression.Literal
import Winnow.Expression.Tree
import Winnow.Expression.Validation
import Winnow.Failure
import Winnow.FailureReport
import Winnow.Functions
import Winnow.Geo.Point
import Winnow.Geo.Region
import Winnow.Logging
import Winnow.Matching.Evaluation
import Winnow.Matching.Match
import Winnow.Memo.Key
import Winnow.Memo.Patterns
import Winnow.Memo.Recent
import Winnow.Memo.Results
import Winnow.Monitor
import Winnow.Number.Exact
import Winnow.Number.Read
import Winnow.Number.Shortest
import Winnow.Number.Text
import Winnow.Operator.Builtin
import Winnow.Operator.Comparison
import Winnow.Operator.Meaning
import Winnow.Operator.Operand
import Winnow.Operator.Registry
import Winnow.Operator.Table
import Winnow.Options
import Winnow.Order.SortKey
import Winnow.Order.Sorting
import Winnow.Pattern.Basic
import Winnow.Pattern.Match
import Winnow.Pattern.Parse
import Winnow.Pattern.Safety
import Winnow.Pattern.Tree
import Winnow.Pattern.Wildcard
import Winnow.Proofs.Chunks
import Winnow.Proofs.EarlyExit
import Winnow.Proofs.Engine.Agreement
import Winnow.Proofs.Engine.Calls
import Winnow.Proofs.Engine.Debugging
import Winnow.Proofs.Engine.EarlyExit
import Winnow.Proofs.Engine.EntryPoints
import Winnow.Proofs.Engine.History
import Winnow.Proofs.Engine.PatternGates
import Winnow.Proofs.Engine.Refiltering
import Winnow.Proofs.Engine.Request
import Winnow.Proofs.Engine.Results
import Winnow.Proofs.Engine.Run
import Winnow.Proofs.Engine.Serving
import Winnow.Proofs.Engine.SetUp
import Winnow.Proofs.Engine.Shorthands
import Winnow.Proofs.Engine.Sound
import Winnow.Proofs.Engine.TableInUse
import Winnow.Proofs.Engine.TracedRuns
import Winnow.Proofs.Engine.Validation
import Winnow.Proofs.Engine.Wildcards
import Winnow.Proofs.Expression.Arrived
import Winnow.Proofs.Expression.Compared
import Winnow.Proofs.Expression.Depth
import Winnow.Proofs.Expression.Entries
import Winnow.Proofs.Expression.Keys
import Winnow.Proofs.Expression.LookedUp
import Winnow.Proofs.Expression.Plain
import Winnow.Proofs.Expression.ReadBack
import Winnow.Proofs.Expression.Rejection
import Winnow.Proofs.Expression.Reordered
import Winnow.Proofs.Expression.Transported
import Winnow.Proofs.Geo.Bounds
import Winnow.Proofs.Geo.Polygon
import Winnow.Proofs.Lists
import Winnow.Proofs.Matching.Agree
import Winnow.Proofs.Matching.DotPaths
import Winnow.Proofs.Matching.Keys
import Winnow.Proofs.Matching.MissingField
import Winnow.Proofs.Matching.Tables
import Winnow.Proofs.Matching.Totality
import Winnow.Proofs.Memo.History
import Winnow.Proofs.Memo.Inclusion
import Winnow.Proofs.Memo.Key
import Winnow.Proofs.Memo.PatternHistory
import Winnow.Proofs.Memo.Patterns
import Winnow.Proofs.Memo.Pinning
import Winnow.Proofs.Memo.Recent
import Winnow.Proofs.Memo.ResultHistory
import Winnow.Proofs.Memo.ResultRetention
import Winnow.Proofs.Memo.Results
import Winnow.Proofs.Memo.Retention
import Winnow.Proofs.Number.Decimal
import Winnow.Proofs.Number.Exact
import Winnow.Proofs.Number.FloatBits
import Winnow.Proofs.Number.Nearest
import Winnow.Proofs.Number.Order
import Winnow.Proofs.Number.Shortest
import Winnow.Proofs.Operator.AgeBounds
import Winnow.Proofs.Operator.Instants
import Winnow.Proofs.Operator.Meaning
import Winnow.Proofs.Operator.Operand
import Winnow.Proofs.Operator.Registered
import Winnow.Proofs.Operator.Reordered
import Winnow.Proofs.Operator.Resembling
import Winnow.Proofs.Operator.Standing
import Winnow.Proofs.Operator.Strictness
import Winnow.Proofs.Operator.Versions
import Winnow.Proofs.Options.DebugFlag
import Winnow.Proofs.Options.Domain
import Winnow.Proofs.Options.Entries
import Winnow.Proofs.Options.Layers
import Winnow.Proofs.Options.NormalForms
import Winnow.Proofs.Options.Values
import Winnow.Proofs.Order.Comparing
import Winnow.Proofs.Order.SortKeys
import Winnow.Proofs.Order.Sorting
import Winnow.Proofs.Order.Written
import Winnow.Proofs.Outcome
import Winnow.Proofs.Pattern.Flags
import Winnow.Proofs.Pattern.Gates
import Winnow.Proofs.Pattern.IgnoreCase
import Winnow.Proofs.Pattern.Nesting
import Winnow.Proofs.Pattern.Reading
import Winnow.Proofs.Pattern.Safety
import Winnow.Proofs.Pattern.Wildcard
import Winnow.Proofs.Pattern.WildcardMatch
import Winnow.Proofs.Scan
import Winnow.Proofs.Time.Age
import Winnow.Proofs.Time.Calendar
import Winnow.Proofs.Time.IsoText
import Winnow.Proofs.Time.Now
import Winnow.Proofs.Time.WallClock
import Winnow.Proofs.Trace.Drawing
import Winnow.Proofs.Trace.Events
import Winnow.Proofs.Trace.Flow
import Winnow.Proofs.Trace.Plain
import Winnow.Proofs.Transport.Arrived
import Winnow.Proofs.Transport.Bytes
import Winnow.Proofs.Transport.Canonical
import Winnow.Proofs.Transport.JsonFloat
import Winnow.Proofs.Transport.JsonReading
import Winnow.Proofs.Transport.JsonRoundTrip
import Winnow.Proofs.Transport.JsonText
import Winnow.Proofs.Transport.MessagePack
import Winnow.Proofs.Transport.Positions
import Winnow.Proofs.Transport.RoundTrip
import Winnow.Proofs.Transport.Sameness
import Winnow.Proofs.Transport.Unpacking
import Winnow.Proofs.Value.Arrived
import Winnow.Proofs.Value.Equality
import Winnow.Proofs.Value.Induction
import Winnow.Proofs.Value.Parts
import Winnow.Proofs.Value.Reordered
import Winnow.Proofs.Value.Resembling
import Winnow.Proofs.Value.Symmetry
import Winnow.Record.Attribute
import Winnow.Record.Path
import Winnow.Scan
import Winnow.Settings.Basic
import Winnow.Text.Case
import Winnow.Text.CaseTable
import Winnow.Text.Class
import Winnow.Text.Identifier
import Winnow.Text.Quoted
import Winnow.Text.Ranges
import Winnow.Time.Age
import Winnow.Time.Calendar
import Winnow.Time.IsoText
import Winnow.Time.Moment
import Winnow.Time.Now
import Winnow.Time.Span
import Winnow.Trace.Basic
import Winnow.Trace.Ledger
import Winnow.Trace.Match
import Winnow.Trace.Text
import Winnow.Transport.Bytes
import Winnow.Transport.Canonical
import Winnow.Transport.JsonReader
import Winnow.Transport.JsonWriter
import Winnow.Transport.MessagePack
import Winnow.Value.Basic
import Winnow.Value.Order
import Winnow.Value.Slots
import Winnow.Value.Text
import Winnow.Yaml.Atom
import Winnow.Yaml.Content
import Winnow.Yaml.Grammar
import Winnow.Yaml.Graph
import Winnow.Yaml.Lexer
import Winnow.Yaml.Place
import Winnow.Yaml.Property
import Winnow.Yaml.ScalarText
import Winnow.Yaml.Tag
import Winnow.Yaml.Token
