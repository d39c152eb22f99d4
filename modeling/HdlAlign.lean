import HdlAlign.Assignment.Basic
import HdlAlign.Assignment.Column
import HdlAlign.Audit
import HdlAlign.Block.Align
import HdlAlign.Block.Stability
import HdlAlign.Cache.Payload
import HdlAlign.Cache.Store
import HdlAlign.Command.Execute
import HdlAlign.Command.Flag
import HdlAlign.Command.Format
import HdlAlign.Command.Report
import HdlAlign.Command.Value
import HdlAlign.Command.Version
import HdlAlign.Decimal.Double
import HdlAlign.Decimal.Fixed
import HdlAlign.Decimal.Shortest
import HdlAlign.Diagnostic.Bag
import HdlAlign.Diagnostic.Basic
import HdlAlign.Diagnostic.Document
import HdlAlign.Diagnostic.Pretty
import HdlAlign.Diagnostic.Preview
import HdlAlign.Diagnostic.Short
import HdlAlign.Digest.Sha256
import HdlAlign.Disk
import HdlAlign.Json.Value
import HdlAlign.Layout.Batch
import HdlAlign.Layout.Line
import HdlAlign.Layout.Writer
import HdlAlign.Main
import HdlAlign.Ports.Separator
import HdlAlign.Progress.Event
import HdlAlign.Progress.Model
import HdlAlign.Range.Column
import HdlAlign.Range.Groups
import HdlAlign.Run.Format
import HdlAlign.Run.Interleaved
import HdlAlign.Run.Reported
import HdlAlign.Run.Outcome
import HdlAlign.Run.Sources
import HdlAlign.Settings.Basic
import HdlAlign.Settings.Discovery
import HdlAlign.Settings.Glob
import HdlAlign.Source.Encoding
import HdlAlign.Source.File
import HdlAlign.Source.FileSet
import HdlAlign.Source.LineRange
import HdlAlign.Source.Path
import HdlAlign.Source.Span
import HdlAlign.Statement.Declaration
import HdlAlign.Statement.Grammar
import HdlAlign.Statement.Port
import HdlAlign.Text.Basic
import HdlAlign.Text.Blank
import HdlAlign.Text.Case
import HdlAlign.Text.Cluster
import HdlAlign.Text.Numeral
import HdlAlign.Text.Pattern
import HdlAlign.Text.Quoted
import HdlAlign.Text.Style
import HdlAlign.Text.Utf8
import HdlAlign.Text.Width
import HdlAlign.Timing.Duration
import HdlAlign.Timing.Timer
import HdlAlign.Toml.Document
import HdlAlign.Toml.Reader
import HdlAlign.Toml.Scalar
import HdlAlign.Toml.Value
import HdlAlign.Trace.Event
import HdlAlign.Trace.Output
import HdlAlign.Trace.Recorder
import HdlAlign.Trace.Ring
import HdlAlign.Unicode.BreakClass
import HdlAlign.Unicode.CodeRanges
import HdlAlign.Unicode.Columns
import HdlAlign.Unicode.LowerCase
import HdlAlign.Unicode.Printable
import HdlAlign.Proofs.Characters
import HdlAlign.Proofs.Respacing
import HdlAlign.Proofs.Cuts
import HdlAlign.Proofs.Columns
import HdlAlign.Proofs.Pieces
import HdlAlign.Proofs.Lines
import HdlAlign.Proofs.Declarations
import HdlAlign.Proofs.Framing
import HdlAlign.Proofs.PortLists
import HdlAlign.Proofs.Conservation
import HdlAlign.Proofs.Comments
import HdlAlign.Proofs.Rendering
import HdlAlign.Proofs.Separators
import HdlAlign.Proofs.Boundaries
import HdlAlign.Proofs.LineStructure
import HdlAlign.Proofs.Footer
import HdlAlign.Proofs.Plain
import HdlAlign.Proofs.Normal
import HdlAlign.Proofs.NumberedLines
import HdlAlign.Proofs.Offsets
import HdlAlign.Proofs.LineRanges
import HdlAlign.Proofs.Placement
import HdlAlign.Proofs.Tidy
import HdlAlign.Proofs.Squeezed
import HdlAlign.Proofs.Laid
import HdlAlign.Proofs.Worded
import HdlAlign.Proofs.Rereading
import HdlAlign.Proofs.AssignmentRereading
import HdlAlign.Proofs.DeclarationRereading
import HdlAlign.Proofs.PortRereading
import HdlAlign.Proofs.RoundTrip
import HdlAlign.Proofs.Reporting
import HdlAlign.Proofs.Walks
import HdlAlign.Proofs.Delivery
import HdlAlign.Proofs.Verification
import HdlAlign.Proofs.LineEndings
import HdlAlign.Proofs.Selections
import HdlAlign.Proofs.Payloads
import HdlAlign.Proofs.Indices
import HdlAlign.Proofs.Paths
import HdlAlign.Proofs.Keys
import HdlAlign.Proofs.Transparency
import HdlAlign.Proofs.Directories
import HdlAlign.Proofs.KeyValue
import HdlAlign.Proofs.Brackets
import HdlAlign.Proofs.Dimensions
import HdlAlign.Proofs.Justified
import HdlAlign.Proofs.Mismatches
import HdlAlign.Proofs.Groups
import HdlAlign.Proofs.PortLines
import HdlAlign.Proofs.Reframing
import HdlAlign.Proofs.Reprinting
import HdlAlign.Proofs.Stripping
import HdlAlign.Proofs.Reformatting
import HdlAlign.Proofs.Sequences
import HdlAlign.Proofs.Units
import HdlAlign.Proofs.Storage
import HdlAlign.Proofs.Modes
import HdlAlign.Proofs.Stages
import HdlAlign.Proofs.Interleavings
import HdlAlign.Proofs.Parallel
import HdlAlign.Proofs.Measures
import HdlAlign.Proofs.Reordering
import HdlAlign.Proofs.Widening
import HdlAlign.Proofs.Untouched
import HdlAlign.Proofs.Access
import HdlAlign.Proofs.Extraction
import HdlAlign.Proofs.Printing
import HdlAlign.Proofs.Passes
import HdlAlign.Proofs.Bounds
import HdlAlign.Proofs.Verdicts
import HdlAlign.Proofs.Rows
import HdlAlign.Proofs.Events
import HdlAlign.Proofs.Sequential
import HdlAlign.Proofs.Progress
import HdlAlign.Proofs.Positions
import HdlAlign.Proofs.Frames
import HdlAlign.Proofs.LineSpans
import HdlAlign.Proofs.Pointing
import HdlAlign.Proofs.Spacing
import HdlAlign.Proofs.Assignments
import HdlAlign.Proofs.Literals
import HdlAlign.Proofs.SelectedLines
import HdlAlign.Proofs.Runs
import HdlAlign.Proofs.Comparisons
import HdlAlign.Proofs.Previews
import HdlAlign.Proofs.Collection
import HdlAlign.Proofs.LastNames
import HdlAlign.Proofs.Extensions
import HdlAlign.Proofs.RelativePaths
import HdlAlign.Proofs.Exclusion
import HdlAlign.Proofs.Capacity
import HdlAlign.Proofs.Deduplication
import HdlAlign.Proofs.Excerpts
import HdlAlign.Proofs.SingleLines
import HdlAlign.Proofs.ShortReports
import HdlAlign.Proofs.Rings
import HdlAlign.Proofs.Versions
import HdlAlign.Proofs.Nearest
import HdlAlign.Proofs.Anchors
import HdlAlign.Proofs.Alike
import HdlAlign.Proofs.DeclarationLines
import HdlAlign.Proofs.Margins
import HdlAlign.Proofs.ModuleHeads
import HdlAlign.Proofs.Idempotence
