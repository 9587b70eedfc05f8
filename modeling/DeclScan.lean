import DeclScan.Cache
import DeclScan.Console.Arguments
import DeclScan.Console.Command
import DeclScan.Console.CommandLine
import DeclScan.Console.Failure
import DeclScan.Console.Listing
import DeclScan.Console.Output
import DeclScan.Console.Run
import DeclScan.Console.Session
import DeclScan.Console.Standard
import DeclScan.Debounce
import DeclScan.Extractor
import DeclScan.FileStore
import DeclScan.Json.Comments
import DeclScan.Json.Display
import DeclScan.Json.Reader
import DeclScan.Json.Value
import DeclScan.Json.Writer
import DeclScan.Language.JavaScript
import DeclScan.Language.JsonDocument
import DeclScan.Language.Python
import DeclScan.Language.Vue
import DeclScan.Language.Yaml
import DeclScan.Log
import DeclScan.Log.Conversion
import DeclScan.Log.Entry
import DeclScan.Log.Layout
import DeclScan.Log.Template
import DeclScan.Main
import DeclScan.Memory
import DeclScan.Monitor
import DeclScan.Number.Binary64
import DeclScan.Number.Decimal
import DeclScan.Number.Significant
import DeclScan.Occurrence
import DeclScan.Path
import DeclScan.Periodic
import DeclScan.Record
import DeclScan.Registry
import DeclScan.Sampler
import DeclScan.Scan.Pool
import DeclScan.Scan.Rules
import DeclScan.Scan.Scanner
import DeclScan.Scan.Worker
import DeclScan.Settings.Basic
import DeclScan.Settings.Check
import DeclScan.Settings.Fault
import DeclScan.Settings.Layer
import DeclScan.Settings.Libraries
import DeclScan.Settings.Load
import DeclScan.Settings.Mapping
import DeclScan.Settings.Scalar
import DeclScan.Settings.Standard
import DeclScan.Table
import DeclScan.Text.Basic
import DeclScan.Text.CaseMap
import DeclScan.Text.CharClass
import DeclScan.Text.Document
import DeclScan.Text.Quoted
import DeclScan.Text.Search
import DeclScan.Text.Similarity
import DeclScan.Text.Tables
import DeclScan.Text.Utf8
import DeclScan.Timers.Basic
import DeclScan.Timers.Exact
import DeclScan.Timers.Host
import DeclScan.Timers.Program
import DeclScan.Timers.Script
import DeclScan.Usage
import DeclScan.Variable
import DeclScan.Watcher
import DeclScan.Workspace
import DeclScan.YamlText.Node
import DeclScan.YamlText.Reader
import DeclScan.YamlText.Scalar
import DeclScan.Proofs.Cache.Bookkeeping
import DeclScan.Proofs.Cache.Eviction
import DeclScan.Proofs.Cache.Recency
import DeclScan.Proofs.Cache.RecencyList
import DeclScan.Proofs.Cache.Session
import DeclScan.Proofs.Console.Delivery
import DeclScan.Proofs.Console.Documents
import DeclScan.Proofs.Debounce.Awaited
import DeclScan.Proofs.Debounce.Ownership
import DeclScan.Proofs.Debounce.Trailing
import DeclScan.Proofs.Endings
import DeclScan.Proofs.Files.History
import DeclScan.Proofs.Files.Paths
import DeclScan.Proofs.Files.Tree
import DeclScan.Proofs.Json.Comments
import DeclScan.Proofs.Json.Grammar
import DeclScan.Proofs.Json.Layout
import DeclScan.Proofs.Json.Locality
import DeclScan.Proofs.Json.RoundTrip
import DeclScan.Proofs.Json.Separation
import DeclScan.Proofs.Json.Tokens
import DeclScan.Proofs.Language.Assignments
import DeclScan.Proofs.Language.Blocks
import DeclScan.Proofs.Language.Brackets
import DeclScan.Proofs.Language.Columns
import DeclScan.Proofs.Language.Comments
import DeclScan.Proofs.Language.Comparisons
import DeclScan.Proofs.Language.Declarations
import DeclScan.Proofs.Language.Declarators
import DeclScan.Proofs.Language.Extents
import DeclScan.Proofs.Language.ImportColumns
import DeclScan.Proofs.Language.ImportEnds
import DeclScan.Proofs.Language.ImportLayout
import DeclScan.Proofs.Language.ImportLines
import DeclScan.Proofs.Language.Imports
import DeclScan.Proofs.Language.Initialisers
import DeclScan.Proofs.Language.KeyLines
import DeclScan.Proofs.Language.LineEnds
import DeclScan.Proofs.Language.Listing
import DeclScan.Proofs.Language.Masking
import DeclScan.Proofs.Language.Origins
import DeclScan.Proofs.Language.Parameters
import DeclScan.Proofs.Language.Positions
import DeclScan.Proofs.Language.Renaming
import DeclScan.Proofs.Language.Scripts
import DeclScan.Proofs.Language.Seams
import DeclScan.Proofs.Language.Statements
import DeclScan.Proofs.Measurements
import DeclScan.Proofs.Memory
import DeclScan.Proofs.Monitor
import DeclScan.Proofs.Number.Order
import DeclScan.Proofs.Number.Ratio
import DeclScan.Proofs.Number.UnitInterval
import DeclScan.Proofs.Occurrence
import DeclScan.Proofs.Record
import DeclScan.Proofs.References
import DeclScan.Proofs.Registry
import DeclScan.Proofs.Run
import DeclScan.Proofs.Sampling
import DeclScan.Proofs.Scan.Coherence
import DeclScan.Proofs.Scan.Coverage
import DeclScan.Proofs.Scan.Extents
import DeclScan.Proofs.Scan.Faithful
import DeclScan.Proofs.Scan.Hotspots
import DeclScan.Proofs.Scan.Interleaving
import DeclScan.Proofs.Scan.Operations
import DeclScan.Proofs.Scan.Outcomes
import DeclScan.Proofs.Scan.Results
import DeclScan.Proofs.Scan.Transparency
import DeclScan.Proofs.Settings.Environment
import DeclScan.Proofs.Settings.Failures
import DeclScan.Proofs.Settings.Merging
import DeclScan.Proofs.Settings.Precedence
import DeclScan.Proofs.Text.Blanks
import DeclScan.Proofs.Text.Coordinates
import DeclScan.Proofs.Text.Found
import DeclScan.Proofs.Text.Framed
import DeclScan.Proofs.Text.LineEnds
import DeclScan.Proofs.Text.Lower
import DeclScan.Proofs.Text.Place
import DeclScan.Proofs.Text.Places
import DeclScan.Proofs.Text.Words
import DeclScan.Proofs.Timers.Clock
import DeclScan.Proofs.Timers.Execution
import DeclScan.Proofs.Timers.OneShot
import DeclScan.Proofs.Timers.Queue
import DeclScan.Proofs.Timers.Refinement
import DeclScan.Proofs.Timers.Repeating
import DeclScan.Proofs.Timers.Representation
import DeclScan.Proofs.Timers.Schedule
import DeclScan.Proofs.Timers.Simulation
import DeclScan.Proofs.Timers.Stages
import DeclScan.Proofs.Timers.Steady
import DeclScan.Proofs.Timers.TaskTable
import DeclScan.Proofs.Timers.Termination
import DeclScan.Proofs.Timers.Unnested
import DeclScan.Proofs.Unused
import DeclScan.Proofs.Usage
import DeclScan.Proofs.Watch.Covered
import DeclScan.Proofs.Watch.Monitoring
import DeclScan.Proofs.Watch.Pipeline
import DeclScan.Proofs.Watch.Rescans
import DeclScan.Proofs.Window
