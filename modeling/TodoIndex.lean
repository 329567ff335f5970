import TodoIndex.Commandline.Commands
import TodoIndex.Commandline.Daemon
import TodoIndex.Commandline.Failure
import TodoIndex.Commandline.Reach
import TodoIndex.Commandline.Request
import TodoIndex.Commandline.Run
import TodoIndex.Commandline.Service
import TodoIndex.Commandline.Words
import TodoIndex.Extension
import TodoIndex.Extraction
import TodoIndex.Files.Difference
import TodoIndex.Files.Disk
import TodoIndex.Files.Folder
import TodoIndex.Files.OsError
import TodoIndex.Files.Path
import TodoIndex.Helper.Output
import TodoIndex.Helper.Run
import TodoIndex.Ignore.Glob
import TodoIndex.Ignore.Project
import TodoIndex.Ignore.Rules
import TodoIndex.Json.Printer
import TodoIndex.Json.Reader
import TodoIndex.Json.Value
import TodoIndex.Language
import TodoIndex.Main
import TodoIndex.Marker
import TodoIndex.Note
import TodoIndex.NoteFilter
import TodoIndex.OrderedMap
import TodoIndex.Proofs.Files.View
import TodoIndex.Readers
import TodoIndex.Reading
import TodoIndex.Registry.Document
import TodoIndex.Registry.Plugins
import TodoIndex.Registry.Projects
import TodoIndex.Remark
import TodoIndex.Scan.Engine
import TodoIndex.Scan.Report
import TodoIndex.Scan.Shared
import TodoIndex.Settings.Basic
import TodoIndex.Settings.Decoding
import TodoIndex.Settings.Document
import TodoIndex.Settings.Layers
import TodoIndex.Settings.Variables
import TodoIndex.Shell.Arithmetic
import TodoIndex.Shell.Command
import TodoIndex.Shell.Machine
import TodoIndex.Shell.Pattern
import TodoIndex.Shell.Printing
import TodoIndex.Shell.Reader
import TodoIndex.Shell.Runner
import TodoIndex.Shell.Search
import TodoIndex.Shell.Tool
import TodoIndex.Store.Basic
import TodoIndex.Store.Document
import TodoIndex.Store.Saving
import TodoIndex.Syntax.Go
import TodoIndex.Syntax.Lexeme
import TodoIndex.Syntax.Parser
import TodoIndex.Syntax.Python
import TodoIndex.Syntax.Rust
import TodoIndex.Syntax.Script
import TodoIndex.Syntax.Script.Element
import TodoIndex.Syntax.Script.Expression
import TodoIndex.Syntax.Script.Lexis
import TodoIndex.Syntax.Script.Rules
import TodoIndex.Syntax.Script.Statement
import TodoIndex.Syntax.Tree
import TodoIndex.Text.Blank
import TodoIndex.Text.Lines
import TodoIndex.Text.LowerCase
import TodoIndex.Text.Quoted
import TodoIndex.Text.Utf8
import TodoIndex.Toml.Growth
import TodoIndex.Toml.Moment
import TodoIndex.Toml.Number
import TodoIndex.Toml.Printer
import TodoIndex.Toml.Quoted
import TodoIndex.Toml.Reader
import TodoIndex.Toml.Value
import TodoIndex.Walk
import TodoIndex.Watch.Company
import TodoIndex.Watch.Debouncer
import TodoIndex.Watch.Edit
import TodoIndex.Watch.Loop
import TodoIndex.Watch.Poll
import TodoIndex.Watch.Session
import TodoIndex.Watch.Source
import TodoIndex.Watch.WatchSet
import TodoIndex.Watch.Watcher
import TodoIndex.Proofs.Files.Changes
import TodoIndex.Proofs.Watch.Ownership
import TodoIndex.Proofs.Watch.Pending
import TodoIndex.Proofs.Files.Paths
import TodoIndex.Proofs.Files.Writes
import TodoIndex.Proofs.Store.TemporaryName
import TodoIndex.Proofs.Files.Drafts
import TodoIndex.Proofs.Files.Directories
import TodoIndex.Proofs.Store.AllOrNothing
import TodoIndex.Proofs.Files.Ancestors
import TodoIndex.Proofs.Files.Passages
import TodoIndex.Proofs.Store.Sites
import TodoIndex.Proofs.Json.Printing
import TodoIndex.Proofs.OrderedMap
import TodoIndex.Proofs.Store.Documents
import TodoIndex.Proofs.Store.RoundTrip
import TodoIndex.Proofs.Scan.Commits
import TodoIndex.Proofs.Scan.Alone
import TodoIndex.Proofs.Scan.Serial
import TodoIndex.Proofs.Watch.Subscriptions
import TodoIndex.Proofs.Watch.Turns
import TodoIndex.Proofs.Watch.Coverage
import TodoIndex.Proofs.Watch.Strays
import TodoIndex.Proofs.Files.Children
import TodoIndex.Proofs.Files.Arrangement
import TodoIndex.Proofs.Walk.Visits
import TodoIndex.Proofs.Walk.Enumeration
import TodoIndex.Proofs.Walk.Span
import TodoIndex.Proofs.Watch.Outlines
import TodoIndex.Proofs.Watch.Coalescing
import TodoIndex.Proofs.Scan.Results
import TodoIndex.Proofs.Files.Words
import TodoIndex.Proofs.Files.Descents
import TodoIndex.Proofs.Store.SavingAgain
import TodoIndex.Proofs.Scan.Repetition
import TodoIndex.Proofs.Walk.Subtrees
import TodoIndex.Proofs.Watch.Territories
import TodoIndex.Proofs.Watch.Scenes
import TodoIndex.Proofs.Watch.Alignment
import TodoIndex.Proofs.Watch.InStep
import TodoIndex.Proofs.Watch.Agreement
import TodoIndex.Proofs.Watch.Spawning
import TodoIndex.Proofs.Walk.Files
import TodoIndex.Proofs.Watch.Freshness
import TodoIndex.Proofs.Scan.Places
import TodoIndex.Proofs.Scan.Telling
import TodoIndex.Proofs.Scan.Ending
import TodoIndex.Proofs.Watch.Draining
import TodoIndex.Proofs.Watch.Stopping
import TodoIndex.Proofs.Watch.Promptness
import TodoIndex.Proofs.Ignore.Defaults
import TodoIndex.Proofs.Watch.OwnWrites
import TodoIndex.Proofs.Watch.Attention
import TodoIndex.Proofs.Watch.Lifecycle
import TodoIndex.Proofs.Store.Folders
import TodoIndex.Proofs.Store.Outcomes
import TodoIndex.Proofs.Scan.Batches
import TodoIndex.Proofs.Toml.Tables
import TodoIndex.Proofs.Toml.Growth
import TodoIndex.Proofs.Toml.Scalars
import TodoIndex.Proofs.Settings.Decoding
import TodoIndex.Proofs.Settings.Variables
import TodoIndex.Proofs.Settings.Leaves
import TodoIndex.Proofs.Settings.Ranges
import TodoIndex.Proofs.Settings.Spelling
import TodoIndex.Proofs.Settings.Layering
import TodoIndex.Proofs.Commandline.Selection
import TodoIndex.Proofs.Files.Written
import TodoIndex.Proofs.Toml.Values
import TodoIndex.Proofs.Toml.Printing
import TodoIndex.Proofs.Settings.Saving
import TodoIndex.Proofs.Watch.Delivery
import TodoIndex.Proofs.Watch.Histories
import TodoIndex.Proofs.Watch.Sweeps
import TodoIndex.Proofs.Watch.Realignment
import TodoIndex.Proofs.Text.Trimming
import TodoIndex.Proofs.Text.Lines
import TodoIndex.Proofs.Marker.Detection
import TodoIndex.Proofs.Marker.Cleaning
import TodoIndex.Proofs.Syntax.Positions
import TodoIndex.Proofs.Extraction
import TodoIndex.Proofs.Ignore.Meaning
import TodoIndex.Proofs.Walk.Rewording
import TodoIndex.Proofs.Helper.Lines
import TodoIndex.Proofs.Helper.Printing
import TodoIndex.Proofs.Watch.Appearances
import TodoIndex.Proofs.Syntax.Rounds
import TodoIndex.Proofs.Syntax.Trivia
import TodoIndex.Proofs.Syntax.Agreement
import TodoIndex.Proofs.Syntax.Script.Agreement
import TodoIndex.Proofs.Syntax.Script.Depth
import TodoIndex.Proofs.Syntax.Go
import TodoIndex.Proofs.Syntax.Python
import TodoIndex.Proofs.Syntax.Rust
import TodoIndex.Proofs.Syntax.Lowering
import TodoIndex.Proofs.LineFeeds
import TodoIndex.Proofs.Extension
import TodoIndex.Proofs.Readers
import TodoIndex.Proofs.Store.Projects
import TodoIndex.Proofs.Store.Adding
import TodoIndex.Proofs.Watch.FailedStarts
import TodoIndex.Proofs.PhysicalLines
import TodoIndex.Proofs.Syntax.Traversal
import TodoIndex.Proofs.Syntax.Attribution
