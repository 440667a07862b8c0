import PipelineShell.Attempt
import PipelineShell.Builtin
import PipelineShell.Builtin.Copying
import PipelineShell.Builtin.Directory
import PipelineShell.Builtin.Lookup
import PipelineShell.Builtin.Probe
import PipelineShell.Builtin.Record
import PipelineShell.Builtin.Run
import PipelineShell.Calendar
import PipelineShell.Calendar.Format
import PipelineShell.Completer
import PipelineShell.Console
import PipelineShell.Environment
import PipelineShell.Execution
import PipelineShell.Failure
import PipelineShell.FileMatches
import PipelineShell.FileTree
import PipelineShell.FileTree.Change
import PipelineShell.FileTree.Setup
import PipelineShell.FileTree.Walk
import PipelineShell.History
import PipelineShell.Job
import PipelineShell.Line
import PipelineShell.Main
import PipelineShell.Path
import PipelineShell.Pipeline
import PipelineShell.Pipeline.Parser
import PipelineShell.Pipeline.Printer
import PipelineShell.Pipeline.Segment
import PipelineShell.Program
import PipelineShell.Proofs.Attempt
import PipelineShell.Proofs.Completion.Folding
import PipelineShell.Proofs.Completion.Forests
import PipelineShell.Proofs.Completion.Tries
import PipelineShell.Proofs.Conduct
import PipelineShell.Proofs.Conduct.Builtins
import PipelineShell.Proofs.Dataflow.Calls
import PipelineShell.Proofs.Dataflow.Execute
import PipelineShell.Proofs.Dataflow.Fold
import PipelineShell.Proofs.Dataflow.Stages
import PipelineShell.Proofs.Debts
import PipelineShell.Proofs.Jobs
import PipelineShell.Proofs.Lexing.Characters
import PipelineShell.Proofs.Lexing.OnePass
import PipelineShell.Proofs.Lexing.RoundTrip
import PipelineShell.Proofs.Lexing.Segments
import PipelineShell.Proofs.Lexing.Stages
import PipelineShell.Proofs.Lexing.Words
import PipelineShell.Proofs.Openings
import PipelineShell.Proofs.Orderly
import PipelineShell.Proofs.Paths
import PipelineShell.Proofs.Redirected
import PipelineShell.Proofs.Survival.Calls
import PipelineShell.Proofs.Survival.Clean
import PipelineShell.Proofs.Survival.Endurance
import PipelineShell.Proofs.Survival.Faults
import PipelineShell.Proofs.Survival.Lines
import PipelineShell.Proofs.Survival.Loop
import PipelineShell.Proofs.Survival.Stages
import PipelineShell.Proofs.Trees
import PipelineShell.Proofs.Writers
import PipelineShell.Redirection
import PipelineShell.Refusal
import PipelineShell.Registry
import PipelineShell.Relay
import PipelineShell.Repl
import PipelineShell.Script.Field
import PipelineShell.Script.Number
import PipelineShell.Script.Printf
import PipelineShell.Script.Process
import PipelineShell.Script.Programs
import PipelineShell.Script.Sequence
import PipelineShell.Script.Shown
import PipelineShell.Script.Statement
import PipelineShell.Script.Token
import PipelineShell.Script.Tool
import PipelineShell.SearchPath
import PipelineShell.Session
import PipelineShell.Settings
import PipelineShell.Settings.File
import PipelineShell.Settings.Value
import PipelineShell.Shell
import PipelineShell.Suggestion
import PipelineShell.Text.Blank
import PipelineShell.Text.CaseTable
import PipelineShell.Text.Fold
import PipelineShell.Text.Hidden
import PipelineShell.Text.Integer
import PipelineShell.Text.Lines
import PipelineShell.Text.Literal
import PipelineShell.Text.Pieces
import PipelineShell.Text.Sorted
import PipelineShell.Text.Upper
import PipelineShell.Text.Utf8
import PipelineShell.Trie
import PipelineShell.Trie.Forest
import PipelineShell.Word
import PipelineShell.Word.Lexer
import PipelineShell.World
import PipelineShell.Writer.Block
import PipelineShell.Writer.Text
import PipelineShell.Proofs.Completion.Suggestions
import PipelineShell.Proofs.Completion.Sharing
import PipelineShell.Proofs.Completion.Repetition
import PipelineShell.Proofs.Completion.LetterCase
import PipelineShell.Proofs.Conduct.Stages
import PipelineShell.Proofs.Abort.Causes
import PipelineShell.Proofs.Abort.Execute
import PipelineShell.Proofs.Transparency.Builtins
import PipelineShell.Proofs.Transparency.Decoding
import PipelineShell.Proofs.Transparency.Calls
import PipelineShell.Proofs.Transparency.Stages
import PipelineShell.Proofs.Transparency.Execute
import PipelineShell.Proofs.Lexing.Grammar
import PipelineShell.Proofs.Lexing.Layout
import PipelineShell.Proofs.Lookup.Walks
import PipelineShell.Proofs.Lookup.Listing
import PipelineShell.Proofs.Companions
import PipelineShell.Proofs.Replay.Calls
import PipelineShell.Proofs.Replay.Stages
import PipelineShell.Proofs.Replay.Lines
import PipelineShell.Proofs.Lag.Kinds
import PipelineShell.Proofs.Lag.Trees
import PipelineShell.Proofs.Lag.Writers
import PipelineShell.Proofs.Lag.Calls
import PipelineShell.Proofs.Lag.Closings
import PipelineShell.Proofs.Lag.Stages
import PipelineShell.Proofs.Lag.Between
import PipelineShell.Proofs.Lag.Cat
import PipelineShell.Proofs.Lag.Execute
import PipelineShell.Proofs.Lookup.Dispatch
import PipelineShell.Proofs.Lookup.Registrations
import PipelineShell.Proofs.Lookup.Completed
import PipelineShell.Proofs.Holdings.Traces
import PipelineShell.Proofs.Holdings.Jobs
import PipelineShell.Proofs.Holdings.Released
import PipelineShell.Proofs.Relays.Links
import PipelineShell.Proofs.Relays.Chains
import PipelineShell.Proofs.Writers.Pieces
import PipelineShell.Proofs.Relays.Sizes
import PipelineShell.Proofs.Relays.Agreement
import PipelineShell.Proofs.Conduct.Frames
import PipelineShell.Proofs.Numbering.Histories
import PipelineShell.Proofs.Numbering.Sessions
import PipelineShell.Proofs.Intake.Builtins
import PipelineShell.Proofs.Intake.Stages
import PipelineShell.Proofs.Intake.Turns
import PipelineShell.Proofs.Copying.LineEnds
import PipelineShell.Proofs.Copying.Opened
import PipelineShell.Proofs.Copying.Writers
import PipelineShell.Proofs.Copying.Calls
import PipelineShell.Proofs.Copying.Copies
import PipelineShell.Proofs.Copying.Targets
import PipelineShell.Proofs.Copying.RoundTrips
import PipelineShell.Proofs.Conduct.Effects
import PipelineShell.Proofs.Conduct.Sinks
import PipelineShell.Proofs.Overlooking
import PipelineShell.Proofs.Stopping.Answers
import PipelineShell.Proofs.Stopping.Execute
import PipelineShell.Proofs.Writers.Steps
import PipelineShell.Proofs.Touching.Trees
import PipelineShell.Proofs.Touching.Calls
import PipelineShell.Proofs.Touching.Stages
import PipelineShell.Proofs.Touching.Execute
import PipelineShell.Proofs.Routes.Pumps
import PipelineShell.Proofs.Routes.Processes
import PipelineShell.Proofs.Routes.Agreement
import PipelineShell.Proofs.Lexing.Extraction
import PipelineShell.Proofs.Lexing.Cutting
import PipelineShell.Proofs.Lexing.Insertion
import PipelineShell.Proofs.Accumulation.Writers
import PipelineShell.Proofs.Accumulation.Calls
import PipelineShell.Proofs.Accumulation.Stages
import PipelineShell.Proofs.Accumulation.Lines
import PipelineShell.Proofs.Lookup.Search
import PipelineShell.Proofs.Filenames.Entries
import PipelineShell.Proofs.Filenames.Matches
