import Punctual.Check.Artifact
import Punctual.Check.Assembly
import Punctual.Check.Completion
import Punctual.Check.Delay
import Punctual.Check.Delegation
import Punctual.Check.Error
import Punctual.Check.Metadata
import Punctual.Check.Reachability
import Punctual.Check.Run
import Punctual.Check.Verdict
import Punctual.Check.World
import Punctual.CommandLine.Call
import Punctual.CommandLine.Programs
import Punctual.CommandLine.Run
import Punctual.CommandLine.Sources
import Punctual.CommandLine.Transcript
import Punctual.CommandLine.Usage
import Punctual.Configuration.Basic
import Punctual.Configuration.Data
import Punctual.Configuration.Load
import Punctual.Configuration.Settings
import Punctual.Duration
import Punctual.Fault
import Punctual.Files.Error
import Punctual.Files.Path
import Punctual.Files.Tree
import Punctual.Json.Access
import Punctual.Json.Reader
import Punctual.Json.Token
import Punctual.Json.Value
import Punctual.Json.Writer
import Punctual.Log
import Punctual.Main
import Punctual.Model.Combine
import Punctual.Model.Declaration
import Punctual.Model.Fragment
import Punctual.Model.Merged
import Punctual.Model.Plugin
import Punctual.Model.Section
import Punctual.Number.Binary64
import Punctual.Number.Range
import Punctual.Number.Read
import Punctual.Number.Shortest
import Punctual.Number.Written
import Punctual.PlantState
import Punctual.Proofs.Check.Agreement
import Punctual.Proofs.Check.Certificate
import Punctual.Proofs.Check.ClaimModel
import Punctual.Proofs.Check.Completeness
import Punctual.Proofs.Check.Completion
import Punctual.Proofs.Check.Course
import Punctual.Proofs.Check.Coverage
import Punctual.Proofs.Check.Decision
import Punctual.Proofs.Check.DelayRange
import Punctual.Proofs.Check.Earliest
import Punctual.Proofs.Check.Faults
import Punctual.Proofs.Check.HandingOn
import Punctual.Proofs.Check.Heuristic
import Punctual.Proofs.Check.Interference
import Punctual.Proofs.Check.Leftovers
import Punctual.Proofs.Check.Likeness
import Punctual.Proofs.Check.OwnReport
import Punctual.Proofs.Check.Preparation
import Punctual.Proofs.Check.Questions
import Punctual.Proofs.Check.Reachability
import Punctual.Proofs.Check.Recording
import Punctual.Proofs.Check.Selection
import Punctual.Proofs.Check.Series
import Punctual.Proofs.Check.TaskModel
import Punctual.Proofs.Check.Tightening
import Punctual.Proofs.Check.Verdict
import Punctual.Proofs.CommandLine.Accepted
import Punctual.Proofs.CommandLine.Itself
import Punctual.Proofs.CommandLine.Staleness
import Punctual.Proofs.CommandLine.Words
import Punctual.Proofs.Delay.Narrowing
import Punctual.Proofs.Delay.Probes
import Punctual.Proofs.Delay.Search
import Punctual.Proofs.Ending
import Punctual.Proofs.Files.Writing
import Punctual.Proofs.Json.Reading
import Punctual.Proofs.Json.Results
import Punctual.Proofs.Json.Scanning
import Punctual.Proofs.Model.Auxiliary
import Punctual.Proofs.Model.Clean
import Punctual.Proofs.Model.Conservation
import Punctual.Proofs.Model.Declaration
import Punctual.Proofs.Model.InitialState
import Punctual.Proofs.Model.Keywords
import Punctual.Proofs.Model.Merging
import Punctual.Proofs.Model.NormalForm
import Punctual.Proofs.Model.Parsing
import Punctual.Proofs.Model.Precedence
import Punctual.Proofs.Model.Rendering
import Punctual.Proofs.Model.Reparsing
import Punctual.Proofs.Schedule.Derivation
import Punctual.Proofs.Schedule.Order
import Punctual.Proofs.Schedule.Restriction
import Punctual.Proofs.Schedule.RoundTrip
import Punctual.Proofs.Solver.Framing
import Punctual.Proofs.Solver.Report
import Punctual.Proofs.Solver.Trace
import Punctual.Proofs.Specification.Chaining
import Punctual.Proofs.Specification.Formula
import Punctual.Proofs.Specification.Occurrence
import Punctual.Proofs.Specification.Ranges
import Punctual.Proofs.Specification.Reading
import Punctual.Proofs.Specification.Sections
import Punctual.Proofs.Text.Cuts
import Punctual.Proofs.Text.Decoding
import Punctual.Proofs.Text.Lines
import Punctual.Proofs.Text.Numeral
import Punctual.Proofs.Text.Trimming
import Punctual.Schedule.Basic
import Punctual.Schedule.Data
import Punctual.Schedule.Order
import Punctual.Schedule.Task
import Punctual.Shell.Builtin
import Punctual.Shell.Command
import Punctual.Shell.Digest
import Punctual.Shell.Edit.Basic
import Punctual.Shell.Edit.Reader
import Punctual.Shell.Edit.Run
import Punctual.Shell.Expression
import Punctual.Shell.Field
import Punctual.Shell.Find
import Punctual.Shell.Glob
import Punctual.Shell.Lookup
import Punctual.Shell.Machine
import Punctual.Shell.Octets
import Punctual.Shell.Parse
import Punctual.Shell.Program
import Punctual.Shell.Record.Basic
import Punctual.Shell.Record.Reader
import Punctual.Shell.Record.Run
import Punctual.Shell.Record.State
import Punctual.Shell.Record.Token
import Punctual.Shell.Record.Value
import Punctual.Shell.Regex
import Punctual.Shell.Run
import Punctual.Shell.Script
import Punctual.Shell.Starter
import Punctual.Shell.Sum
import Punctual.Shell.Tool
import Punctual.Shell.Tool.Column
import Punctual.Shell.Tool.Compare
import Punctual.Shell.Tool.Copy
import Punctual.Shell.Tool.Count
import Punctual.Shell.Tool.Differ
import Punctual.Shell.Tool.Dump
import Punctual.Shell.Tool.Files
import Punctual.Shell.Tool.Input
import Punctual.Shell.Tool.Options
import Punctual.Shell.Tool.Order
import Punctual.Shell.Tool.Print
import Punctual.Shell.Tool.Search
import Punctual.Shell.Tool.Translate
import Punctual.Shell.Written
import Punctual.Solver.Backend
import Punctual.Solver.Config
import Punctual.Solver.Error
import Punctual.Solver.Output
import Punctual.Solver.Process
import Punctual.Solver.Scripted
import Punctual.Solver.Session
import Punctual.Specification.Counts
import Punctual.Specification.Deadlines
import Punctual.Specification.Target
import Punctual.Text.Blank
import Punctual.Text.Digit
import Punctual.Text.Escape
import Punctual.Text.Hex
import Punctual.Text.Hidden
import Punctual.Text.Lines
import Punctual.Text.Search
import Punctual.Text.Utf8
import Punctual.Toml.Document
import Punctual.Toml.Moment
import Punctual.Toml.Scalar
import Punctual.Proofs.Model.Plugins
import Punctual.Proofs.Model.Dropping
import Punctual.Proofs.Solver.Query
import Punctual.Proofs.Specification.Numbering
import Punctual.Proofs.Schedule.Active
import Punctual.Proofs.Model.Repetition
import Punctual.Proofs.Model.Succession
import Punctual.Proofs.Model.Blocks
