import CallProbe.Call.Origin
import CallProbe.Call.Pattern
import CallProbe.Call.Prelude
import CallProbe.Call.Site
import CallProbe.Call.Target
import CallProbe.Call.Walk
import CallProbe.CommandLine.Build
import CallProbe.CommandLine.Command
import CallProbe.CommandLine.Expand
import CallProbe.CommandLine.Flag
import CallProbe.CommandLine.Help
import CallProbe.CommandLine.Plan
import CallProbe.CommandLine.Request
import CallProbe.CommandLine.Run
import CallProbe.CommandLine.Session
import CallProbe.Files.Glob
import CallProbe.Files.Host
import CallProbe.Files.Path
import CallProbe.Files.Tree
import CallProbe.Files.Walk
import CallProbe.Guard.Eval
import CallProbe.Layout.Doc
import CallProbe.Layout.Expr
import CallProbe.Layout.Item
import CallProbe.Layout.Tokens
import CallProbe.Layout.Type
import CallProbe.Main
import CallProbe.Manifest.Data
import CallProbe.Manifest.Document
import CallProbe.Manifest.Item
import CallProbe.Manifest.Printer
import CallProbe.Manifest.Quoted
import CallProbe.Manifest.Reader
import CallProbe.Manifest.Scalar
import CallProbe.Probe.Error
import CallProbe.Probe.Function
import CallProbe.Probe.Instrument
import CallProbe.Probe.Marker
import CallProbe.Probe.Plan
import CallProbe.Probe.Probed
import CallProbe.Probe.Prologue
import CallProbe.Probe.Wrap
import CallProbe.Profiler.Machine
import CallProbe.Profiler.Report
import CallProbe.Project.Binary
import CallProbe.Project.Compile
import CallProbe.Project.Dependency
import CallProbe.Project.Functions
import CallProbe.Project.Selection
import CallProbe.Project.Stage
import CallProbe.Project.Targets
import CallProbe.Proofs.Behaviour.Evaluation
import CallProbe.Proofs.Behaviour.Guarded
import CallProbe.Proofs.Behaviour.Nested
import CallProbe.Proofs.Behaviour.Places
import CallProbe.Proofs.Behaviour.Wrapped
import CallProbe.Proofs.CommandLine.Untouched
import CallProbe.Proofs.Files.Found
import CallProbe.Proofs.Files.Lookup
import CallProbe.Proofs.Grouping.Forms
import CallProbe.Proofs.Grouping.Operands
import CallProbe.Proofs.Grouping.Settled
import CallProbe.Proofs.Marked.Agreement
import CallProbe.Proofs.Marked.Imported
import CallProbe.Proofs.Marked.Printing
import CallProbe.Proofs.Pass.Again
import CallProbe.Proofs.Pass.Edited
import CallProbe.Proofs.Pass.Imports
import CallProbe.Proofs.Pass.Opening
import CallProbe.Proofs.Pass.Parsed
import CallProbe.Proofs.Pass.Reached
import CallProbe.Proofs.Pass.Reshaped
import CallProbe.Proofs.Pass.Resolved
import CallProbe.Proofs.Pass.Selected
import CallProbe.Proofs.Pass.Unmarked
import CallProbe.Proofs.Probe.Kept
import CallProbe.Proofs.Probe.Declared
import CallProbe.Proofs.Probe.Outcome
import CallProbe.Proofs.Probe.Profiled
import CallProbe.Proofs.Probe.Steps
import CallProbe.Proofs.Probe.Surveyed
import CallProbe.Proofs.Profiler.Balance
import CallProbe.Proofs.Profiler.Conservation
import CallProbe.Proofs.Profiler.Isolation
import CallProbe.Proofs.Profiler.Lifetimes
import CallProbe.Proofs.Profiler.Nesting
import CallProbe.Proofs.Profiler.Run
import CallProbe.Proofs.Profiler.Summary
import CallProbe.Proofs.Project.Arrives
import CallProbe.Proofs.Project.Copied
import CallProbe.Proofs.Project.Modules
import CallProbe.Proofs.Project.Probed
import CallProbe.Proofs.Project.Staged
import CallProbe.Proofs.Shape.Places
import CallProbe.Proofs.Shape.Regular
import CallProbe.Proofs.Shape.Survey
import CallProbe.Proofs.Snippet.Printed
import CallProbe.Proofs.Walk.Frame
import CallProbe.Proofs.Walk.Macros
import CallProbe.Proofs.Walk.Nodes
import CallProbe.Proofs.Walk.Parts
import CallProbe.Proofs.Walk.Scope
import CallProbe.Proofs.Walk.Visits
import CallProbe.Proofs.Wrap.Attributes
import CallProbe.Proofs.Wrap.Names
import CallProbe.Proofs.Wrap.Outcome
import CallProbe.Proofs.Wrap.Stacked
import CallProbe.Proofs.Wrap.Timed
import CallProbe.Proofs.Wrap.Unwrap
import CallProbe.Source.Grammar
import CallProbe.Source.Grouping
import CallProbe.Source.Lexer
import CallProbe.Source.Literal
import CallProbe.Source.Make
import CallProbe.Source.Parse.Core
import CallProbe.Source.Parse.Expr
import CallProbe.Source.Parse.Generics
import CallProbe.Source.Parse.Item
import CallProbe.Source.Parse.Pattern
import CallProbe.Source.Parse.Type
import CallProbe.Source.Token
import CallProbe.Source.Tree
import CallProbe.Text.CharClass
import CallProbe.Text.Json
import CallProbe.Text.Quoted
import CallProbe.Text.Words
import CallProbe.Time.Duration
import CallProbe.Time.Seconds
import CallProbe.Proofs.Grammar.Agree
import CallProbe.Proofs.Grammar.Exprs
import CallProbe.Proofs.Grammar.Items
import CallProbe.Proofs.Grammar.Nesting
import CallProbe.Proofs.Names.Matching
import CallProbe.Proofs.Names.Written
import CallProbe.Proofs.Names.Callees
import CallProbe.Proofs.Names.Printed
import CallProbe.Proofs.Pass.Rounds
import CallProbe.Proofs.Grammar.Commas
import CallProbe.Proofs.Options.Decimal
import CallProbe.Proofs.Options.Order
import CallProbe.Proofs.Options.Spelled
import CallProbe.Proofs.Project.Listed
import CallProbe.Proofs.Probe.Reread
