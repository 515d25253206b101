import TsProject.Cli.Arguments
import TsProject.Cli.Command
import TsProject.Cli.Usage
import TsProject.Config.Document
import TsProject.Config.Extends
import TsProject.Config.Layer
import TsProject.Config.Load
import TsProject.Config.Reading
import TsProject.Diagnostic.Basic
import TsProject.Diagnostic.Entry
import TsProject.Diagnostic.Output
import TsProject.Engine.Compiler
import TsProject.Engine.Project
import TsProject.Engine.Settings
import TsProject.Engine.Unit
import TsProject.Failure
import TsProject.Fault
import TsProject.Json.Basic
import TsProject.Json.Comments
import TsProject.Json.Parser
import TsProject.Json.Printer
import TsProject.Json.Token
import TsProject.Log
import TsProject.Main
import TsProject.Merge
import TsProject.Number.Binary64
import TsProject.Options.Check
import TsProject.Options.Schema
import TsProject.Options.Suggest
import TsProject.Path
import TsProject.Pipeline.Action
import TsProject.Pipeline.Request
import TsProject.Plugin
import TsProject.Run
import TsProject.Selection.Extension
import TsProject.Selection.Select
import TsProject.Selection.Spec
import TsProject.Selection.Walk
import TsProject.Text.Blank
import TsProject.Text.Cased
import TsProject.Text.Digit
import TsProject.Text.Lines
import TsProject.Text.Lower
import TsProject.Text.LowerTable
import TsProject.Text.Printable
import TsProject.Text.Quoted
import TsProject.Text.Runs
import TsProject.Text.Similarity
import TsProject.Text.Split
import TsProject.Text.Utf8
import TsProject.Text.Words
import TsProject.Tracers
import TsProject.World.Access
import TsProject.World.Basic
import TsProject.World.Setup
import TsProject.Proofs.Path.Normal
import TsProject.Proofs.Selection.Glob
import TsProject.Proofs.World.Levels
import TsProject.Proofs.World.Lookup
import TsProject.Proofs.Selection.Roots
import TsProject.Proofs.Selection.Select
import TsProject.Proofs.Path.Below
import TsProject.Proofs.Selection.Base
import TsProject.Proofs.Selection.Coverage
import TsProject.Proofs.Json.Fields
import TsProject.Proofs.Options.Check
import TsProject.Proofs.Config.Chain
import TsProject.Proofs.Config.Inheritance
import TsProject.Proofs.Config.Collect
import TsProject.Proofs.Text.Numeral
import TsProject.Proofs.Text.Lines
import TsProject.Proofs.Diagnostic.Chain
import TsProject.Proofs.Text.Blank
import TsProject.Proofs.Diagnostic.Head
import TsProject.Proofs.Diagnostic.RoundTrip
import TsProject.Proofs.Options.Paths
import TsProject.Proofs.Config.Loaded
import TsProject.Proofs.Engine.Project
import TsProject.Proofs.Run
import TsProject.Proofs.Pipeline.Resolve
import TsProject.Proofs.Config.Extended
import TsProject.Proofs.Config.Answers
import TsProject.Proofs.Engine.Emission
import TsProject.Proofs.Options.Kinds
import TsProject.Proofs.Config.Mapping
import TsProject.Proofs.Config.Problems
import TsProject.Proofs.Config.Outcome
import TsProject.Proofs.Json.StringBody
import TsProject.Proofs.Json.Lexeme
import TsProject.Proofs.Json.Acceptance
import TsProject.Proofs.Json.Decoration
import TsProject.Proofs.Selection.Inside
import TsProject.Proofs.Selection.Exclusion
import TsProject.Proofs.Config.Lists
import TsProject.Proofs.Config.Outputs
import TsProject.Proofs.World.Moved
import TsProject.Proofs.Path.Tidy
import TsProject.Proofs.Config.Anywhere
import TsProject.Proofs.Config.Circular
import TsProject.Proofs.Engine.Exits
import TsProject.Proofs.Diagnostic.Reading
import TsProject.Proofs.Engine.Cleanup
import TsProject.Proofs.Text.Words
import TsProject.Proofs.Engine.Answers
import TsProject.Proofs.Options.Overrides
import TsProject.Proofs.Options.Settled
import TsProject.Proofs.Path.Stem
import TsProject.Proofs.Engine.Validity
import TsProject.Proofs.Pipeline.Handover
import TsProject.Proofs.World.Contents
import TsProject.Proofs.Config.Ignored
import TsProject.Proofs.Pipeline.Nulls
import TsProject.Proofs.Json.Positions
import TsProject.Proofs.Json.Regions
import TsProject.Proofs.Json.Sweep
import TsProject.Proofs.Diagnostic.Accounting
import TsProject.Proofs.Selection.Scripts
import TsProject.Proofs.Options.Loading
import TsProject.Proofs.Path.Relative
import TsProject.Proofs.Engine.Placement
import TsProject.Proofs.Config.Defaults
import TsProject.Proofs.World.Upward
import TsProject.Proofs.Config.Bases
import TsProject.Proofs.Pipeline.Keywords
import TsProject.Proofs.Selection.Apart
