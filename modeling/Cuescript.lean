import Cuescript.Catalogue.Actions
import Cuescript.Catalogue.Conditions
import Cuescript.Component.Basic
import Cuescript.Component.Registry
import Cuescript.Context
import Cuescript.Directive.Basic
import Cuescript.Directive.Error
import Cuescript.Directive.Line
import Cuescript.Directive.Listing
import Cuescript.Engine.Basic
import Cuescript.Engine.Channel
import Cuescript.Execution.Actions
import Cuescript.Execution.Guards
import Cuescript.Execution.Schedule
import Cuescript.Execution.Store
import Cuescript.Execution.Triggers
import Cuescript.Execution.World
import Cuescript.Forest.Compile
import Cuescript.Forest.Outline
import Cuescript.Forest.Placement
import Cuescript.Futures.Basic
import Cuescript.Interchange.Forms
import Cuescript.Json.Basic
import Cuescript.Json.Binary
import Cuescript.Json.Printer
import Cuescript.Json.Reader
import Cuescript.Node.Basic
import Cuescript.Node.Config
import Cuescript.Options.Bind
import Cuescript.Options.Error
import Cuescript.Options.Record
import Cuescript.Options.Schema
import Cuescript.Options.Token
import Cuescript.Options.Value
import Cuescript.Outcome.Basic
import Cuescript.Outcome.Combined
import Cuescript.Proofs.Component.Answers
import Cuescript.Proofs.Component.Registrations
import Cuescript.Proofs.Component.Removals
import Cuescript.Proofs.Directive.Lines
import Cuescript.Proofs.Directive.Listing
import Cuescript.Proofs.Directive.Written
import Cuescript.Proofs.Engine.Abstention
import Cuescript.Proofs.Engine.Announcements
import Cuescript.Proofs.Engine.Batches
import Cuescript.Proofs.Engine.Channel
import Cuescript.Proofs.Engine.Dispatch
import Cuescript.Proofs.Engine.Loading
import Cuescript.Proofs.Engine.Sequence
import Cuescript.Proofs.Execution.Annals
import Cuescript.Proofs.Execution.Claims
import Cuescript.Proofs.Execution.Courses
import Cuescript.Proofs.Execution.Crashes
import Cuescript.Proofs.Execution.Dates
import Cuescript.Proofs.Execution.Deferral
import Cuescript.Proofs.Execution.Exclusion
import Cuescript.Proofs.Execution.Forgetting
import Cuescript.Proofs.Execution.Immediate
import Cuescript.Proofs.Execution.Inquiries
import Cuescript.Proofs.Execution.Isolation
import Cuescript.Proofs.Execution.Ledger
import Cuescript.Proofs.Execution.Lifecycle
import Cuescript.Proofs.Execution.Memories
import Cuescript.Proofs.Execution.Mirrors
import Cuescript.Proofs.Execution.Moves
import Cuescript.Proofs.Execution.Progress
import Cuescript.Proofs.Execution.Prompt
import Cuescript.Proofs.Execution.Prospects
import Cuescript.Proofs.Execution.Records
import Cuescript.Proofs.Execution.Regions
import Cuescript.Proofs.Execution.Rehearsals
import Cuescript.Proofs.Execution.Remaining
import Cuescript.Proofs.Execution.Scripts
import Cuescript.Proofs.Execution.Steps
import Cuescript.Proofs.Execution.Tidings
import Cuescript.Proofs.Execution.Views
import Cuescript.Proofs.Execution.Waiting
import Cuescript.Proofs.Forest.Faults
import Cuescript.Proofs.Forest.Guards
import Cuescript.Proofs.Forest.Layout
import Cuescript.Proofs.Forest.Members
import Cuescript.Proofs.Forest.Nodes
import Cuescript.Proofs.Forest.Placement
import Cuescript.Proofs.Forest.Relabelling
import Cuescript.Proofs.Forest.Resolved
import Cuescript.Proofs.Forest.Revisions
import Cuescript.Proofs.Forest.Shape
import Cuescript.Proofs.Futures.Growth
import Cuescript.Proofs.Futures.History
import Cuescript.Proofs.Futures.Joins
import Cuescript.Proofs.Futures.Notes
import Cuescript.Proofs.Futures.Operations
import Cuescript.Proofs.Futures.Prospects
import Cuescript.Proofs.Futures.Wiring
import Cuescript.Proofs.Interchange.Configs
import Cuescript.Proofs.Options.Applications
import Cuescript.Proofs.Options.Binding
import Cuescript.Proofs.Options.Characters
import Cuescript.Proofs.Options.Fields
import Cuescript.Proofs.Options.Nesting
import Cuescript.Proofs.Options.Phrases
import Cuescript.Proofs.Options.Positions
import Cuescript.Proofs.Options.Quotes
import Cuescript.Proofs.Options.Records
import Cuescript.Proofs.Options.Reorderings
import Cuescript.Proofs.Options.Series
import Cuescript.Proofs.Options.Slots
import Cuescript.Proofs.Outcome.Conjunction
import Cuescript.Proofs.Positions
import Cuescript.Proofs.Script.Directories
import Cuescript.Proofs.Script.Loads
import Cuescript.Proofs.Text.Case
import Cuescript.Proofs.Text.Numerals
import Cuescript.Proofs.Text.Runs
import Cuescript.Proofs.Time.Notation
import Cuescript.Proofs.Time.Reading
import Cuescript.Proofs.Time.Shown
import Cuescript.Script.Config
import Cuescript.Script.Document
import Cuescript.Script.FileTree
import Cuescript.Script.Loader
import Cuescript.Table
import Cuescript.Target
import Cuescript.Text.Alphanumeric
import Cuescript.Text.Blank
import Cuescript.Text.CaseTable
import Cuescript.Text.Lowercase
import Cuescript.Text.Numeral
import Cuescript.Time.Basic
import Cuescript.Time.Calendar
import Cuescript.Time.Notation
import Cuescript.Yaml.Cursor
import Cuescript.Yaml.Document
import Cuescript.Yaml.Node
import Cuescript.Yaml.Plain
import Cuescript.Yaml.Scalar
import Cuescript.Yaml.Token
import Cuescript.Proofs.Script.Loads
import Cuescript.Proofs.Execution.Crashes
