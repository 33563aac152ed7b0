import SheetScript.Cascade.Basic
import SheetScript.Host.Event
import SheetScript.Host.Store
import SheetScript.Main
import SheetScript.Proofs.Cascade.Order
import SheetScript.Proofs.Entries
import SheetScript.Proofs.Run.Subscriptions
import SheetScript.Proofs.Cascade.Agreement
import SheetScript.Proofs.Cascade.Change
import SheetScript.Proofs.Run.History
import SheetScript.Proofs.Value.References
import SheetScript.Proofs.Engine.History
import SheetScript.Proofs.Sheet.Staging
import SheetScript.Proofs.Run.Staging
import SheetScript.Proofs.Cascade.Failure
import SheetScript.Proofs.Host.Failure
import SheetScript.Proofs.Cascade.Disabled
import SheetScript.Proofs.Run.Budgets
import SheetScript.Proofs.Engine.Isolation
import SheetScript.Proofs.Run.Plan
import SheetScript.Proofs.Run.Termination
import SheetScript.Proofs.Token.Lexeme
import SheetScript.Proofs.Token.Lexer
import SheetScript.Proofs.Token.Spelling
import SheetScript.Proofs.Program.Printable
import SheetScript.Proofs.Program.Reads
import SheetScript.Proofs.Program.Reading
import SheetScript.Proofs.Program.RoundTrip
import SheetScript.Proofs.Program.Grammar
import SheetScript.Proofs.Program.Accepts
import SheetScript.Proofs.Program.Shown
import SheetScript.Proofs.Program.Depth
import SheetScript.Proofs.Token.Gaps
import SheetScript.Proofs.Token.Extent
import SheetScript.Proofs.Token.Steps
import SheetScript.Proofs.Token.Layout
import SheetScript.Proofs.Token.Spans
import SheetScript.Proofs.Engine.Recency
import SheetScript.Proofs.Engine.Cache
import SheetScript.Proofs.Engine.Rewriting
import SheetScript.Proofs.Host.Notice
import SheetScript.Proofs.Run.Watch
import SheetScript.Proofs.Run.FirstWrites
import SheetScript.Proofs.Host.Written
import SheetScript.Proofs.Cascade.LeastOrder
import SheetScript.Proofs.Number.Binary
import SheetScript.Proofs.Value.Exported
import SheetScript.Proofs.Cascade.Reported
import SheetScript.Proofs.Cascade.Resubscription
import SheetScript.Proofs.Value.Places
import SheetScript.Proofs.Run.Variables
import SheetScript.Proofs.Run.IndexAssignment
import SheetScript.Proofs.Run.Evaluations
import SheetScript.Proofs.Run.Log
import SheetScript.Proofs.Run.Naming
import SheetScript.Proofs.Run.Bindings
import SheetScript.Proofs.Run.Deeds
import SheetScript.Proofs.Run.Compound
import SheetScript.Proofs.Run.Reserved
import SheetScript.Proofs.Engine.Handlers
import SheetScript.Proofs.Run.Backtrace
import SheetScript.Proofs.Token.Abreast
import SheetScript.Proofs.Token.LineEnds
import SheetScript.Proofs.Token.IdleLines
import SheetScript.Proofs.Program.Hoisted
import SheetScript.Proofs.Value.Hoisted
import SheetScript.Proofs.Run.Discreet
import SheetScript.Proofs.Run.Hoisting
import SheetScript.Proofs.Number.Integer
import SheetScript.Proofs.Value.Equality
import SheetScript.Proofs.Value.Returned
import SheetScript.Proofs.Value.KeyOrder
import SheetScript.Proofs.Program.Balanced
import SheetScript.Proofs.Program.Alongside
import SheetScript.Proofs.Program.Parting
import SheetScript.Proofs.Program.Blocks
import SheetScript.Proofs.Program.Guarded
import SheetScript.Proofs.Program.Following
import SheetScript.Proofs.Program.Safety
import SheetScript.Proofs.Table.Lookup
import SheetScript.Proofs.Run.Charts
import SheetScript.Proofs.Engine.Options
import SheetScript.Proofs.Run.Regime
import SheetScript.Proofs.Run.ScopeGraph
import SheetScript.Proofs.Run.Stages
import SheetScript.Proofs.Run.Ancestry
import SheetScript.Proofs.Record.Ids
import SheetScript.Proofs.Cascade.Numbered
