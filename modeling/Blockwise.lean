import Blockwise.Catalog
import Blockwise.Catalog.English
import Blockwise.Catalog.Template
import Blockwise.Chart
import Blockwise.Chart.Editing
import Blockwise.Chart.Format
import Blockwise.Chart.Role
import Blockwise.Decimal
import Blockwise.Decimal.Shortest
import Blockwise.Demo
import Blockwise.Desk
import Blockwise.Desk.Window
import Blockwise.Dialogue
import Blockwise.Dictionary
import Blockwise.Double
import Blockwise.Evaluation
import Blockwise.Fault
import Blockwise.Fault.Cause
import Blockwise.Function
import Blockwise.Function.Body
import Blockwise.Json
import Blockwise.Json.Printer
import Blockwise.Json.Reader
import Blockwise.Main
import Blockwise.Number
import Blockwise.Program
import Blockwise.Proofs.Catalog.Entries
import Blockwise.Proofs.Catalog.Filling
import Blockwise.Proofs.Catalog.Wording
import Blockwise.Proofs.Chart.Editing
import Blockwise.Proofs.Chart.RoundTrip
import Blockwise.Proofs.Chart.Walk
import Blockwise.Proofs.Cursor
import Blockwise.Proofs.Decimal
import Blockwise.Proofs.Decimal.Shortest
import Blockwise.Proofs.Desk.Agreement
import Blockwise.Proofs.Desk.Diagnostics
import Blockwise.Proofs.Desk.Order
import Blockwise.Proofs.Desk.Repaint
import Blockwise.Proofs.Desk.Sitting
import Blockwise.Proofs.Dialogue
import Blockwise.Proofs.Dictionary
import Blockwise.Proofs.Double
import Blockwise.Proofs.Double.Rounding
import Blockwise.Proofs.Evaluation
import Blockwise.Proofs.Evaluation.CalledOff
import Blockwise.Proofs.Evaluation.Causes
import Blockwise.Proofs.Evaluation.Closure
import Blockwise.Proofs.Evaluation.Effects
import Blockwise.Proofs.Evaluation.Failures
import Blockwise.Proofs.Evaluation.FirstError
import Blockwise.Proofs.Evaluation.Frames
import Blockwise.Proofs.Evaluation.Interpolation
import Blockwise.Proofs.Evaluation.Interruption
import Blockwise.Proofs.Evaluation.Logic
import Blockwise.Proofs.Evaluation.Names
import Blockwise.Proofs.Evaluation.Propagation
import Blockwise.Proofs.Evaluation.Purity
import Blockwise.Proofs.Evaluation.Soundness
import Blockwise.Proofs.Grammar
import Blockwise.Proofs.Grammar.Cursor
import Blockwise.Proofs.Grammar.Exactness
import Blockwise.Proofs.Grammar.Lookahead
import Blockwise.Proofs.Grammar.Outcome
import Blockwise.Proofs.Grammar.Readers
import Blockwise.Proofs.Grammar.Shapes
import Blockwise.Proofs.Grammar.Soundness
import Blockwise.Proofs.Grammar.Totality
import Blockwise.Proofs.Grammar.Viability
import Blockwise.Proofs.Json.RoundTrip
import Blockwise.Proofs.Lexeme
import Blockwise.Proofs.Lexeme.Codec
import Blockwise.Proofs.Lexeme.Cursor
import Blockwise.Proofs.Lexeme.Exactness
import Blockwise.Proofs.Lexeme.Literals
import Blockwise.Proofs.Lexeme.Quoting
import Blockwise.Proofs.Number
import Blockwise.Proofs.Number.Literals
import Blockwise.Proofs.Phrase
import Blockwise.Proofs.Phrase.RoundTrip
import Blockwise.Proofs.Program.Exactness
import Blockwise.Proofs.Program.Failures
import Blockwise.Proofs.Program.Locality
import Blockwise.Proofs.Run.Cancellation
import Blockwise.Proofs.Run.Delivery
import Blockwise.Proofs.Run.Ending
import Blockwise.Proofs.Run.Lifecycle
import Blockwise.Proofs.Run.Mirror
import Blockwise.Proofs.Run.Moves
import Blockwise.Proofs.Run.Pause
import Blockwise.Proofs.Run.Position
import Blockwise.Proofs.Run.Progress
import Blockwise.Proofs.Run.Reads
import Blockwise.Proofs.Run.Reference
import Blockwise.Proofs.Run.Refinement
import Blockwise.Proofs.Run.Reporting
import Blockwise.Proofs.Run.Requests
import Blockwise.Proofs.Run.Session
import Blockwise.Proofs.Run.Simulation
import Blockwise.Proofs.Run.Soundness
import Blockwise.Proofs.Run.Stages
import Blockwise.Proofs.Run.Steps
import Blockwise.Proofs.Run.Watch
import Blockwise.Proofs.Terminal.Answering
import Blockwise.Proofs.Terminal.Completion
import Blockwise.Proofs.Terminal.Conversation
import Blockwise.Proofs.Terminal.Exiting
import Blockwise.Proofs.Terminal.Invariants
import Blockwise.Proofs.Terminal.Pace
import Blockwise.Proofs.Terminal.Printing
import Blockwise.Proofs.Text
import Blockwise.Proofs.Trial
import Blockwise.Proofs.Trial.Evaluation
import Blockwise.Proofs.Trial.Functions
import Blockwise.Proofs.Trial.Operators
import Blockwise.Proofs.Trial.Runs
import Blockwise.Run
import Blockwise.Run.Channel
import Blockwise.Run.Rest
import Blockwise.Run.Signals
import Blockwise.Run.Worker
import Blockwise.Store
import Blockwise.Terminal
import Blockwise.Terminal.Options
import Blockwise.Text
import Blockwise.Text.Unprintable
import Blockwise.Token
import Blockwise.Token.Lexer
import Blockwise.Tree
import Blockwise.Tree.Parser
import Blockwise.Value
import Blockwise.Value.Operator
