import DefiniteIntegral.Arithmetic
import DefiniteIntegral.Command.Action
import DefiniteIntegral.Command.Folder
import DefiniteIntegral.Command.Line
import DefiniteIntegral.Command.Run
import DefiniteIntegral.Command.Words
import DefiniteIntegral.Config.Document
import DefiniteIntegral.Config.Settings
import DefiniteIntegral.Config.Store
import DefiniteIntegral.Error
import DefiniteIntegral.Expr.Eval
import DefiniteIntegral.Expr.Integrand
import DefiniteIntegral.Expr.Parser
import DefiniteIntegral.Expr.Token
import DefiniteIntegral.Expr.Tree
import DefiniteIntegral.Identity
import DefiniteIntegral.Integration.Compute
import DefiniteIntegral.Integration.Request
import DefiniteIntegral.Json.Fault
import DefiniteIntegral.Json.Number
import DefiniteIntegral.Json.Reading
import DefiniteIntegral.Json.Record
import DefiniteIntegral.Json.RequestText
import DefiniteIntegral.Json.ResultText
import DefiniteIntegral.Json.Value
import DefiniteIntegral.Main
import DefiniteIntegral.Number.Binary64
import DefiniteIntegral.Number.Decimal
import DefiniteIntegral.Number.Layout
import DefiniteIntegral.Number.Shortest
import DefiniteIntegral.Output.Format
import DefiniteIntegral.Output.Record
import DefiniteIntegral.Proofs.Arithmetic.Exact
import DefiniteIntegral.Proofs.Command.Action
import DefiniteIntegral.Proofs.Command.Configuring
import DefiniteIntegral.Proofs.Command.Integrating
import DefiniteIntegral.Proofs.Command.Overriding
import DefiniteIntegral.Proofs.Config.Partial
import DefiniteIntegral.Proofs.Config.RoundTrip
import DefiniteIntegral.Proofs.Config.Settings
import DefiniteIntegral.Proofs.Config.Transfer
import DefiniteIntegral.Proofs.Expr.Blanks
import DefiniteIntegral.Proofs.Expr.Completeness
import DefiniteIntegral.Proofs.Expr.Evaluation
import DefiniteIntegral.Proofs.Expr.Grammar
import DefiniteIntegral.Proofs.Expr.Parsing
import DefiniteIntegral.Proofs.Expr.Reference
import DefiniteIntegral.Proofs.Expr.Scanning
import DefiniteIntegral.Proofs.Expr.Soundness
import DefiniteIntegral.Proofs.Expr.Unambiguity
import DefiniteIntegral.Proofs.Expr.Vocabulary
import DefiniteIntegral.Proofs.Integration.Dependence
import DefiniteIntegral.Proofs.Integration.Failures
import DefiniteIntegral.Proofs.Integration.Outcomes
import DefiniteIntegral.Proofs.Integration.Randomness
import DefiniteIntegral.Proofs.Integration.Soundness
import DefiniteIntegral.Proofs.Integration.ZeroWidth
import DefiniteIntegral.Proofs.Json.Grammar
import DefiniteIntegral.Proofs.Json.Numbers
import DefiniteIntegral.Proofs.Json.Reading
import DefiniteIntegral.Proofs.Json.Requests
import DefiniteIntegral.Proofs.Json.Results
import DefiniteIntegral.Proofs.Json.Strings
import DefiniteIntegral.Proofs.Json.Writing
import DefiniteIntegral.Proofs.Number.Bits
import DefiniteIntegral.Proofs.Number.Bounds
import DefiniteIntegral.Proofs.Number.Decimal
import DefiniteIntegral.Proofs.Number.Nearest
import DefiniteIntegral.Proofs.Number.Notation
import DefiniteIntegral.Proofs.Number.Numeral
import DefiniteIntegral.Proofs.Number.Operations
import DefiniteIntegral.Proofs.Number.Ordering
import DefiniteIntegral.Proofs.Number.Rounding
import DefiniteIntegral.Proofs.Number.Shortest
import DefiniteIntegral.Proofs.Number.Sign
import DefiniteIntegral.Proofs.Number.Values
import DefiniteIntegral.Proofs.Outcome
import DefiniteIntegral.Proofs.Output.Csv
import DefiniteIntegral.Proofs.Quadrature.Calibration
import DefiniteIntegral.Proofs.Quadrature.Cells
import DefiniteIntegral.Proofs.Quadrature.Composite
import DefiniteIntegral.Proofs.Quadrature.Draws
import DefiniteIntegral.Proofs.Quadrature.Estimates
import DefiniteIntegral.Proofs.Quadrature.Formulas
import DefiniteIntegral.Proofs.Quadrature.Means
import DefiniteIntegral.Proofs.Quadrature.Nodes
import DefiniteIntegral.Proofs.Quadrature.Polynomials
import DefiniteIntegral.Proofs.Quadrature.Ranges
import DefiniteIntegral.Proofs.Quadrature.Reversal
import DefiniteIntegral.Proofs.Quadrature.Sampling
import DefiniteIntegral.Proofs.Quadrature.Spacing
import DefiniteIntegral.Proofs.Quadrature.Splitting
import DefiniteIntegral.Proofs.Quadrature.Width
import DefiniteIntegral.Proofs.Random.Draws
import DefiniteIntegral.Proofs.Random.Generator
import DefiniteIntegral.Proofs.Server.Broadcast
import DefiniteIntegral.Proofs.Server.Completion
import DefiniteIntegral.Proofs.Server.Delivery
import DefiniteIntegral.Proofs.Server.Entrances
import DefiniteIntegral.Proofs.Server.History
import DefiniteIntegral.Proofs.Server.Independence
import DefiniteIntegral.Proofs.Server.Interleaving
import DefiniteIntegral.Proofs.Server.Messages
import DefiniteIntegral.Proofs.Server.Offers
import DefiniteIntegral.Proofs.Server.Origins
import DefiniteIntegral.Proofs.Server.Request
import DefiniteIntegral.Proofs.Server.Responses
import DefiniteIntegral.Proofs.Server.Running
import DefiniteIntegral.Proofs.Server.Sharing
import DefiniteIntegral.Proofs.Server.Sockets
import DefiniteIntegral.Proofs.Server.Starting
import DefiniteIntegral.Proofs.Server.Subscription
import DefiniteIntegral.Proofs.Server.Updates
import DefiniteIntegral.Proofs.Text.Pieces
import DefiniteIntegral.Proofs.Toml.Digits
import DefiniteIntegral.Proofs.Toml.Grammar
import DefiniteIntegral.Proofs.Toml.Lines
import DefiniteIntegral.Proofs.Toml.Moments
import DefiniteIntegral.Proofs.Toml.Quotes
import DefiniteIntegral.Proofs.Toml.Quoting
import DefiniteIntegral.Proofs.Toml.Spaces
import DefiniteIntegral.Proofs.Toml.Tables
import DefiniteIntegral.Proofs.Toml.Values
import DefiniteIntegral.Proofs.Toml.Words
import DefiniteIntegral.Quadrature.Method
import DefiniteIntegral.Quadrature.Rules
import DefiniteIntegral.Quadrature.Samples
import DefiniteIntegral.Random.Source
import DefiniteIntegral.Random.Stream
import DefiniteIntegral.Server.Address
import DefiniteIntegral.Server.Http
import DefiniteIntegral.Server.Hub
import DefiniteIntegral.Server.MediaType
import DefiniteIntegral.Server.Message
import DefiniteIntegral.Server.MessageText
import DefiniteIntegral.Server.Queue
import DefiniteIntegral.Server.State
import DefiniteIntegral.Server.Task
import DefiniteIntegral.Text.Blank
import DefiniteIntegral.Text.Hex
import DefiniteIntegral.Text.Pieces
import DefiniteIntegral.Text.Quoted
import DefiniteIntegral.Text.Visible
import DefiniteIntegral.Toml.Moment
import DefiniteIntegral.Toml.Reading
import DefiniteIntegral.Toml.Scalar
import DefiniteIntegral.Toml.Space
import DefiniteIntegral.Toml.Text
import DefiniteIntegral.Toml.Value
