import PipeQuery.Main
import PipeQuery.Proofs.Token.Word
import PipeQuery.Proofs.Token.Source
import PipeQuery.Proofs.Token.Literal
import PipeQuery.Proofs.Token.Rule
import PipeQuery.Proofs.Token.Reading
import PipeQuery.Proofs.Token.Tiling
import PipeQuery.Proofs.Parser.Separated
import PipeQuery.Proofs.Parser.Name
import PipeQuery.Proofs.Expr.Grammar
import PipeQuery.Proofs.Expr.Sound
import PipeQuery.Proofs.Expr.Complete
import PipeQuery.Proofs.Command.Grammar
import PipeQuery.Proofs.Command.Part
import PipeQuery.Proofs.Command.Pipeline
import PipeQuery.Proofs.Command.Run
import PipeQuery.Proofs.Token.Spelling
import PipeQuery.Proofs.Render.Core
import PipeQuery.Proofs.Text.Encoding
import PipeQuery.Proofs.Token.Lexed
import PipeQuery.Proofs.Render.Name
import PipeQuery.Proofs.Render.Expr
import PipeQuery.Proofs.Render.Source
import PipeQuery.Proofs.Render.Command
import PipeQuery.Proofs.Command.Complete
import PipeQuery.Proofs.Token.Ending
import PipeQuery.Proofs.Span
import PipeQuery.Proofs.Token.Piping
import PipeQuery.Proofs.Parser.Embedding
import PipeQuery.Proofs.Parser.Carried
import PipeQuery.Proofs.Expr.Carried
import PipeQuery.Proofs.Command.Carried
import PipeQuery.Proofs.Command.Relocated
import PipeQuery.Proofs.Command.Extended
import PipeQuery.Proofs.Piping
import PipeQuery.Proofs.Isolation
import PipeQuery.Proofs.Faithful
import PipeQuery.Proofs.WellFormed
import PipeQuery.Proofs.Text.Place
import PipeQuery.Proofs.Text.Trim
import PipeQuery.Proofs.Token.Report
import PipeQuery.Proofs.Parser.Report
import PipeQuery.Proofs.Query.Meets
import PipeQuery.Proofs.Expr.Report
import PipeQuery.Proofs.Command.Report
import PipeQuery.Proofs.Located
import PipeQuery.Proofs.Reported
import PipeQuery.Proofs.Token.Preview
import PipeQuery.Proofs.Preview
import PipeQuery.Proofs.Query.Tiers
import PipeQuery.Proofs.Expr.Tiers
import PipeQuery.Proofs.Tiers
import PipeQuery.Proofs.Query.Spans
import PipeQuery.Proofs.Parser.Lockstep
import PipeQuery.Proofs.Expr.Lockstep
import PipeQuery.Proofs.Command.Lockstep
import PipeQuery.Proofs.Command.Steady
import PipeQuery.Proofs.Parser.Loop
import PipeQuery.Proofs.Command.Loop
import PipeQuery.Proofs.Command.Limit
import PipeQuery.Proofs.Termination
import PipeQuery.Proofs.Command.Headroom
import PipeQuery.Proofs.Depth
import PipeQuery.Proofs.Command.Plain
import PipeQuery.Proofs.Layout
import PipeQuery.Proofs.Token.Stack
import PipeQuery.Proofs.Text.Literal
import PipeQuery.Proofs.Render.Codec
import PipeQuery.Proofs.CommandLine.Waiting
import PipeQuery.Proofs.CommandLine.Session
import PipeQuery.Proofs.CommandLine.Arguments
import PipeQuery.Proofs.Token.Nesting
import PipeQuery.Proofs.Token.Division
import PipeQuery.Proofs.CommandLine.Caret
import PipeQuery.Proofs.Text.Cursor
import PipeQuery.Proofs.Token.Numeral
import PipeQuery.Proofs.Token.Filter
import PipeQuery.Proofs.Command.Target
import PipeQuery.Proofs.Covered
import PipeQuery.Proofs.Query.NodeSpans
import PipeQuery.Proofs.Unbounded
import PipeQuery.Proofs.Token.Blanks
