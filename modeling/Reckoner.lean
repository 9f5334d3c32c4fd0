import Reckoner.Operator
import Reckoner.Blank
import Reckoner.Binary64.Basic
import Reckoner.Binary64.Remainder
import Reckoner.Decimal.Shortest
import Reckoner.Decimal.Layout
import Reckoner.Literal.Basic
import Reckoner.Literal.Value
import Reckoner.Token
import Reckoner.Error
import Reckoner.Lexer
import Reckoner.Expr.Basic
import Reckoner.Expr.Value
import Reckoner.Parser
import Reckoner.Evaluation
import Reckoner.CommandLine.Basic
import Reckoner.CommandLine.Arguments
import Reckoner.CommandLine.Report
import Reckoner.Main
import Reckoner.Proofs.Lexer.Scanner
import Reckoner.Proofs.Lexer.Stream
import Reckoner.Proofs.Parser.Descent
import Reckoner.Proofs.Parser.Grammar
import Reckoner.Proofs.Lexer.Reachable
import Reckoner.Proofs.Parser.Scan
import Reckoner.Proofs.Lexer.Lookahead
import Reckoner.Proofs.Parser.Transparency
import Reckoner.Proofs.Lexer.Tokenization
import Reckoner.Proofs.Expr.Rendering
import Reckoner.Proofs.Parser.Canonical
import Reckoner.Proofs.Literal.Longest
import Reckoner.Proofs.Lexer.Lexeme
import Reckoner.Proofs.Lexer.Lossless
import Reckoner.Proofs.Literal.Reading
import Reckoner.Proofs.Expr.Value
import Reckoner.Proofs.Lexer.Literals
import Reckoner.Proofs.Evaluation.Failures
import Reckoner.Proofs.Lexer.Joining
import Reckoner.Proofs.Lexer.Cutting
import Reckoner.Proofs.Parser.Complete
import Reckoner.Proofs.Parser.Verdict
import Reckoner.Proofs.Parser.Rereading
import Reckoner.Proofs.Lexer.Boundaries
import Reckoner.Proofs.Evaluation.Spacing
import Reckoner.Proofs.Parser.Finality
import Reckoner.Proofs.Lexer.Places
import Reckoner.Proofs.Parser.Footprint
import Reckoner.Proofs.Expr.Visits
import Reckoner.Proofs.Expr.Faults
import Reckoner.Proofs.Evaluation.Log
import Reckoner.Proofs.CommandLine.Logging
import Reckoner.Proofs.CommandLine.Failures
import Reckoner.Proofs.Evaluation.Composition
import Reckoner.Proofs.Binary64.Pattern
import Reckoner.Proofs.Binary64.Bits
import Reckoner.Proofs.Decimal.ReadBack
import Reckoner.Proofs.Binary64.Order
import Reckoner.Proofs.Evaluation.Feedback
import Reckoner.Proofs.CommandLine.Lines
import Reckoner.Proofs.Parser.Resumption
import Reckoner.Proofs.Parser.Progress
import Reckoner.Proofs.Parser.Cells
import Reckoner.Proofs.Evaluation.Integrity
import Reckoner.Proofs.Binary64.Nearest
import Reckoner.Proofs.Literal.Exact
import Reckoner.Proofs.Binary64.Remainder
import Reckoner.Proofs.Evaluation.Grouping
import Reckoner.Proofs.Binary64.Range
import Reckoner.Proofs.Decimal.Digits
import Reckoner.Proofs.Decimal.Search
import Reckoner.Proofs.Decimal.Shortest
import Reckoner.Proofs.Decimal.Notation
import Reckoner.Proofs.Evaluation.Results
import Reckoner.Proofs.CommandLine.Operand
