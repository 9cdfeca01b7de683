import ExprScript.Arena
import ExprScript.Attempt
import ExprScript.Command
import ExprScript.Cursor
import ExprScript.Eval
import ExprScript.Expr
import ExprScript.Expr.Printer
import ExprScript.Fault
import ExprScript.FileTree
import ExprScript.Goal
import ExprScript.Grammar
import ExprScript.Main
import ExprScript.Number.Binary64
import ExprScript.Number.Layout
import ExprScript.Number.Numeral
import ExprScript.Number.Shortest
import ExprScript.Operator
import ExprScript.Operator.Meaning
import ExprScript.Parser
import ExprScript.Position
import ExprScript.Proofs.Acceptance
import ExprScript.Proofs.Agreement
import ExprScript.Proofs.BigStep
import ExprScript.Proofs.Blocks
import ExprScript.Proofs.Budget
import ExprScript.Proofs.Bytes
import ExprScript.Proofs.Capacity
import ExprScript.Proofs.Caret
import ExprScript.Proofs.Chunks
import ExprScript.Proofs.CommandLine
import ExprScript.Proofs.Comparisons
import ExprScript.Proofs.Derivation
import ExprScript.Proofs.Display
import ExprScript.Proofs.Division
import ExprScript.Proofs.Environment
import ExprScript.Proofs.Evolution
import ExprScript.Proofs.Forest
import ExprScript.Proofs.Frame
import ExprScript.Proofs.IntegerLiterals
import ExprScript.Proofs.Layout
import ExprScript.Proofs.Legibility
import ExprScript.Proofs.Likeness
import ExprScript.Proofs.Lineage
import ExprScript.Proofs.Lines
import ExprScript.Proofs.Literals
import ExprScript.Proofs.Lookahead
import ExprScript.Proofs.Munch
import ExprScript.Proofs.Obstacle
import ExprScript.Proofs.Operation
import ExprScript.Proofs.Passage
import ExprScript.Proofs.Paths
import ExprScript.Proofs.Persistence
import ExprScript.Proofs.Polynomials
import ExprScript.Proofs.Progress
import ExprScript.Proofs.Provenance
import ExprScript.Proofs.Purity
import ExprScript.Proofs.Reading
import ExprScript.Proofs.Refinement
import ExprScript.Proofs.Requests
import ExprScript.Proofs.Resources
import ExprScript.Proofs.Respacing
import ExprScript.Proofs.Returns
import ExprScript.Proofs.RoundTrip
import ExprScript.Proofs.Rounding
import ExprScript.Proofs.ShortestDecimal
import ExprScript.Proofs.SignBit
import ExprScript.Proofs.Spelling
import ExprScript.Proofs.Surface
import ExprScript.Proofs.TagStability
import ExprScript.Proofs.Tiling
import ExprScript.Proofs.Unrolling
import ExprScript.Report
import ExprScript.Run
import ExprScript.Session
import ExprScript.Sink
import ExprScript.Text.Blank
import ExprScript.Text.Extender
import ExprScript.Text.Ignorable
import ExprScript.Text.Line
import ExprScript.Text.Quoted
import ExprScript.Text.Ranges
import ExprScript.Text.Unprintable
import ExprScript.Text.Utf8
import ExprScript.Token
import ExprScript.Token.Escape
import ExprScript.Token.Pattern
import ExprScript.Token.Reader
import ExprScript.Token.Scan
import ExprScript.Value
